/-
  PatternCatalog.Run — the analysis of a library.

  A run reads the package file, finds the typings entry, discovers the declaration files,
  registers the components, fills the slots with their default content and bundles the
  implementations. It gives a complete analysis or the first failure (`Run.analyze`), unless a
  walk through aliases goes on without end (`Run.run?`).
-/

import PatternCatalog.Bundle
import PatternCatalog.Discovery
import PatternCatalog.Failure
import PatternCatalog.Json.Parser
import PatternCatalog.Registry
import PatternCatalog.Slot.Content

namespace PatternCatalog

structure Run where
  digest : Digest
  options : Options := {}
  ids : Identity.Strategy := .fresh digest
  fs : FileSystem
  bundler : Bundler := Bundle.moduleMap

namespace Run

/-! ## The package -/

def readPackage (r : Run) (root : Path) : Except Failure Json := do
  let path := root.join "package.json"
  if !r.fs.exists? path then throw (.packageMissing path)
  match r.fs.read path with
  | .error reason => throw (.unreadable path reason)
  | .ok text =>
    match Json.parse? text with
    | some v => return v.canonical
    | none => throw (.packageInvalid path)

/-- The first file for the implementation that the package names, with a declaration extension. -/
def entryBesideMain? (r : Run) (root : Path) (package : Json) : Option Path := do
  let stem := String.ofList (Specifier.withoutScriptExtension (← package.stringField? "main").toList)
  (r.options.declarationExtensions.map fun ext => (root.join (stem ++ ext)).normalize).find? r.fs.exists?

/-- The typings entry: as the package declares it, beside the implementation, or at the root. -/
def typingsEntry (r : Run) (root : Path) (package : Json) : Except Failure Path :=
  let existing (path : Path) : Except Failure Path :=
    if r.fs.exists? path then .ok path else .error (.entryMissing path)
  match [r.options.typingsEntryKey, "types", "typings"].findSome? package.stringField? with
  | some declared => existing (root.join declared).normalize
  | none =>
    match r.entryBesideMain? root package with
    | some path => .ok path
    | none => existing (root.join "./index.d.ts").normalize

/-- The name of the package, or else of its directory. -/
def packageTitle (root : Path) (package : Json) : String :=
  (package.stringField? "name").getD (root.fileName?.getD "")

def libraryId (r : Run) (title : String) : String :=
  r.options.libraryId.getD (Identity.assign r.digest ["library:" ++ title])

/-! ## The patterns -/

def discover (r : Run) (entry : Path) : Except Failure (List SourceFile) :=
  (Discovery.files r.fs r.options.declarationExtensions entry).mapError (.unreadable entry.normalize)

/-- What the patterns of discovered files are built from. -/
def setting (r : Run) (root : Path) (package : Json) (files : List SourceFile) : Setting where
  library := .ofFiles root (package.stringField? "name") r.options.declarationExtensions files
  options := r.options
  ids := r.ids
  fs := r.fs
  candidates := files.map (.ofFile r.fs r.options root (packageTitle root package))

/-- The entry of a registered pattern with the default content of its slots. -/
def entryWithContent (r : Run) (s : Setting) (rs : Registry) (libraryId : String) (e : Registration) : PatternEntry :=
  let fill (slot : Slot) (source : SlotSource) : Slot :=
    { slot with defaultValue :=
        Slot.content? r.digest s.library (rs.pattern? s) libraryId r.options.maxDefaultDepth slot.id source }
  let pattern := e.build.pattern
  { e.entry with pattern := { pattern with slots := List.zipWith fill pattern.slots e.build.slotSources } }

/-! ## The analysis -/

/-- The analysis of a library with its files discovered. -/
def complete (r : Run) (root : Path) (package : Json) (s : Setting) : Except Failure Analysis := do
  let libraryId := r.libraryId (packageTitle root package)
  let rs := Registry.ofSetting s
  if rs.isEmpty then throw (.noComponents root)
  let patterns := rs.map (r.entryWithContent s rs libraryId)
  let bundle ← (r.bundler r.fs (patterns.map fun e => ⟨e.pattern.id, e.path⟩)).mapError .ofBundler
  return ⟨libraryId, root, package, patterns, bundle⟩

/-- What the analysis is made from: the package and the setting with the discovered files. -/
def discovered (r : Run) (root : Path) : Except Failure (Json × Setting) := do
  let package ← r.readPackage root
  let entry ← r.typingsEntry root package
  let files ← r.discover entry
  return (package, r.setting root package files)

def analyze (r : Run) (root : Path) : Except Failure Analysis := do
  let root := root.normalize
  let (package, s) ← r.discovered root
  r.complete root package s

/-! ## Runs that end -/

/-- Whether all walks through aliases end that the patterns and the content of their slots take. -/
def ends (r : Run) (libraryId : String) (s : Setting) : Bool :=
  (Registry.ofSetting? s).any fun rs =>
    rs.all fun e => e.build.slotSources.all
      (Slot.contentEnds r.digest s.library (rs.pattern? s) (rs.patternEnds s) libraryId r.options.maxDefaultDepth)

/-- The outcome with the files discovered; none when the run does not end. -/
def outcome? (r : Run) (root : Path) (package : Json) (s : Setting) : Option (Except Failure Analysis) :=
  if r.ends (r.libraryId (packageTitle root package)) s then some (r.complete root package s) else none

/-- The outcome of a run; none when the run does not end. -/
def run? (r : Run) (root : Path) : Option (Except Failure Analysis) :=
  let root := root.normalize
  match r.discovered root with
  | .error e => some (.error e)
  | .ok (package, s) => r.outcome? root package s

end Run

end PatternCatalog
