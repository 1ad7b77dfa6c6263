/-
  PatternCatalog.Proofs.Run.Registered — no component is lost and none is listed twice.

  A run that has discovered the files of a library registers the exports of components: file
  after file, and in each the exports of its own declarations in order, those left out whose
  documentation ignores them. A declaration is registered once, under its first export and with
  the paths of the file that declares it (`components_registered`). The run ends without
  components just when there is no such export.
  - `tagged_registered`: a component exported under two names, an ignored one and one of another file.
-/

import PatternCatalog.Proofs.Run

namespace PatternCatalog

theorem BundleFault.code_ne (fault : BundleFault) : (Failure.ofBundler fault).code ≠ "PA-ERR-NO-COMPONENTS" := by
  cases fault <;> simp [Failure.ofBundler, Failure.code]

/-! ## Exports of components -/

/-- An export of a file that names a declaration of its own. -/
structure ComponentExport where
  file : SourceFile
  name : String
  key : DeclarationKey

namespace Library

/-- Whether a declaration is a component that its documentation does not ignore. -/
def isListedComponent (l : Library) (o : Options) (key : DeclarationKey) : Bool :=
  (Component.shape? l o key).isSome && !(Doc.parse? ((l.declaration? key).bind (·.doc))).hasTag "ignore"

/-- The exports of components, file by file in export order. -/
def componentExports (l : Library) (o : Options) : List ComponentExport :=
  l.files.zipIdx.flatMap fun (file, i) =>
    ((l.localExports i).filter fun e => l.isListedComponent o e.2).map fun (name, key) => ⟨file, name, key⟩

end Library

/-- What an analysis says of where a pattern comes from. -/
structure Provenance where
  contextId : String
  path : Path
  declarationPath : Path
  deriving DecidableEq, Repr

def PatternEntry.provenance (e : PatternEntry) : Provenance := ⟨e.pattern.contextId, e.path, e.declarationPath⟩

namespace Component

variable {l : Library} {o : Options}

theorem ofDeclaration?_listed (name : String) (key : DeclarationKey) :
    ((ofDeclaration? l o name key).filter fun c => !c.ignored).map (fun c => (c.exportName, c.shape.key)) =
      if l.isListedComponent o key then some (name, key) else none := by
  unfold Library.isListedComponent ofDeclaration?
  cases hshape : shape? l o key with
  | none => rfl
  | some shape =>
    have hkey : shape.key = key := by
      obtain ⟨d, -, h⟩ := Option.bind_eq_some_iff.mp hshape
      obtain ⟨props, -, h⟩ := Option.bind_eq_some_iff.mp h
      cases h
      rfl
    cases hignored : (Doc.parse? ((l.declaration? key).bind (·.doc))).hasTag "ignore" with
    | true => simp [hignored]
    | false => simp [Option.filter, hignored, hkey]

/-- The components that a file exports and that are not ignored, by name and declaration. -/
theorem exported_listed (file : Nat) :
    ((exported l o file).filter fun c => !c.ignored).map (fun c => (c.exportName, c.shape.key)) =
      (l.localExports file).filter fun e => l.isListedComponent o e.2 := by
  unfold exported
  rw [List.filter_filterMap, List.map_filterMap, ← List.filterMap_eq_filter]
  refine congrArg (List.filterMap · _) (funext fun ⟨name, key⟩ => ?_)
  rw [ofDeclaration?_listed]
  rfl

end Component

namespace Run

/-- The package file and the discovered files of a run, once it comes to register components. -/
def filesAt (r : Run) (root : Path) : Except Failure (Json × List SourceFile) := do
  let root := root.normalize
  let package ← r.readPackage root
  let entry ← r.typingsEntry root package
  let files ← r.discover entry
  return (package, files)

/-- The first export of each component of the discovered files. -/
def firstExports (r : Run) (root : Path) (package : Json) (found : List SourceFile) : List ComponentExport :=
  firsts (·.key) ((r.setting root.normalize package found).library.componentExports r.options)

/-- Where the pattern of an export comes from: the export and its own file. -/
def provenanceOf (r : Run) (root : Path) (package : Json) (x : ComponentExport) : Provenance :=
  let candidate := Candidate.ofFile r.fs r.options root.normalize (packageTitle root.normalize package) x.file
  ⟨candidate.id ++ ":" ++ x.name, candidate.artifactPath, x.file.path⟩

variable {r : Run} {root : Path} {package : Json} {found : List SourceFile}

theorem filesAt_ok (h : r.filesAt root = .ok (package, found)) : r.readPackage root.normalize = .ok package ∧
    ∃ entry, r.typingsEntry root.normalize package = .ok entry ∧ r.discover entry = .ok found := by
  obtain ⟨package', hpackage, h⟩ := Except.bind_ok h
  obtain ⟨entry, hentry, h⟩ := Except.bind_ok h
  obtain ⟨files, hfiles, h⟩ := Except.bind_ok h
  cases h
  exact ⟨hpackage, entry, hentry, hfiles⟩

theorem settingAt_of_filesAt (h : r.filesAt root = .ok (package, found)) :
    r.settingAt root = .ok (r.setting root.normalize package found) := by
  obtain ⟨hpackage, entry, hentry, hfound⟩ := filesAt_ok h
  exact settingAt_of_steps hpackage hentry hfound

/-- From there on a run can only lack components, or be failed by its bundler. -/
theorem analyze_error (h : r.filesAt root = .ok (package, found)) {e : Failure} (he : r.analyze root = .error e) :
    (Registry.ofSetting (r.setting root.normalize package found) = [] ∧ e = .noComponents root.normalize) ∨
      (Registry.ofSetting (r.setting root.normalize package found) ≠ [] ∧ ∃ fault, e = .ofBundler fault) := by
  obtain ⟨hpackage, entry, hentry, hfound⟩ := filesAt_ok h
  simp only [analyze, discovered, complete, hpackage, hentry, hfound, bind, Except.bind, pure, Except.pure, throw, throwThe,
    MonadExceptOf.throw] at he
  split at he
  · next hempty =>
    cases he
    exact .inl ⟨List.isEmpty_iff.mp hempty, rfl⟩
  · next hne =>
    refine .inr ⟨by simpa using hne, ?_⟩
    split at he
    · next failure hfailure =>
      cases he
      obtain ⟨fault, -, hfault⟩ := Except.mapError_error hfailure
      exact ⟨fault, hfault⟩
    · cases he

theorem analyze_nil (h : r.filesAt root = .ok (package, found))
    (hnil : Registry.ofSetting (r.setting root.normalize package found) = []) :
    r.analyze root = .error (.noComponents root.normalize) := by
  obtain ⟨hpackage, entry, hentry, hfound⟩ := filesAt_ok h
  simp only [analyze, discovered, complete, hpackage, hentry, hfound, hnil, bind, Except.bind, pure, Except.pure]
  rfl

/-- The listed components are the exports of components. -/
theorem listed_exports (r : Run) (root : Path) (package : Json) (found : List SourceFile) :
    ((r.setting root package found).listed.filter fun x => !x.2.ignored).map (fun x => (x.1, x.2.exportName, x.key)) =
      ((r.setting root package found).library.componentExports r.options).map fun x =>
        (Candidate.ofFile r.fs r.options root (packageTitle root package) x.file, x.name, x.key) := by
  have hfiles : (r.setting root package found).library.files = found := rfl
  have hcandidates : (r.setting root package found).candidates =
      found.map (.ofFile r.fs r.options root (packageTitle root package)) := rfl
  unfold Setting.listed Library.componentExports
  rw [hfiles, hcandidates, List.zipIdx_map, List.flatMap_map, List.filter_flatMap, List.map_flatMap, List.map_flatMap]
  refine congrArg (List.flatMap · _) (funext fun ⟨f, i⟩ => ?_)
  have hexported := Component.exported_listed (l := (r.setting root package found).library) (o := r.options) i
  dsimp only
  rw [← hexported, List.filter_map, List.map_map, List.map_map, List.map_map]
  rfl

/-- The registered components are the first exports of components. -/
theorem registered_exports (r : Run) (root : Path) (package : Json) (found : List SourceFile) :
    (r.setting root.normalize package found).registered.map (fun x => (x.1, x.2.exportName, x.key)) =
      (r.firstExports root package found).map fun x =>
        (Candidate.ofFile r.fs r.options root.normalize (packageTitle root.normalize package) x.file, x.name, x.key) := by
  have hlisted := congrArg (firsts fun x : Candidate × String × DeclarationKey => x.2.2)
    (listed_exports r root.normalize package found)
  rw [firsts_map, firsts_map] at hlisted
  exact hlisted

/-- What a run that has discovered the files of a library makes of their exports. -/
structure RegistersComponents (r : Run) (root : Path) (package : Json) (found : List SourceFile) : Prop where
  registered : (Registry.ofSetting (r.setting root.normalize package found)).map (fun g => (g.key, g.entry.provenance)) =
    (r.firstExports root package found).map fun x => (x.key, r.provenanceOf root package x)
  analyzed : ∀ a, r.analyze root = .ok a → a.patterns.map PatternEntry.provenance =
    (r.firstExports root package found).map (r.provenanceOf root package)
  noComponents : (∃ e, r.analyze root = .error e ∧ e.code = "PA-ERR-NO-COMPONENTS") ↔ r.firstExports root package found = []

theorem registrations_provenance (s : Setting) (before : List Listing) {xs : List Listing} (hxs : ∀ x ∈ xs, x ∈ s.registered) :
    (s.registrations before xs).map (fun g => (g.key, g.entry.provenance)) =
      xs.map fun x => (x.key, ⟨x.1.id ++ ":" ++ x.2.exportName, x.1.artifactPath, x.1.declarationPath⟩) := by
  induction xs generalizing before with
  | nil => rfl
  | cons x xs ih =>
    have hfile := (s.mem_registered (hxs x List.mem_cons_self)).1
    have hcontext : (s.registration before x).build.pattern.contextId = x.1.id ++ ":" ++ x.2.exportName := by
      have hfile : s.candidates[x.2.shape.key.file]? = some x.1 := hfile
      rw [Setting.registration, Setting.build_contextId, Setting.componentContextId, Setting.contextId, hfile]
      rfl
    rw [Setting.registrations, List.map_cons, List.map_cons, ih _ fun y hy => hxs y (List.mem_cons_of_mem _ hy), ← hcontext]
    rfl

/-- Every run that comes to register components registers the first exports of components, in order. -/
theorem components_registered (h : r.filesAt root = .ok (package, found)) : r.RegistersComponents root package found := by
  have hregistered : (Registry.ofSetting (r.setting root.normalize package found)).map (fun g => (g.key, g.entry.provenance)) =
      (r.firstExports root package found).map fun x => (x.key, r.provenanceOf root package x) := by
    rw [Registry.ofSetting_eq, registrations_provenance _ [] fun x hx => hx]
    have hprovenance := congrArg (List.map fun x : Candidate × String × DeclarationKey =>
      (x.2.2, (⟨x.1.id ++ ":" ++ x.2.1, x.1.artifactPath, x.1.declarationPath⟩ : Provenance)))
      (registered_exports r root package found)
    rw [List.map_map, List.map_map] at hprovenance
    exact hprovenance
  refine ⟨hregistered, fun a ha => ?_, ?_⟩
  · obtain ⟨s, hs⟩ := analyze_ok ha
    obtain rfl : r.setting root.normalize package found = s := Except.ok.inj ((settingAt_of_filesAt h).symm.trans hs.setting)
    have hprovenances := congrArg (List.map Prod.snd) hregistered
    rw [List.map_map, List.map_map] at hprovenances
    rw [hs.patterns, List.map_map]
    exact hprovenances
  · have hnil : r.firstExports root package found = [] ↔ Registry.ofSetting (r.setting root.normalize package found) = [] := by
      rw [← List.map_eq_nil_iff, ← hregistered, List.map_eq_nil_iff]
    rw [hnil]
    constructor
    · rintro ⟨e, he, hcode⟩
      rcases analyze_error h he with ⟨hempty, -⟩ | ⟨-, fault, rfl⟩
      · exact hempty
      · exact absurd hcode fault.code_ne
    · exact fun hempty => ⟨_, analyze_nil h hempty, rfl⟩

/-! ## An alias and an ignored component -/

def taggedFiles : List (Path × String) :=
  [(⟨"/lib/package.json"⟩, "\x7b\x7d"),
   (⟨"/lib/index.d.ts"⟩, "export declare const A: React.FC;\nexport \x7b A as B \x7d;\n" ++
      "/** @ignore */\nexport declare const C: React.FC;\nexport * from './d';\n"),
   (⟨"/lib/d.d.ts"⟩, "export declare const D: React.FC;\n")]

def tagged : Run where
  digest := .sha256
  fs := .memory taggedFiles

set_option maxRecDepth 100000 in
theorem tagged_registered : ∃ package found, tagged.filesAt ⟨"/lib"⟩ = .ok (package, found) ∧
    (tagged.firstExports ⟨"/lib"⟩ package found).map (tagged.provenanceOf ⟨"/lib"⟩ package) =
      [⟨":A", ⟨"/lib/index.js"⟩, ⟨"/lib/index.d.ts"⟩⟩, ⟨"d:D", ⟨"/lib/d.js"⟩, ⟨"/lib/d.d.ts"⟩⟩] ∧
    tagged.RegistersComponents ⟨"/lib"⟩ package found := by
  have hstore : FileSystem.storeOf taggedFiles =
      [([.root, .name "lib", .name "package.json"], "\x7b\x7d"),
       ([.root, .name "lib", .name "index.d.ts"], "export declare const A: React.FC;\nexport \x7b A as B \x7d;\n" ++
          "/** @ignore */\nexport declare const C: React.FC;\nexport * from './d';\n"),
       ([.root, .name "lib", .name "d.d.ts"], "export declare const D: React.FC;\n")] := by decide +kernel
  have hrun : ∃ x : Json × List SourceFile, tagged.filesAt ⟨"/lib"⟩ = .ok x ∧
      (tagged.firstExports ⟨"/lib"⟩ x.1 x.2).map (tagged.provenanceOf ⟨"/lib"⟩ x.1) =
        [⟨":A", ⟨"/lib/index.js"⟩, ⟨"/lib/index.d.ts"⟩⟩, ⟨"d:D", ⟨"/lib/d.js"⟩, ⟨"/lib/d.d.ts"⟩⟩] := by
    rw [tagged, FileSystem.memory_eq hstore]
    refine Except.exists_ok ?_
    decide +kernel
  obtain ⟨⟨package, found⟩, hfiles, hprovenances⟩ := hrun
  exact ⟨package, found, hfiles, hprovenances, components_registered hfiles⟩

end Run

end PatternCatalog
