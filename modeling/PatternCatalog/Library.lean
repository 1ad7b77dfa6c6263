/-
  PatternCatalog.Library — the declaration files of one library, taken together.

  Files are numbered by their place in the library; the typings entry comes first. A module
  specifier leads to the first of its candidate paths at which there is a file
  (`module?`); the library's own package name stands for its root.
-/

import PatternCatalog.Declaration
import PatternCatalog.Path.Specifier

namespace PatternCatalog

structure SourceFile where
  path : Path
  module : Module
  deriving BEq, Repr

structure Library where
  /-- A normalized path. -/
  root : Path
  packageName : Option String
  extensions : List String
  files : List SourceFile
  deriving BEq, Repr

/-- A declaration by its file and its place among the declarations of the file. -/
structure DeclarationKey where
  file : Nat
  index : Nat
  deriving DecidableEq, Repr

/-- A member by its file and the offset at which it starts. -/
structure MemberKey where
  file : Nat
  start : Nat
  deriving DecidableEq, Repr

namespace Library

def ofFiles (root : Path) (packageName : Option String) (extensions : List String) (files : List SourceFile) :
    Library :=
  ⟨root.normalize, packageName, extensions, files⟩

/-- The number of the typings entry. -/
def entry : Nat := 0

/-- The module of a file; the empty one where there is no such file. -/
def moduleAt (l : Library) (file : Nat) : Module :=
  match l.files[file]? with
  | some f => f.module
  | none => {}

def declaration? (l : Library) (key : DeclarationKey) : Option Declaration :=
  (l.moduleAt key.file).declarations[key.index]?

/-- What a declaration declares. -/
def kind? (l : Library) (key : DeclarationKey) : Option DeclarationKind :=
  (l.declaration? key).map Declaration.kind

/-! ## Modules -/

/-- The last file whose path normalizes to the same components. -/
def file? (l : Library) (p : Path) : Option Nat :=
  let key := p.normalize.components
  ((l.files.zipIdx).reverse.find? fun f => f.1.path.normalize.components == key).map (·.2)

/-- The rest of a text after a leading part. -/
def after? : List Char → List Char → Option (List Char)
  | [], s => some s
  | p :: ps, c :: cs => if p = c then after? ps cs else none
  | _ :: _, [] => none

/-- What a specifier names inside the package, when it names the library itself. -/
def ownPath? (l : Library) (specifier : String) : Option String := do
  let package ← l.packageName
  match ← after? package.toList specifier.toList with
  | [] => return ""
  | '/' :: rest => return String.ofList rest
  | _ => none

/-- The first file at the candidate paths of a specifier. -/
def candidateFile? (l : Library) (dir : Path) (specifier : String) : Option Nat :=
  (Specifier.candidates dir specifier l.extensions).findSome? l.file?

/-- The file that a specifier means where it stands in a file. -/
def module? (l : Library) (file : Nat) (specifier : String) : Option Nat :=
  match l.ownPath? specifier with
  | some rest => if rest = "" then some entry else l.candidateFile? l.root ("./" ++ rest)
  | none => do
    if !Specifier.isRelative specifier then none
    let f ← l.files[file]?
    l.candidateFile? (← f.path.parent?) specifier

end Library

end PatternCatalog
