/-
  PatternCatalog.Path — slash-separated paths.

  A path keeps the text it was written with; what it means is its list of components
  (`components`): empty steps and inner `.` steps vanish, a leading `.` of a relative path
  stays. Paths are compared by components (`Path.same`). `normalize` folds the components,
  dropping `.` and letting each `..` remove the step before it; a `..` with nothing to
  remove is kept, and is itself removed by the next one.
-/

import PatternCatalog.Text.Blank

namespace PatternCatalog

structure Path where
  text : String
  deriving DecidableEq, Repr, Inhabited

namespace Path

open Text

inductive Component where
  | root
  | current
  | parent
  | name (s : String)
  deriving DecidableEq, Repr

/-- The component as a step of a path text. -/
def Component.text : Component → String
  | .root => "/"
  | .current => "."
  | .parent => ".."
  | .name s => s

/-! ## Components -/

/-- A step between slashes that is not the first of a relative path. -/
def innerComponent? (step : List Char) : Option Component :=
  if step = [] ∨ step = ['.'] then none
  else if step = ['.', '.'] then some .parent
  else some (.name (String.ofList step))

def componentsOf (s : List Char) : List Component :=
  match s.splitOn '/' with
  | [] => []
  | first :: rest =>
    let head :=
      if first = ['.'] then [Component.current]
      else if first = [] then (if rest = [] then [] else [Component.root])
      else (innerComponent? first).toList
    head ++ rest.filterMap innerComponent?

def components (p : Path) : List Component := componentsOf p.text.toList

def isAbsolute (p : Path) : Bool := p.text.toList.head? == some '/'

/-- Two spellings of one path. -/
def same (p q : Path) : Bool := p.components == q.components

/-! ## Joining -/

/-- Adds a step at the end of a path text; an absolute step replaces the whole. -/
def pushText (base step : List Char) : List Char :=
  if step.head? = some '/' then step
  else if base = [] ∨ base.getLast? = some '/' then base ++ step
  else base ++ '/' :: step

def join (p : Path) (step : String) : Path :=
  ⟨String.ofList (pushText p.text.toList step.toList)⟩

/-- The path text of a list of components. -/
def ofComponents (cs : List Component) : Path :=
  ⟨String.ofList (cs.foldl (fun t c => pushText t c.text.toList) [])⟩

/-! ## Normal form -/

/-- One step of normalization: what is kept so far, newest component first. -/
def normalizeStep (kept : List Component) : Component → List Component
  | .current => kept
  | .parent =>
    match kept with
    | [] => [.parent]
    | [.root] => [.parent, .root]
    | _ :: r => r
  | c => c :: kept

def normalizeComponents (cs : List Component) : List Component :=
  (cs.foldl normalizeStep []).reverse

/-- The path with `.` and `..` steps resolved by text alone. -/
def normalize (p : Path) : Path := ofComponents (normalizeComponents p.components)

/-! ## Parts of a path -/

/-- The characters up to the last slash of the text, and those after it. -/
def splitLast (s : List Char) : List Char × List Char :=
  let last := (s.reverse.takeWhile (· != '/')).reverse
  (s.take (s.length - last.length), last)

/-- Drops slashes and `.` steps at the front of a reversed path text, down to its last character. -/
def trimBack : List Char → List Char
  | '/' :: c :: r => trimBack (c :: r)
  | '.' :: '/' :: r => trimBack ('/' :: r)
  | s => s

/-- Drops slashes and `.` steps at the end of a path text, down to a leading slash or `.`. -/
def trimTrailing (s : List Char) : List Char := (trimBack s.reverse).reverse

/-- The path without its last component; none for a root and for the empty path. -/
def parent? (p : Path) : Option Path :=
  match p.components.getLast? with
  | none | some .root => none
  | some _ =>
    let (dir, _) := splitLast (trimTrailing p.text.toList)
    some ⟨String.ofList (trimTrailing dir)⟩

/-- The last component, when it is a plain name. -/
def fileName? (p : Path) : Option String :=
  match p.components.getLast? with
  | some (.name s) => some s
  | _ => none

/-- A file name up to its last dot, unless that dot starts it. -/
def stemOf (name : List Char) : List Char :=
  let ext := (name.reverse.takeWhile (· != '.')).reverse
  let before := name.take (name.length - ext.length - 1)
  if before = [] then name else before

/-- The path text cut right after the stem of its file name. -/
def withoutExtension (p : Path) : Path :=
  match p.fileName? with
  | none => p
  | some name =>
    let s := trimTrailing p.text.toList
    ⟨String.ofList (s.take (s.length - (name.toList.length - (stemOf name.toList).length)))⟩

/-- The way from one component list to another: up out of what they do not share, then down. -/
def componentsBetween : List Component → List Component → List Component
  | b :: bs, c :: cs =>
    if b = c then componentsBetween bs cs else (b :: bs).map (fun _ => .parent) ++ c :: cs
  | base, target => base.map (fun _ => .parent) ++ target

end Path

end PatternCatalog
