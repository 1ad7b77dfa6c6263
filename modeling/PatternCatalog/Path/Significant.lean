/-
  PatternCatalog.Path.Significant — the segments that identify a declaration file within its library.

  The extension goes, and so does a final `index`. What is left is read relative to the
  installed package (the part after `node_modules/name` or `node_modules/@scope/name`), or
  else relative to the library root; steps that climb out of the root are dropped.
-/

import PatternCatalog.Path

namespace PatternCatalog.Path

open Text

/-- The path text without the first listed extension it ends in, or else without its own extension. -/
def stripExtension (p : Path) (extensions : List String) : String :=
  match extensions.findSome? fun ext => dropEnd? p.text.toList ext.toList with
  | some s => String.ofList s
  | none => p.withoutExtension.text

/-- The components after the last `node_modules`; none where there is no such component. -/
def afterNodeModules? : List Component → Option (List Component)
  | [] => none
  | c :: r =>
    match afterNodeModules? r with
    | some rest => some rest
    | none => if c = .name "node_modules" then some r else none

/-- The components inside an installed package; a scoped package takes two of them. -/
def insidePackage? (cs : List Component) : Option (List Component) :=
  match afterNodeModules? cs with
  | some (first :: rest) => some (if first.text.toList.head? = some '@' then rest.drop 1 else rest)
  | _ => none

/-- The components of a path relative to its package, or else to the library root. -/
def libraryRelative (root p : Path) : List Component :=
  let cs := p.normalize.components
  (insidePackage? cs).getD (componentsBetween root.components cs)

def plainName? : Component → Option String
  | .name s => some s
  | _ => none

/-- The segments without a last `index`. -/
def dropIndex (segments : List String) : List String :=
  if segments.getLast? = some "index" then segments.dropLast else segments

def significant (root p : Path) (extensions : List String) : List String :=
  dropIndex ((libraryRelative root ⟨p.stripExtension extensions⟩).filterMap plainName?)

end PatternCatalog.Path
