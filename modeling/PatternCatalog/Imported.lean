/-
  PatternCatalog.Imported — what an import or a re-export takes from a module.
-/

namespace PatternCatalog

inductive Imported where
  | named (name : String)
  | default_
  /-- The module as a whole. -/
  | namespace_
  deriving DecidableEq, Repr

namespace Imported

/-- The export `default` has a form of its own. -/
def ofName (name : String) : Imported := if name = "default" then .default_ else .named name

/-- The name of the one export it takes. -/
def exportName? : Imported → Option String
  | .named name => some name
  | .default_ => some "default"
  | .namespace_ => none

end Imported

end PatternCatalog
