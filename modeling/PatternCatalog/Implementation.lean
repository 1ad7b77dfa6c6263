/-
  PatternCatalog.Implementation — what a compiled implementation does with nested content.

  An implementation takes nested content when it mentions `children` in the statement that
  binds the exported name (`Implementation.binding?`), or anywhere if there is no such
  statement. A file that cannot be read or is outside the grammar takes none.
-/

import PatternCatalog.FileSystem
import PatternCatalog.Script.Grammar

namespace PatternCatalog.Implementation

open Script (DeclarationSyntax Item Statement)

/-- The name under which components get their nested content. -/
def children : String := "children"

/-! ## The statement behind an export -/

/-- A default export that is more than a name. -/
def definesDefault : Statement → Bool
  | .exportDefault (.name _) => false
  | .exportDefault _ => true
  | _ => false

/-- The name bound in the file that an exported name stands for, after one more statement. -/
def renamed (exported current : String) : Statement → String
  | .exportDefault (.name name) => if exported = "default" then name else current
  | .exportList specifiers none =>
    match specifiers.find? (·.exported == exported) with
    | some s => s.name
    | none => current
  | _ => current

/-- The name bound in the file that an exported name stands for. -/
def localName (items : List Item) (exported : String) : String :=
  items.foldl (fun current i => renamed exported current i.statement) exported

def declares (name : String) : DeclarationSyntax → Bool
  | .variables items => items.any (·.name == some name)
  | .function own _ _ => own == some name
  | .class own _ _ => own == some name
  | _ => false

def binds (name : String) : Statement → Bool
  | .declaration d => declares name d
  | .exportDeclaration d => declares name d
  | _ => false

/-- The statement that defines what is exported under a name. -/
def binding? (items : List Item) (exported : String) : Option Item :=
  let definition := if exported = "default" then items.find? (definesDefault ·.statement) else none
  definition <|> items.find? (binds (localName items exported) ·.statement)

/-! ## Mentions -/

def mentionsChildren (i : Item) : Bool := i.mentions.contains children

/-- Whether the items take nested content in what they export under a name. -/
def takesChildren (items : List Item) (exported : String) : Bool :=
  match binding? items exported with
  | some i => mentionsChildren i
  | none => items.any mentionsChildren

/-! ## Files -/

/-- Extensions of scripts with types. -/
def typedExtensions : List String := [".ts", ".tsx", ".mts", ".cts"]

/-- The language of an implementation; markup may stand in all of them. -/
def dialect (artifact : Path) : Script.Dialect where
  types :=
    match artifact.fileName? with
    | some name =>
      let cs := name.toList
      typedExtensions.contains (String.ofList (cs.drop (Path.stemOf cs).length))
    | none => false
  markup := true

/-- Whether an implementation takes nested content in what it exports under a name. -/
def usesChildren (fs : FileSystem) (artifact : Path) (exported : String) : Bool :=
  match fs.read artifact with
  | .ok text =>
    match Script.parse? (dialect artifact) text with
    | some s => takesChildren s.items exported
    | none => false
  | .error _ => false

end PatternCatalog.Implementation
