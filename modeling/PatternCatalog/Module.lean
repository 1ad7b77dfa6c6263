/-
  PatternCatalog.Module — the module that a declaration file describes.

  A module gathers the items of a script one after another (`Module.ofItems`). Documentation is
  looked up where the statement starts, `export` included. A text outside the grammar describes
  the empty module.
-/

import PatternCatalog.Declaration
import PatternCatalog.Script.Grammar

namespace PatternCatalog

open Script (DeclarationSyntax DefaultExport DocTable Item Signature Statement)

namespace Module

/-! ## Declarations -/

/-- The parameters of a function declaration, with one for the rest parameter. -/
def declaredParams (s : Signature) : List Param :=
  if s.rest then s.params ++ [⟨"rest", none, true⟩] else s.params

/-- What a declaration adds to a module, given its documentation and the name it goes by when it
has none of its own. -/
def declarationsOf (doc : Option String) (unnamed : Option String) : DeclarationSyntax → List Declaration
  | .variables items => items.filterMap fun v => v.name.map fun name => ⟨name, v.start, doc, .variable v.type⟩
  | .function name start s =>
    ((name <|> unnamed).map fun name => ⟨name, start, doc, .function (declaredParams s) s.returns⟩).toList
  | .class name start parent => ((name <|> unnamed).map fun name => ⟨name, start, doc, .class parent⟩).toList
  | .interface name start parents members => [⟨name, start, doc, .interface parents members⟩]
  | .alias name start type => [⟨name, start, doc, .alias type⟩]
  | .enum name start members => [⟨name, start, doc, .enum members⟩]
  | .other => []

/-! ## Statements -/

def addDependency (m : Module) (source : String) : Module :=
  if m.dependencies.contains source then m else { m with dependencies := m.dependencies ++ [source] }

def addExports (m : Module) (es : List ExportEntry) : Module := { m with exports := m.exports ++ es }

def addDeclarations (m : Module) (ds : List Declaration) : Module :=
  { m with declarations := m.declarations ++ ds }

/-- An entry that exports a name of the file. -/
def exportHere (exported name : String) : ExportEntry := ⟨exported, .here name⟩

def addDefault (m : Module) (doc : Option String) : DefaultExport → Module
  | .declaration d =>
    let ds := declarationsOf doc (some "default") d
    (m.addDeclarations ds).addExports (ds.map fun d => exportHere "default" d.name)
  | .name name => m.addExports [exportHere "default" name]
  | .expression => m

/-- The module after one more statement, given the documentation at its start. -/
def addStatement (m : Module) (doc : Option String) : Statement → Module
  | .import source bindings =>
    let m := m.addDependency source
    { m with imports := m.imports ++ bindings.map fun (name, imported) => ⟨name, source, imported⟩ }
  | .exportList specifiers (some source) =>
    (m.addDependency source).addExports
      (specifiers.map fun s => ⟨s.exported, .elsewhere source (.ofName s.name)⟩)
  | .exportList specifiers none => m.addExports (specifiers.map fun s => exportHere s.exported s.name)
  | .exportAll source (some name) => (m.addDependency source).addExports [⟨name, .elsewhere source .namespace_⟩]
  | .exportAll source none =>
    let m := m.addDependency source
    { m with starExports := m.starExports ++ [source] }
  | .exportDeclaration d =>
    let ds := declarationsOf doc none d
    (m.addDeclarations ds).addExports (ds.map fun d => exportHere d.name d.name)
  | .exportDefault d => m.addDefault doc d
  | .exportAssignment name => m.addExports (name.map (exportHere "default")).toList
  | .declaration d => m.addDeclarations (declarationsOf doc none d)
  | .other => m

def addItem (docs : DocTable) (m : Module) (i : Item) : Module :=
  m.addStatement (docs.docAt? i.start) i.statement

def ofItems (docs : DocTable) (items : List Item) : Module :=
  items.foldl (addItem docs) { fileDoc := docs.fileDoc }

/-! ## Texts -/

/-- Declaration files have types and no markup. -/
def dialect : Script.Dialect := ⟨true, false⟩

/-- The module that a declaration file describes. -/
def parse (text : String) : Module :=
  match Script.parse? dialect text with
  | some s => ofItems s.docs s.items
  | none => {}

end Module

end PatternCatalog
