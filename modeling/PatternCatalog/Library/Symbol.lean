/-
  PatternCatalog.Library.Symbol — what names mean in a library.

  A name leads to a declaration, to a file as a name space, or out of the library. A search
  among exports goes through the entries of the name in order and then through the star
  exports; it keeps the nodes it has visited and never enters one twice, which ends it on
  every import graph (`exported?`).
-/

import PatternCatalog.Library

namespace PatternCatalog

inductive Symbol where
  | declaration (key : DeclarationKey)
  /-- The exports of a file. -/
  | namespace_ (file : Nat)
  /-- A name outside the library; an empty path is the module itself. -/
  | external (module : String) (path : List String)
  deriving DecidableEq, Repr

/-- The last segment of a name outside the library. -/
def Symbol.externalName? : Symbol → Option String
  | .external _ path => path.getLast?
  | _ => none

/-- Which declarations of a name count. -/
inductive Space where
  | type
  | value
  | any
  deriving DecidableEq, Repr

def Space.admits : Space → DeclarationKind → Bool
  | .type, k => k.isType
  | .value, k => k.isValue
  | .any, _ => true

namespace Library

/-! ## Searches -/

/-- A name exported by a file. -/
structure Node where
  file : Nat
  name : String
  deriving DecidableEq, Repr

/-- What a search gives: the symbol, if it found one, and the nodes visited by then. -/
abbrev Visit := Option Symbol × List Node

/-- A search that starts with some nodes visited already. -/
abbrev Search := List Node → Visit

def Search.nothing : Search := fun visited => (none, visited)

/-- The answer of the first search that finds a symbol. -/
def Search.first : List Search → Search
  | [] => nothing
  | s :: ss => fun visited =>
    match s visited with
    | (some symbol, visited) => (some symbol, visited)
    | (none, visited) => first ss visited

/-- What an import of a file takes; `search` continues at the export of a file. -/
def importSearch (l : Library) (search : Node → Search) (file : Nat) (source : String) (imported : Imported) :
    Search :=
  match l.module? file source with
  | none => fun visited => (some (.external source imported.exportName?.toList), visited)
  | some target =>
    match imported.exportName? with
    | some name => search ⟨target, name⟩
    | none => fun visited => (some (.namespace_ target), visited)

/-- The first declaration of a name in a file. -/
def declared? (l : Library) (file : Nat) (name : String) (space : Space) : Option DeclarationKey :=
  ((l.moduleAt file).declarations.findIdx? fun d => d.name == name && space.admits d.kind).map fun index =>
    ⟨file, index⟩

/-- What a name means within a file. -/
def localSearch (l : Library) (search : Node → Search) (file : Nat) (name : String) (space : Space) : Search :=
  match l.declared? file name space with
  | some key => fun visited => (some (.declaration key), visited)
  | none =>
    match (l.moduleAt file).imports.find? (·.name == name) with
    | some i => l.importSearch search file i.source i.imported
    | none => .nothing

def targetSearch (l : Library) (search : Node → Search) (file : Nat) : ExportTarget → Search
  | .here name => l.localSearch search file name .any
  | .elsewhere source imported => l.importSearch search file source imported

/-- A search through the whole export of another file. -/
def starSearch (l : Library) (search : Node → Search) (node : Node) (source : String) : Search :=
  match l.module? node.file source with
  | some target => search ⟨target, node.name⟩
  | none => .nothing

/-- The searches that an export leads to: its entries, and unless it is `default` the star exports. -/
def branches (l : Library) (search : Node → Search) (node : Node) : List Search :=
  let m := l.moduleAt node.file
  let entries := (m.exports.filter (·.exported == node.name)).map fun e => l.targetSearch search node.file e.target
  let stars := if node.name = "default" then [] else m.starExports.map (l.starSearch search node)
  entries ++ stars

/-- The search of an export, so many nodes deep. -/
def exportSearch (l : Library) : Nat → Node → Search
  | 0, _ => .nothing
  | depth + 1, node => fun visited =>
    if visited.contains node then (none, visited)
    else Search.first (l.branches (l.exportSearch depth) node) (node :: visited)

/-- A bound for the nodes of one search: every name that a search can come to, in every file. -/
def nodeBound (l : Library) : Nat :=
  let names := total (l.files.map fun f => f.module.exports.length + f.module.imports.length) + 1
  (l.files.length + 1) * names

def search (l : Library) : Node → Search := l.exportSearch (l.nodeBound + 1)

/-! ## Names -/

/-- What a file exports under a name. -/
def exported? (l : Library) (file : Nat) (name : String) : Option Symbol := (l.search ⟨file, name⟩ []).1

/-- What a name means within a file. -/
def local? (l : Library) (file : Nat) (name : String) (space : Space) : Option Symbol :=
  (l.localSearch l.search file name space []).1

/-- What a segment means after a symbol. -/
def segment? (l : Library) (symbol : Symbol) (name : String) : Option Symbol :=
  match symbol with
  | .namespace_ file => l.exported? file name
  | .external module path => some (.external module (path ++ [name]))
  | .declaration _ => none

/-- What a dotted name means within a file; only a lone segment is looked up in the name space. -/
def qualified? (l : Library) (file : Nat) (segments : List String) (space : Space) : Option Symbol :=
  match segments with
  | [] => none
  | first :: rest => do
    let symbol ← l.local? file first (if rest.isEmpty then space else .any)
    rest.foldlM l.segment? symbol

/-- What a dotted name means in another module. -/
def imported? (l : Library) (file : Nat) (specifier : String) (segments : List String) : Option Symbol :=
  match segments with
  | [] => none
  | first :: rest => do
    let symbol ←
      match l.module? file specifier with
      | some target => l.exported? target first
      | none => some (.external specifier [first])
    rest.foldlM l.segment? symbol

/-! ## Types -/

/-- What a type reference means. -/
def reference? (l : Library) (file : Nat) : TypeExpr → Option Symbol
  | .reference (some specifier) name _ => l.imported? file specifier name
  | .reference none name _ => l.qualified? file name .type
  | _ => none

/-! ## Exports of a file -/

/-- The declaration that a name of a file stands for; a value comes before a type. -/
def exportedDeclaration? (l : Library) (file : Nat) (name : String) : Option DeclarationKey :=
  l.declared? file name .value <|> l.declared? file name .any

/-- The exports of a file that name its own declarations. -/
def localExports (l : Library) (file : Nat) : List (String × DeclarationKey) :=
  (l.moduleAt file).exports.filterMap fun e =>
    match e.target with
    | .here name => (l.exportedDeclaration? file name).map fun key => (e.exported, key)
    | .elsewhere .. => none

/-- The name under which the file of a declaration exports it, or its own name. -/
def exportName (l : Library) (key : DeclarationKey) : String :=
  match (l.localExports key.file).find? (·.2 == key) with
  | some (name, _) => name
  | none => ((l.declaration? key).map (·.name)).getD ""

end Library

end PatternCatalog
