/-
  PatternCatalog.Proofs.Library.SameNames — two libraries in which names mean the same.

  A search sees of a module what it imports and exports, and which of its declarations has a
  name, in which space (`Module.outline`). Where files have the same paths and outlines, a
  search goes through the same nodes and finds the same symbol (`SameNames.exportSearch_eq`),
  so a type refers to the same thing (`SameNames.reference?_eq`). Where the aliases stand for
  the same types as well (`SameTypes`), following aliases ends at the same place
  (`SameTypes.resolveAlias_eq`). So it is when one declaration is exchanged for another of its
  outline, and neither is an alias (`sameTypes_exchange`).
-/

import PatternCatalog.Library.Alias

namespace PatternCatalog

/-! ## Outlines -/

/-- What a search for names sees of a module. -/
structure Outline where
  imports : List ImportBinding
  exports : List ExportEntry
  starExports : List String
  /-- Each declaration by its name and by whether it can be named as a type and as a value. -/
  declared : List (String × Bool × Bool)

def Declaration.outline (d : Declaration) : String × Bool × Bool := (d.name, d.kind.isType, d.kind.isValue)

def Module.outline (m : Module) : Outline := ⟨m.imports, m.exports, m.starExports, m.declarations.map Declaration.outline⟩

def SourceFile.outline (f : SourceFile) : Path × Outline := (f.path, f.module.outline)

/-- Whether a declaration that can be named so counts in a space. -/
def Space.admitsNamed : Space → Bool × Bool → Bool
  | .type, (isType, _) => isType
  | .value, (_, isValue) => isValue
  | .any, _ => true

theorem Space.admits_eq (space : Space) (k : DeclarationKind) : space.admits k = space.admitsNamed (k.isType, k.isValue) := by
  cases space <;> rfl

namespace Library

theorem declared?_eq_outline (l : Library) (file : Nat) (name : String) (space : Space) :
    l.declared? file name space = ((l.moduleAt file).outline.declared.findIdx? fun d =>
      d.1 == name && space.admitsNamed d.2).map fun index => ⟨file, index⟩ := by
  rw [declared?, Module.outline, List.findIdx?_map]
  refine congrArg (Option.map _) (congrArg (List.findIdx? · _) (funext fun d => ?_))
  rw [Function.comp_apply, Declaration.outline, Space.admits_eq]

theorem file?_eq_paths (l : Library) (p : Path) : l.file? p =
    (((l.files.map SourceFile.path).zipIdx.reverse.find? fun q =>
      q.1.normalize.components == p.normalize.components).map (·.2)) := by
  rw [file?, List.zipIdx_map, ← List.map_reverse, List.find?_map, Option.map_map]
  rfl

/-- Libraries whose files have the same paths and outlines. -/
structure SameNames (l l' : Library) : Prop where
  root : l'.root = l.root
  packageName : l'.packageName = l.packageName
  extensions : l'.extensions = l.extensions
  files : l'.files.map SourceFile.outline = l.files.map SourceFile.outline

/-- Aliases stand for the same types, too. -/
structure SameTypes (l l' : Library) : Prop extends SameNames l l' where
  aliasBody : ∀ key, l'.aliasBody? key = l.aliasBody? key

variable {l l' : Library}

namespace SameNames

variable (h : SameNames l l')

include h

/-! ## Files -/

theorem getElem?_outline (file : Nat) : l'.files[file]?.map SourceFile.outline = l.files[file]?.map SourceFile.outline := by
  rw [← List.getElem?_map, h.files, List.getElem?_map]

theorem moduleAt_outline (file : Nat) : (l'.moduleAt file).outline = (l.moduleAt file).outline := by
  have hfile := h.getElem?_outline file
  unfold moduleAt
  cases hl : l.files[file]? with
  | none =>
    rw [hl, Option.map_none, Option.map_eq_none_iff] at hfile
    rw [hfile]
  | some f =>
    rw [hl, Option.map_some, Option.map_eq_some_iff] at hfile
    obtain ⟨f', hf', houtline⟩ := hfile
    rw [hf']
    exact congrArg Prod.snd houtline

theorem declared?_eq (file : Nat) (name : String) (space : Space) :
    l'.declared? file name space = l.declared? file name space := by
  rw [declared?_eq_outline, h.moduleAt_outline, declared?_eq_outline]

theorem paths : l'.files.map SourceFile.path = l.files.map SourceFile.path := by
  have hpaths := congrArg (List.map Prod.fst) h.files
  rwa [List.map_map, List.map_map] at hpaths

theorem candidateFile?_eq : l'.candidateFile? = l.candidateFile? := by
  funext dir specifier
  rw [candidateFile?, h.extensions, candidateFile?]
  refine congrArg (List.findSome? · _) (funext fun p => ?_)
  rw [file?_eq_paths, h.paths, file?_eq_paths]

theorem module?_eq (file : Nat) (specifier : String) : l'.module? file specifier = l.module? file specifier := by
  have hown : l'.ownPath? specifier = l.ownPath? specifier := by rw [ownPath?, h.packageName, ownPath?]
  have hpath : l'.files[file]?.map SourceFile.path = l.files[file]?.map SourceFile.path := by
    rw [← List.getElem?_map, h.paths, List.getElem?_map]
  unfold module?
  rw [hown, h.candidateFile?_eq, h.root]
  cases l.ownPath? specifier with
  | some rest => rfl
  | none =>
    dsimp only
    split
    · rfl
    · have hbind := congrArg (Option.bind · fun path => path.parent?.bind fun dir => l.candidateFile? dir specifier) hpath
      rwa [Option.bind_map, Option.bind_map] at hbind

/-! ## Searches -/

theorem importSearch_eq (search : Node → Search) (file : Nat) (source : String) (imported : Imported) :
    l'.importSearch search file source imported = l.importSearch search file source imported := by
  rw [importSearch, h.module?_eq, importSearch]

theorem localSearch_eq (search : Node → Search) (file : Nat) (name : String) (space : Space) :
    l'.localSearch search file name space = l.localSearch search file name space := by
  have himports : (l'.moduleAt file).imports = (l.moduleAt file).imports := congrArg Outline.imports (h.moduleAt_outline file)
  simp only [localSearch, h.declared?_eq, himports, h.importSearch_eq]

theorem targetSearch_eq (search : Node → Search) (file : Nat) (target : ExportTarget) :
    l'.targetSearch search file target = l.targetSearch search file target := by
  cases target with
  | here name => exact h.localSearch_eq search file name .any
  | elsewhere source imported => exact h.importSearch_eq search file source imported

theorem branches_eq (search : Node → Search) (node : Node) : l'.branches search node = l.branches search node := by
  have houtline := h.moduleAt_outline node.file
  have hexports : (l'.moduleAt node.file).exports = (l.moduleAt node.file).exports := congrArg Outline.exports houtline
  have hstars : (l'.moduleAt node.file).starExports = (l.moduleAt node.file).starExports :=
    congrArg Outline.starExports houtline
  have hstar : l'.starSearch search node = l.starSearch search node := by
    funext source
    rw [starSearch, h.module?_eq, starSearch]
  simp only [branches, hexports, hstars, hstar, h.targetSearch_eq]

theorem exportSearch_eq (depth : Nat) : l'.exportSearch depth = l.exportSearch depth := by
  induction depth with
  | zero => rfl
  | succ depth ih =>
    funext node visited
    rw [exportSearch, ih, h.branches_eq, exportSearch]

theorem search_eq : l'.search = l.search := by
  have hlength := congrArg List.length h.files
  have hnames := congrArg (List.map fun f : Path × Outline => f.2.exports.length + f.2.imports.length) h.files
  rw [List.length_map, List.length_map] at hlength
  rw [List.map_map, List.map_map] at hnames
  have hbound : l'.nodeBound = l.nodeBound := by
    rw [nodeBound, nodeBound, hlength]
    exact congrArg (fun names => (l.files.length + 1) * (total names + 1)) hnames
  rw [search, search, hbound, h.exportSearch_eq]

/-! ## Names -/

theorem exported?_eq (file : Nat) (name : String) : l'.exported? file name = l.exported? file name := by
  rw [exported?, h.search_eq, exported?]

theorem local?_eq (file : Nat) (name : String) (space : Space) : l'.local? file name space = l.local? file name space := by
  rw [local?, h.search_eq, h.localSearch_eq, local?]

theorem segment?_eq : l'.segment? = l.segment? := by
  funext symbol name
  cases symbol with
  | namespace_ file => exact h.exported?_eq file name
  | _ => rfl

/-- A type refers to the same thing. -/
theorem reference?_eq (file : Nat) (t : TypeExpr) : l'.reference? file t = l.reference? file t := by
  cases t with
  | reference module name args =>
    cases module with
    | none =>
      cases name with
      | nil => rfl
      | cons first rest => simp only [reference?, qualified?, h.local?_eq, h.segment?_eq]
    | some specifier =>
      cases name with
      | nil => rfl
      | cons first rest => simp only [reference?, imported?, h.module?_eq, h.exported?_eq, h.segment?_eq]
  | _ => rfl

end SameNames

/-! ## Aliases -/

theorem aliasKey?_eq_body (l : Library) (p : Place) : l.aliasKey? p =
    match l.reference? p.file p.type with
    | some (.declaration key) => (l.aliasBody? key).map fun _ => key
    | _ => none := by
  unfold aliasKey? aliasBody?
  rcases l.reference? p.file p.type with _ | key | _ | _
  · rfl
  · dsimp only
    rcases l.kind? key with _ | _ | _ | _ | _ | _ | _ <;> rfl
  · rfl
  · rfl

namespace SameTypes

variable (h : SameTypes l l')

include h

theorem aliasKey?_eq (p : Place) : l'.aliasKey? p = l.aliasKey? p := by
  rw [aliasKey?_eq_body, aliasKey?_eq_body, h.reference?_eq]
  simp only [h.aliasBody]

theorem aliasTarget?_eq (p : Place) : l'.aliasTarget? p = l.aliasTarget? p := by
  rw [aliasTarget?, h.aliasKey?_eq, funext h.aliasBody, aliasTarget?]

theorem followAliases_eq (n : Nat) (p : Place) : l'.followAliases n p = l.followAliases n p := by
  induction n generalizing p with
  | zero => rfl
  | succ n ih =>
    rw [followAliases, h.aliasTarget?_eq, followAliases]
    cases l.aliasTarget? p with
    | none => rfl
    | some q => exact ih q

theorem resolveAlias_eq (p : Place) : l'.resolveAlias p = l.resolveAlias p := h.followAliases_eq typeDepth p

theorem lastAlias?_eq (p : Place) : l'.lastAlias? p = l.lastAlias? p := by
  have hwithin : ∀ n p, l'.lastAliasWithin? n p = l.lastAliasWithin? n p := by
    intro n
    induction n with
    | zero => exact fun _ => rfl
    | succ n ih =>
      intro p
      rw [lastAliasWithin?, h.aliasTarget?_eq, lastAliasWithin?]
      cases l.aliasTarget? p with
      | none => rfl
      | some q =>
        dsimp only
        rw [ih, h.aliasKey?_eq]
  exact hwithin typeDepth p

end SameTypes

end Library

/-! ## Exchanged declarations -/

/-- A module with another declaration in a place. -/
def Module.exchange (m : Module) (index : Nat) (d : Declaration) : Module :=
  { m with declarations := m.declarations.set index d }

theorem Module.exchange_outline {m : Module} {index : Nat} {d d' : Declaration} (hd : m.declarations[index]? = some d)
    (houtline : d'.outline = d.outline) : (m.exchange index d').outline = m.outline := by
  obtain ⟨hlt, rfl⟩ := List.getElem?_eq_some_iff.mp hd
  have hdeclared : (m.declarations.set index d').map Declaration.outline = m.declarations.map Declaration.outline := by
    rw [List.map_set, houtline, ← List.map_set, List.set_getElem_self]
  rw [outline, outline, exchange, hdeclared]

namespace Library

variable {l : Library} {key : DeclarationKey} {d d' : Declaration}

/-- A library with another declaration in the place of a key. -/
def exchange (l : Library) (key : DeclarationKey) (d : Declaration) : Library :=
  { l with files := l.files.modify key.file fun f => { f with module := f.module.exchange key.index d } }

theorem moduleAt_exchange (l : Library) (key : DeclarationKey) (d : Declaration) (file : Nat) :
    (l.exchange key d).moduleAt file =
      if key.file = file then (l.moduleAt file).exchange key.index d else l.moduleAt file := by
  unfold moduleAt exchange
  rw [List.getElem?_modify]
  by_cases hfile : key.file = file
  · rw [if_pos hfile]
    cases l.files[file]? with
    | none => rfl
    | some f => simp [hfile]
  · rw [if_neg hfile]
    cases l.files[file]? with
    | none => rfl
    | some f => simp [hfile]

theorem declaration?_exchange_self (hd : l.declaration? key = some d) : (l.exchange key d').declaration? key = some d' := by
  obtain ⟨hlt, -⟩ := List.getElem?_eq_some_iff.mp hd
  rw [declaration?, moduleAt_exchange, if_pos rfl, Module.exchange, List.getElem?_set_self hlt]

theorem declaration?_exchange_of_ne {other : DeclarationKey} (hne : other ≠ key) :
    (l.exchange key d').declaration? other = l.declaration? other := by
  rw [declaration?, moduleAt_exchange]
  split
  · next hfile =>
    have hindex : key.index ≠ other.index := fun hindex => hne (congr (congrArg DeclarationKey.mk hfile.symm) hindex.symm)
    rw [Module.exchange, List.getElem?_set_ne hindex]
    rfl
  · rfl

theorem aliasBody?_of_no_alias (hd : l.declaration? key = some d) (halias : ∀ t, d.kind ≠ .alias t) : l.aliasBody? key = none := by
  rw [aliasBody?, kind?, hd, Option.map_some]
  split
  · next t ht => exact absurd (Option.some.inj ht) (halias t)
  · rfl

/-- Names and aliases do not tell a declaration from another of its outline, where neither is an alias. -/
theorem sameTypes_exchange (hd : l.declaration? key = some d) (houtline : d'.outline = d.outline)
    (halias : ∀ t, d.kind ≠ .alias t) (halias' : ∀ t, d'.kind ≠ .alias t) : SameTypes l (l.exchange key d') where
  root := rfl
  packageName := rfl
  extensions := rfl
  files := by
    refine List.ext_getElem? fun file => ?_
    rw [exchange, List.getElem?_map, List.getElem?_map, List.getElem?_modify]
    cases hfile : l.files[file]? with
    | none => rfl
    | some f =>
      by_cases hkey : key.file = file
      · have hd : f.module.declarations[key.index]? = some d := by
          rwa [declaration?, moduleAt, hkey, hfile] at hd
        simp [hkey, SourceFile.outline, Module.exchange_outline hd houtline]
      · simp [hkey]
  aliasBody other := by
    by_cases hother : other = key
    · rw [hother, aliasBody?_of_no_alias hd halias, aliasBody?_of_no_alias (declaration?_exchange_self hd) halias']
    · rw [aliasBody?, kind?, declaration?_exchange_of_ne hother]
      rfl

end Library

end PatternCatalog
