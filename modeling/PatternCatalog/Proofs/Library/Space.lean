/-
  PatternCatalog.Proofs.Library.Space — the name space of what an imported name means.

  A name is looked up in a name space, of types or of values. Among the declarations of the file
  itself only those of the name space count, but a search that goes on at the export of another
  file asks for declarations of any kind, and the first of its name is taken there
  (`exported?_isFirst`). So a name means a declaration of its name space exactly when the file
  itself declares one, or the first declaration of the name is one where the search ends
  (`admits_meaning_iff`). Where a value and a type of one name are declared in this order, the
  name of the type, imported, means the value, which has no members
  (`an_imported_type_means_a_value`).
-/

import PatternCatalog.Library.Members
import PatternCatalog.Proofs.Library.Symbol

namespace PatternCatalog.Library

/-- The declarations of a name in a file, in order. -/
def named (l : Library) (file : Nat) (name : String) : List Declaration :=
  (l.moduleAt file).declarations.filter (·.name == name)

/-- Whether a file declares a name in a name space. -/
def DeclaresIn (l : Library) (file : Nat) (name : String) (space : Space) : Prop :=
  ∃ d ∈ l.named file name, space.admits d.kind = true

/-- Whether a symbol that is a declaration is the first of its name in its file. -/
def IsFirst (l : Library) : Symbol → Prop
  | .declaration key => ∃ name, l.declared? key.file name .any = some key
  | _ => True

/-- The members of what a declaration declares, those of an interface or of the type that an alias stands for. -/
def membersOf (l : Library) (key : DeclarationKey) : List MemberRef :=
  match l.kind? key with
  | some (.interface parents members) =>
    parents.foldl (fun out t => l.collectMembers typeDepth ⟨key.file, t⟩ out) (addMembers [] (ownMembers key.file members))
  | some (.alias type) => l.collectMembers typeDepth ⟨key.file, type⟩ []
  | _ => []

variable {l : Library} {file : Nat} {name : String} {space : Space} {key : DeclarationKey} {d : Declaration}

/-! ## Declarations of a name -/

/-- The declaration that is found for a name is the first of the name in the name space. -/
theorem find?_of_declared? (h : l.declared? file name space = some key) (hd : l.declaration? key = some d) :
    (l.named file name).find? (fun e => space.admits e.kind) = some d := by
  obtain ⟨index, hindex, rfl⟩ := Option.map_eq_some_iff.mp h
  have hfind := congrArg (Option.bind · ((l.moduleAt file).declarations[·]?)) hindex
  rw [← List.find?_eq_bind_findIdx?_getElem?] at hfind
  rw [named, List.find?_filter]
  simp only [Bool.decide_and, Bool.decide_eq_true]
  exact hfind.trans hd

theorem mem_named : d ∈ l.named file name ↔ d ∈ (l.moduleAt file).declarations ∧ d.name = name := by
  simp [named]

/-- A name that a file does not declare in a name space is not found there. -/
theorem not_declaresIn (h : l.declared? file name space = none) : ¬ l.DeclaresIn file name space := by
  rintro ⟨d, hd, hadmits⟩
  obtain ⟨hmem, hname⟩ := mem_named.mp hd
  rw [declared?, Option.map_eq_none_iff, List.findIdx?_eq_none_iff] at h
  simpa [hname, hadmits] using h d hmem

/-- The first declaration of its name in its file. -/
theorem head?_named (h : l.IsFirst (.declaration key)) (hd : l.declaration? key = some d) :
    (l.named key.file d.name).head? = some d := by
  obtain ⟨name, hname⟩ := h
  have hfind := find?_of_declared? hname hd
  obtain rfl := (mem_named.mp (List.mem_of_find?_eq_some hfind)).2
  have hall : (l.named key.file d.name).filter (fun e => Space.any.admits e.kind) = l.named key.file d.name :=
    List.filter_eq_self.mpr fun _ _ => rfl
  rwa [← List.head?_filter, hall] at hfind

/-! ## What an imported name means -/

theorem holdsEntering_isFirst (l : Library) : HoldsEntering l l.IsFirst where
  external _ _ := trivial
  namespace_ _ := trivial
  declared h := by
    obtain ⟨index, -, rfl⟩ := Option.map_eq_some_iff.mp h
    exact ⟨_, h⟩

/-- Exports lead to the first declarations of names. -/
theorem exported?_isFirst {symbol : Symbol} (h : l.exported? file name = some symbol) : l.IsFirst symbol :=
  exportSearch_finds l.holdsEntering_isFirst _ _ _ _ h

theorem local?_isFirst (hnone : l.declared? file name space = none) {symbol : Symbol}
    (h : l.local? file name space = some symbol) : l.IsFirst symbol := by
  refine localSearch_finds l.holdsEntering_isFirst (exportSearch_finds l.holdsEntering_isFirst _) ?_ _ _ h
  intro key hkey
  rw [hnone] at hkey
  cases hkey

/-- The members of a reference are those of the declaration that its name leads to. -/
theorem apparentMembers_reference (h : l.local? file name .type = some (.declaration key)) (args : List TypeExpr) :
    l.apparentMembers ⟨file, .reference none [name] args⟩ = l.membersOf key := by
  have hreference : l.reference? file (.reference none [name] args) = some (.declaration key) := by
    simp [reference?, qualified?, h]
  rcases hkind : l.kind? key with _ | _ | _ | _ | _ | _ | _ <;>
    simp only [apparentMembers, collectMembers, hreference, membersOf, hkind]

/-- A name leads to a declaration of its name space exactly when its file declares it in the name
space, or when the first declaration of the name that it leads to is of the name space. The
members of a reference by the name are those of the declaration. -/
theorem admits_meaning_iff (h : l.local? file name space = some (.declaration key)) :
    ∃ d, l.declaration? key = some d ∧
      (space.admits d.kind = true ↔ l.DeclaresIn file name space ∨
        ∃ first, (l.named key.file d.name).head? = some first ∧ space.admits first.kind = true) ∧
      (space = .type → ∀ args, l.apparentMembers ⟨file, .reference none [name] args⟩ = l.membersOf key) := by
  obtain ⟨d, hd⟩ : ∃ d, l.declaration? key = some d := local?_exists h
  refine ⟨d, hd, ?_, ?_⟩
  · cases hdeclared : l.declared? file name space with
    | none =>
      rw [head?_named (local?_isFirst hdeclared h) hd]
      simp [not_declaresIn hdeclared]
    | some here =>
      obtain rfl : here = key := by simpa [local?, localSearch, hdeclared] using h
      have hfind := find?_of_declared? hdeclared hd
      have hadmits := List.find?_some hfind
      exact iff_of_true hadmits (.inl ⟨d, List.mem_of_find?_eq_some hfind, hadmits⟩)
  · rintro rfl args
    exact apparentMembers_reference h args

/-! ## A value and a type of one name -/

/-- `export const Props: object` and then `export interface Props` with one member; an import of
the name from a file that exports them again. -/
def mergedLibrary : Library :=
  let props := [⟨"Props", 13, none, .variable (some (.keyword .object))⟩,
    ⟨"Props", 43, none, .interface [] [⟨"label", false, some (.keyword .string), "string", none, 53⟩]⟩]
  .ofFiles ⟨"/lib"⟩ none [".d.ts"]
    [⟨⟨"/lib/index.d.ts"⟩, { imports := [⟨"Own", "./parts", .named "Props"⟩] }⟩,
     ⟨⟨"/lib/parts.d.ts"⟩, { starExports := ["./props"] }⟩,
     ⟨⟨"/lib/props.d.ts"⟩, { exports := [⟨"Props", .here "Props"⟩], declarations := props }⟩]

theorem merged_meaning (space : Space) : mergedLibrary.local? 0 "Own" space = some (.declaration ⟨2, 0⟩) := by
  cases space <;> decide +kernel

theorem merged_value_meaning : ∃ d, mergedLibrary.declaration? ⟨2, 0⟩ = some d ∧
    (Space.admits .value d.kind = true ↔ mergedLibrary.DeclaresIn 0 "Own" .value ∨
      ∃ first, (mergedLibrary.named 2 d.name).head? = some first ∧ Space.admits .value first.kind = true) ∧
    (Space.value = .type → ∀ args,
      mergedLibrary.apparentMembers ⟨0, .reference none ["Own"] args⟩ = mergedLibrary.membersOf ⟨2, 0⟩) :=
  admits_meaning_iff (merged_meaning .value)

/-- The name of the interface, imported, means the value, although its file declares the type. -/
theorem an_imported_type_means_a_value : ∃ d,
    mergedLibrary.local? 0 "Own" .type = some (.declaration ⟨2, 0⟩) ∧ mergedLibrary.declaration? ⟨2, 0⟩ = some d ∧
      mergedLibrary.DeclaresIn 2 d.name .type ∧ d.kind.isType = false ∧
      mergedLibrary.apparentMembers ⟨0, .reference none ["Own"] []⟩ = [] := by
  refine ⟨_, merged_meaning .type, rfl, ?_, rfl, apparentMembers_reference (merged_meaning .type) []⟩
  exact ⟨_, List.mem_cons_of_mem _ List.mem_cons_self, rfl⟩

end PatternCatalog.Library
