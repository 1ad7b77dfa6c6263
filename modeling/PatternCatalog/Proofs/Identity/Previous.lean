/-
  PatternCatalog.Proofs.Identity.Previous — the strategy of an analysis with fresh ids.

  When the ids of an earlier analysis are fresh, its tables hold for patterns, slots and enum
  options what would be minted anew (`strategy_pattern`, `strategy_slot`,
  `strategy_enumOption`). Only properties can differ: a shared property is entered under
  patterns that did not list it as new, so a pattern may be given an id that was minted for
  another (`strategy_property`).
-/

import PatternCatalog.Proofs.Digest
import PatternCatalog.Proofs.Identity.Assigned

namespace PatternCatalog

open Identity (Previous Strategy join nested freshPattern)

/-! ## Tables -/

namespace Identity.Table

theorem last?_append {κ : Type} [BEq κ] (t u : Table κ) (key : κ) :
    Table.last? (t ++ u) key = (u.last? key).or (t.last? key) := by
  rw [last?, List.reverse_append, List.find?_append, Option.map_or]
  rfl

variable {κ : Type} [BEq κ] [LawfulBEq κ] {t : Table κ} {key : κ}

theorem mem_of_last? {id : String} (h : t.last? key = some id) : (key, id) ∈ t := by
  obtain ⟨row, hrow, rfl⟩ := Option.map_eq_some_iff.mp h
  have hkey : row.1 = key := by simpa using List.find?_some hrow
  rw [← hkey]
  exact List.mem_reverse.mp (List.mem_of_find?_eq_some hrow)

/-- A row is found when no other row of its key gives another id. -/
theorem last?_of_mem {id : String} (hmem : (key, id) ∈ t) (h : ∀ id', (key, id') ∈ t → id' = id) : t.last? key = some id := by
  cases hlast : t.last? key with
  | none =>
    have hnone := List.find?_eq_none.mp (Option.map_eq_none_iff.mp hlast) _ (List.mem_reverse.mpr hmem)
    exact absurd (beq_self_eq_true key) hnone
  | some id' => rw [h id' (mem_of_last? hlast)]

/-- Rows that agree with a rule give what the rule gives. -/
theorem last?_getD (mint : κ → String) (h : ∀ row ∈ t, row.2 = mint row.1) : (t.last? key).getD (mint key) = mint key := by
  cases hlast : t.last? key with
  | none => rfl
  | some id => exact h _ (mem_of_last? hlast)

end Identity.Table

/-! ## Texts of an analysis -/

namespace Analysis

/-- The texts that the ids of patterns and properties are digests of. -/
def digested (a : Analysis) : List String :=
  a.patterns.map (·.pattern.contextId) ++
    a.patterns.flatMap fun e => e.properties.map fun p => join e.pattern.id p.contextId

variable {a : Analysis}

theorem contextId_mem_digested {e : PatternEntry} (he : e ∈ a.patterns) : e.pattern.contextId ∈ a.digested :=
  List.mem_append_left _ (List.mem_map_of_mem he)

theorem join_mem_digested {e : PatternEntry} {p : Property} (he : e ∈ a.patterns) (hp : p ∈ e.properties) :
    join e.pattern.id p.contextId ∈ a.digested :=
  List.mem_append_right _ (List.mem_flatMap.mpr ⟨e, he, List.mem_map_of_mem hp⟩)

theorem property?_some {id : String} {p : Property} (h : a.property? id = some p) : p ∈ a.properties ∧ p.id = id :=
  ⟨List.mem_of_find?_eq_some h, by simpa using List.find?_some h⟩

theorem exists_property? {p : Property} (h : p ∈ a.properties) : ∃ q, a.property? p.id = some q :=
  Option.isSome_iff_exists.mp (List.find?_isSome.mpr ⟨p, h, beq_self_eq_true _⟩)

theorem mem_propertiesOf {e : Pattern} {p : Property} :
    p ∈ a.propertiesOf e ↔ ∃ id ∈ e.propertyIds, a.property? id = some p := by
  simp [propertiesOf, List.mem_filterMap]

/-- What a pattern refers to is listed by a pattern. -/
theorem exists_entry_of_mem {e : Pattern} {p : Property} (hp : p ∈ a.propertiesOf e) : ∃ f ∈ a.patterns, p ∈ f.properties := by
  obtain ⟨id, -, hid⟩ := mem_propertiesOf.mp hp
  exact List.mem_flatMap.mp (property?_some hid).1

/-- The id under which a pattern refers to a property of a name; the last one counts. -/
def propertyId? (a : Analysis) (contextId name : String) : Option String :=
  (a.patterns.find? (·.pattern.contextId == contextId)).bind fun e =>
    ((a.propertiesOf e.pattern).reverse.find? (·.contextId == name)).map (·.id)

theorem contextId_mem_of_propertyId? {c n id : String} (hid : a.propertyId? c n = some id) :
    c ∈ a.patterns.map (·.pattern.contextId) := by
  obtain ⟨e, he, -⟩ := Option.bind_eq_some_iff.mp hid
  have hcontext : e.pattern.contextId = c := by simpa using List.find?_some he
  exact List.mem_map.mpr ⟨e, List.mem_of_find?_eq_some he, hcontext⟩

/-- What a pattern refers to under a name is a property of that name. -/
theorem property?_of_propertyId? {c n id : String} (hid : a.propertyId? c n = some id) :
    ∃ q, a.property? id = some q ∧ q.contextId = n := by
  obtain ⟨e, -, hid⟩ := Option.bind_eq_some_iff.mp hid
  obtain ⟨q, hq, rfl⟩ := Option.map_eq_some_iff.mp hid
  obtain ⟨id, -, hid⟩ := mem_propertiesOf.mp (List.mem_reverse.mp (List.mem_of_find?_eq_some hq))
  rw [(property?_some hid).2]
  exact ⟨q, hid, by simpa using List.find?_some hq⟩

end Analysis

/-! ## The tables of an analysis -/

theorem optionRows_eq (p : Property) :
    Previous.optionRows p = p.kind.options.map fun o => ((p.id, o.contextId), o.id) := by
  unfold Previous.optionRows PropertyKind.options
  cases p.kind <;> rfl

section Rows

variable {ids : Strategy} {a : Analysis} (h : Assigned ids a)

include h

theorem patterns_row : ∀ row ∈ (Previous.ofAnalysis a).patterns, row.2 = ids.pattern row.1 := by
  intro row hrow
  obtain ⟨e, he, rfl⟩ := List.mem_map.mp hrow
  exact h.pattern e he

theorem slots_row : ∀ row ∈ (Previous.ofAnalysis a).slots, row.2 = ids.slot row.1.1 row.1.2 := by
  intro row hrow
  obtain ⟨e, he, hrow⟩ := List.mem_flatMap.mp hrow
  obtain ⟨t, ht, rfl⟩ := List.mem_map.mp hrow
  exact h.slot e he t ht

theorem enumOptions_row : ∀ row ∈ (Previous.ofAnalysis a).enumOptions, row.2 = ids.enumOption row.1.1 row.1.2 := by
  intro row hrow
  obtain ⟨e, he, hrow⟩ := List.mem_flatMap.mp hrow
  obtain ⟨p, hp, hrow⟩ := List.mem_flatMap.mp hrow
  rw [optionRows_eq] at hrow
  obtain ⟨o, ho, rfl⟩ := List.mem_map.mp hrow
  obtain ⟨f, hf, hpf⟩ := Analysis.exists_entry_of_mem hp
  exact h.option f hf p hpf o ho

end Rows

/-! ## The tables of fresh ids -/

section Fresh

variable {d : Digest} {a : Analysis}

theorem strategy_pattern (h : Assigned (.fresh d) a) (contextId : String) :
    ((Previous.ofAnalysis a).strategy d).pattern contextId = freshPattern d contextId :=
  Identity.Table.last?_getD (freshPattern d) (patterns_row h)

theorem strategy_slot (h : Assigned (.fresh d) a) (parent name : String) :
    ((Previous.ofAnalysis a).strategy d).slot parent name = nested d parent name :=
  Identity.Table.last?_getD (fun key : String × String => nested d key.1 key.2) (slots_row h)

theorem strategy_enumOption (h : Assigned (.fresh d) a) (parent name : String) :
    ((Previous.ofAnalysis a).strategy d).enumOption parent name = nested d parent name :=
  Identity.Table.last?_getD (fun key : String × String => nested d key.1 key.2) (enumOptions_row h)

/-- The rows of a pattern, asked under the id of a pattern. -/
theorem last?_rows (ps : List Property) (id parent name : String) :
    Identity.Table.last? (ps.map fun p => ((id, p.contextId), p.id)) (parent, name) =
      if id = parent then (ps.reverse.find? (·.contextId == name)).map (·.id) else none := by
  rw [Identity.Table.last?, ← List.map_reverse, List.find?_map, Option.map_map]
  split
  · next hid =>
    subst hid
    have hkey : ((fun row : (String × String) × String => row.1 == (id, name)) ∘ fun p : Property =>
        ((id, p.contextId), p.id)) = fun p => p.contextId == name := by
      funext p
      rw [Bool.eq_iff_iff]
      simp
    rw [hkey]
    rfl
  · next hid =>
    rw [Option.map_eq_none_iff, List.find?_eq_none]
    intro p _ hp
    exact hid (by simpa using hp : id = parent ∧ p.contextId = name).1

theorem last?_properties (h : Assigned (.fresh d) a) (hn : (a.patterns.map (·.pattern.contextId)).Nodup)
    {contextId : String} (hsep : d.Separates (contextId :: a.patterns.map (·.pattern.contextId))) (name : String) :
    (Previous.ofAnalysis a).properties.last? (d contextId, name) = a.propertyId? contextId name := by
  have hid : ∀ e ∈ a.patterns, e.pattern.id = d contextId ↔ e.pattern.contextId = contextId := by
    intro e he
    rw [h.pattern e he]
    constructor
    · intro hd
      rw [show Strategy.pattern (.fresh d) e.pattern.contextId = d e.pattern.contextId from
        Identity.freshPattern_eq d _] at hd
      exact hsep _ (List.mem_cons_of_mem _ (List.mem_map_of_mem he)) _ List.mem_cons_self hd
    · rintro rfl
      exact Identity.freshPattern_eq d _
  unfold Previous.ofAnalysis Analysis.propertyId?
  dsimp only
  generalize a.patterns = es at hn hid
  clear hsep h
  induction es with
  | nil => rfl
  | cons e es ih =>
    rw [List.map_cons, List.nodup_cons] at hn
    have hrest := ih hn.2 fun f hf => hid f (List.mem_cons_of_mem _ hf)
    rw [List.flatMap_cons, Identity.Table.last?_append, hrest, last?_rows, List.find?_cons]
    by_cases he : e.pattern.contextId = contextId
    · have hnone : es.find? (·.pattern.contextId == contextId) = none := by
        rw [List.find?_eq_none]
        intro f hf hfc
        rw [beq_iff_eq, ← he] at hfc
        exact hn.1 (List.mem_map.mpr ⟨f, hf, hfc⟩)
      simp [hnone, he, (hid e List.mem_cons_self).mpr he]
    · rw [if_neg (mt (hid e List.mem_cons_self).mp he), Option.or_none, beq_eq_false_iff_ne.mpr he]

end Fresh

end PatternCatalog
