/-
  PatternCatalog.Proofs.Property.Ordinal — which members of an enum have one ordinal.

  An ordinal is the number given to a member, or else its place. So a number and a place can meet,
  though the values of the members are distinct: `A = 1, B` has the values `1` and `2`, and the
  ordinal `1` twice (`a_number_meets_the_next_place`).

  In an enum of integers with distinct values the ordinals are distinct exactly where no number is
  the place of a member without one, and no two numbers are held at one end of the 64-bit range
  (`ordinals_nodup_iff`). Two places do not meet: an enum with so many members has more values than
  there are numbers (`Binary64.length_le_of_distinct`). Two numbers meet at an end only
  (`Binary64.eqv_of_truncate`).
-/

import Mathlib.Data.List.Nodup
import PatternCatalog.Proofs.Binary64.Canonical
import PatternCatalog.Proofs.Property.EnumOption

namespace PatternCatalog

/-- Whether two values of an enum are equal. -/
def EnumValue.same : EnumValue → EnumValue → Bool
  | .number x, .number y => x.eqv y
  | .string s, .string t => s == t
  | _, _ => false

/-- An initializer that is absent or an integer. -/
inductive EnumInit.Integer : EnumInit → Prop
  | none : Integer .none
  | number {x : Binary64} (h : x.Whole) : Integer (.number x)

namespace EnumOption

/-- Two members have one ordinal: a number and a place, or two numbers held at one end of the range. -/
inductive OrdinalsMeet (inits : List EnumInit) : Prop
  | atPlace {i j : Nat} {x : Binary64} (hplace : inits[i]? = some EnumInit.none) (hgiven : inits[j]? = some (EnumInit.number x))
      (hmeet : x.truncate = ordinalOf i) : OrdinalsMeet inits
  | atEnd {i j : Nat} {x y : Binary64} (hlt : i < j) (hx : inits[i]? = some (EnumInit.number x))
      (hy : inits[j]? = some (EnumInit.number y)) (hmeet : x.truncate = y.truncate)
      (hend : x.truncate = -Int.pow 2 63 ∨ x.truncate = Int.pow 2 63 - 1) : OrdinalsMeet inits

open Binary64 (Canonical)

/-! ## The number that is counted from -/

theorem canonical_one_more {x : Binary64} (h : Canonical x) : Canonical (x.add .one) :=
  have hone : Binary64.one = .finite false (2 ^ 52) (-52) := by decide +kernel
  hone ▸ Binary64.canonical_add h false (2 ^ 52) (-52)

/-- After a member without an initializer, or with an integer, the next one counts from a number in its one form. -/
theorem valueOf_integer (index : Nat) {x : Binary64} {init : EnumInit} (hx : Canonical x) (hinit : init.Integer) :
    ∃ y, Canonical y ∧ (valueOf index (some x) init).2 = some y := by
  cases hinit with
  | none => exact ⟨x.add .one, canonical_one_more hx, rfl⟩
  | @number y hy => exact ⟨y.add .one, canonical_one_more hy.canonical, rfl⟩

/-- In an enum of integers each member has its value by a number in its one form. -/
theorem valuesFrom_getElem? {inits : List EnumInit} (index : Nat) {i : Nat} {x : Binary64} {init : EnumInit} (hx : Canonical x)
    (hinits : ∀ init ∈ inits, init.Integer) (h : inits[i]? = some init) :
    ∃ y, Canonical y ∧ (valuesFrom index (some x) inits)[i]? = some (valueOf (index + i) (some y) init).1 := by
  induction inits generalizing index i x with
  | nil => cases h
  | cons first inits ih =>
    cases i with
    | zero =>
      obtain rfl : first = init := Option.some.inj h
      exact ⟨x, hx, rfl⟩
    | succ i =>
      obtain ⟨y, hy, hnext⟩ := valueOf_integer index hx (hinits first List.mem_cons_self)
      have htail := ih (index + 1) hy (fun init hinit => hinits init (List.mem_cons_of_mem _ hinit)) h
      rwa [← hnext, Nat.add_assoc, Nat.add_comm 1 i] at htail

/-! ## The ordinals of the values -/

section

variable {inits : List EnumInit} {i : Nat}

theorem values_none (hinits : ∀ init ∈ inits, init.Integer) (h : inits[i]? = some .none) :
    ∃ y, Canonical y ∧ (values inits)[i]? = some (.number y, ordinalOf i) := by
  obtain ⟨y, hy, hv⟩ := valuesFrom_getElem? 0 (Binary64.canonical_zero false) hinits h
  rw [Nat.zero_add] at hv
  exact ⟨y, hy, hv⟩

theorem values_number {x : Binary64} (hinits : ∀ init ∈ inits, init.Integer) (h : inits[i]? = some (.number x)) :
    (values inits)[i]? = some (.number x, x.truncate) := by
  obtain ⟨y, -, hv⟩ := valuesFrom_getElem? 0 (Binary64.canonical_zero false) hinits h
  exact hv

theorem values_length (inits : List EnumInit) : (values inits).length = inits.length := valuesFrom_length 0 _ inits

/-- A place in an enum of integers is one with a number, or without. -/
theorem init_cases (hinits : ∀ init ∈ inits, init.Integer) (hi : i < inits.length) :
    inits[i]? = some .none ∨ ∃ x, x.Whole ∧ inits[i]? = some (.number x) := by
  have hget := List.getElem?_eq_getElem hi
  have hinit := hinits inits[i] (List.getElem_mem hi)
  generalize inits[i] = init at hget hinit
  cases hinit with
  | none => exact .inl hget
  | @number x hx => exact .inr ⟨x, hx, hget⟩

theorem number_of_mem_values {v : EnumValue × Int} (hinits : ∀ init ∈ inits, init.Integer) (hv : v ∈ values inits) :
    ∃ y, Canonical y ∧ v.1 = .number y := by
  obtain ⟨i, hi⟩ := List.mem_iff_getElem?.mp hv
  have hlt : i < inits.length := values_length inits ▸ (List.getElem?_eq_some_iff.mp hi).1
  obtain hnone | ⟨x, hx, hnumber⟩ := init_cases hinits hlt
  · obtain ⟨y, hy, hget⟩ := values_none hinits hnone
    obtain rfl := Option.some.inj (hi.symm.trans hget)
    exact ⟨y, hy, rfl⟩
  · obtain rfl := Option.some.inj (hi.symm.trans (values_number hinits hnumber))
    exact ⟨x, hx.canonical, rfl⟩

/-- The number of a value, if it is one. -/
def numberOf : EnumValue → Binary64
  | .number x => x
  | .string _ => .nan

/-- An enum of integers with distinct values has at most `2^64` members. -/
theorem length_le_of_integers (hinits : ∀ init ∈ inits, init.Integer)
    (hdistinct : (values inits).Pairwise fun a b => a.1.same b.1 = false) : inits.length ≤ 2 ^ 64 := by
  have hform : ∀ x ∈ (values inits).map (numberOf ·.1), Canonical x := by
    intro x hx
    obtain ⟨v, hv, rfl⟩ := List.mem_map.mp hx
    obtain ⟨y, hy, hnumber⟩ := number_of_mem_values hinits hv
    rwa [hnumber]
  have hapart : ((values inits).map (numberOf ·.1)).Pairwise fun x y => x.eqv y = false := by
    refine List.pairwise_map.mpr (hdistinct.imp_of_mem fun {a b} ha hb hne => ?_)
    obtain ⟨x, -, hx⟩ := number_of_mem_values hinits ha
    obtain ⟨y, -, hy⟩ := number_of_mem_values hinits hb
    rw [hx, hy] at hne ⊢
    exact hne
  have hlength := Binary64.length_le_of_distinct hform hapart
  rwa [List.length_map, values_length] at hlength

theorem ordinalOf_inj {i j : Nat} (hi : i < 2 ^ 64) (hj : j < 2 ^ 64) (h : ordinalOf i = ordinalOf j) : i = j := by
  have hmod : (i : Int) % (0x10000000000000000 : Nat) = j % (0x10000000000000000 : Nat) := by
    unfold ordinalOf at h
    rw [← Int.bmod_emod (x := i), h, Int.bmod_emod]
  omega

theorem ordinal_getElem? {v : EnumValue} {n : Int} (h : (values inits)[i]? = some (v, n)) :
    ((values inits).map (·.2))[i]? = some n := by
  rw [List.getElem?_map, h]
  rfl

theorem ordinals_ne {j : Nat} (hinits : ∀ init ∈ inits, init.Integer)
    (hdistinct : (values inits).Pairwise fun a b => a.1.same b.1 = false) (hapart : ¬ OrdinalsMeet inits) (hlt : i < j)
    (hj : j < inits.length) : ((values inits).map (·.2))[i]? ≠ ((values inits).map (·.2))[j]? := by
  -- two places, a place and a number, a number and a place, two numbers
  obtain hi' | ⟨x, hx, hi'⟩ := init_cases hinits (Nat.lt_trans hlt hj) <;> obtain hj' | ⟨y, hy, hj'⟩ := init_cases hinits hj
  · obtain ⟨_, -, hvi⟩ := values_none hinits hi'
    obtain ⟨_, -, hvj⟩ := values_none hinits hj'
    rw [ordinal_getElem? hvi, ordinal_getElem? hvj, ne_eq, Option.some.injEq]
    have hbound : j < 2 ^ 64 := Nat.lt_of_lt_of_le hj (length_le_of_integers hinits hdistinct)
    exact fun hmeet => Nat.ne_of_lt hlt (ordinalOf_inj (Nat.lt_trans hlt hbound) hbound hmeet)
  · obtain ⟨_, -, hvi⟩ := values_none hinits hi'
    rw [ordinal_getElem? hvi, ordinal_getElem? (values_number hinits hj'), ne_eq, Option.some.injEq]
    exact fun hmeet => hapart (.atPlace hi' hj' hmeet.symm)
  · obtain ⟨_, -, hvj⟩ := values_none hinits hj'
    rw [ordinal_getElem? (values_number hinits hi'), ordinal_getElem? hvj, ne_eq, Option.some.injEq]
    exact fun hmeet => hapart (.atPlace hj' hi' hmeet)
  · obtain ⟨hvi, hgeti⟩ := List.getElem?_eq_some_iff.mp (values_number hinits hi')
    obtain ⟨hvj, hgetj⟩ := List.getElem?_eq_some_iff.mp (values_number hinits hj')
    rw [ordinal_getElem? (values_number hinits hi'), ordinal_getElem? (values_number hinits hj'), ne_eq, Option.some.injEq]
    intro hmeet
    have hne : x.eqv y = false := by
      have hget := List.pairwise_iff_getElem.mp hdistinct i j hvi hvj hlt
      rwa [hgeti, hgetj] at hget
    by_cases hend : x.truncate = -Int.pow 2 63 ∨ x.truncate = Int.pow 2 63 - 1
    · exact hapart (.atEnd hlt hi' hj' hmeet hend)
    · rw [not_or] at hend
      rw [Binary64.eqv_of_truncate hx hy hmeet hend.1 hend.2] at hne
      cases hne

/-- Places with one ordinal are one place, where the ordinals are distinct. -/
theorem place_unique {j : Nat} {n : Int} (hnodup : ((values inits).map (·.2)).Nodup) (hi : ((values inits).map (·.2))[i]? = some n)
    (hj : ((values inits).map (·.2))[j]? = some n) : i = j :=
  (List.getElem?_inj (List.getElem?_eq_some_iff.mp hi).1 hnodup).mp (hi.trans hj.symm)

/-- The ordinals of distinct integers are distinct, but for a number at a place and numbers beyond the range. -/
theorem values_nodup_iff (hinits : ∀ init ∈ inits, init.Integer)
    (hdistinct : (values inits).Pairwise fun a b => a.1.same b.1 = false) :
    ((values inits).map (·.2)).Nodup ↔ ¬ OrdinalsMeet inits := by
  constructor
  · intro hnodup hmeet
    cases hmeet with
    | @atPlace i j x hplace hgiven hmeet =>
      obtain ⟨y, -, hv⟩ := values_none hinits hplace
      have hsame : i = j :=
        place_unique hnodup (ordinal_getElem? hv) (hmeet ▸ ordinal_getElem? (values_number hinits hgiven))
      rw [hsame, hgiven] at hplace
      cases hplace
    | @atEnd i j x y hlt hx hy hmeet =>
      have hsame : i = j :=
        place_unique hnodup (ordinal_getElem? (values_number hinits hx)) (hmeet ▸ ordinal_getElem? (values_number hinits hy))
      exact Nat.ne_of_lt hlt hsame
  · intro hapart
    refine List.nodup_iff_getElem?_ne_getElem?.mpr fun i j hlt hj => ordinals_ne hinits hdistinct hapart hlt ?_
    rwa [List.length_map, values_length] at hj

end

/-! ## The options of an enum -/

variable {ids : Identity.Strategy} {propertyId : String} {members : List EnumMember}

/-- The options have the values and the ordinals of the initializers. -/
theorem map_ofMembers (ids : Identity.Strategy) (propertyId : String) (members : List EnumMember) :
    (ofMembers ids propertyId members).map (fun o => (o.value, o.ordinal)) = values (members.map (·.init)) := by
  have hlength : (values (members.map (·.init))).length ≤ members.length :=
    Nat.le_of_eq (by rw [values_length, List.length_map])
  rw [ofMembers, List.map_zipWith]
  exact List.map_zipWith.symm.trans (List.map_snd_zip hlength)

theorem ordinals_eq : (ofMembers ids propertyId members).map (·.ordinal) = (values (members.map (·.init))).map (·.2) := by
  rw [← map_ofMembers ids propertyId, List.map_map]
  rfl

/-- In an enum of integers with distinct values the ordinals are distinct exactly where none meet. -/
theorem ordinals_nodup_iff (hinits : ∀ m ∈ members, m.init.Integer)
    (hdistinct : (ofMembers ids propertyId members).Pairwise fun a b => a.value.same b.value = false) :
    ((ofMembers ids propertyId members).map (·.ordinal)).Nodup ↔ ¬ OrdinalsMeet (members.map (·.init)) := by
  have hintegers : ∀ init ∈ members.map (·.init), init.Integer := by
    intro init hinit
    obtain ⟨m, hm, rfl⟩ := List.mem_map.mp hinit
    exact hinits m hm
  have hvalues : (values (members.map (·.init))).Pairwise fun a b => a.1.same b.1 = false := by
    rw [← map_ofMembers ids propertyId]
    exact List.pairwise_map.mpr hdistinct
  rw [ordinals_eq]
  exact values_nodup_iff hintegers hvalues

/-- `Small, Medium = 5, Large`: the last one counts on from `5`, and keeps its place. -/
def sizes : List EnumMember :=
  [⟨"Small", .none, none⟩, ⟨"Medium", .number (.finite false (5 * 2 ^ 50) (-50)), none⟩, ⟨"Large", .none, none⟩]

theorem sizes_keep_apart :
    (ofMembers (.fresh fun text => text) "size" sizes).map (·.ordinal) = [0, 5, 2] ∧ ¬ OrdinalsMeet (sizes.map (·.init)) := by
  have hfive : (Binary64.finite false (5 * 2 ^ 50) (-50)).Whole :=
    .finite (.finite (by decide) (by decide) (by decide) (.inl (by decide))) (by decide +kernel)
  have hinits : ∀ m ∈ sizes, m.init.Integer := by
    simp only [sizes, List.forall_mem_cons]
    exact ⟨.none, .number hfive, .none, List.forall_mem_nil _⟩
  have hdistinct : (ofMembers (.fresh fun text => text) "size" sizes).Pairwise fun a b => a.value.same b.value = false := by
    decide +kernel
  have hordinals : (ofMembers (.fresh fun text => text) "size" sizes).map (·.ordinal) = [0, 5, 2] := by decide +kernel
  exact ⟨hordinals, (ordinals_nodup_iff hinits hdistinct).mp (by rw [hordinals]; decide)⟩

/-- `A = 1, B`: the number of the first is the place of the second. -/
def letters : List EnumMember := [⟨"A", .number (.finite false (2 ^ 52) (-52)), none⟩, ⟨"B", .none, none⟩]

/-- Two options with the values `1` and `2` have the ordinal `1`. -/
theorem a_number_meets_the_next_place :
    (∀ m ∈ letters, m.init.Integer) ∧
    ((ofMembers (.fresh fun text => text) "letter" letters).Pairwise fun a b => a.value.same b.value = false) ∧
    (ofMembers (.fresh fun text => text) "letter" letters).map (·.ordinal) = [1, 1] := by
  have hone : (Binary64.finite false (2 ^ 52) (-52)).Whole :=
    .finite (.finite (by decide) (by decide) (by decide) (.inl (by decide))) (by decide +kernel)
  have hinits : ∀ m ∈ letters, m.init.Integer := by
    simp only [letters, List.forall_mem_cons]
    exact ⟨.number hone, .none, List.forall_mem_nil _⟩
  exact ⟨hinits, by decide +kernel, by decide +kernel⟩

end EnumOption

end PatternCatalog
