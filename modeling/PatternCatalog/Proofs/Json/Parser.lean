/-
  PatternCatalog.Proofs.Json.Parser — the numbers that JSON text can say.

  A whole number that is read fits 64 bits, and any other is finite (`parse?_sayable`). Dropping
  repeated fields leaves no other numbers (`canonical_scalars`), so a value that is read from a
  text is written as it is (`written_eq_self`).
-/

import PatternCatalog.Proofs.Binary64.Bound
import PatternCatalog.Proofs.Json.Record

namespace PatternCatalog.Json

open Binary64

/-- A number that JSON text can say. -/
def Sayable : Json → Prop
  | .int n => IsWord n
  | .float x => x.isFinite = true
  | _ => True

theorem hasWords_of_sayable {v : Json} (h : ∀ s ∈ v.scalars, s.Sayable) : v.HasWords := fun n hn => h (.int n) hn

/-! ## Numbers -/

theorem takeWord_le {n : Nat} (hn : n ≤ maxWord) (ds : List Char) : (takeWord n ds).1 ≤ maxWord := by
  induction ds generalizing n with
  | nil => exact hn
  | cons c ds ih =>
    rw [takeWord]
    split
    · exact hn
    · exact ih (by omega)

theorem atMost_word {n : Nat} (hn : n ≤ maxWord) : AtMost 64 (ofNat n) := by
  have hmax : maxWord = 2 ^ 64 - 1 := by decide
  exact .ofNat (by decide) (by omega)

theorem powerOfTen_large : ∀ k < 309, (powerOfTen k).isLarge = true := by decide +kernel

/-- Each step of scaling at most doubles the bound. -/
theorem scale_isFinite {steps k : Nat} (hk : k + steps ≤ 1022) {x : Binary64} (hx : AtMost k x) {e : Int} {y : Binary64}
    (h : scale steps x e = some y) : y.isFinite = true := by
  induction steps generalizing k x e with
  | zero =>
    obtain rfl := Option.some.inj h
    exact hx.isFinite
  | succ steps ih =>
    rw [scale] at h
    dsimp only at h
    split at h
    · next hsmall =>
      split at h
      · split at h
        · next hfinite => exact Option.some.inj h ▸ hfinite
        · cases h
      · have hdiv := hx.div (by omega) (powerOfTen_large e.natAbs (by omega))
        exact Option.some.inj h ▸ hdiv.isFinite
    · split at h
      · exact Option.some.inj h ▸ hx.isFinite
      split at h
      · cases h
      · exact ih (by omega) (hx.div (by omega) (powerOfTen_large 308 (by decide))) h

theorem floatOfParts_isFinite {negative : Bool} {whole part : List Char} {e : Int} {x : Binary64}
    (h : floatOfParts negative whole part e = some x) : x.isFinite = true := by
  obtain ⟨y, hy, rfl⟩ := Option.map_eq_some_iff.mp h
  have hword := takeWord_le (takeWord_le (Nat.zero_le maxWord) whole) part
  have hfinite := scale_isFinite (by decide) (atMost_word hword) hy
  cases negative with
  | false => exact hfinite
  | true =>
    cases y with
    | finite s m e => rfl
    | nan => cases hfinite
    | infinite s => cases hfinite

/-- What is read of a number is a scalar, and one that text can say. -/
theorem sayable_int {n : Int} (hn : IsWord n) : ∀ s ∈ (Json.int n).scalars, s.Sayable := by
  intro s hs
  obtain rfl := List.mem_singleton.mp hs
  exact hn

theorem sayable_float {x : Binary64} (hx : x.isFinite = true) : ∀ s ∈ (Json.float x).scalars, s.Sayable := by
  intro s hs
  obtain rfl := List.mem_singleton.mp hs
  exact hx

theorem wholeNumber_sayable {negative : Bool} {digits : List Char} {v : Json} (h : wholeNumber negative digits = some v) :
    ∀ s ∈ v.scalars, s.Sayable := by
  have hpow63 : Int.pow 2 63 = 9223372036854775808 := by decide
  have hpow64 : Int.pow 2 64 = 18446744073709551616 := by decide
  have hmax : maxWord = 18446744073709551615 := by decide
  have hhalf : Nat.pow 2 63 = 9223372036854775808 := by decide
  unfold wholeNumber at h
  dsimp only at h
  split at h
  · next hword =>
    obtain rfl := Option.some.inj h
    have hle : natOfDigits digits ≤ maxWord := by simpa using (Bool.and_eq_true_iff.mp hword).2
    exact sayable_int ⟨by omega, by omega⟩
  split at h
  · next hword =>
    obtain rfl := Option.some.inj h
    have hle : natOfDigits digits ≤ Nat.pow 2 63 := by simpa using (Bool.and_eq_true_iff.mp hword).2
    exact sayable_int ⟨by omega, by omega⟩
  split at h
  · next hword =>
    obtain rfl := Option.some.inj h
    exact sayable_float (atMost_word hword).neg.isFinite
  · obtain ⟨x, hx, rfl⟩ := Option.map_eq_some_iff.mp h
    exact sayable_float (floatOfParts_isFinite hx)

theorem unsigned?_sayable {negative : Bool} {s left : List Char} {v : Json} (h : unsigned? negative s = some (v, left)) :
    ∀ s ∈ v.scalars, s.Sayable := by
  unfold unsigned? at h
  dsimp only at h
  split at h
  · cases h
  split at h
  · split at h
    · cases h
    · obtain ⟨⟨e, rest⟩, -, h⟩ := Option.bind_eq_some_iff.mp h
      obtain ⟨x, hx, h⟩ := Option.bind_eq_some_iff.mp h
      obtain ⟨rfl, -⟩ := Prod.mk.inj (Option.some.inj h)
      exact sayable_float (floatOfParts_isFinite hx)
  · obtain ⟨⟨e, rest⟩, -, h⟩ := Option.bind_eq_some_iff.mp h
    cases e with
    | some e =>
      obtain ⟨x, hx, h⟩ := Option.bind_eq_some_iff.mp h
      obtain ⟨rfl, -⟩ := Prod.mk.inj (Option.some.inj h)
      exact sayable_float (floatOfParts_isFinite hx)
    | none =>
      obtain ⟨w, hw, h⟩ := Option.bind_eq_some_iff.mp h
      obtain ⟨rfl, -⟩ := Prod.mk.inj (Option.some.inj h)
      exact wholeNumber_sayable hw

theorem number?_sayable {s left : List Char} {v : Json} (h : number? s = some (v, left)) : ∀ s ∈ v.scalars, s.Sayable := by
  unfold number? at h
  split at h
  · exact unsigned?_sayable h
  · exact unsigned?_sayable h

theorem keyword?_eq_some {word : String} {v w : Json} {s left : List Char} (h : keyword? word v s = some (w, left)) : w = v := by
  unfold keyword? at h
  split at h
  · exact (Prod.mk.inj (Option.some.inj h)).1.symm
  · cases h

/-! ## Values -/

/-- What is read with some fuel says only numbers that text can say. -/
structure ReadsSayable (fuel : Nat) : Prop where
  value : ∀ {depth s v left}, value? fuel depth s = some (v, left) → ∀ t ∈ v.scalars, t.Sayable
  items : ∀ {depth s vs left}, items? fuel depth s = some (vs, left) → ∀ v ∈ vs, ∀ t ∈ v.scalars, t.Sayable
  fields : ∀ {depth s fs left}, fields? fuel depth s = some (fs, left) → ∀ f ∈ fs, ∀ t ∈ f.2.scalars, t.Sayable

theorem sayable_array {vs : List Json} (h : ∀ v ∈ vs, ∀ t ∈ v.scalars, t.Sayable) :
    ∀ t ∈ (Json.array vs).scalars, t.Sayable := by
  intro t ht
  rw [scalars_array] at ht
  obtain ⟨v, hv, ht⟩ := List.mem_flatMap.mp ht
  exact h v hv t ht

theorem sayable_object {fs : List (String × Json)} (h : ∀ f ∈ fs, ∀ t ∈ f.2.scalars, t.Sayable) :
    ∀ t ∈ (Json.object fs).scalars, t.Sayable := by
  intro t ht
  rw [scalars_object] at ht
  obtain ⟨f, hf, ht⟩ := List.mem_flatMap.mp ht
  exact h f hf t ht

theorem ReadsSayable.value_step {fuel : Nat} (h : ReadsSayable fuel) {depth : Nat} {s left : List Char} {v : Json}
    (hv : value? (fuel + 1) depth s = some (v, left)) : ∀ t ∈ v.scalars, t.Sayable := by
  have hplain : ∀ w : Json, (w.scalars = [w]) → w.Sayable → ∀ t ∈ w.scalars, t.Sayable := by
    intro w hw hsay t ht
    rw [hw] at ht
    obtain rfl := List.mem_singleton.mp ht
    exact hsay
  rw [value?] at hv
  split at hv
  · cases hv
  split at hv
  · obtain ⟨⟨body, rest⟩, -, hv⟩ := Option.map_eq_some_iff.mp hv
    obtain ⟨rfl, -⟩ := Prod.mk.inj hv
    exact hplain _ rfl trivial
  split at hv
  · split at hv
    · cases hv
    split at hv
    · obtain ⟨rfl, -⟩ := Prod.mk.inj (Option.some.inj hv)
      exact fun t ht => absurd ht List.not_mem_nil
    · obtain ⟨⟨vs, rest⟩, hvs, hv⟩ := Option.map_eq_some_iff.mp hv
      obtain ⟨rfl, -⟩ := Prod.mk.inj hv
      exact sayable_array (h.items hvs)
  split at hv
  · split at hv
    · cases hv
    split at hv
    · cases hv
    split at hv
    · obtain ⟨rfl, -⟩ := Prod.mk.inj (Option.some.inj hv)
      exact fun t ht => absurd ht List.not_mem_nil
    · obtain ⟨⟨fs, rest⟩, hfs, hv⟩ := Option.map_eq_some_iff.mp hv
      obtain ⟨rfl, -⟩ := Prod.mk.inj hv
      exact sayable_object (h.fields hfs)
  split at hv
  · obtain rfl := keyword?_eq_some hv
    exact hplain _ rfl trivial
  split at hv
  · obtain rfl := keyword?_eq_some hv
    exact hplain _ rfl trivial
  split at hv
  · obtain rfl := keyword?_eq_some hv
    exact hplain _ rfl trivial
  · exact number?_sayable hv

theorem ReadsSayable.items_step {fuel : Nat} (h : ReadsSayable fuel) {depth : Nat} {s left : List Char} {vs : List Json}
    (hvs : items? (fuel + 1) depth s = some (vs, left)) : ∀ v ∈ vs, ∀ t ∈ v.scalars, t.Sayable := by
  rw [items?] at hvs
  split at hvs
  · cases hvs
  · next v rest hv =>
    have hfirst := h.value hv
    split at hvs
    · obtain ⟨⟨others, rest'⟩, hothers, hvs⟩ := Option.map_eq_some_iff.mp hvs
      obtain ⟨rfl, -⟩ := Prod.mk.inj hvs
      exact List.forall_mem_cons.mpr ⟨hfirst, h.items hothers⟩
    · obtain ⟨rfl, -⟩ := Prod.mk.inj (Option.some.inj hvs)
      exact List.forall_mem_singleton.mpr hfirst
    · cases hvs

theorem ReadsSayable.fields_step {fuel : Nat} (h : ReadsSayable fuel) {depth : Nat} {s left : List Char}
    {fs : List (String × Json)} (hfs : fields? (fuel + 1) depth s = some (fs, left)) :
    ∀ f ∈ fs, ∀ t ∈ f.2.scalars, t.Sayable := by
  rw [fields?] at hfs
  split at hfs
  · split at hfs
    · cases hfs
    split at hfs
    · split at hfs
      · cases hfs
      · next v rest hv =>
        have hfirst := h.value hv
        split at hfs
        · split at hfs
          · obtain ⟨⟨others, rest'⟩, hothers, hfs⟩ := Option.map_eq_some_iff.mp hfs
            obtain ⟨rfl, -⟩ := Prod.mk.inj hfs
            exact List.forall_mem_cons.mpr ⟨hfirst, h.fields hothers⟩
          split at hfs
          · obtain ⟨rfl, -⟩ := Prod.mk.inj (Option.some.inj hfs)
            exact List.forall_mem_singleton.mpr hfirst
          · cases hfs
        · cases hfs
    · cases hfs
  · cases hfs

theorem readsSayable (fuel : Nat) : ReadsSayable fuel := by
  induction fuel with
  | zero => exact ⟨(fun h => nomatch h), (fun h => nomatch h), (fun h => nomatch h)⟩
  | succ fuel ih => exact ⟨ih.value_step, ih.items_step, ih.fields_step⟩

/-- The numbers of a value that is read from a text are whole numbers of 64 bits and finite ones. -/
theorem parse?_sayable {text : String} {v : Json} (h : parse? text = some v) : ∀ s ∈ v.scalars, s.Sayable := by
  unfold parse? at h
  dsimp only at h
  split at h
  · next w left hw =>
    split at h
    · obtain rfl := Option.some.inj h
      exact (readsSayable _).value hw
    · cases h
  · cases h

/-! ## Without repeated fields -/

theorem dropRepeated_subset (fields : List (String × Json)) : dropRepeated fields ⊆ fields := by
  induction fields with
  | nil => exact List.Subset.refl _
  | cons f fs ih =>
    rw [dropRepeated]
    split
    · exact List.subset_cons_of_subset f ih
    · exact List.cons_subset_cons f ih

mutual

theorem canonical_scalars : (v : Json) → v.canonical.scalars ⊆ v.scalars
  | .array items => by
    rw [canonical, scalars, scalars]
    exact canonicalItems_scalars items
  | .object fields => by
    rw [canonical, scalars_object, scalars_object]
    intro t ht
    obtain ⟨f, hf, ht⟩ := List.mem_flatMap.mp ht
    exact canonicalFields_scalars fields (List.mem_flatMap.mpr ⟨f, dropRepeated_subset _ hf, ht⟩)
  | .null | .bool _ | .int _ | .float _ | .string _ => List.Subset.refl _

theorem canonicalItems_scalars : (vs : List Json) → scalarsOfItems (canonicalItems vs) ⊆ scalarsOfItems vs
  | [] => List.Subset.refl _
  | v :: vs => by
    rw [canonicalItems, scalarsOfItems, scalarsOfItems]
    exact List.append_subset.mpr ⟨List.subset_append_of_subset_left _ (canonical_scalars v),
      List.subset_append_of_subset_right _ (canonicalItems_scalars vs)⟩

theorem canonicalFields_scalars : (fs : List (String × Json)) →
    (canonicalFields fs).flatMap (·.2.scalars) ⊆ fs.flatMap (·.2.scalars)
  | [] => List.Subset.refl _
  | (name, v) :: fs => by
    rw [canonicalFields, List.flatMap_cons, List.flatMap_cons]
    exact List.append_subset.mpr ⟨List.subset_append_of_subset_left _ (canonical_scalars v),
      List.subset_append_of_subset_right _ (canonicalFields_scalars fs)⟩

end

mutual

/-- A value of numbers that text can say is written as it is. -/
theorem written_eq_self : (v : Json) → (∀ s ∈ v.scalars, s.Sayable) → v.written = v
  | .float x, h => if_pos (h _ List.mem_cons_self)
  | .array items, h => by rw [written, writtenItems_eq_self items h]
  | .object fields, h => by rw [written, writtenFields_eq_self fields h]
  | .null, _ | .bool _, _ | .int _, _ | .string _, _ => rfl

theorem writtenItems_eq_self : (vs : List Json) → (∀ s ∈ scalarsOfItems vs, s.Sayable) → writtenItems vs = vs
  | [], _ => rfl
  | v :: vs, h => by
    rw [writtenItems, written_eq_self v fun s hs => h s (List.mem_append_left _ hs),
      writtenItems_eq_self vs fun s hs => h s (List.mem_append_right _ hs)]

theorem writtenFields_eq_self : (fs : List (String × Json)) → (∀ s ∈ scalarsOfFields fs, s.Sayable) →
    writtenFields fs = fs
  | [], _ => rfl
  | (name, v) :: fs, h => by
    rw [writtenFields, written_eq_self v fun s hs => h s (List.mem_append_left _ hs),
      writtenFields_eq_self fs fun s hs => h s (List.mem_append_right _ hs)]

end

end PatternCatalog.Json
