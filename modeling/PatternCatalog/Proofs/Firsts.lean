/-
  PatternCatalog.Proofs.Firsts — the first item of each key in a list.

  Module maps keep the first entry of each id and registries the first component of each
  declaration; both are `firsts` of what they are given. The kept items are a sublist with
  pairwise different keys (`firsts_sublist`, `firsts_nodup`) that leaves out no key
  (`exists_firsts`).
-/

namespace PatternCatalog

/-- The items whose key no item before them has. -/
def firsts {α κ : Type} [DecidableEq κ] (key : α → κ) : List α → List α
  | [] => []
  | a :: as => a :: (firsts key as).filter fun b => key b ≠ key a

section Firsts

variable {α β κ : Type} [DecidableEq κ] (key : α → κ)

theorem firsts_sublist (as : List α) : (firsts key as).Sublist as := by
  induction as with
  | nil => exact List.Sublist.refl _
  | cons a as ih => exact (List.filter_sublist.trans ih).cons_cons a

theorem firsts_nodup (as : List α) : ((firsts key as).map key).Nodup := by
  induction as with
  | nil => exact List.nodup_nil
  | cons a as ih =>
    rw [firsts, List.map_cons, List.nodup_cons]
    refine ⟨fun h => ?_, ih.sublist (List.filter_sublist.map key)⟩
    obtain ⟨b, hb, hkey⟩ := List.mem_map.mp h
    exact absurd hkey (by simpa using (List.mem_filter.mp hb).2)

theorem exists_firsts {as : List α} {a : α} (ha : a ∈ as) : ∃ b ∈ firsts key as, key b = key a := by
  induction as with
  | nil => cases ha
  | cons c as ih =>
    by_cases hk : key c = key a
    · exact ⟨c, List.mem_cons_self, hk⟩
    · rcases List.mem_cons.mp ha with rfl | ha
      · exact absurd rfl hk
      · obtain ⟨b, hb, hba⟩ := ih ha
        refine ⟨b, List.mem_cons_of_mem _ (List.mem_filter.mpr ⟨hb, ?_⟩), hba⟩
        simpa [hba] using fun h => hk h.symm

/-- The first item of a key is what a search for the key finds. -/
theorem find?_of_mem_firsts {as : List α} {a : α} (h : a ∈ firsts key as) : as.find? (fun b => key b == key a) = some a := by
  induction as with
  | nil => cases h
  | cons c as ih =>
    rw [List.find?_cons]
    rcases List.mem_cons.mp h with rfl | h
    · rw [beq_self_eq_true]
    · obtain ⟨ha, hkey⟩ := List.mem_filter.mp h
      have hne : key c ≠ key a := fun e => of_decide_eq_true hkey e.symm
      rw [beq_eq_false_iff_ne.mpr hne]
      exact ih ha

theorem firsts_eq_self {as : List α} (h : (as.map key).Nodup) : firsts key as = as := by
  induction as with
  | nil => rfl
  | cons a as ih =>
    rw [List.map_cons, List.nodup_cons] at h
    rw [firsts, ih h.2, List.filter_eq_self.mpr]
    intro b hb
    simpa using fun e => h.1 (List.mem_map.mpr ⟨b, hb, e⟩)

theorem firsts_map (f : β → α) (bs : List β) : firsts key (bs.map f) = (firsts (fun b => key (f b)) bs).map f := by
  induction bs with
  | nil => rfl
  | cons b bs ih =>
    rw [List.map_cons, firsts, ih, firsts, List.map_cons, List.filter_map]
    rfl

theorem firsts_append (as bs : List α) :
    firsts key (as ++ bs) = firsts key as ++ (firsts key bs).filter fun b => key b ∉ as.map key := by
  induction as with
  | nil => exact (List.filter_eq_self.mpr fun b _ => by simp).symm
  | cons a as ih =>
    rw [List.cons_append, firsts, ih, List.filter_append, List.filter_filter, firsts, List.cons_append]
    refine congrArg (fun rest => a :: (_ ++ rest)) (List.filter_congr fun b _ => ?_)
    simp

/-- Besides keys that are there already, an item with one of them counts for nothing. -/
theorem filter_firsts_of_mem {seen : List κ} {a : α} (h : key a ∈ seen) (as : List α) :
    (firsts key (a :: as)).filter (fun b => key b ∉ seen) = (firsts key as).filter fun b => key b ∉ seen := by
  rw [firsts, List.filter_cons_of_neg (by simpa using h), List.filter_filter]
  refine List.filter_congr fun b _ => ?_
  by_cases hb : key b = key a
  · simp [hb, h]
  · simp [hb]

/-- An item with a new key is kept, and its key is there for the items after it. -/
theorem filter_firsts_of_notMem {seen seen' : List κ} {a : α} (h : key a ∉ seen)
    (hseen : ∀ k, k ∈ seen' ↔ k = key a ∨ k ∈ seen) (as : List α) :
    (firsts key (a :: as)).filter (fun b => key b ∉ seen) = a :: (firsts key as).filter fun b => key b ∉ seen' := by
  rw [firsts, List.filter_cons_of_pos (by simpa using h), List.filter_filter]
  refine congrArg (a :: ·) (List.filter_congr fun b _ => ?_)
  simp only [hseen, not_or, Bool.decide_and, Bool.and_comm, ne_eq]

/-- Leaving out keys and keeping first items come to the same in either order. -/
theorem firsts_filter (p : κ → Bool) (as : List α) :
    firsts key (as.filter fun a => p (key a)) = (firsts key as).filter fun a => p (key a) := by
  induction as with
  | nil => rfl
  | cons a as ih =>
    rw [List.filter_cons, firsts, List.filter_cons, List.filter_filter, ← Bool.cond_eq_ite, ← Bool.cond_eq_ite]
    cases ha : p (key a) with
    | true =>
      rw [cond_true, firsts, ih, List.filter_filter, cond_true]
      exact congrArg (a :: ·) (List.filter_congr fun b _ => Bool.and_comm _ _)
    | false =>
      rw [cond_false, ih, cond_false]
      refine List.filter_congr fun b _ => ?_
      by_cases hb : key b = key a <;> simp [hb, ha]

/-- A search for a key finds the same item among the first ones. -/
theorem find?_firsts (k : κ) (as : List α) : (firsts key as).find? (fun a => key a == k) = as.find? fun a => key a == k := by
  induction as with
  | nil => rfl
  | cons a as ih =>
    rw [firsts, List.find?_cons, List.find?_cons, List.find?_filter, ← ih]
    by_cases ha : key a = k
    · simp [ha]
    · rw [beq_eq_false_iff_ne.mpr ha]
      refine congrArg (List.find? · _) (funext fun b => ?_)
      by_cases hb : key b = k
      · simp [hb, Ne.symm ha]
      · simp [hb]

/-- Keys that tell the same items apart have the same first items. -/
theorem firsts_congr (key' : α → κ) {as : List α}
    (h : ∀ a ∈ as, ∀ b ∈ as, key a = key b ↔ key' a = key' b) : firsts key as = firsts key' as := by
  induction as with
  | nil => rfl
  | cons a as ih =>
    have hrest := ih fun x hx y hy => h x (List.mem_cons_of_mem _ hx) y (List.mem_cons_of_mem _ hy)
    rw [firsts, firsts, hrest]
    refine congrArg (a :: ·) (List.filter_congr fun b hb => ?_)
    have hb' := List.mem_cons_of_mem a ((firsts_sublist key' as).subset hb)
    simp [h b hb' a List.mem_cons_self]

end Firsts

/-- Items of one key are one item where all keys differ. -/
theorem filter_key_eq {α κ : Type} (key : α → κ) {as : List α} (h : (as.map key).Nodup) {a : α} (ha : a ∈ as) {p : α → Bool}
    (hp : ∀ b ∈ as, p b = true ↔ key b = key a) : as.filter p = [a] := by
  induction as with
  | nil => cases ha
  | cons b as ih =>
    rw [List.map_cons, List.nodup_cons] at h
    have hrest : ∀ c ∈ as, p c = true ↔ key c = key a := fun c hc => hp c (List.mem_cons_of_mem _ hc)
    rcases List.mem_cons.mp ha with rfl | ha
    · have hnone : as.filter p = [] := by
        rw [List.filter_eq_nil_iff]
        intro c hc hpc
        exact h.1 (List.mem_map.mpr ⟨c, hc, (hrest c hc).mp hpc⟩)
      rw [List.filter_cons_of_pos ((hp a List.mem_cons_self).mpr rfl), hnone]
    · have hb : ¬ p b = true := fun hpb =>
        h.1 (List.mem_map.mpr ⟨a, ha, ((hp b List.mem_cons_self).mp hpb).symm⟩)
      rw [List.filter_cons_of_neg hb, ih h.2 ha hrest]

theorem find?_key {α κ : Type} [BEq κ] [LawfulBEq κ] (key : α → κ) {as : List α} (h : (as.map key).Nodup) {a : α}
    (ha : a ∈ as) : (as.find? fun b => key b == key a) = some a := by
  have hfilter := filter_key_eq key h ha (p := fun b => key b == key a) fun b _ => beq_iff_eq
  rw [← List.head?_filter, hfilter]
  rfl

/-- Where all items of some lists differ, an item is in one list only. -/
theorem eq_of_mem_flatMap {α β : Type} {g : α → List β} {as : List α} (h : (as.flatMap g).Nodup) {a a' : α} {b : β}
    (ha : a ∈ as) (ha' : a' ∈ as) (hb : b ∈ g a) (hb' : b ∈ g a') : a = a' := by
  induction as with
  | nil => cases ha
  | cons c as ih =>
    rw [List.flatMap_cons, List.nodup_append] at h
    obtain ⟨-, hrest, hdisjoint⟩ := h
    have hin : ∀ {x}, x ∈ as → b ∈ g x → b ∈ as.flatMap g := fun hx hbx => List.mem_flatMap.mpr ⟨_, hx, hbx⟩
    rcases List.mem_cons.mp ha with hac | hmem
    · rcases List.mem_cons.mp ha' with hac' | hmem'
      · rw [hac, hac']
      · exact absurd rfl (hdisjoint b (hac ▸ hb) b (hin hmem' hb'))
    · rcases List.mem_cons.mp ha' with hac' | hmem'
      · exact absurd rfl (hdisjoint b (hac' ▸ hb') b (hin hmem hb))
      · exact ih hrest hmem hmem'

end PatternCatalog
