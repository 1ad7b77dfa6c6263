/-
  PatternCatalog.Total — totals of natural numbers.
-/

namespace PatternCatalog

def total : List Nat → Nat
  | [] => 0
  | n :: ns => n + total ns

theorem total_nil : total [] = 0 := rfl

theorem total_cons (n : Nat) (ns : List Nat) : total (n :: ns) = n + total ns := rfl

theorem total_append (ms ns : List Nat) : total (ms ++ ns) = total ms + total ns := by
  induction ms with
  | nil => rw [List.nil_append, total_nil, Nat.zero_add]
  | cons m ms ih => rw [List.cons_append, total_cons, total_cons, ih, Nat.add_assoc]

theorem length_flatMap_total {α β : Type} (f : α → List β) (as : List α) :
    (as.flatMap f).length = total (as.map fun a => (f a).length) := by
  induction as with
  | nil => rfl
  | cons a as ih => rw [List.flatMap_cons, List.length_append, List.map_cons, total_cons, ih]

theorem total_map_le {α : Type} {f g : α → Nat} {as : List α} (h : ∀ a ∈ as, f a ≤ g a) :
    total (as.map f) ≤ total (as.map g) := by
  induction as with
  | nil => exact Nat.le_refl _
  | cons a as ih =>
    rw [List.map_cons, List.map_cons, total_cons, total_cons]
    exact Nat.add_le_add (h a List.mem_cons_self) (ih fun b hb => h b (List.mem_cons_of_mem _ hb))

theorem total_map_zipIdx {α : Type} {f : α × Nat → Nat} {g : α → Nat} (hf : ∀ a i, f (a, i) = g a) (as : List α)
    (n : Nat) : total ((as.zipIdx n).map f) = total (as.map g) := by
  induction as generalizing n with
  | nil => rfl
  | cons a as ih => rw [List.zipIdx_cons, List.map_cons, List.map_cons, total_cons, total_cons, hf, ih]

theorem total_set_zero (bs : List Nat) (i : Nat) : total (bs.set i 0) + bs.getD i 0 = total bs := by
  induction bs generalizing i with
  | nil => rfl
  | cons b bs ih =>
    cases i with
    | zero => simp [total, Nat.add_comm]
    | succ i =>
      have h := ih i
      simp only [List.set_cons_succ, total_cons, List.getD_cons_succ]
      omega

/-- A total is at most another one that has a summand as great for each of its own. -/
theorem total_le_total {g : Nat → Nat} (hg : ∀ {i j}, g i = g j → i = j) {as bs : List Nat}
    (h : ∀ i, as.getD i 0 ≤ bs.getD (g i) 0) : total as ≤ total bs := by
  induction as generalizing g bs with
  | nil => exact Nat.zero_le _
  | cons a as ih =>
    have hrest : total as ≤ total (bs.set (g 0) 0) := by
      refine ih (g := fun i => g (i + 1)) (fun hij => Nat.succ.inj (hg hij)) fun i => ?_
      have hne : g 0 ≠ g (i + 1) := fun e => Nat.succ_ne_zero i (hg e).symm
      have hi := h (i + 1)
      rw [List.getD_cons_succ] at hi
      have hset : (bs.set (g 0) 0).getD (g (i + 1)) 0 = bs.getD (g (i + 1)) 0 := by
        simp only [List.getD_eq_getElem?_getD, List.getElem?_set_ne hne]
      rw [hset]
      exact hi
    have hfirst := h 0
    have hsum := total_set_zero bs (g 0)
    rw [List.getD_cons_zero] at hfirst
    rw [total_cons]
    omega

end PatternCatalog
