/-
  PatternCatalog.Proofs.Fuel — evaluations that are cut off at a depth.

  A recursion that may not end is written with fuel, and has no answer when the fuel runs out.
  Among finitely many states an answer needs no more fuel than there are states
  (`Fueled.enough_fuel`). When a state also awaits exactly the states that its recursion goes on
  to (`Awaiting`), the recursion ends from a state exactly when no state that it comes to awaits
  itself (`Awaiting.answered_iff`).
-/

import Mathlib.Data.Fintype.Card
import Mathlib.Data.Set.Finite.Basic
import Mathlib.Logic.Relation

namespace PatternCatalog

variable {σ β : Type} {eval : Nat → σ → Option β} {next : σ → σ → Prop}

/-- An evaluation with fuel goes on to the next states with one unit less. -/
structure Fueled (eval : Nat → σ → Option β) (next : σ → σ → Prop) : Prop where
  zero : ∀ s, eval 0 s = none
  step : ∀ {n m s b}, eval (n + 1) s = some b →
    (∀ t, next s t → ∀ c, eval n t = some c → eval m t = some c) → eval (m + 1) s = some b

namespace Fueled

theorem mono (h : Fueled eval next) {n m : Nat} (hle : n ≤ m) {s : σ} {b : β} (hn : eval n s = some b) :
    eval m s = some b := by
  induction n generalizing m s b with
  | zero => rw [h.zero] at hn; cases hn
  | succ n ih =>
    obtain ⟨m, rfl⟩ : ∃ k, m = k + 1 := ⟨m - 1, by omega⟩
    exact h.step hn fun t _ c hc => ih (by omega) hc

/-- Answers that are found with different fuel are the same. -/
theorem unique (h : Fueled eval next) {n m : Nat} {s : σ} {b c : β} (hn : eval n s = some b) (hm : eval m s = some c) :
    b = c := by
  have hn' := h.mono (Nat.le_max_left n m) hn
  have hm' := h.mono (Nat.le_max_right n m) hm
  exact Option.some.inj (hn'.symm.trans hm')

/-- With a path of states that need more fuel than this one, it needs no more than the states that are left. -/
theorem enough_beside (h : Fueled eval next) {states : List σ} (hclosed : ∀ s ∈ states, ∀ t, next s t → t ∈ states)
    (n : Nat) {path : List σ} (hnodup : path.Nodup) (hpath : path ⊆ states) (hnone : ∀ t ∈ path, eval n t = none)
    {s : σ} (hs : s ∈ states) {b : β} (hb : eval n s = some b) : eval (states.length - path.length) s = some b := by
  induction n generalizing path s b with
  | zero => rw [h.zero] at hb; cases hb
  | succ n ih =>
    have hnone' : ∀ t ∈ path, eval n t = none := by
      intro t ht
      cases hn : eval n t with
      | none => rfl
      | some c =>
        have hsome := h.mono (Nat.le_succ n) hn
        rw [hnone t ht] at hsome
        cases hsome
    cases hn : eval n s with
    | some c =>
      obtain rfl : c = b := Option.some.inj ((h.mono (Nat.le_succ n) hn).symm.trans hb)
      exact ih hnodup hpath hnone' hs hn
    | none =>
      have hnew : s ∉ path := fun hin => by rw [hnone s hin] at hb; cases hb
      have hnodup' : (s :: path).Nodup := List.nodup_cons.mpr ⟨hnew, hnodup⟩
      have hpath' : s :: path ⊆ states := List.cons_subset.mpr ⟨hs, hpath⟩
      have hlength := hnodup'.length_le_of_subset hpath'
      have hnone'' : ∀ t ∈ s :: path, eval n t = none := List.forall_mem_cons.mpr ⟨hn, hnone'⟩
      rw [List.length_cons] at hlength
      obtain ⟨m, hm⟩ : ∃ m, states.length - path.length = m + 1 := ⟨states.length - path.length - 1, by omega⟩
      rw [hm]
      refine h.step hb fun t ht c hc => ?_
      have hleft := ih hnodup' hpath' hnone'' (hclosed s hs t ht) hc
      rw [List.length_cons] at hleft
      have hm' : states.length - (path.length + 1) = m := by omega
      rwa [hm'] at hleft

/-- An evaluation that stays among some states needs no more fuel than there are states. -/
theorem enough_fuel (h : Fueled eval next) {states : List σ} (hclosed : ∀ s ∈ states, ∀ t, next s t → t ∈ states)
    {n : Nat} {s : σ} (hs : s ∈ states) {b : β} (hb : eval n s = some b) : eval states.length s = some b :=
  h.enough_beside hclosed n List.nodup_nil (List.nil_subset _) (fun _ ht => nomatch ht) hs hb

end Fueled

/-! ## States that await themselves -/

/-- An evaluation that has to have an answer for each next state, and then has one. -/
structure Awaiting (eval : Nat → σ → Option β) (next : σ → σ → Prop) : Prop extends Fueled eval next where
  awaits : ∀ {n s b}, eval (n + 1) s = some b → ∀ t, next s t → ∃ c, eval n t = some c
  answers : ∀ {s}, (∀ t, next s t → ∃ n c, eval n t = some c) → ∃ n b, eval n s = some b

namespace Awaiting

/-- Whatever an answered state comes to is answered with less fuel. -/
theorem transGen_answered (h : Awaiting eval next) {s t : σ} (hst : Relation.TransGen next s t) {n : Nat} {b : β}
    (hb : eval (n + 1) s = some b) : ∃ c, eval n t = some c := by
  induction hst with
  | single hnext => exact h.awaits hb _ hnext
  | tail _ hnext ih =>
    obtain ⟨c, hc⟩ := ih
    exact h.awaits (h.mono (Nat.le_succ n) hc) _ hnext

/-- The least fuel for a state that awaits itself would not be the least. -/
theorem not_answered_of_cycle (h : Awaiting eval next) {s : σ} (hcycle : Relation.TransGen next s s) (n : Nat) :
    eval n s = none := by
  induction n with
  | zero => exact h.zero s
  | succ n ih =>
    cases hn : eval (n + 1) s with
    | none => rfl
    | some b =>
      obtain ⟨c, hc⟩ := h.transGen_answered hcycle hn
      rw [ih] at hc
      cases hc

theorem no_cycle_of_answered (h : Awaiting eval next) {s t : σ} (hst : Relation.ReflTransGen next s t) {n : Nat} {b : β}
    (hb : eval n s = some b) : ¬ Relation.TransGen next t t := by
  intro hcycle
  have hnone := h.not_answered_of_cycle hcycle
  rcases Relation.reflTransGen_iff_eq_or_transGen.mp hst with rfl | hst
  · rw [hnone] at hb
    cases hb
  · obtain ⟨c, hc⟩ := h.transGen_answered hst (h.mono (Nat.le_succ n) hb)
    rw [hnone] at hc
    cases hc

/-- Among finitely many states a recursion in which no state awaits itself ends. -/
theorem acc_of_no_cycle {states : List σ} (hclosed : ∀ s ∈ states, ∀ t, next s t → t ∈ states) {s : σ} (hs : s ∈ states)
    (hcycle : ∀ t, Relation.ReflTransGen next s t → ¬ Relation.TransGen next t t) : Acc (fun t u => next u t) s := by
  let Reached := { t // t ∈ states ∧ Relation.ReflTransGen next s t }
  let before (t u : Reached) : Prop := Relation.TransGen next u.1 t.1
  have hfinite : Finite Reached := ((List.finite_toSet states).subset fun _ ht => ht.1).to_subtype
  have htrans : IsTrans Reached before := ⟨fun _ _ _ hab hbc => hbc.trans hab⟩
  have hirrefl : Std.Irrefl before := ⟨fun t => hcycle t.1 t.2.2⟩
  have hwf : WellFounded before := Finite.wellFounded_of_trans_of_irrefl before
  suffices hacc : ∀ t : Reached, Acc (fun t u => next u t) t.1 from hacc ⟨s, hs, .refl⟩
  intro t
  induction t using hwf.induction with
  | h t ih =>
    refine .intro _ fun u hu => ?_
    exact ih ⟨u, hclosed t.1 t.2.1 u hu, t.2.2.tail hu⟩ (.single hu)

theorem answered_of_acc (h : Awaiting eval next) {s : σ} (hacc : Acc (fun t u => next u t) s) : ∃ n b, eval n s = some b := by
  induction hacc with
  | intro s _ ih => exact h.answers ih

/-- Among finitely many states a state has an answer exactly when no state that it comes to awaits itself. -/
theorem answered_iff (h : Awaiting eval next) {states : List σ} (hclosed : ∀ s ∈ states, ∀ t, next s t → t ∈ states) {s : σ}
    (hs : s ∈ states) : (∃ n b, eval n s = some b) ↔ ∀ t, Relation.ReflTransGen next s t → ¬ Relation.TransGen next t t :=
  ⟨fun ⟨_, _, hb⟩ _ hst => h.no_cycle_of_answered hst hb, fun hcycle => h.answered_of_acc (acc_of_no_cycle hclosed hs hcycle)⟩

end Awaiting

end PatternCatalog
