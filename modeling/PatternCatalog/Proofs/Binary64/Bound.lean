/-
  PatternCatalog.Proofs.Binary64.Bound — numbers that are not too large to be finite.

  A quotient below a power of two rounds to a finite number that is at most that power
  (`AtMost.ofRatio`), as long as the power is far from the end of the range. So whole numbers of 64
  bits are finite, and dividing by a number of at least one keeps numbers finite (`AtMost.div`).
-/

import Mathlib.Algebra.Group.Nat.Defs
import PatternCatalog.Binary64

namespace PatternCatalog.Binary64

/-- A finite number of a magnitude up to `2^k`, counted in the least numbers there are. -/
inductive AtMost (k : Nat) : Binary64 → Prop
  | finite {s m e} (hleast : -1074 ≤ e) (hbound : m * 2 ^ (e + 1074).toNat ≤ 2 ^ (k + 1074)) : AtMost k (.finite s m e)

theorem AtMost.isFinite {k : Nat} {x : Binary64} (h : AtMost k x) : x.isFinite = true := by
  cases h
  rfl

theorem AtMost.neg {k : Nat} {x : Binary64} (h : AtMost k x) : AtMost k x.neg := by
  cases h with
  | finite hleast hbound => exact .finite hleast hbound

theorem atMost_zero (k : Nat) (negative : Bool) : AtMost k (zero negative) :=
  .finite (Int.le_refl _) (by rw [Nat.zero_mul]; exact Nat.zero_le _)

/-- The exponent of a quotient below `2^k`. -/
theorem exponentFor_le {num den k : Nat} (hlt : num < den * 2 ^ k) :
    -1074 ≤ exponentFor num den ∧ exponentFor num den ≤ max ((k : Int) - 52) (-1074) := by
  have hlog : num.log2 ≤ den.log2 + k := by
    by_cases hnum : num = 0
    · subst hnum
      simp
    · refine Nat.lt_succ_iff.mp ((Nat.log2_lt hnum).mpr ?_)
      calc num
        _ < den * 2 ^ k := hlt
        _ ≤ 2 ^ (den.log2 + 1) * 2 ^ k := Nat.mul_le_mul_right _ (Nat.le_of_lt Nat.lt_log2_self)
        _ = 2 ^ (den.log2 + k + 1) := by rw [← Nat.pow_add]; congr 1; omega
  unfold exponentFor
  dsimp only
  split
  · omega
  · omega

theorem scaleDown_div_lt {num den k : Nat} {e : Int} (hlt : num < den * 2 ^ k) (he : e ≤ k) :
    (scaleDown num den e).1 / (scaleDown num den e).2 < 2 ^ ((k : Int) - e).toNat := by
  unfold scaleDown
  split
  · next hpos =>
    have hsplit : 2 ^ k = 2 ^ e.toNat * 2 ^ ((k : Int) - e).toNat := by
      rw [← Nat.pow_add]
      congr 1
      omega
    rw [Nat.pow_eq]
    refine Nat.div_lt_of_lt_mul ?_
    rwa [Nat.mul_assoc, ← hsplit]
  · next hneg =>
    have hsplit : 2 ^ ((k : Int) - e).toNat = 2 ^ k * 2 ^ (-e).toNat := by
      rw [← Nat.pow_add]
      congr 1
      omega
    rw [Nat.pow_eq]
    refine Nat.div_lt_of_lt_mul ?_
    rw [hsplit, ← Nat.mul_assoc]
    exact Nat.mul_lt_mul_of_pos_right hlt (Nat.two_pow_pos _)

theorem roundDiv_le (num den : Nat) : roundDiv num den ≤ num / den + 1 := by
  unfold roundDiv
  dsimp only
  split
  · omega
  split
  · omega
  · omega

/-- A quotient below `2^k` rounds to a finite number of at most `2^k`. -/
theorem AtMost.ofRatio {num den k : Nat} (hk : k ≤ 1022) (hlt : num < den * 2 ^ k) (negative : Bool) :
    AtMost k (ofRatio negative num den) := by
  unfold Binary64.ofRatio
  split
  · exact atMost_zero k negative
  · obtain ⟨hleast, hle⟩ := exponentFor_le hlt
    have hdiv := scaleDown_div_lt (e := exponentFor num den) hlt (by omega)
    have hround := roundDiv_le (scaleDown num den (exponentFor num den)).1 (scaleDown num den (exponentFor num den)).2
    generalize exponentFor num den = e at hleast hle hdiv hround ⊢
    dsimp only
    generalize roundDiv (scaleDown num den e).1 (scaleDown num den e).2 = m at hround ⊢
    have hbound : m * 2 ^ (e + 1074).toNat ≤ 2 ^ (k + 1074) := by
      calc m * 2 ^ (e + 1074).toNat
        _ ≤ 2 ^ ((k : Int) - e).toNat * 2 ^ (e + 1074).toNat := Nat.mul_le_mul_right _ (by omega)
        _ = 2 ^ (k + 1074) := by rw [← Nat.pow_add]; congr 1; omega
    by_cases hcarry : m = Nat.pow 2 53
    · rw [if_pos hcarry]
      dsimp only
      rw [if_neg (by omega)]
      refine .finite (by omega) ?_
      -- half the mantissa at the next exponent is the same number
      have hnext : (e + 1 + 1074).toNat = (e + 1074).toNat + 1 := by omega
      have hhalf : Nat.pow 2 53 = Nat.pow 2 52 * 2 := by decide
      rw [hnext, Nat.pow_succ, Nat.mul_comm (2 ^ _) 2, ← Nat.mul_assoc, ← hhalf, ← hcarry]
      exact hbound
    · rw [if_neg hcarry]
      dsimp only
      rw [if_neg (by omega)]
      exact .finite hleast hbound

theorem AtMost.ofNat {n k : Nat} (hk : k ≤ 1022) (hn : n < 2 ^ k) : AtMost k (ofNat n) :=
  .ofRatio hk (by rwa [Nat.one_mul]) false

/-- The magnitude of a number as a quotient. -/
theorem ratio_le {m k : Nat} {e : Int} (hleast : -1074 ≤ e) (hbound : m * 2 ^ (e + 1074).toNat ≤ 2 ^ (k + 1074)) :
    (ratio m e).1 ≤ (ratio m e).2 * 2 ^ k := by
  unfold ratio
  split
  · next hpos =>
    have hsplit : (e + 1074).toNat = e.toNat + 1074 := by omega
    rw [hsplit, Nat.pow_add, Nat.pow_add, ← Nat.mul_assoc] at hbound
    rw [Nat.one_mul, Nat.pow_eq]
    exact Nat.le_of_mul_le_mul_right hbound (Nat.two_pow_pos 1074)
  · next hneg =>
    have hsplit : 1074 = (e + 1074).toNat + (-e).toNat := by omega
    have hpow : 2 ^ (k + 1074) = 2 ^ (-e).toNat * 2 ^ k * 2 ^ (e + 1074).toNat := by
      rw [← Nat.pow_add, ← Nat.pow_add]
      congr 1
      omega
    rw [hpow] at hbound
    exact Nat.le_of_mul_le_mul_right hbound (Nat.two_pow_pos _)

theorem ratio_pos (m : Nat) (e : Int) : 0 < (ratio m e).2 := by
  unfold ratio
  split
  · exact Nat.one_pos
  · exact Nat.two_pow_pos _

/-- A positive number of at least one. -/
def isLarge : Binary64 → Bool
  | .finite false m e => m != 0 && decide ((ratio m e).2 ≤ (ratio m e).1)
  | _ => false

/-- Dividing by a number of at least one keeps a number in bounds. -/
theorem AtMost.div {k : Nat} {x y : Binary64} (hk : k + 1 ≤ 1022) (hx : AtMost k x) (hy : y.isLarge = true) :
    AtMost (k + 1) (x.div y) := by
  obtain @⟨s, m, e, hleast, hbound⟩ := hx
  match y, hy with
  | .finite false 0 f, hy => cases hy
  | .finite false (n + 1) f, hy =>
    rw [isLarge, Bool.and_eq_true, decide_eq_true_eq] at hy
    have hx := ratio_le hleast hbound
    have hb := ratio_pos m e
    have hd := ratio_pos (n + 1) f
    have hpos : 0 < (ratio m e).2 * (ratio (n + 1) f).1 := Nat.mul_pos hb (Nat.lt_of_lt_of_le hd hy.2)
    have hlt : (ratio m e).1 * (ratio (n + 1) f).2 < (ratio m e).2 * (ratio (n + 1) f).1 * 2 ^ (k + 1) := by
      calc (ratio m e).1 * (ratio (n + 1) f).2
        _ ≤ (ratio m e).2 * 2 ^ k * (ratio (n + 1) f).1 := Nat.mul_le_mul hx hy.2
        _ = (ratio m e).2 * (ratio (n + 1) f).1 * 2 ^ k := Nat.mul_right_comm _ _ _
        _ < (ratio m e).2 * (ratio (n + 1) f).1 * 2 ^ (k + 1) :=
          Nat.mul_lt_mul_of_pos_left (Nat.pow_lt_pow_right (by decide) (Nat.lt_succ_self k)) hpos
    exact AtMost.ofRatio hk hlt _

end PatternCatalog.Binary64
