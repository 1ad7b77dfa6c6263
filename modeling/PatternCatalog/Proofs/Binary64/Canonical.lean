/-
  PatternCatalog.Proofs.Binary64.Canonical — each number has one form.

  Rounding a quotient picks the exponent at which the mantissa has 53 bits, or the least exponent
  (`exponentFor_spec`), so what it gives is in the one form of its number (`canonical_ofRatio`), and
  sums are (`canonical_add`). In this form numbers of one magnitude have one mantissa and one
  exponent (`eq_of_units`), and there are at most `2^64` numbers (`length_le_of_distinct`).

  A whole number is its integer part, so whole numbers that are cut off to the same 64-bit integer
  are equal, unless it is the least or the greatest one (`eqv_of_truncate`).
-/

import Mathlib.Data.Bool.Basic
import Mathlib.Data.List.Perm.Subperm
import PatternCatalog.Proofs.Binary64.Bound

namespace PatternCatalog.Binary64

/-- The one form of a number: a mantissa of 53 bits, or of fewer at the least exponent. -/
inductive Canonical : Binary64 → Prop
  | infinite (s : Bool) : Canonical (.infinite s)
  | finite {s m e} (hleast : -1074 ≤ e) (hmost : e ≤ 971) (hmantissa : m < 2 ^ 53) (hnormal : 2 ^ 52 ≤ m ∨ e = -1074) :
      Canonical (.finite s m e)

theorem canonical_zero (negative : Bool) : Canonical (zero negative) :=
  .finite (Int.le_refl _) (by decide) (by decide) (.inr rfl)

/-! ## Quotients and powers of two -/

/-- A quotient is less than `2^k`. -/
def Below (num den : Nat) (k : Int) : Prop := num * 2 ^ (-k).toNat < den * 2 ^ k.toNat

section

variable {num den : Nat}

theorem below_iff {a b : Nat} {k : Int} (h : (b : Int) - a = k) : Below num den k ↔ num * 2 ^ a < den * 2 ^ b := by
  obtain ⟨t, ha, hb⟩ : ∃ t, a = (-k).toNat + t ∧ b = k.toNat + t := ⟨a - (-k).toNat, by omega, by omega⟩
  rw [ha, hb, Nat.pow_add, Nat.pow_add, ← Nat.mul_assoc, ← Nat.mul_assoc, Nat.mul_lt_mul_right (Nat.two_pow_pos t)]
  rfl

theorem Below.mono {k l : Int} (h : Below num den k) (hkl : k ≤ l) : Below num den l := by
  have hk : num * 2 ^ (-k).toNat < den * 2 ^ k.toNat := h
  rw [below_iff (a := (-k).toNat) (b := k.toNat + (l - k).toNat) (by omega), Nat.pow_add, ← Nat.mul_assoc]
  exact Nat.lt_of_lt_of_le hk (Nat.le_mul_of_pos_right _ (Nat.two_pow_pos _))

theorem scaleDown_lt_iff (num : Nat) (hden : den ≠ 0) (e : Int) (t : Nat) :
    (scaleDown num den e).1 / (scaleDown num den e).2 < 2 ^ t ↔ Below num den (e + t) := by
  have hpos : 0 < den := Nat.pos_of_ne_zero hden
  unfold scaleDown
  split
  · next he =>
    rw [below_iff (a := 0) (b := e.toNat + t) (by omega), Nat.pow_eq, Nat.pow_zero, Nat.mul_one,
      Nat.div_lt_iff_lt_mul (Nat.mul_pos hpos (Nat.two_pow_pos _)), Nat.pow_add, Nat.mul_comm (2 ^ t), Nat.mul_assoc]
  · next he =>
    rw [below_iff (a := (-e).toNat) (b := t) (by omega), Nat.pow_eq, Nat.div_lt_iff_lt_mul hpos, Nat.mul_comm (2 ^ t)]

theorem below_log (num : Nat) (hden : den ≠ 0) : Below num den ((num.log2 : Int) - den.log2 + 1) := by
  rw [below_iff (a := den.log2) (b := num.log2 + 1) (by omega)]
  calc num * 2 ^ den.log2
    _ ≤ num * den := Nat.mul_le_mul_left _ (Nat.log2_self_le hden)
    _ < 2 ^ (num.log2 + 1) * den := Nat.mul_lt_mul_of_pos_right Nat.lt_log2_self (Nat.pos_of_ne_zero hden)
    _ = den * 2 ^ (num.log2 + 1) := Nat.mul_comm _ _

theorem not_below_log (den : Nat) (hnum : num ≠ 0) : ¬ Below num den ((num.log2 : Int) - den.log2 - 1) := by
  rw [below_iff (a := den.log2 + 1) (b := num.log2) (by omega), Nat.not_lt]
  calc den * 2 ^ num.log2
    _ ≤ den * num := Nat.mul_le_mul_left _ (Nat.log2_self_le hnum)
    _ ≤ 2 ^ (den.log2 + 1) * num := Nat.mul_le_mul_right _ (Nat.le_of_lt Nat.lt_log2_self)
    _ = num * 2 ^ (den.log2 + 1) := Nat.mul_comm _ _

/-- At the exponent of a quotient its integer part has 53 bits, or fewer at the least exponent. -/
theorem exponentFor_spec (hnum : num ≠ 0) (hden : den ≠ 0) :
    -1074 ≤ exponentFor num den ∧ Below num den (exponentFor num den + 53) ∧
    (¬ Below num den (exponentFor num den + 52) ∨ exponentFor num den = -1074) := by
  have habove := below_log num hden
  have hunder := not_below_log den hnum
  have hguess := scaleDown_lt_iff num hden ((num.log2 : Int) - den.log2 - 52) 52
  unfold exponentFor
  dsimp only
  rw [Nat.pow_eq]
  generalize (num.log2 : Int) - den.log2 = g at habove hunder hguess ⊢
  by_cases hsmall : Below num den (g - 52 + 52)
  · rw [if_pos (hguess.mpr hsmall)]
    refine ⟨Int.le_max_right _ _, hsmall.mono (by omega), ?_⟩
    by_cases hleast : g - 52 - 1 ≤ -1074
    · exact .inr (Int.max_eq_right hleast)
    · rw [Int.max_eq_left (by omega)]
      exact .inl fun h => hunder (h.mono (by omega))
  · rw [if_neg (mt hguess.mp hsmall)]
    refine ⟨Int.le_max_right _ _, habove.mono (by omega), ?_⟩
    by_cases hleast : g - 52 ≤ -1074
    · exact .inr (Int.max_eq_right hleast)
    · rw [Int.max_eq_left (by omega)]
      exact .inl hsmall

end

/-! ## Operations that round -/

theorem le_roundDiv (num den : Nat) : num / den ≤ roundDiv num den := by
  unfold roundDiv
  dsimp only
  split
  · omega
  split
  · omega
  · omega

/-- Rounding gives numbers in their one form. -/
theorem canonical_ofRatio (negative : Bool) (num den : Nat) : Canonical (ofRatio negative num den) := by
  unfold ofRatio
  split
  · exact canonical_zero negative
  · next hne =>
    rw [not_or] at hne
    obtain ⟨hleast, habove, hunder⟩ := exponentFor_spec hne.1 hne.2
    have hdiv := (scaleDown_lt_iff num hne.2 (exponentFor num den) 53).mpr habove
    have hnormal := mt (scaleDown_lt_iff num hne.2 (exponentFor num den) 52).mp
    generalize exponentFor num den = e at hleast hunder hdiv hnormal ⊢
    have hlow := le_roundDiv (scaleDown num den e).1 (scaleDown num den e).2
    have hhigh := roundDiv_le (scaleDown num den e).1 (scaleDown num den e).2
    dsimp only
    generalize roundDiv (scaleDown num den e).1 (scaleDown num den e).2 = m at hlow hhigh ⊢
    generalize (scaleDown num den e).1 / (scaleDown num den e).2 = q at hdiv hnormal hlow hhigh
    by_cases hcarry : m = Nat.pow 2 53
    · rw [if_pos hcarry]
      dsimp only
      split
      · exact .infinite negative
      · next hmost => exact .finite (by omega) (by omega) (by decide) (.inl (Nat.le_refl _))
    · rw [if_neg hcarry]
      dsimp only
      split
      · exact .infinite negative
      · next hmost =>
        rw [Nat.pow_eq] at hcarry
        exact .finite hleast (by omega) (by omega) (hunder.imp_left fun h => Nat.le_trans (Nat.not_lt.mp (hnormal h)) hlow)

theorem canonical_add {x : Binary64} (hx : Canonical x) (t : Bool) (n : Nat) (f : Int) : Canonical (x.add (.finite t n f)) := by
  cases hx with
  | infinite s => exact .infinite s
  | finite =>
    unfold add
    dsimp only
    split
    · exact canonical_zero _
    · exact canonical_ofRatio _ _ _

/-! ## One form for one number -/

/-- A greater exponent needs a mantissa that is too short. -/
theorem not_lt_of_units {m n : Nat} {e f : Int} (hleast : -1074 ≤ e) (hm : m < 2 ^ 53) (hn : 2 ^ 52 ≤ n ∨ f = -1074)
    (h : m * 2 ^ (e + 1074).toNat = n * 2 ^ (f + 1074).toNat) : ¬ e < f := by
  intro hlt
  have hshift : (f + 1074).toNat = (f - e).toNat + (e + 1074).toNat := by omega
  rw [hshift, Nat.pow_add, ← Nat.mul_assoc] at h
  have hmantissa : m = n * 2 ^ (f - e).toNat := Nat.eq_of_mul_eq_mul_right (Nat.two_pow_pos _) h
  have hdouble : 2 ≤ 2 ^ (f - e).toNat := by
    calc 2
      _ = 2 ^ 1 := rfl
      _ ≤ 2 ^ (f - e).toNat := Nat.pow_le_pow_right (by decide) (by omega)
  have hlong : 2 ^ 52 * 2 ≤ n * 2 ^ (f - e).toNat := Nat.mul_le_mul (hn.resolve_right (by omega)) hdouble
  omega

/-- Of one magnitude there is one mantissa and one exponent. -/
theorem eq_of_units {s t : Bool} {m n : Nat} {e f : Int} (hx : Canonical (.finite s m e)) (hy : Canonical (.finite t n f))
    (h : m * 2 ^ (e + 1074).toNat = n * 2 ^ (f + 1074).toNat) : m = n ∧ e = f := by
  obtain _ | ⟨hleast, -, hm, hnormal⟩ := hx
  obtain _ | ⟨hleast', -, hn, hnormal'⟩ := hy
  have hexponent : e = f := by
    have hle := not_lt_of_units hleast hm hnormal' h
    have hge := not_lt_of_units hleast' hn hnormal h.symm
    omega
  subst hexponent
  exact ⟨Nat.eq_of_mul_eq_mul_right (Nat.two_pow_pos _) h, rfl⟩

/-- A number as one of 64 bits: the sign last, and the exponent before the mantissa. -/
def code : Binary64 → Nat
  | .nan => 0
  | .infinite s => 2 * (2047 * 2 ^ 52) + s.toNat
  | .finite s m e => 2 * (m + (e + 1074).toNat * 2 ^ 52) + s.toNat

theorem Canonical.code_lt {x : Binary64} (h : Canonical x) : x.code < 2 ^ 64 := by
  cases h with
  | infinite s =>
    have hs := s.toNat_lt
    simp only [code]
    omega
  | @finite s m e hleast hmost hm hnormal =>
    have hs := s.toNat_lt
    simp only [code]
    omega

theorem eq_of_toNat {s t : Bool} (h : s.toNat = t.toNat) : s = t := by
  rw [← Bool.ofNat_toNat s, h, Bool.ofNat_toNat]

theorem code_inj {x y : Binary64} (hx : Canonical x) (hy : Canonical y) (h : x.code = y.code) : x = y := by
  cases hx with
  | infinite s =>
    have hs := s.toNat_lt
    cases hy with
    | infinite t =>
      simp only [code] at h
      rw [eq_of_toNat (show s.toNat = t.toNat by omega)]
    | @finite t n f hleast hmost hn hnormal =>
      have ht := t.toNat_lt
      simp only [code] at h
      omega
  | @finite s m e hleast hmost hm hnormal =>
    have hs := s.toNat_lt
    cases hy with
    | infinite t =>
      have ht := t.toNat_lt
      simp only [code] at h
      omega
    | @finite t n f hleast' hmost' hn hnormal' =>
      have ht := t.toNat_lt
      simp only [code] at h
      have hsign : s.toNat = t.toNat := by omega
      have hexponent : e = f := by omega
      subst hexponent
      rw [eq_of_toNat hsign, show m = n by omega]

theorem Canonical.eqv_self {x : Binary64} (h : Canonical x) : x.eqv x = true := by
  cases h with
  | infinite s => simp [eqv]
  | finite => simp [eqv]

/-- There are no more than `2^64` numbers. -/
theorem length_le_of_distinct {xs : List Binary64} (hform : ∀ x ∈ xs, Canonical x)
    (hdistinct : xs.Pairwise fun x y => x.eqv y = false) : xs.length ≤ 2 ^ 64 := by
  have hnodup : (xs.map code).Nodup := by
    refine List.pairwise_map.mpr (hdistinct.imp_of_mem fun {x y} hx hy hne hcode => ?_)
    obtain rfl := code_inj (hform x hx) (hform y hy) hcode
    rw [(hform x hx).eqv_self] at hne
    cases hne
  have hsubset : xs.map code ⊆ List.range (2 ^ 64) := by
    intro c hc
    obtain ⟨x, hx, rfl⟩ := List.mem_map.mp hc
    exact List.mem_range.mpr (hform x hx).code_lt
  have hlength := (List.subperm_of_subset hnodup hsubset).length_le
  rwa [List.length_map, List.length_range] at hlength

/-! ## Whole numbers -/

/-- A finite number without a fraction. -/
inductive Whole : Binary64 → Prop
  | finite {s m e} (hform : Canonical (.finite s m e)) (hwhole : (ratio m e).2 ∣ (ratio m e).1) : Whole (.finite s m e)

theorem Whole.canonical {x : Binary64} (h : Whole x) : Canonical x := by
  cases h with
  | finite hform _ => exact hform

/-- The integer part of a finite number, toward zero. -/
def integer : Binary64 → Int
  | .finite s m e => if s then -((ratio m e).1 / (ratio m e).2 : Nat) else ((ratio m e).1 / (ratio m e).2 : Nat)
  | _ => 0

theorem Whole.truncate_eq {x : Binary64} (h : Whole x) : x.truncate = max (-Int.pow 2 63) (min x.integer (Int.pow 2 63 - 1)) := by
  cases h
  rfl

/-- A whole number in units of `2^-k`: there are `2^k` of them in each one. -/
theorem units_of_whole {m k : Nat} {e : Int} (hleast : -k ≤ e) (hwhole : (ratio m e).2 ∣ (ratio m e).1) :
    m * 2 ^ (e + k).toNat = (ratio m e).1 / (ratio m e).2 * 2 ^ k := by
  by_cases he : 0 ≤ e
  · have hratio : ratio m e = (m * 2 ^ e.toNat, 1) := if_pos he
    have hshift : (e + k).toNat = e.toNat + k := by omega
    rw [hratio, Nat.div_one, hshift, Nat.pow_add, Nat.mul_assoc]
  · have hratio : ratio m e = (m, 2 ^ (-e).toNat) := if_neg he
    have hshift : (e + k).toNat + (-e).toNat = k := by omega
    rw [hratio] at hwhole ⊢
    have hquotient : m / 2 ^ (-e).toNat * 2 ^ (-e).toNat = m := Nat.div_mul_cancel hwhole
    calc m * 2 ^ (e + k).toNat
      _ = m / 2 ^ (-e).toNat * 2 ^ (-e).toNat * 2 ^ (e + k).toNat := by rw [hquotient]
      _ = m / 2 ^ (-e).toNat * (2 ^ (e + k).toNat * 2 ^ (-e).toNat) := by rw [Nat.mul_assoc, Nat.mul_comm (2 ^ (-e).toNat)]
      _ = m / 2 ^ (-e).toNat * 2 ^ k := by rw [← Nat.pow_add, hshift]

theorem Whole.units {s : Bool} {m : Nat} {e : Int} (h : Whole (.finite s m e)) :
    m * 2 ^ (e + 1074).toNat = (ratio m e).1 / (ratio m e).2 * 2 ^ 1074 := by
  obtain ⟨hform, hwhole⟩ := h
  obtain _ | ⟨hleast, -, -, -⟩ := hform
  exact units_of_whole (k := 1074) hleast hwhole

/-- A whole number is its integer part, but for the sign of zero. -/
theorem eqv_of_integer {x y : Binary64} (hx : Whole x) (hy : Whole y) (h : x.integer = y.integer) : x.eqv y = true := by
  obtain @⟨s, m, e, hform, hwhole⟩ := hx
  obtain @⟨t, n, f, hform', hwhole'⟩ := hy
  have hunits := (Whole.finite hform hwhole).units
  have hunits' := (Whole.finite hform' hwhole').units
  simp only [integer] at h
  generalize (ratio m e).1 / (ratio m e).2 = q at h hunits
  generalize (ratio n f).1 / (ratio n f).2 = r at h hunits'
  have hmagnitude : q = r := by
    cases s <;> cases t <;> simp only [Bool.false_eq_true, if_true, if_false] at h <;> omega
  obtain ⟨rfl, rfl⟩ := eq_of_units hform hform' (by rw [hunits, hunits', hmagnitude])
  by_cases hsign : s = t
  · subst hsign
    exact hform.eqv_self
  · -- a number and its negative have the same integer part only where it is zero
    have hzero : q = 0 := by
      cases s <;> cases t <;> simp only [Bool.false_eq_true, if_true, if_false, not_true_eq_false] at h hsign <;> omega
    rw [hzero, Nat.zero_mul] at hunits
    have hm : m = 0 := (Nat.mul_eq_zero.mp hunits).resolve_right (Nat.ne_of_gt (Nat.two_pow_pos _))
    subst hm
    simp [eqv, isZero]

/-- Whole numbers that become the same 64-bit integer are equal, unless they are held at an end of the range. -/
theorem eqv_of_truncate {x y : Binary64} (hx : Whole x) (hy : Whole y) (h : x.truncate = y.truncate)
    (hlow : x.truncate ≠ -Int.pow 2 63) (hhigh : x.truncate ≠ Int.pow 2 63 - 1) : x.eqv y = true := by
  rw [hx.truncate_eq] at h hlow hhigh
  rw [hy.truncate_eq] at h
  exact eqv_of_integer hx hy (by omega)

end PatternCatalog.Binary64
