/-
  PatternCatalog.Proofs.Binary64 — whole numbers below 2^53 are exact, and their digits are read as them.
-/

import Mathlib.Algebra.Group.Nat.Defs
import Mathlib.Data.List.TakeWhile
import PatternCatalog.Binary64.Text

namespace PatternCatalog.Binary64

/-! ## Exactness -/

theorem scaleDown_whole (n : Nat) {k : Nat} (hk : k ≤ 52) : scaleDown n 1 ((k : Int) - 52) = (n * 2 ^ (52 - k), 1) := by
  unfold scaleDown
  by_cases h : k = 52
  · subst h
    simp [Nat.pow_eq]
  · have hneg : ¬ (0 : Int) ≤ (k : Int) - 52 := by omega
    have hexp : (-((k : Int) - 52)).toNat = 52 - k := by omega
    rw [if_neg hneg, hexp, Nat.pow_eq]

theorem roundDiv_one (n : Nat) : roundDiv n 1 = n := by
  simp [roundDiv, Nat.mod_one]

/-- A whole number that fits the mantissa is a shift of it. -/
theorem ofRatio_whole (negative : Bool) {n : Nat} (hpos : n ≠ 0) (hn : n < 2 ^ 53) :
    n.log2 ≤ 52 ∧ ofRatio negative n 1 = .finite negative (n * 2 ^ (52 - n.log2)) ((n.log2 : Int) - 52) := by
  have hlog : n.log2 ≤ 52 := Nat.lt_succ_iff.mp ((Nat.log2_lt hpos).mpr hn)
  have hlow : 2 ^ 52 ≤ n * 2 ^ (52 - n.log2) := by
    calc 2 ^ 52
      _ = 2 ^ n.log2 * 2 ^ (52 - n.log2) := by rw [← Nat.pow_add, Nat.add_sub_cancel' hlog]
      _ ≤ n * 2 ^ (52 - n.log2) := Nat.mul_le_mul_right _ (Nat.log2_self_le hpos)
  have hhigh : n * 2 ^ (52 - n.log2) < 2 ^ 53 := by
    calc n * 2 ^ (52 - n.log2)
      _ < 2 ^ (n.log2 + 1) * 2 ^ (52 - n.log2) := Nat.mul_lt_mul_of_pos_right Nat.lt_log2_self (Nat.two_pow_pos _)
      _ = 2 ^ 53 := by rw [← Nat.pow_add]; congr 1; omega
  have hexponent : exponentFor n 1 = (n.log2 : Int) - 52 := by
    have hone : Nat.log2 1 = 0 := by decide
    unfold exponentFor
    rw [hone, Int.natCast_zero, Int.sub_zero]
    dsimp only
    rw [scaleDown_whole n hlog]
    simp only [Nat.div_one, Nat.pow_eq, if_neg (Nat.not_lt.mpr hlow)]
    omega
  refine ⟨hlog, ?_⟩
  unfold ofRatio
  rw [if_neg (by omega), hexponent]
  simp only [scaleDown_whole n hlog, roundDiv_one, Nat.pow_eq, if_neg (Nat.ne_of_lt hhigh)]
  rw [if_neg (by omega)]

/-- The integer part of a whole number is the number. -/
theorem ratio_ofRatio (negative : Bool) {n : Nat} (hn : n < 2 ^ 53) :
    ∃ m e, ofRatio negative n 1 = .finite negative m e ∧ (ratio m e).1 / (ratio m e).2 = n := by
  by_cases hzero : n = 0
  · subst hzero
    have hdiv : ∀ d, (0, d).1 / (0, d).2 = 0 := Nat.zero_div
    refine ⟨0, -1074, if_pos (.inl rfl), ?_⟩
    rw [ratio, if_neg (by decide)]
    exact hdiv _
  · obtain ⟨hlog, hwhole⟩ := ofRatio_whole negative hzero hn
    refine ⟨_, _, hwhole, ?_⟩
    unfold ratio
    by_cases h : n.log2 = 52
    · rw [h]
      simp [Nat.pow_eq]
    · have hneg : ¬ (0 : Int) ≤ (n.log2 : Int) - 52 := by omega
      have hexp : (-((n.log2 : Int) - 52)).toNat = 52 - n.log2 := by omega
      rw [if_neg hneg, hexp, Nat.pow_eq]
      exact Nat.mul_div_cancel _ (Nat.two_pow_pos _)

/-! ## Digits -/

theorem digitChar_value : ∀ d < 10, (Nat.digitChar d).toNat - 48 = d ∧ (Nat.digitChar d).isDigit = true := by decide

theorem natOfDigits_concat (ds : List Char) (c : Char) : natOfDigits (ds ++ [c]) = natOfDigits ds * 10 + (c.toNat - 48) := by
  simp [natOfDigits]

/-- The digits of a number are digits, and they have its value. -/
theorem digitText_spec (n : Nat) : natOfDigits (digitText n) = n ∧ digitText n ≠ [] ∧ ∀ c ∈ digitText n, c.isDigit = true := by
  unfold digitText
  induction n using Nat.strongRecOn with
  | ind n ih =>
    by_cases hsmall : n < 10
    · obtain ⟨hvalue, hdigit⟩ := digitChar_value n hsmall
      rw [Nat.toDigits_of_lt_base hsmall]
      exact ⟨by simpa [natOfDigits] using hvalue, List.cons_ne_nil _ _, by simpa using hdigit⟩
    · obtain ⟨hrest, -, hdigits⟩ := ih (n / 10) (by omega)
      obtain ⟨hvalue, hdigit⟩ := digitChar_value (n % 10) (Nat.mod_lt _ (by decide))
      rw [Nat.toDigits_of_base_le (by decide) (Nat.le_of_not_lt hsmall)]
      refine ⟨?_, by simp, fun c hc => ?_⟩
      · rw [natOfDigits_concat, hrest, hvalue]
        omega
      · rcases List.mem_append.mp hc with hc | hc
        · exact hdigits c hc
        · rw [List.mem_singleton.mp hc]
          exact hdigit

theorem ofDecimal_whole (negative : Bool) {n : Nat} (hn : n < 2 ^ 53) : ofDecimal negative n 0 = ofRatio negative n 1 := by
  have hlength : (Nat.toDigits 10 n).length ≤ 16 :=
    (Nat.length_toDigits_le_iff (by decide) (by decide)).mpr (Nat.lt_trans hn (by decide))
  unfold ofDecimal
  by_cases hzero : n = 0
  · simp [hzero, ofRatio]
  · rw [if_neg hzero, if_neg (by omega), if_neg (by omega), if_pos (Int.le_refl 0)]
    simp [Nat.pow_eq]

theorem readMagnitude?_digits (negative : Bool) {n : Nat} (hn : n < 2 ^ 53) :
    readMagnitude? negative (digitText n) = some (ofRatio negative n 1) := by
  obtain ⟨hvalue, hne, hdigits⟩ := digitText_spec n
  have htake : (digitText n).takeWhile Char.isDigit = digitText n := List.takeWhile_eq_self_iff.mpr hdigits
  have hdrop : (digitText n).dropWhile Char.isDigit = [] := List.dropWhile_eq_nil_iff.mpr hdigits
  unfold readMagnitude?
  simp [htake, hdrop, hne, hvalue, readExponent?, ofDecimal_whole negative hn]

/-- There are ten digits. -/
theorem exists_digit {c : Char} (h : c.isDigit = true) : ∃ d < 10, c = Nat.digitChar d := by
  have hrange : 48 ≤ c.toNat ∧ c.toNat ≤ 57 := by
    simpa [Char.isDigit, UInt32.le_iff_toNat_le] using h
  have hchar : ∀ d < 10, Char.ofNat (48 + d) = Nat.digitChar d := by decide
  refine ⟨c.toNat - 48, by omega, ?_⟩
  rw [← hchar _ (by omega), Nat.add_sub_cancel' hrange.1, Char.ofNat_toNat]

/-! ## Signs and words -/

/-- A number is not taken for a word that starts with another letter. -/
theorem word_ne {c x : Char} (cs : List Char) {word : String} (hx : word.toList.head? = some x) (hne : c.toLower ≠ x) :
    String.ofList ((c :: cs).map Char.toLower) ≠ word := by
  rintro rfl
  rw [String.toList_ofList] at hx
  exact hne (Option.some.inj hx)

/-- Whether a character may neither be a sign nor start a word. -/
def NoWord (c : Char) : Prop := c ≠ '-' ∧ c ≠ '+' ∧ c.toLower ≠ 'i' ∧ c.toLower ≠ 'n'

instance (c : Char) : Decidable (NoWord c) := inferInstanceAs (Decidable (_ ∧ _))

theorem NoWord.not_infinite {c : Char} (h : NoWord c) (cs : List Char) :
    ¬ (String.ofList ((c :: cs).map Char.toLower) = "inf" ∨ String.ofList ((c :: cs).map Char.toLower) = "infinity") :=
  not_or.mpr ⟨word_ne cs (by decide) h.2.2.1, word_ne cs (by decide) h.2.2.1⟩

theorem NoWord.not_nan {c : Char} (h : NoWord c) (cs : List Char) : String.ofList ((c :: cs).map Char.toLower) ≠ "nan" :=
  word_ne cs (by decide) h.2.2.2

theorem read?_signed {c : Char} (h : NoWord c) (cs : List Char) : read? ('-' :: c :: cs) = readMagnitude? true (c :: cs) :=
  (if_neg (h.not_infinite cs)).trans (if_neg (h.not_nan cs))

theorem read?_unsigned {c : Char} (h : NoWord c) (cs : List Char) : read? (c :: cs) = readMagnitude? false (c :: cs) := by
  unfold read?
  split
  next negative body heq =>
    split at heq
    · next hc => exact absurd (List.cons.inj hc).1 h.1
    · next hc => exact absurd (List.cons.inj hc).1 h.2.1
    · cases heq
      exact (if_neg (h.not_infinite cs)).trans (if_neg (h.not_nan cs))

theorem digit_noWord {c : Char} (h : c.isDigit = true) : NoWord c := by
  obtain ⟨d, hd, rfl⟩ := exists_digit h
  revert d
  decide

theorem read?_digits (negative : Bool) {n : Nat} (hn : n < 2 ^ 53) :
    read? (if negative then '-' :: digitText n else digitText n) = some (ofRatio negative n 1) := by
  obtain ⟨-, hne, hdigits⟩ := digitText_spec n
  have hmagnitude := readMagnitude?_digits negative hn
  obtain ⟨c, cs, hcs⟩ := List.exists_cons_of_ne_nil hne
  rw [hcs] at hmagnitude hdigits ⊢
  have hc := digit_noWord (hdigits c List.mem_cons_self)
  cases negative with
  | true => exact (read?_signed hc cs).trans hmagnitude
  | false => exact (read?_unsigned hc cs).trans hmagnitude

end PatternCatalog.Binary64
