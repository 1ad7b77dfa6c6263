/-
  PatternCatalog.Proofs.Text.Letters — no letter and no number is a blank.

  The classes of characters are tables of ranges. A code point of a table is in one of its ranges
  (`search_range`), and the ranges of the letters and of the numbers keep clear of the blanks
  (`alphabeticSet_clear`, `numericSet_clear`). So a name has no blank in it (`alphanumeric_not_blank`).
-/

import PatternCatalog.Text.Blank
import PatternCatalog.Text.Letters

namespace PatternCatalog.Text

/-- The code points of the blanks. -/
def blankRanges : List (Nat × Nat) :=
  [(9, 13), (0x20, 0x20), (0x85, 0x85), (0xA0, 0xA0), (0x1680, 0x1680), (0x2000, 0x200A), (0x2028, 0x2029), (0x202F, 0x202F),
    (0x205F, 0x205F), (0x3000, 0x3000)]

theorem blank_range {c : Char} (h : isBlank c = true) : ∃ b ∈ blankRanges, b.1 ≤ c.toNat ∧ c.toNat ≤ b.2 := by
  simp only [isBlank, Bool.or_eq_true, Bool.and_eq_true, decide_eq_true_eq, beq_iff_eq] at h
  simp [blankRanges]
  omega

/-! ## Sets of ranges -/

namespace CharSet

theorem search_range {ranges : Array (Nat × Nat)} {n steps lo hi : Nat} (h : search ranges n steps lo hi = true) :
    ∃ r ∈ ranges.toList, r.1 ≤ n ∧ n ≤ r.2 := by
  fun_induction search ranges n steps lo hi with
  | case1 => cases h
  | case2 => cases h
  | case3 => cases h
  | case4 steps lo hi _ mid a b hmid hlt ih => exact ih h
  | case5 steps lo hi _ mid a b hmid hlt hgt ih => exact ih h
  | case6 steps lo hi _ mid a b hmid hlt hgt =>
    exact ⟨(a, b), by simpa using Array.mem_of_getElem? hmid, Nat.le_of_not_lt hlt, Nat.le_of_not_lt hgt⟩

/-- The range that an item of a table stands for. -/
def rangeOf (item : List Char) : Nat × Nat :=
  match item.splitOn '-' with
  | [lo, hi] => (hexNat lo, hexNat hi)
  | _ => (hexNat item, hexNat item)

/-- Whether the range of an item has no blank in it. -/
def ClearOfBlanks (item : List Char) : Prop := ∀ b ∈ blankRanges, (rangeOf item).2 < b.1 ∨ b.2 < (rangeOf item).1

instance (item : List Char) : Decidable (ClearOfBlanks item) := inferInstanceAs (Decidable (∀ b ∈ blankRanges, _))

/-- Whether no range of a table has a blank in it; the lines gone through stand as characters
before those left, so that they need not be decoded. -/
def Clear (before : List (List Char)) (left : List String) : Prop :=
  (∀ cs ∈ before, ∀ item ∈ cs.splitOn ' ', ClearOfBlanks item) ∧ ∀ item ∈ items left, ClearOfBlanks item

theorem clear_line {before : List (List Char)} {line : String} {cs : List Char} {left : List String}
    (hline : line = String.ofList cs) (h : Clear (cs :: before) left) : Clear before (line :: left) := by
  refine ⟨fun ds hds => h.1 ds (List.mem_cons_of_mem _ hds), fun item hitem => ?_⟩
  rw [items, List.flatMap_cons, hline, String.toList_ofList] at hitem
  rcases List.mem_append.mp hitem with hitem | hitem
  · exact h.1 cs List.mem_cons_self item hitem
  · exact h.2 item hitem

theorem clear_end {before : List (List Char)} (h : ∀ cs ∈ before, ∀ item ∈ cs.splitOn ' ', ClearOfBlanks item) :
    Clear before [] := ⟨h, fun _ hitem => nomatch hitem⟩

theorem not_blank_of_contains {lines : List String} (hlines : Clear [] lines) {c : Char} (h : (ofText lines).contains c = true) :
    isBlank c = false := by
  obtain ⟨r, hr, hlo, hhi⟩ := search_range h
  obtain ⟨item, hitem, rfl⟩ : ∃ item ∈ items lines, rangeOf item = r := List.mem_map.mp hr
  refine Bool.eq_false_iff.mpr fun hblank => ?_
  obtain ⟨b, hb, hblo, hbhi⟩ := blank_range hblank
  rcases hlines.2 item hitem b hb with h | h
  · exact absurd hhi (by omega)
  · exact absurd hlo (by omega)

end CharSet

open CharSet (Clear clear_line clear_end)

/-! ## Letters and numbers -/

theorem isAlpha_le {c : Char} (h : c.isAlpha = true) : 65 ≤ c.toNat := by
  rcases Bool.or_eq_true_iff.mp h with h | h
  · exact UInt32.le_iff_toNat_le.mp (of_decide_eq_true h).1
  · have hlow : 'a'.toNat ≤ c.toNat := UInt32.le_iff_toNat_le.mp (of_decide_eq_true (Bool.and_eq_true_iff.mp h).1)
    exact Nat.le_trans (by decide) hlow

theorem isDigit_le {c : Char} (h : c.isDigit = true) : 48 ≤ c.toNat := by
  simp only [Char.isDigit, Bool.and_eq_true, decide_eq_true_eq, ge_iff_le, UInt32.le_iff_toNat_le] at h
  exact h.1

/-- A blank among the first 128 code points is one of the first 33. -/
theorem isBlank_le {c : Char} (h : isBlank c = true) (hascii : c.toNat < 128) : c.toNat ≤ 32 := by
  simp only [isBlank, Bool.or_eq_true, Bool.and_eq_true, decide_eq_true_eq, beq_iff_eq] at h
  omega

theorem alphabeticSet_clear : ∃ lines, alphabeticSet = .ofText lines ∧ Clear [] lines := by
  refine ⟨_, rfl, ?_⟩
  repeat' refine clear_line rfl ?_
  exact clear_end (by decide +kernel)

theorem numericSet_clear : ∃ lines, numericSet = .ofText lines ∧ Clear [] lines := by
  refine ⟨_, rfl, ?_⟩
  repeat' refine clear_line rfl ?_
  exact clear_end (by decide +kernel)

theorem alphabetic_not_blank {c : Char} (h : isAlphabetic c = true) : isBlank c = false := by
  refine Bool.eq_false_iff.mpr fun hblank => ?_
  unfold isAlphabetic at h
  split at h
  · next hascii =>
    have hle := isBlank_le hblank hascii
    have halpha := isAlpha_le h
    omega
  · obtain ⟨lines, hset, hlines⟩ := alphabeticSet_clear
    rw [hset] at h
    exact Bool.eq_false_iff.mp (CharSet.not_blank_of_contains hlines h) hblank

theorem numeric_not_blank {c : Char} (h : isNumeric c = true) : isBlank c = false := by
  refine Bool.eq_false_iff.mpr fun hblank => ?_
  unfold isNumeric at h
  split at h
  · next hascii =>
    have hle := isBlank_le hblank hascii
    have hdigit := isDigit_le h
    omega
  · obtain ⟨lines, hset, hlines⟩ := numericSet_clear
    rw [hset] at h
    exact Bool.eq_false_iff.mp (CharSet.not_blank_of_contains hlines h) hblank

theorem alphanumeric_not_blank {c : Char} (h : isAlphanumeric c = true) : isBlank c = false := by
  rcases Bool.or_eq_true_iff.mp h with h | h
  · exact alphabetic_not_blank h
  · exact numeric_not_blank h

end PatternCatalog.Text
