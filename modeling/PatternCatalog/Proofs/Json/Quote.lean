/-
  PatternCatalog.Proofs.Json.Quote — string literals say what they quote.

  The reader of string literals takes a quoted text back, whatever follows it
  (`stringBody_quoted`), so two literals at the head of one text quote the same text
  (`quote_append_inj`). A literal stands on one line (`quote_inLine`).
-/

import PatternCatalog.Json.Parser
import PatternCatalog.Json.Printer
import PatternCatalog.Proofs.Text.Lines

namespace PatternCatalog.Json

open Text (InLine)

/-! ## Control characters -/

theorem hexFour_control : ∀ n < 32,
    hexFour? '0' '0' (Nat.digitChar (n / 16)) (Nat.digitChar (n % 16)) = some n := by
  decide

theorem digitChar_no_break : ∀ n < 16, Nat.digitChar n ≠ '\n' ∧ Nat.digitChar n ≠ '\r' := by
  decide

/-! ## Reading back -/

theorem stringBody_letter (acc : List Char) {e c : Char} (r : List Char) (he : simpleEscape? e = some c)
    (hu : e ≠ 'u') : stringBody acc none ('\\' :: e :: r) = stringBody (c :: acc) none r := by
  rw [stringBody.eq_4]
  · simp [he]
  · intro _ _ _ _ _ _ h
    exact hu (List.cons.inj h).1

theorem stringBody_plain (acc : List Char) {c : Char} (r : List Char) (hb : c ≠ '\\') :
    stringBody acc none (c :: r) =
      if c = '"' then some (acc.reverse, r) else if c.toNat < 32 then none else stringBody (c :: acc) none r := by
  rw [stringBody.eq_def]
  split
  · next h => exact absurd (List.cons.inj h).1 hb
  · next h =>
    obtain ⟨rfl, rfl⟩ := List.cons.inj h
    simp [hb]
  · next h => cases h

theorem stringBody_escape (acc : List Char) (c : Char) (r : List Char) :
    stringBody acc none (escape c ++ r) = stringBody (c :: acc) none r := by
  unfold escape
  split
  · next h => subst h; exact stringBody_letter acc r rfl (by decide)
  split
  · next h => subst h; exact stringBody_letter acc r rfl (by decide)
  split
  · next h => subst h; exact stringBody_letter acc r rfl (by decide)
  split
  · next h => subst h; exact stringBody_letter acc r rfl (by decide)
  split
  · next h => subst h; exact stringBody_letter acc r rfl (by decide)
  split
  · next h =>
    have hc : c = Char.ofNat 8 := by rw [← h, Char.ofNat_toNat]
    subst hc; exact stringBody_letter acc r rfl (by decide)
  split
  · next h =>
    have hc : c = Char.ofNat 12 := by rw [← h, Char.ofNat_toNat]
    subst hc; exact stringBody_letter acc r rfl (by decide)
  split
  · next h =>
    rw [List.cons_append, List.cons_append, List.cons_append, List.cons_append, List.cons_append,
      List.cons_append, List.nil_append, stringBody.eq_3 _ _ _ _ _ _ _ (hexFour_control _ h)]
    have hlow : ¬ (0xD800 ≤ c.toNat ∧ c.toNat < 0xDC00) := by omega
    have hhigh : ¬ (0xDC00 ≤ c.toNat ∧ c.toNat < 0xE000) := by omega
    simp [hlow, hhigh, Char.ofNat_toNat]
  · next hq hb _ _ _ _ _ hc =>
    rw [List.singleton_append, stringBody_plain acc r hb, if_neg hq, if_neg hc]

/-- A literal is read as the text it quotes. -/
theorem stringBody_quoted (acc s r : List Char) :
    stringBody acc none (s.flatMap escape ++ '"' :: r) = some (acc.reverse ++ s, r) := by
  induction s generalizing acc with
  | nil => simp [stringBody_plain acc r (by decide : '"' ≠ '\\')]
  | cons c s ih =>
    rw [List.flatMap_cons, List.append_assoc, stringBody_escape, ih]
    simp

theorem quote_append_inj {s t x y : List Char} (h : quote s ++ x = quote t ++ y) : s = t ∧ x = y := by
  have hbody : s.flatMap escape ++ '"' :: x = t.flatMap escape ++ '"' :: y := by
    simpa [quote] using h
  have hs := stringBody_quoted [] s x
  rw [hbody, stringBody_quoted] at hs
  simpa [eq_comm] using hs

/-! ## Lines -/

theorem escape_inLine (c : Char) : InLine (escape c) := by
  unfold escape
  split
  · decide
  split
  · decide
  split
  · decide
  split
  · decide
  split
  · decide
  split
  · decide
  split
  · decide
  split
  · next h =>
    intro d hd
    simp only [List.mem_cons, List.not_mem_nil, or_false] at hd
    rcases hd with rfl | rfl | rfl | rfl | rfl | rfl
    · decide
    · decide
    · decide
    · decide
    · exact digitChar_no_break _ (by omega)
    · exact digitChar_no_break _ (by omega)
  · next hn hr _ _ _ _ =>
    intro d hd
    rw [List.mem_singleton.mp hd]
    exact ⟨hn, hr⟩

theorem quote_inLine (s : List Char) : InLine (quote s) := by
  have hbody : InLine (s.flatMap escape) := by
    intro d hd
    obtain ⟨c, -, hc⟩ := List.mem_flatMap.mp hd
    exact escape_inLine c d hc
  have hmark : InLine ['"'] := by decide
  exact hmark.append (hbody.append hmark)

end PatternCatalog.Json
