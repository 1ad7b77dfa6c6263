/-
  PatternCatalog.Proofs.Json.Number — numbers in JSON text.

  A number is read the same whatever follows it, as long as that is no part of a number
  (`number?_append`). A whole number of 64 bits reads back from its digits (`number?_whole`). The
  text of a floating-point number has only characters of numbers (`render_numeral`), so a number
  that reads back as a whole text is read back wherever it stands (`number?_of_parse?`).
-/

import PatternCatalog.Json.Parser
import PatternCatalog.Json.Printer
import PatternCatalog.Proofs.Binary64

namespace PatternCatalog.Json

open Binary64

/-! ## What may follow a number -/

/-- The characters of numbers. -/
def isNumeral (c : Char) : Bool := c.isDigit || c == '.' || c == 'e' || c == 'E' || c == '+' || c == '-'

/-- The text does not go on with a number. -/
def Ends (rest : List Char) : Prop := ∀ c ∈ rest.head?, isNumeral c = false

theorem ends_nil : Ends [] := fun _ hc => nomatch hc

theorem ends_cons {c : Char} (hc : isNumeral c = false) (rest : List Char) : Ends (c :: rest) := by
  rintro d hd
  obtain rfl := Option.some.inj hd
  exact hc

theorem Ends.not_digit {rest : List Char} (h : Ends rest) : ∀ c ∈ rest.head?, c.isDigit = false := by
  intro c hc
  have hnumeral := h c hc
  simp only [isNumeral, Bool.or_eq_false_iff] at hnumeral
  exact hnumeral.1.1.1.1.1

theorem Ends.ne {rest : List Char} (h : Ends rest) {c : Char} (hc : isNumeral c = true) (r : List Char) : rest ≠ c :: r := by
  rintro rfl
  rw [h c rfl] at hc
  cases hc

theorem takeWhile_append_ends {p : Char → Bool} {rest : List Char} (h : ∀ c ∈ rest.head?, p c = false) (s : List Char) :
    (s ++ rest).takeWhile p = s.takeWhile p ∧ (s ++ rest).dropWhile p = s.dropWhile p ++ rest := by
  induction s with
  | nil =>
    cases rest with
    | nil => exact ⟨rfl, rfl⟩
    | cons c rest =>
      have hc : ¬ p c = true := by rw [h c rfl]; exact Bool.false_ne_true
      exact ⟨List.takeWhile_cons_of_neg hc, List.dropWhile_cons_of_neg hc⟩
  | cons c s ih =>
    rw [List.cons_append, List.takeWhile_cons, List.takeWhile_cons, List.dropWhile_cons, List.dropWhile_cons, ih.1, ih.2]
    cases p c with
    | true => exact ⟨rfl, rfl⟩
    | false => exact ⟨rfl, rfl⟩

/-! ## Reading a number -/

theorem exponentDigits?_append {minus : Bool} {s rest : List Char} (hrest : Ends rest) {e : Option Int}
    (h : exponentDigits? minus s = some (e, [])) : exponentDigits? minus (s ++ rest) = some (e, rest) := by
  obtain ⟨htake, hdrop⟩ := takeWhile_append_ends hrest.not_digit s
  simp only [exponentDigits?, htake, hdrop] at h ⊢
  split at h
  · cases h
  · next hdigits =>
    rw [if_neg hdigits]
    obtain ⟨he, hleft⟩ := Prod.mk.inj (Option.some.inj h)
    rw [he, hleft, List.nil_append]

theorem exponentPart?_append {s rest : List Char} (hrest : Ends rest) {e : Option Int}
    (h : exponentPart? s = some (e, [])) : exponentPart? (s ++ rest) = some (e, rest) := by
  cases s with
  | nil =>
    obtain rfl : none = e := (Prod.mk.inj (Option.some.inj h)).1
    cases rest with
    | nil => rfl
    | cons c rest =>
      have hc : ¬ (c = 'e' ∨ c = 'E') := by
        rintro (rfl | rfl)
        · exact hrest.ne (by decide) rest rfl
        · exact hrest.ne (by decide) rest rfl
      exact if_neg hc
  | cons c s =>
    unfold exponentPart? at h ⊢
    rw [List.cons_append]
    dsimp only at h ⊢
    split at h
    · next hc =>
      rw [if_pos hc]
      -- the sign is of the part itself, as the rest starts with none
      split at h
      · exact exponentDigits?_append hrest h
      · exact exponentDigits?_append hrest h
      · next hminus hplus =>
        have hdigits := exponentDigits?_append hrest h
        cases s with
        | nil => cases h
        | cons d s =>
          rw [List.cons_append]
          split
          · next hd => exact absurd (congrArg (· :: s) (List.cons.inj hd).1) (hminus s)
          · next hd => exact absurd (congrArg (· :: s) (List.cons.inj hd).1) (hplus s)
          · exact hdigits
    · cases h

theorem unsigned?_append {negative : Bool} {s rest : List Char} (hrest : Ends rest) {v : Json}
    (h : unsigned? negative s = some (v, [])) : unsigned? negative (s ++ rest) = some (v, rest) := by
  obtain ⟨htake, hdrop⟩ := takeWhile_append_ends hrest.not_digit s
  simp only [unsigned?, htake, hdrop] at h ⊢
  split at h
  · cases h
  · next hwhole =>
    rw [if_neg hwhole]
    generalize s.dropWhile Char.isDigit = after at h ⊢
    split at h
    · next r =>
      obtain ⟨htake, hdrop⟩ := takeWhile_append_ends hrest.not_digit r
      simp only [List.cons_append, htake, hdrop]
      split at h
      · cases h
      · next hpart =>
        rw [if_neg hpart]
        obtain ⟨⟨e, left⟩, he, h⟩ := Option.bind_eq_some_iff.mp h
        obtain ⟨x, hx, h⟩ := Option.bind_eq_some_iff.mp h
        obtain ⟨rfl, rfl⟩ := Prod.mk.inj (Option.some.inj h)
        simp only [exponentPart?_append hrest he, Option.bind_eq_bind, Option.bind_some, hx]
        rfl
    · next hpoint =>
      obtain ⟨⟨e, left⟩, he, h⟩ := Option.bind_eq_some_iff.mp h
      have hleft : left = [] := by
        cases e with
        | some e =>
          obtain ⟨x, -, h⟩ := Option.bind_eq_some_iff.mp h
          exact (Prod.mk.inj (Option.some.inj h)).2
        | none =>
          obtain ⟨x, -, h⟩ := Option.bind_eq_some_iff.mp h
          exact (Prod.mk.inj (Option.some.inj h)).2
      subst hleft
      have hpoint' : ∀ r, after ++ rest ≠ '.' :: r := by
        intro r hr
        cases after with
        | nil => exact hrest.ne (by decide) r hr
        | cons c after => exact hpoint after (congrArg (· :: after) (List.cons.inj hr).1)
      split
      · next r hr => exact absurd hr (hpoint' r)
      · simp only [exponentPart?_append hrest he]
        cases e with
        | some e =>
          obtain ⟨x, hx, h⟩ := Option.bind_eq_some_iff.mp h
          obtain ⟨rfl, -⟩ := Prod.mk.inj (Option.some.inj h)
          simp only [Option.bind_eq_bind, Option.bind_some, hx]
          rfl
        | none =>
          obtain ⟨x, hx, h⟩ := Option.bind_eq_some_iff.mp h
          obtain ⟨rfl, -⟩ := Prod.mk.inj (Option.some.inj h)
          simp only [Option.bind_eq_bind, Option.bind_some, hx]
          rfl

/-- A number is read the same with something after it that is no part of a number. -/
theorem number?_append {s rest : List Char} (hrest : Ends rest) {v : Json} (h : number? s = some (v, [])) :
    number? (s ++ rest) = some (v, rest) := by
  unfold number? at h
  split at h
  · exact unsigned?_append hrest h
  · next hsign =>
    have hunsigned := unsigned?_append hrest h
    unfold number?
    split
    · next r hr =>
      cases s with
      | nil => exact absurd hr (hrest.ne (by decide) r)
      | cons c s => exact absurd (congrArg (· :: s) (List.cons.inj hr).1) (hsign s)
    · exact hunsigned

/-! ## Whole numbers -/

/-- Whether a whole number fits 64 bits, with or without a sign. -/
def IsWord (n : Int) : Prop := -Int.pow 2 63 ≤ n ∧ n < Int.pow 2 64

theorem digitText_zero : digitText 0 = ['0'] := by decide

/-- Only the digits of zero start with a zero. -/
theorem digitText_head {n : Nat} (hn : n ≠ 0) : (digitText n).head? ≠ some '0' := by
  unfold digitText
  induction n using Nat.strongRecOn with
  | ind n ih =>
    by_cases hsmall : n < 10
    · have hdigit : ∀ d < 10, d ≠ 0 → Nat.digitChar d ≠ '0' := by decide
      rw [Nat.toDigits_of_lt_base hsmall]
      exact fun h => hdigit n hsmall hn (Option.some.inj h)
    · have hrest := ih (n / 10) (by omega) (by omega)
      rw [Nat.toDigits_of_base_le (by decide) (Nat.le_of_not_lt hsmall), List.head?_append]
      obtain ⟨c, cs, hcs⟩ := List.exists_cons_of_ne_nil (digitText_spec (n / 10)).2.1
      rw [digitText] at hcs
      rw [hcs] at hrest ⊢
      exact hrest

theorem unsigned?_digits (negative : Bool) (n : Nat) :
    unsigned? negative (digitText n) = (wholeNumber negative (digitText n)).map fun v => (v, []) := by
  obtain ⟨-, hne, hdigits⟩ := digitText_spec n
  have htake : (digitText n).takeWhile Char.isDigit = digitText n := List.takeWhile_eq_self_iff.mpr hdigits
  have hdrop : (digitText n).dropWhile Char.isDigit = [] := List.dropWhile_eq_nil_iff.mpr hdigits
  have hzero : ¬ (digitText n = [] ∨ ((digitText n).head? = some '0' ∧ (digitText n).length ≠ 1)) := by
    rintro (h | ⟨hhead, hlength⟩)
    · exact hne h
    · by_cases hn : n = 0
      · rw [hn, digitText_zero] at hlength
        exact hlength rfl
      · exact digitText_head hn hhead
  simp only [unsigned?, htake, hdrop, if_neg hzero, exponentPart?, Option.bind_eq_bind, Option.bind_some]
  cases wholeNumber negative (digitText n) <;> rfl

theorem render_nat (n : Nat) : render (.int n) = digitText n := by
  rw [render]
  simp [toString, Int.repr, Nat.repr, digitText]

theorem render_negSucc (n : Nat) : render (.int (Int.negSucc n)) = '-' :: digitText (n + 1) := by
  rw [render]
  simp [toString, Int.repr, Nat.repr, digitText]

/-- The text of a whole number of 64 bits is read as the number. -/
theorem number?_whole {n : Int} (hn : IsWord n) : number? (render (.int n)) = some (.int n, []) := by
  obtain ⟨hlow, hhigh⟩ := hn
  have hpow63 : Int.pow 2 63 = 9223372036854775808 := by decide
  have hpow64 : Int.pow 2 64 = 18446744073709551616 := by decide
  have hmax : maxWord = 18446744073709551615 := by decide
  rw [hpow63] at hlow
  rw [hpow64] at hhigh
  cases n with
  | ofNat n =>
    rw [Int.ofNat_eq_natCast] at hhigh ⊢
    have hfits : n ≤ 18446744073709551615 := by omega
    have hsign : ∀ r, digitText n ≠ '-' :: r := by
      intro r hr
      have hdigit := (digitText_spec n).2.2 '-' (hr ▸ List.mem_cons_self)
      cases hdigit
    have hwhole : wholeNumber false (digitText n) = some (.int n) := by
      simp [wholeNumber, (digitText_spec n).1, hmax, hfits]
    rw [render_nat, number?]
    · rw [unsigned?_digits, hwhole]
      rfl
    · exact hsign
  | negSucc n =>
    have hfits : n + 1 ≤ 9223372036854775808 := by omega
    have hwhole : wholeNumber true (digitText (n + 1)) = some (.int (-((n + 1 : Nat) : Int))) := by
      simp [wholeNumber, (digitText_spec (n + 1)).1, hfits]
    rw [render_negSucc, number?, unsigned?_digits, hwhole]
    rfl

/-! ## Floating-point numbers -/

theorem digitText_numeral (n : Nat) : ∀ c ∈ digitText n, isNumeral c = true := by
  intro c hc
  simp [isNumeral, (digitText_spec n).2.2 c hc]

theorem decimal_text_numeral (d : Decimal) : ∀ c ∈ d.text, isNumeral c = true := by
  have hdigits := digitText_numeral d.digits
  have hzeros : ∀ n, ∀ c ∈ List.replicate n '0', isNumeral c = true := by
    intro n c hc
    rw [List.eq_of_mem_replicate hc]
    decide
  unfold Decimal.text
  simp only
  split
  · simp only [List.forall_mem_append]
    exact ⟨⟨hdigits, hzeros _⟩, List.all_eq_true.mp (by decide)⟩
  split
  · simp only [List.forall_mem_append, List.forall_mem_cons]
    exact ⟨fun c hc => hdigits c (List.mem_of_mem_take hc), by decide, fun c hc => hdigits c (List.mem_of_mem_drop hc)⟩
  split
  · simp only [List.forall_mem_append, List.forall_mem_cons, List.cons_append]
    exact ⟨by decide, by decide, hzeros _, hdigits⟩
  · simp only [List.forall_mem_append, List.forall_mem_cons]
    refine ⟨?_, by decide, ?_, digitText_numeral _⟩
    · generalize digitText d.digits = ds at hdigits
      split
      · exact hdigits
      · exact hdigits
      · simp only [List.forall_mem_cons] at hdigits ⊢
        exact ⟨hdigits.1, by decide, hdigits.2⟩
    · split
      · decide
      · decide

/-- The text of a number has only characters of numbers. -/
theorem render_numeral {x : Binary64} (hx : x.isFinite = true) : ∀ c ∈ render (.float x), isNumeral c = true := by
  cases x with
  | finite s m e =>
    have hbody : ∀ c ∈ (if m = 0 then ['0', '.', '0'] else (shortest m e).text), isNumeral c = true := by
      split
      · exact List.all_eq_true.mp (by decide)
      · exact decimal_text_numeral _
    simp only [render, text?, Option.getD_some]
    split
    · exact List.forall_mem_cons.mpr ⟨by decide, hbody⟩
    · exact hbody
  | nan => cases hx
  | infinite s => cases hx

/-! ## What is left after a number -/

theorem exponentDigits?_suffix {minus : Bool} {s left : List Char} {e : Option Int}
    (h : exponentDigits? minus s = some (e, left)) : left <:+ s := by
  simp only [exponentDigits?] at h
  split at h
  · cases h
  · obtain ⟨-, rfl⟩ := Prod.mk.inj (Option.some.inj h)
    exact List.dropWhile_suffix _

theorem exponentPart?_suffix {s left : List Char} {e : Option Int} (h : exponentPart? s = some (e, left)) : left <:+ s := by
  unfold exponentPart? at h
  split at h
  · next c r =>
    split at h
    · refine List.IsSuffix.trans ?_ (List.suffix_cons c r)
      split at h
      · exact (exponentDigits?_suffix h).trans (List.suffix_cons _ _)
      · exact (exponentDigits?_suffix h).trans (List.suffix_cons _ _)
      · exact exponentDigits?_suffix h
    · obtain ⟨-, rfl⟩ := Prod.mk.inj (Option.some.inj h)
      exact List.suffix_rfl
  · obtain ⟨-, rfl⟩ := Prod.mk.inj (Option.some.inj h)
    exact List.suffix_rfl

theorem unsigned?_suffix {negative : Bool} {s left : List Char} {v : Json} (h : unsigned? negative s = some (v, left)) :
    left <:+ s := by
  simp only [unsigned?] at h
  split at h
  · cases h
  · refine List.IsSuffix.trans ?_ (List.dropWhile_suffix Char.isDigit)
    split at h
    · next r hr =>
      split at h
      · cases h
      · obtain ⟨⟨e, rest⟩, he, h⟩ := Option.bind_eq_some_iff.mp h
        obtain ⟨x, -, h⟩ := Option.bind_eq_some_iff.mp h
        obtain ⟨-, rfl⟩ := Prod.mk.inj (Option.some.inj h)
        rw [hr]
        exact (exponentPart?_suffix he).trans ((List.dropWhile_suffix _).trans (List.suffix_cons _ r))
    · obtain ⟨⟨e, rest⟩, he, h⟩ := Option.bind_eq_some_iff.mp h
      suffices hrest : rest = left from hrest ▸ exponentPart?_suffix he
      cases e with
      | some e =>
        obtain ⟨x, -, h⟩ := Option.bind_eq_some_iff.mp h
        exact (Prod.mk.inj (Option.some.inj h)).2
      | none =>
        obtain ⟨x, -, h⟩ := Option.bind_eq_some_iff.mp h
        exact (Prod.mk.inj (Option.some.inj h)).2

theorem number?_suffix {s left : List Char} {v : Json} (h : number? s = some (v, left)) : left <:+ s := by
  unfold number? at h
  split at h
  · exact (unsigned?_suffix h).trans (List.suffix_cons _ _)
  · exact unsigned?_suffix h

/-! ## Numbers as values -/

/-- A character of numbers opens no other value. -/
theorem numeral_opens {c : Char} (hc : isNumeral c = true) :
    isSpace c = false ∧ c ≠ '"' ∧ c ≠ '[' ∧ c ≠ ']' ∧ c ≠ '\x7b' ∧ c ≠ 't' ∧ c ≠ 'f' ∧ c ≠ 'n' := by
  refine ⟨?_, ?_, ?_, ?_, ?_, ?_, ?_, ?_⟩
  · cases hspace : isSpace c with
    | false => rfl
    | true =>
      simp only [isSpace, Bool.or_eq_true, beq_iff_eq] at hspace
      rcases hspace with ((rfl | rfl) | rfl) | rfl
      · cases hc
      · cases hc
      · cases hc
      · cases hc
  all_goals
    rintro rfl
    cases hc

theorem skipSpaces_cons {c : Char} (hc : isSpace c = false) (s : List Char) : skipSpaces (c :: s) = c :: s :=
  List.dropWhile_cons_of_neg (by rw [hc]; exact Bool.false_ne_true)

theorem value?_numeral {c : Char} (hc : isNumeral c = true) (fuel depth : Nat) (s : List Char) :
    value? (fuel + 1) depth (c :: s) = number? (c :: s) := by
  obtain ⟨hspace, hquote, hbracket, -, hbrace, ht, hf, hn⟩ := numeral_opens hc
  rw [value?, skipSpaces_cons hspace]
  simp only [if_neg hquote, if_neg hbracket, if_neg hbrace, if_neg ht, if_neg hf, if_neg hn]

/-- A number that is read back from its whole text leaves nothing of the text. -/
theorem number?_of_parse? {x : Binary64} (hx : x.isFinite = true) (h : parse? (text (.float x)) = some (.float x)) :
    number? (render (.float x)) = some (.float x, []) := by
  have hnumeral := render_numeral hx
  unfold parse? text at h
  rw [String.toList_ofList] at h
  dsimp only at h
  generalize render (.float x) = s at h hnumeral
  cases s with
  | nil => cases h
  | cons c s =>
    rw [value?_numeral (hnumeral c List.mem_cons_self)] at h
    cases hread : number? (c :: s) with
    | none => rw [hread] at h; cases h
    | some read =>
      obtain ⟨v, left⟩ := read
      rw [hread] at h
      dsimp only at h
      split at h
      · next hleft =>
        obtain rfl := Option.some.inj h
        cases left with
        | nil => rfl
        | cons d left =>
          have hd := hnumeral d ((number?_suffix hread).subset List.mem_cons_self)
          rw [skipSpaces_cons (numeral_opens hd).1] at hleft
          cases hleft
      · cases h

end PatternCatalog.Json
