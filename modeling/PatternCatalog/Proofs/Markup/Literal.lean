/-
  PatternCatalog.Proofs.Markup.Literal — JSON string literals as attribute values.

  The value of an attribute may be a string literal in braces, and a JSON literal is one. The brace
  group takes it as a whole, whatever stands in it (`balanced_written`), so a value is always read
  and is a string. But the reader of strings knows the escapes `\n` and `\t` only and takes any
  other escaped character for itself (`reread`): of a carriage return it makes the letter `r`, and
  of U+0001 the text `u0001`.
  - `attributeValue_quote`: what is read where any string is written.
  - `quoted_value_kept_iff`: it is the string that was written exactly when this has no control
    characters but line feeds and tabs.

  A string with another one is read as a different string (`a_carriage_return_is_read_as_a_letter`).
-/

import PatternCatalog.Json.Printer
import PatternCatalog.Markup.Parser
import PatternCatalog.Proofs.Markup.Printer

namespace PatternCatalog.Markup

open Text

/-! ## Characters -/

theorem digitChar_clear : ∀ n < 16, Nat.digitChar n ≠ '"' ∧ Nat.digitChar n ≠ '\\' := by decide

theorem escaped_json (c : Char) : Escaped c (Json.escape c) := by
  unfold Json.escape
  split
  · exact .letter c '"'
  split
  · exact .letter c '\\'
  split
  · exact .letter c 'n'
  split
  · exact .letter c 'r'
  split
  · exact .letter c 't'
  split
  · exact .letter c 'b'
  split
  · exact .letter c 'f'
  split
  · refine .behind 'u' fun e he => ?_
    simp only [List.mem_cons, List.not_mem_nil, or_false] at he
    rcases he with rfl | rfl | rfl | rfl
    · decide
    · decide
    · exact digitChar_clear _ (by omega)
    · exact digitChar_clear _ (by omega)
  · next hquote hback _ _ _ _ _ _ => exact .plain hquote hback

/-- What is read of a character that a JSON literal holds. -/
def reread (c : Char) : List Char := unescaped (Json.escape c)

theorem Escaped.unescaped_length {c : Char} {w : List Char} (h : Escaped c w) : 0 < (unescaped w).length := by
  cases h with
  | plain => simp [unescaped]
  | behind d hr => exact Nat.succ_pos _

/-- A character is kept unless it is a control character other than a line feed and a tab. -/
theorem reread_eq_singleton_iff (c : Char) : reread c = [c] ↔ (c.toNat < 32 → c = '\n' ∨ c = '\t') := by
  unfold reread Json.escape
  split
  · next h => subst h; decide
  split
  · next h => subst h; decide
  split
  · next h => subst h; decide
  split
  · next h => subst h; decide
  split
  · next h => subst h; decide
  split
  · next h =>
    obtain rfl : c = Char.ofNat 8 := by rw [← h, Char.ofNat_toNat]
    decide
  split
  · next h =>
    obtain rfl : c = Char.ofNat 12 := by rw [← h, Char.ofNat_toNat]
    decide
  split
  · next hfeed _ htab _ _ hcontrol => simp [unescaped, hfeed, htab, hcontrol]
  · next hcontrol => simp [unescaped, hcontrol]

/-- No character is lost, so a string is kept only character by character. -/
theorem flatMap_reread_eq_self_iff (s : List Char) : s.flatMap reread = s ↔ ∀ c ∈ s, reread c = [c] := by
  have hlength : ∀ c, 0 < (reread c).length := fun c => (escaped_json c).unescaped_length
  induction s with
  | nil => simp
  | cons c s ih =>
    rw [List.flatMap_cons, List.forall_mem_cons]
    refine ⟨fun h => ?_, fun ⟨hc, hs⟩ => by rw [hc, ih.mpr hs, List.singleton_append]⟩
    have hfirst := hlength c
    have hrest : s.length ≤ (s.flatMap reread).length := length_le_flatMap hlength s
    have htotal := congrArg List.length h
    rw [List.length_append, List.length_cons] at htotal
    obtain ⟨hc, hs⟩ := List.append_inj (show reread c ++ s.flatMap reread = [c] ++ s from h) (by rw [List.length_singleton]; omega)
    exact ⟨hc, ih.mp hs⟩

/-! ## Attribute values -/

theorem IsClear.of_isBlank {c : Char} (h : isBlank c = true) : IsClear c := by
  have hne : ∀ d, isBlank d = false → c ≠ d := fun d hd => ne_of_class h hd
  simp [IsClear, isQuote, hne '"' (by decide), hne '\'' (by decide), hne '\x60' (by decide), hne '\x7b' (by decide),
    hne '\x7d' (by decide)]

section
variable {before after : List Char} (hbefore : ∀ c ∈ before, isBlank c = true) (hafter : ∀ c ∈ after, isBlank c = true)
include hbefore hafter

/-- The group around a literal ends behind it. -/
theorem groupBody_json (s r : List Char) :
    groupBody 0 none [] (before ++ (Json.quote s ++ (after ++ '\x7d' :: r))) = .ok (before ++ (Json.quote s ++ after), r) := by
  have hliteral : Balanced (Json.quote s) := balanced_written escaped_json s
  have hbalanced : Balanced (before ++ (Json.quote s ++ after)) :=
    (balanced_clear fun c hc => .of_isBlank (hbefore c hc)).append
      (hliteral.append (balanced_clear fun c hc => .of_isBlank (hafter c hc)))
  exact groupBody_iff.mpr ⟨hbalanced, by simp⟩

/-- Whatever string is written, a string is read. -/
theorem attributeValue_quote (s : String) (r : List Char) :
    attributeValue ('\x7b' :: (before ++ (Json.quote s.toList ++ (after ++ '\x7d' :: r)))) =
      .ok (some (.string (String.ofList (s.toList.flatMap reread))), r) := by
  have htrim : trim (before ++ (Json.quote s.toList ++ after)) = Json.quote s.toList := by
    refine trim_padded hbefore hafter (by simp [Json.quote]) (fun c hc => ?_) fun c hc => ?_
    · rw [← Option.some.inj hc]
      decide
    · simp only [Json.quote, List.getLast?_concat, Option.mem_def, Option.some.injEq] at hc
      rw [← hc]
      decide
  have hliteral : literalExpression? (Json.quote s.toList) = some (.string (String.ofList (s.toList.flatMap reread))) :=
    literalExpression?_written escaped_json s.toList
  unfold attributeValue
  rw [skipTrivia_here _ (by decide) (by decide)]
  simp [groupBody_json hbefore hafter, htrim, hliteral, ok_bind, pure, Except.pure]

/-- A string is read as it was written exactly when its control characters are line feeds and tabs. -/
theorem quoted_value_kept_iff (s : String) (r : List Char) :
    attributeValue ('\x7b' :: (before ++ (Json.quote s.toList ++ (after ++ '\x7d' :: r)))) = .ok (some (.string s), r) ↔
      ∀ c ∈ s.toList, c.toNat < 32 → c = '\n' ∨ c = '\t' := by
  have hsame : String.ofList (s.toList.flatMap reread) = s ↔ s.toList.flatMap reread = s.toList :=
    ⟨fun h => String.toList_ofList.symm.trans (congrArg String.toList h), fun h => by rw [h, String.ofList_toList]⟩
  simp only [← reread_eq_singleton_iff]
  rw [← flatMap_reread_eq_self_iff, ← hsame, attributeValue_quote hbefore hafter]
  simp

end

/-- Braces, quotes, backslashes, a line feed and a comment, in blanks. -/
theorem marked_text_kept :
    attributeValue ('\x7b' :: ([' '] ++ (Json.quote "\x7d\"'\\\n/*".toList ++ (['\n'] ++ '\x7d' :: [])))) =
      .ok (some (.string "\x7d\"'\\\n/*"), []) :=
  (quoted_value_kept_iff (List.all_eq_true.mp rfl) (List.all_eq_true.mp rfl) "\x7d\"'\\\n/*" []).mpr (by simp)

/-- The reader knows two of the letters that JSON writes behind a backslash. -/
theorem a_carriage_return_is_read_as_a_letter :
    attributeValue ('\x7b' :: (Json.quote "\r".toList ++ ['\x7d'])) = .ok (some (.string "r"), []) ∧
      ¬ ∀ s : String, attributeValue ('\x7b' :: (Json.quote s.toList ++ ['\x7d'])) = .ok (some (.string s), []) := by
  have hread : attributeValue ('\x7b' :: (Json.quote "\r".toList ++ ['\x7d'])) = .ok (some (.string "r"), []) := by decide
  refine ⟨hread, fun h => ?_⟩
  have hkept := h "\r"
  rw [hread] at hkept
  revert hkept
  decide

end PatternCatalog.Markup
