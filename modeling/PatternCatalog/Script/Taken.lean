/-
  PatternCatalog.Script.Taken — what tokens and gaps leave of a text.

  Whatever is read off a text leaves a suffix of it. A token takes at least one character of a
  text that has any (`Token.next_suffix`); the gap in front of it may be empty
  (`Gap.after_suffix`). Readers carry these facts, so that no parser can move back.
-/

import PatternCatalog.Script.Comment

namespace PatternCatalog.Script

open Text

namespace Token

/-! ## Words -/

theorem codePoint?_suffix {s rest : List Char} {c : Char} (h : codePoint? s = some (c, rest)) : rest <:+ s := by
  unfold codePoint? at h
  split at h
  · next r =>
    dsimp only at h
    split at h
    · next r' hdrop =>
      split at h
      · cases h
      · obtain rfl : r' = rest := (Prod.mk.inj (Option.some.inj h)).2
        have hsuffix : r' <:+ r.drop (r.takeWhile fun c => (hexDigit? c).isSome).length := by
          rw [hdrop]
          exact List.suffix_cons _ _
        exact (hsuffix.trans (List.drop_suffix _ _)).trans (List.suffix_cons _ _)
    · cases h
  · next a b c d r _ =>
    split at h
    · obtain rfl : r = rest := (Prod.mk.inj (Option.some.inj h)).2
      exact ⟨[a, b, c, d], rfl⟩
    · cases h
  · cases h

theorem wordTail_suffix (fuel : Nat) (escaped : Bool) (acc s : List Char) : (wordTail fuel escaped acc s).2.2 <:+ s := by
  induction fuel generalizing escaped acc s with
  | zero => exact List.suffix_refl s
  | succ fuel ih =>
    unfold wordTail
    split
    · next r =>
      split
      · next c rest hcode =>
        split
        · exact (ih _ _ _).trans ((codePoint?_suffix hcode).trans ⟨['\\', 'u'], rfl⟩)
        · exact List.suffix_refl _
      · exact List.suffix_refl _
    · next c r _ =>
      split
      · exact (ih _ _ _).trans (List.suffix_cons _ _)
      · exact List.suffix_refl _
    · exact List.suffix_refl _

theorem part_of_start {c : Char} (h : isScriptIdStart c = true) : isScriptIdPart c = true := by
  unfold isScriptIdStart at h
  unfold isScriptIdPart
  split at h
  · next hascii =>
    rw [if_pos hascii]
    simp only [Char.isAlphanum, Bool.or_eq_true] at h ⊢
    rcases h with (h | h) | h <;> simp [h]
  · next hascii => simp [hascii, h]

/-- A name takes the character it starts with. -/
theorem name?_suffix {s rest : List Char} {text : String} {escaped : Bool} (h : name? s = some (text, escaped, rest)) :
    rest <:+ s.tail := by
  unfold name? at h
  split at h
  · next hstart =>
    dsimp only at h
    unfold startsName at hstart
    split at hstart
    · next r =>
      -- The name starts with an escape, which is no plain character.
      have hplain : (('\\' :: 'u' :: r).takeWhile isScriptIdPart) = [] := by
        rw [List.takeWhile_cons_of_neg (by decide)]
      obtain ⟨⟨c, r'⟩, hcode, hc⟩ := (Option.any_eq_true _ _).mp hstart
      rw [hplain] at h
      obtain rfl := (Prod.mk.inj (Prod.mk.inj (Option.some.inj h)).2).2
      rw [wordTail]
      simp only [hcode, part_of_start hc, if_true]
      exact (wordTail_suffix _ _ _ _).trans ((codePoint?_suffix hcode).trans (List.suffix_cons _ _))
    · next c r _ =>
      have hpart := part_of_start hstart
      have hdrop : (c :: r).drop ((c :: r).takeWhile isScriptIdPart).length <:+ r := by
        rw [List.takeWhile_cons_of_pos hpart, List.length_cons, List.drop_succ_cons]
        exact List.drop_suffix _ _
      split at h
      · next r' hrest =>
        obtain rfl := (Prod.mk.inj (Prod.mk.inj (Option.some.inj h)).2).2
        rw [hrest] at hdrop
        exact (wordTail_suffix _ _ _ _).trans hdrop
      · obtain rfl := (Prod.mk.inj (Prod.mk.inj (Option.some.inj h)).2).2
        exact hdrop
    · cases hstart
  · cases h

/-! ## Numbers -/

theorem digits_suffix (s : List Char) : (digits s).2 <:+ s := List.dropWhile_suffix _

theorem sealNumber_suffix (t : Token) (rest : List Char) : (sealNumber t rest).2 <:+ rest := by
  unfold sealNumber
  split
  · split <;> exact List.suffix_refl _
  · exact List.suffix_refl _

theorem wholeOrBig_suffix (n : Nat) (rest : List Char) : (wholeOrBig n rest).2 <:+ rest := by
  unfold wholeOrBig
  split
  · exact (sealNumber_suffix _ _).trans (List.suffix_cons _ _)
  · exact sealNumber_suffix _ _

theorem basedNumber_suffix (base : Nat) (isDigit : Char → Bool) (s : List Char) : (basedNumber base isDigit s).2 <:+ s := by
  unfold basedNumber
  dsimp only
  split
  · exact List.suffix_refl _
  · exact (wholeOrBig_suffix _ _).trans (List.dropWhile_suffix _)

theorem exponent?_suffix {s rest : List Char} {e : Int} (h : exponent? s = some (e, rest)) : rest <:+ s := by
  unfold exponent? at h
  split at h
  · next minus s' hsign =>
    have hs' : s' <:+ s := by
      split at hsign <;> obtain ⟨-, rfl⟩ := Prod.mk.inj hsign
      · exact List.suffix_cons _ _
      · exact List.suffix_cons _ _
      · exact List.suffix_refl _
    dsimp only at h
    split at h
    · cases h
    · obtain rfl := (Prod.mk.inj (Option.some.inj h)).2
      exact (digits_suffix s').trans hs'

theorem decimal_suffix (whole part rest : List Char) : (decimal whole part rest).2 <:+ rest := by
  unfold decimal
  dsimp only
  split
  · split
    · split
      · next hexponent =>
        exact (sealNumber_suffix _ _).trans ((exponent?_suffix hexponent).trans (List.suffix_cons _ _))
      · exact List.suffix_cons _ _
    · exact sealNumber_suffix _ _
  · exact List.suffix_refl _

theorem readNumber_plain_suffix {c : Char} (hc : c.isDigit = true) (s : List Char) :
    (readNumber.plain (c :: s)).2 <:+ s := by
  have hdigits : (digits (c :: s)).2 <:+ s := by
    rw [digits, List.dropWhile_cons_of_pos (by rw [isDigitPart, hc]; rfl)]
    exact List.dropWhile_suffix _
  unfold readNumber.plain
  dsimp only
  split
  · next r hrest =>
    rw [hrest] at hdigits
    exact (decimal_suffix _ _ _).trans ((digits_suffix r).trans ((List.suffix_cons _ _).trans hdigits))
  · next hrest => exact (wholeOrBig_suffix _ _).trans hdigits
  · exact (decimal_suffix _ _ _).trans hdigits

/-- A number takes the digit it starts with. -/
theorem readNumber_suffix {c : Char} (hc : c.isDigit = true) (s : List Char) : (readNumber (c :: s)).2 <:+ s := by
  unfold readNumber
  split
  · next c' r hs =>
    obtain ⟨rfl, rfl⟩ := List.cons.inj hs
    split
    · exact (basedNumber_suffix _ _ _).trans (List.suffix_cons _ _)
    · split
      · exact (basedNumber_suffix _ _ _).trans (List.suffix_cons _ _)
      · split
        · exact (basedNumber_suffix _ _ _).trans (List.suffix_cons _ _)
        · split
          · exact basedNumber_suffix _ _ _
          · exact readNumber_plain_suffix hc _
  · exact readNumber_plain_suffix hc s

/-! ## Strings, templates and regular expressions -/

theorem quotedText?_suffix {quote : Char} {acc s text rest : List Char} (h : quotedText? quote acc s = some (text, rest)) :
    rest <:+ s := by
  fun_induction quotedText? quote acc s with
  | case1 => cases h
  | case2 acc r ih => exact (ih h).trans ⟨['\\', '\r', '\n'], rfl⟩
  | case3 acc c r _ ih => exact (ih h).trans ⟨['\\', c], rfl⟩
  | case4 acc c r =>
    obtain rfl := (Prod.mk.inj (Option.some.inj h)).2
    exact List.suffix_cons _ _
  | case5 => cases h
  | case6 acc c r _ _ _ _ ih => exact (ih h).trans (List.suffix_cons _ _)

theorem readString_suffix (quote : Char) (s : List Char) : (readString quote s).2 <:+ s := by
  unfold readString
  split
  · exact List.suffix_refl _
  · next text rest htext =>
    split
    · exact quotedText?_suffix htext
    · exact quotedText?_suffix htext

theorem templateText?_suffix {acc s text rest : List Char} {closed : Bool}
    (h : templateText? acc s = some (text, closed, rest)) : rest <:+ s := by
  fun_induction templateText? acc s with
  | case1 => cases h
  | case2 acc r =>
    obtain rfl := (Prod.mk.inj (Prod.mk.inj (Option.some.inj h)).2).2
    exact ⟨['$', '\x7b'], rfl⟩
  | case3 acc c r ih => exact (ih h).trans ⟨['\\', c], rfl⟩
  | case4 acc r =>
    obtain rfl := (Prod.mk.inj (Prod.mk.inj (Option.some.inj h)).2).2
    exact List.suffix_cons _ _
  | case5 acc c r _ _ _ ih => exact (ih h).trans (List.suffix_cons _ _)

theorem readTemplate_suffix (s : List Char) : (readTemplate s).2 <:+ s := by
  unfold readTemplate
  split
  · exact List.suffix_refl _
  · next htext => exact templateText?_suffix htext

theorem regexBody_suffix {inSet : Bool} {s rest : List Char} (h : regexBody inSet s = some rest) : rest <:+ s := by
  fun_induction regexBody inSet s with
  | case1 => cases h
  | case2 => cases h
  | case3 inSet c r _ ih => exact (ih h).trans ⟨['\\', c], rfl⟩
  | case4 => cases h
  | case5 inSet r _ _ ih => exact (ih h).trans (List.suffix_cons _ _)
  | case6 inSet r _ _ _ ih => exact (ih h).trans (List.suffix_cons _ _)
  | case7 inSet c r _ _ _ _ _ =>
    obtain rfl := Option.some.inj h
    exact List.suffix_cons _ _
  | case8 inSet c r _ _ _ _ _ ih => exact (ih h).trans (List.suffix_cons _ _)

theorem regex?_suffix {s rest : List Char} (h : regex? s = some rest) : rest <:+ s := by
  obtain ⟨body, hbody, rfl⟩ := Option.map_eq_some_iff.mp h
  exact (List.dropWhile_suffix _).trans (regexBody_suffix hbody)

/-! ## All tokens -/

theorem dropPrefix?_suffix {m s rest : List Char} (h : firstMark.dropPrefix? m s = some rest) : rest = s.drop m.length := by
  fun_induction firstMark.dropPrefix? m s with
  | case1 s => exact (Option.some.inj h).symm
  | case2 m ms s ih => exact ih h
  | case3 => cases h
  | case4 => cases h

theorem firstMark_suffix {s rest : List Char} {t : Token} (h : firstMark s = some (t, rest)) : rest <:+ s.tail := by
  obtain ⟨m, hm, hmark⟩ := List.exists_of_findSome?_eq_some h
  obtain ⟨r, hr, he⟩ := Option.map_eq_some_iff.mp hmark
  obtain rfl : r = rest := (Prod.mk.inj he).2
  have hlength : ∀ m ∈ marks, m.toList.length ≠ 0 := by decide
  obtain ⟨k, hk⟩ := Nat.exists_eq_succ_of_ne_zero (hlength m hm)
  rw [dropPrefix?_suffix hr, hk, ← List.drop_tail]
  exact List.drop_suffix _ _

theorem firstMark_getD_suffix (c : Char) (s : List Char) : ((firstMark (c :: s)).getD (.invalid, s)).2 <:+ s := by
  cases h : firstMark (c :: s) with
  | none => exact List.suffix_refl s
  | some found => exact firstMark_suffix (t := found.1) h

/-- A token takes a character, unless there is none. -/
theorem next_suffix (s : List Char) : (next s).2 <:+ s.tail := by
  unfold next
  split
  · exact List.suffix_refl _
  · next c r =>
    split
    · next hname => exact name?_suffix hname
    · split
      · next hdigit => exact readNumber_suffix hdigit r
      · split
        · exact readString_suffix c r
        · split
          · exact readTemplate_suffix r
          · split
            · split
              · next hname => exact (name?_suffix hname).trans (List.tail_suffix r)
              · exact List.suffix_refl _
            · split
              · exact List.suffix_refl _
              · next d r' _ _ =>
                split
                · exact (decimal_suffix _ _ _).trans (digits_suffix _)
                · exact firstMark_getD_suffix _ _
              · next d rest hs =>
                obtain ⟨-, rfl⟩ := List.cons.inj hs
                split
                · exact List.suffix_refl _
                · exact List.suffix_cons _ _
              · next hs =>
                obtain ⟨-, rfl⟩ := List.cons.inj hs
                exact List.suffix_cons _ _
              · exact firstMark_getD_suffix c r

theorem next_nil : (next []).1 = .eof := rfl

end Token

/-! ## Gaps -/

/-- The text that a walk has not decided upon: an open comment may still turn out to be none. -/
def GapMode.pending : GapMode → List Char
  | .block text => '/' :: '*' :: text.reverse
  | _ => []

theorem Gap.walk_suffix (g : Gap) (mode : GapMode) (s : List Char) : (walk g mode s).2 <:+ mode.pending ++ s := by
  fun_induction walk g mode s with
  | case1 g text r ih =>
    exact ih.trans ((List.suffix_append ('/' :: '*' :: text.reverse ++ ['*', '/']) r).trans (by simp [GapMode.pending]))
  | case2 g text c r _ ih => simpa [GapMode.pending] using ih
  | case3 g text => simp [GapMode.pending]
  | case4 g c r _ ih => exact ih.trans (List.suffix_cons _ _)
  | case5 g c r _ ih => exact ih.trans (List.suffix_cons _ _)
  | case6 g r ih => exact ih.trans ⟨['/', '/'], rfl⟩
  | case7 g r ih => exact ih
  | case8 g c r _ _ _ ih => exact ih.trans (List.suffix_cons _ _)
  | case9 g c r _ _ _ _ ih => exact ih.trans (List.suffix_cons _ _)
  | case10 g c r => exact List.suffix_refl _
  | case11 g mode => exact List.nil_suffix

theorem Gap.after_suffix (s : List Char) : (after s).2 <:+ s := walk_suffix {} .blank s

end PatternCatalog.Script
