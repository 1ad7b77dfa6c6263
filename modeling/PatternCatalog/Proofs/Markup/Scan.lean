/-
  PatternCatalog.Proofs.Markup.Scan — what the scanners make of written pieces.

  Each lemma says of one scanner that it takes a written piece back, whatever follows it. The
  scanners of names and marks skip blanks and comments first; of a written name nothing is
  skipped, for it starts with no blank and no slash (`skipTrivia_name`). A string is taken back with
  its escapes (`stringLiteral_quoted`).
-/

import Mathlib.Data.List.TakeWhile
import PatternCatalog.Markup.Printer
import PatternCatalog.Markup.Scan
import PatternCatalog.Proofs.Text.Letters
import PatternCatalog.Proofs.Text.Trim

namespace PatternCatalog.Markup

open Text

/-- A scanner goes on with what the one before it gave. -/
theorem ok_bind {α β : Type} (a : α) (f : α → Scan β) : (Except.ok a >>= f) = f a := rfl

/-! ## Blanks -/

theorem skipTrivia_blank {c : Char} (r : List Char) (hblank : isBlank c = true) (hslash : c ≠ '/') :
    skipTrivia (c :: r) = skipTrivia r := by
  unfold skipTrivia
  rw [skipTriviaFrom.eq_def]
  split <;> simp_all

theorem skipTrivia_here {c : Char} (r : List Char) (hblank : isBlank c = false) (hslash : c ≠ '/') :
    skipTrivia (c :: r) = c :: r := by
  unfold skipTrivia
  rw [skipTriviaFrom.eq_def]
  split <;> simp_all

@[simp] theorem skipTrivia_space (r : List Char) : skipTrivia (' ' :: r) = skipTrivia r :=
  skipTrivia_blank r (by decide) (by decide)

@[simp] theorem skipTrivia_feed (r : List Char) : skipTrivia ('\n' :: r) = skipTrivia r :=
  skipTrivia_blank r (by decide) (by decide)

/-! ## Names -/

/-- A name: a character that may start one, and characters that may go on. -/
def isName (s : String) : Bool :=
  match s.toList with
  | c :: r => isNameStart c && r.all isNamePart
  | [] => false

theorem isName_cons {s : String} (h : isName s = true) :
    ∃ c r, s.toList = c :: r ∧ isNameStart c = true ∧ ∀ d ∈ r, isNamePart d = true := by
  unfold isName at h
  split at h
  · next c r hs =>
    rw [Bool.and_eq_true, List.all_eq_true] at h
    exact ⟨c, r, hs, h⟩
  · cases h

theorem isNamePart_of_isNameStart {c : Char} (h : isNameStart c = true) : isNamePart c = true := by
  unfold isNameStart at h
  unfold isNamePart isAlphanumeric
  simp only [Bool.or_eq_true] at h ⊢
  rcases h with (h | h) | h
  · exact .inl (.inl (.inl h))
  · exact .inl (.inr h)
  · exact .inr h

theorem isNamePart_not_blank {c : Char} (h : isNamePart c = true) : isBlank c = false := by
  unfold isNamePart at h
  simp only [Bool.or_eq_true, beq_iff_eq] at h
  rcases h with (h | rfl) | rfl
  · exact alphanumeric_not_blank h
  · decide
  · decide

/-- Characters are told apart by a class that one of them is in. -/
theorem ne_of_class {p : Char → Bool} {c d : Char} (h : p c = true) (hd : p d = false) : c ≠ d := by
  rintro rfl
  rw [h] at hd
  cases hd

/-- Nothing of a name is skipped. -/
theorem skipTrivia_name {s : String} (h : isName s = true) (r : List Char) : skipTrivia (s.toList ++ r) = s.toList ++ r := by
  obtain ⟨c, cs, hs, hc, -⟩ := isName_cons h
  have hpart := isNamePart_of_isNameStart hc
  rw [hs, List.cons_append]
  exact skipTrivia_here _ (isNamePart_not_blank hpart) (ne_of_class hpart (by decide))

/-- A name does not start with a mark. -/
theorem name_head {s : String} (h : isName s = true) (r : List Char) {d : Char} (hd : isNamePart d = false) :
    (s.toList ++ r).head? ≠ some d := by
  obtain ⟨c, cs, hs, hc, -⟩ := isName_cons h
  rw [hs, List.cons_append, List.head?_cons, ne_eq, Option.some.injEq]
  exact ne_of_class (isNamePart_of_isNameStart hc) hd

/-- Where a run of characters ends. -/
def Ends (p : Char → Bool) (r : List Char) : Prop := ∀ c ∈ r.head?, p c = false

theorem ends_cons {p : Char → Bool} {c : Char} (h : p c = false) (r : List Char) : Ends p (c :: r) := by
  intro d hd
  rwa [← Option.some.inj hd]

theorem takeWhile_run {p : Char → Bool} {cs r : List Char} (hcs : ∀ c ∈ cs, p c = true) (hr : Ends p r) :
    (cs ++ r).takeWhile p = cs := by
  rw [List.takeWhile_append_of_pos hcs]
  cases r with
  | nil => simp
  | cons c r => simp [hr c rfl]

theorem dropWhile_run {p : Char → Bool} {cs r : List Char} (hcs : ∀ c ∈ cs, p c = true) (hr : Ends p r) :
    (cs ++ r).dropWhile p = r := by
  rw [List.dropWhile_append_of_pos hcs]
  cases r with
  | nil => rfl
  | cons c r => simp [hr c rfl]

theorem identifier_name {s : String} (h : isName s = true) {r : List Char} (hr : Ends isNamePart r) :
    identifier (s.toList ++ r) = .ok (s, r) := by
  have hskip := skipTrivia_name h r
  obtain ⟨c, cs, hs, hc, hcs⟩ := isName_cons h
  have hname : s = String.ofList (c :: cs) := by rw [← hs, String.ofList_toList]
  unfold identifier identifier?
  rw [hskip, hs, List.cons_append]
  dsimp only
  rw [if_pos hc, takeWhile_run hcs hr, dropWhile_run hcs hr, hname]

@[simp] theorem identifier_space (r : List Char) : identifier (' ' :: r) = identifier r := by
  unfold identifier identifier?
  rw [skipTrivia_space]

/-! ## Words and marks -/

theorem eat?_append (mark : String) (r : List Char) : eat? mark (mark.toList ++ r) = some r := by
  simp [eat?, dropStart?]

/-- A mark is not eaten where another character stands. -/
theorem eat?_of_head {mark : String} {m : Char} {s : List Char} (hmark : mark.toList.head? = some m) (hs : s.head? ≠ some m) :
    eat? mark s = none := by
  obtain ⟨ms, hms⟩ := List.head?_eq_some_iff.mp hmark
  unfold eat? dropStart?
  rw [hms, if_neg]
  intro hprefix
  obtain ⟨t, rfl⟩ := List.isPrefixOf_iff_prefix.mp hprefix
  exact hs rfl

theorem eatOptional_mark (mark : String) (r : List Char) : eatOptional mark (mark.toList ++ r) = r := by
  rw [eatOptional, eat?_append, Option.getD_some]

theorem eatKeyword?_word {word : String} (h : isName word = true) {r : List Char} (hr : Ends isNamePart r) :
    eatKeyword? word (word.toList ++ r) = some r := by
  unfold eatKeyword?
  rw [skipTrivia_name h, eat?_append]
  cases r with
  | nil => rfl
  | cons c r => simp [hr c rfl]

/-- A word is not eaten where another character stands. -/
theorem eatKeyword?_of_head {word : String} {m c : Char} (hword : word.toList.head? = some m) (hblank : isBlank c = false)
    (hslash : c ≠ '/') (hne : c ≠ m) (r : List Char) : eatKeyword? word (c :: r) = none := by
  unfold eatKeyword?
  rw [skipTrivia_here r hblank hslash, eat?_of_head hword (by simpa using hne)]

theorem expectKeyword_word {word : String} (h : isName word = true) {r : List Char} (hr : Ends isNamePart r) :
    expectKeyword word (word.toList ++ r) = .ok ((), r) := by
  unfold expectKeyword
  rw [eatKeyword?_word h hr]

@[simp] theorem eatKeyword?_space (word : String) (r : List Char) : eatKeyword? word (' ' :: r) = eatKeyword? word r := by
  unfold eatKeyword?
  rw [skipTrivia_space]

@[simp] theorem eatKeyword?_feed (word : String) (r : List Char) : eatKeyword? word ('\n' :: r) = eatKeyword? word r := by
  unfold eatKeyword?
  rw [skipTrivia_feed]

@[simp] theorem expectKeyword_space (word : String) (r : List Char) : expectKeyword word (' ' :: r) = expectKeyword word r := by
  unfold expectKeyword
  rw [eatKeyword?_space, skipTrivia_space]

/-- A mark: nothing of it is skipped. -/
def isMark (s : String) : Bool := s.toList.head?.any fun c => !isBlank c && c != '/'

theorem expect_mark {mark : String} (h : isMark mark = true) (what : String) (r : List Char) :
    expect mark what (mark.toList ++ r) = .ok ((), r) := by
  obtain ⟨c, hc, hplain⟩ := (Option.any_eq_true _ _).mp h
  obtain ⟨cs, hmark⟩ := List.head?_eq_some_iff.mp hc
  simp only [Bool.and_eq_true, Bool.not_eq_true', bne_iff_ne] at hplain
  have hskip : skipTrivia (mark.toList ++ r) = mark.toList ++ r := by
    rw [hmark]
    exact skipTrivia_here _ hplain.1 hplain.2
  unfold expect
  dsimp only
  rw [hskip, eat?_append]

@[simp] theorem expect_space (mark what : String) (r : List Char) : expect mark what (' ' :: r) = expect mark what r := by
  unfold expect
  rw [skipTrivia_space]

/-! ## Strings -/

/-- A character in a string literal: itself, or what stands behind a backslash. -/
inductive Escaped (c : Char) : List Char → Prop
  | plain (hquote : c ≠ '"') (hback : c ≠ '\\') : Escaped c [c]
  | behind (d : Char) {r : List Char} (hr : ∀ e ∈ r, e ≠ '"' ∧ e ≠ '\\') : Escaped c ('\\' :: d :: r)

theorem Escaped.letter (c d : Char) : Escaped c ['\\', d] := .behind d fun _ h => nomatch h

theorem escaped_escape (c : Char) : Escaped c (escape c) := by
  unfold escape
  split
  · exact .letter c c
  · next h =>
    rw [not_or] at h
    exact .plain h.2 h.1

/-- What the reader of strings makes of a written character. -/
def unescaped : List Char → List Char
  | '\\' :: d :: r => unescape d :: r
  | w => w

theorem unescaped_escape (c : Char) : unescaped (escape c) = [c] := by
  unfold escape
  split
  · next h => rcases h with rfl | rfl <;> decide
  · simp [unescaped]

theorem stringBody?_plain {quote c : Char} (hquote : c ≠ quote) (hback : c ≠ '\\') (acc r : List Char) :
    stringBody? quote acc (c :: r) = stringBody? quote (c :: acc) r := by
  simp [stringBody?, hquote, hback]

theorem stringBody?_plains {quote : Char} {s : List Char} (h : ∀ c ∈ s, c ≠ quote ∧ c ≠ '\\') (acc r : List Char) :
    stringBody? quote acc (s ++ r) = stringBody? quote (s.reverse ++ acc) r := by
  induction s generalizing acc with
  | nil => rfl
  | cons c s ih =>
    obtain ⟨hquote, hback⟩ := h c List.mem_cons_self
    rw [List.cons_append, stringBody?_plain hquote hback, ih fun d hd => h d (List.mem_cons_of_mem _ hd)]
    simp

theorem stringBody?_escaped {c : Char} {w : List Char} (h : Escaped c w) (acc r : List Char) :
    stringBody? '"' acc (w ++ r) = stringBody? '"' ((unescaped w).reverse ++ acc) r := by
  cases h with
  | plain hquote hback =>
    have hself : unescaped [c] = [c] := by simp [unescaped]
    rw [List.singleton_append, stringBody?_plain hquote hback, hself]
    rfl
  | behind d hr =>
    rw [List.cons_append, List.cons_append, stringBody?, stringBody?_plains hr]
    simp [unescaped]

/-- A string body is read character by character, as each is written. -/
theorem stringBody?_written {w : Char → List Char} (hw : ∀ c, Escaped c (w c)) (acc s r : List Char) :
    stringBody? '"' acc (s.flatMap w ++ '"' :: r) = some (acc.reverse ++ s.flatMap fun c => unescaped (w c), r) := by
  induction s generalizing acc with
  | nil => simp [stringBody?]
  | cons c s ih =>
    rw [List.flatMap_cons, List.append_assoc, stringBody?_escaped (hw c), ih]
    simp

theorem stringBody?_quoted (acc s r : List Char) :
    stringBody? '"' acc (s.flatMap escape ++ '"' :: r) = some (acc.reverse ++ s, r) := by
  rw [stringBody?_written escaped_escape]
  simp only [unescaped_escape, List.flatMap_singleton']

theorem stringLiteral_quoted (s : String) (r : List Char) : stringLiteral (quoted s ++ r) = .ok (s, r) := by
  have hbody := stringBody?_quoted [] s.toList r
  simp only [List.reverse_nil, List.nil_append] at hbody
  simp [stringLiteral, quoted, isQuote, hbody]

/-! ## Literals -/

/-- Whether a character is nothing to a brace group, nor cut off at its ends. -/
def isPlain (c : Char) : Bool := !isQuote c && c != '\x7b' && c != '\x7d' && !isBlank c

/-- Blanks around a text are trimmed off. -/
theorem trim_padded {before s after : List Char} (hbefore : ∀ c ∈ before, isBlank c = true) (hafter : ∀ c ∈ after, isBlank c = true)
    (hs : s ≠ []) (hhead : ∀ c ∈ s.head?, isBlank c = false) (hlast : ∀ c ∈ s.getLast?, isBlank c = false) :
    trim (before ++ (s ++ after)) = s := by
  have hstart : Ends isBlank (s ++ after) := by
    obtain ⟨d, t, rfl⟩ := List.exists_cons_of_ne_nil hs
    exact ends_cons (hhead d rfl) _
  have hend : Ends isBlank s.reverse := by simpa [Ends] using hlast
  unfold trim trimStart trimEnd
  rw [dropWhile_run hbefore hstart, List.reverse_append,
    dropWhile_run (fun c hc => hafter c (List.mem_reverse.mp hc)) hend, List.reverse_reverse]

theorem trim_plain {s : List Char} (h : ∀ c ∈ s, isPlain c = true) : trim s = s := by
  have hblank : ∀ c ∈ s, isBlank c = false := fun c hc => by
    have hplain := h c hc
    simp only [isPlain, Bool.and_eq_true, Bool.not_eq_true'] at hplain
    exact hplain.2
  exact trim_of_ends (fun c hc => hblank c (List.mem_of_mem_head? hc)) (fun c hc => hblank c (List.mem_of_mem_getLast? hc))

theorem trim_quoted (s : String) : trim (quoted s) = quoted s := by
  refine trim_of_ends (fun c hc => ?_) (fun c hc => ?_)
  · rw [← Option.some.inj hc]
    decide
  · simp only [quoted, List.getLast?_concat, Option.mem_def, Option.some.injEq] at hc
    rw [← hc]
    decide

end PatternCatalog.Markup
