/-
  PatternCatalog.Proofs.Markup.Reads — how far the scanners look.

  A scanner that reads a part of a text looks at what follows no further than its first characters
  (`Alike`), so the rest can be replaced by any text that starts alike (`Reads`); after a mark it
  can be replaced by any text (`mark_takes`). What is skipped before a word or a mark is told by a
  grammar of its own (`Trivia`), and what is left starts with no blank and no comment (`Solid`).
  Elements and imports build on these scanners.
-/

import PatternCatalog.Markup.Parser
import PatternCatalog.Proofs.Except
import PatternCatalog.Proofs.Markup.Printer

namespace PatternCatalog.Markup

open Text

/-! ## Blanks and comments -/

/-- Blanks and comments; each comment is closed. -/
inductive Trivia : List Char → Prop
  | nil : Trivia []
  | blank {c : Char} {u : List Char} (hc : isBlank c = true) (hu : Trivia u) : Trivia (c :: u)
  | line {body u : List Char} (hbody : '\n' ∉ body) (hu : Trivia u) : Trivia ('/' :: '/' :: (body ++ '\n' :: u))
  | block {body u : List Char} (hbody : ¬ ['*', '/'] <:+: body) (hu : Trivia u) :
      Trivia ('/' :: '*' :: (body ++ '*' :: '/' :: u))

theorem skipTriviaFrom_line_cons (c : Char) (r : List Char) :
    skipTriviaFrom .line (c :: r) = if c = '\n' then skipTrivia r else skipTriviaFrom .line r := rfl

theorem skipTriviaFrom_line {body : List Char} (h : '\n' ∉ body) (r : List Char) :
    skipTriviaFrom .line (body ++ '\n' :: r) = skipTrivia r := by
  induction body with
  | nil => rfl
  | cons c body ih =>
    rw [List.mem_cons, not_or] at h
    rw [List.cons_append, skipTriviaFrom_line_cons, if_neg (Ne.symm h.1), ih h.2]

theorem skipTriviaFrom_block_cons {c : Char} {r : List Char} (h : ∀ t, c :: r ≠ '*' :: '/' :: t) :
    skipTriviaFrom .block (c :: r) = skipTriviaFrom .block r := by
  rw [skipTriviaFrom.eq_def]
  split
  all_goals simp_all

theorem skipTriviaFrom_block {body : List Char} (h : ¬ ['*', '/'] <:+: body) (r : List Char) :
    skipTriviaFrom .block (body ++ '*' :: '/' :: r) = skipTrivia r := by
  induction body with
  | nil => rfl
  | cons c body ih =>
    have hnext : ∀ t, c :: (body ++ '*' :: '/' :: r) ≠ '*' :: '/' :: t := by
      intro t ht
      cases body with
      | nil => simp at ht
      | cons d body =>
        obtain ⟨rfl, hd⟩ := List.cons.inj ht
        obtain rfl := (List.cons.inj hd).1
        exact h ⟨[], body, rfl⟩
    rw [List.cons_append, skipTriviaFrom_block_cons hnext]
    exact ih fun hbody => h (hbody.trans (List.suffix_cons c body).isInfix)

theorem skipTrivia_line (r : List Char) : skipTrivia ('/' :: '/' :: r) = skipTriviaFrom .line r := rfl

theorem skipTrivia_block (r : List Char) : skipTrivia ('/' :: '*' :: r) = skipTriviaFrom .block r := rfl

theorem skipTrivia_append {u : List Char} (h : Trivia u) (r : List Char) : skipTrivia (u ++ r) = skipTrivia r := by
  induction h with
  | nil => rfl
  | blank hc hu ih => rw [List.cons_append, skipTrivia_blank _ hc (ne_of_class hc (by decide)), ih]
  | line hbody hu ih =>
    simp only [List.cons_append, List.append_assoc]
    rw [skipTrivia_line, skipTriviaFrom_line hbody, ih]
  | block hbody hu ih =>
    simp only [List.cons_append, List.append_assoc]
    rw [skipTrivia_block, skipTriviaFrom_block hbody, ih]

/-- What a mode skips before the text that is left. -/
def Skipped : TriviaMode → List Char → List Char → Prop
  | .between, s, r => ∃ u, Trivia u ∧ s = u ++ r
  | .line, s, r => ∃ body u, '\n' ∉ body ∧ Trivia u ∧ s = body ++ '\n' :: (u ++ r)
  | .block, s, r => ∃ body u, ¬ ['*', '/'] <:+: body ∧ Trivia u ∧ s = body ++ '*' :: '/' :: (u ++ r)

theorem skipped_skipTriviaFrom {mode : TriviaMode} {s : List Char} (h : skipTriviaFrom mode s ≠ []) :
    Skipped mode s (skipTriviaFrom mode s) := by
  fun_induction skipTriviaFrom mode s with
  | case1 r ih =>
    obtain ⟨body, u, hbody, hu, hr⟩ := ih h
    exact ⟨_, .line hbody hu, by simpa using hr⟩
  | case2 r ih =>
    obtain ⟨body, u, hbody, hu, hr⟩ := ih h
    exact ⟨_, .block hbody hu, by simpa using hr⟩
  | case3 c r _ _ hblank ih =>
    obtain ⟨u, hu, hr⟩ := ih h
    exact ⟨c :: u, .blank hblank hu, by rw [List.cons_append, ← hr]⟩
  | case4 c r => exact ⟨[], .nil, rfl⟩
  | case5 r ih =>
    obtain ⟨u, hu, hr⟩ := ih h
    exact ⟨[], u, List.not_mem_nil, hu, by rw [List.nil_append, ← hr]⟩
  | case6 c r hc ih =>
    obtain ⟨body, u, hbody, hu, hr⟩ := ih h
    refine ⟨c :: body, u, ?_, hu, by rw [List.cons_append, ← hr]⟩
    rw [List.mem_cons, not_or]
    exact ⟨Ne.symm hc, hbody⟩
  | case7 r ih =>
    obtain ⟨u, hu, hr⟩ := ih h
    exact ⟨[], u, by simp, hu, by rw [List.nil_append, ← hr]⟩
  | case8 c r hc ih =>
    obtain ⟨body, u, hbody, hu, hr⟩ := ih h
    refine ⟨c :: body, u, fun hinfix => ?_, hu, by rw [List.cons_append, ← hr]⟩
    rcases List.infix_cons_iff.mp hinfix with ⟨t, ht⟩ | hinfix
    · -- the comment would have ended here
      obtain ⟨rfl, rfl⟩ := List.cons.inj ht
      exact hc _ rfl hr
    · exact hbody hinfix
  | case9 => exact absurd rfl h

/-- Blanks and comments start as no letter and no mark does. -/
theorem Trivia.head? {u : List Char} (h : Trivia u) {c d : Char} (hd : isBlank d = false) (hslash : d ≠ '/') (hne : c ≠ d)
    (r : List Char) : (u ++ c :: r).head? ≠ some d := by
  cases h with
  | nil => simpa using hne
  | blank hc hu => simpa using ne_of_class hc hd
  | line hbody hu => simpa using Ne.symm hslash
  | block hbody hu => simpa using Ne.symm hslash

/-- What is skipped before a text is made of blanks and closed comments. -/
theorem exists_trivia {s r : List Char} (h : skipTrivia s = r) (hr : r ≠ []) : ∃ u, Trivia u ∧ s = u ++ r := by
  subst h
  exact skipped_skipTriviaFrom hr

/-- A text that starts with no blank and no comment. -/
def Solid (r : List Char) : Prop :=
  ∀ c t, r = c :: t → isBlank c = false ∧ (c = '/' → t.head? ≠ some '/' ∧ t.head? ≠ some '*')

theorem solid_skipTriviaFrom (mode : TriviaMode) (s : List Char) : Solid (skipTriviaFrom mode s) := by
  fun_induction skipTriviaFrom mode s with
  | case4 c r hline hblock hblank =>
    intro d t hd
    obtain ⟨rfl, rfl⟩ := List.cons.inj hd
    refine ⟨Bool.eq_false_iff.mpr hblank, fun hc => ⟨fun hr => ?_, fun hr => ?_⟩⟩
    · obtain ⟨t, rfl⟩ := List.head?_eq_some_iff.mp hr
      exact hline t hc rfl
    · obtain ⟨t, rfl⟩ := List.head?_eq_some_iff.mp hr
      exact hblock t hc rfl
  | case9 => exact fun c t h => nomatch h
  | _ => assumption

theorem solid_skipTrivia (s : List Char) : Solid (skipTrivia s) := solid_skipTriviaFrom .between s

theorem Solid.skipTrivia {r : List Char} (h : Solid r) : skipTrivia r = r := by
  cases r with
  | nil => rfl
  | cons c t =>
    obtain ⟨hblank, hslash⟩ := h c t rfl
    unfold Markup.skipTrivia
    rw [skipTriviaFrom.eq_def]
    split <;> simp_all

/-! ## Looking ahead -/

/-- Texts of which a scanner that looks ahead sees the same: the first character, and the second
after a slash and an angle bracket. -/
def Alike (r r' : List Char) : Prop :=
  ∃ c t t', r = c :: t ∧ r' = c :: t' ∧ (c = '/' ∨ c = '<' → t.head? = t'.head?)

theorem Alike.append {r r' : List Char} (h : Alike r r') (u : List Char) : Alike (u ++ r) (u ++ r') := by
  obtain ⟨c, t, t', rfl, rfl, -⟩ := id h
  match u with
  | [] => exact h
  | [d] => exact ⟨d, _, _, rfl, rfl, fun _ => rfl⟩
  | d :: e :: u => exact ⟨d, _, _, rfl, rfl, fun _ => rfl⟩

theorem alike_cons {c : Char} (hslash : c ≠ '/') (hangle : c ≠ '<') (t t' : List Char) : Alike (c :: t) (c :: t') :=
  ⟨c, t, t', rfl, rfl, fun h => (not_or.mpr ⟨hslash, hangle⟩ h).elim⟩

theorem alike_two {u : List Char} (h : 2 ≤ u.length) (r r' : List Char) : Alike (u ++ r) (u ++ r') := by
  match u with
  | d :: e :: u => exact ⟨d, _, _, rfl, rfl, fun _ => rfl⟩

theorem Alike.head? {r r' : List Char} (h : Alike r r') : r'.head? = r.head? := by
  obtain ⟨c, t, t', rfl, rfl, -⟩ := h
  rfl

theorem Alike.ends {p : Char → Bool} {r r' : List Char} (h : Alike r r') (hr : Ends p r) : Ends p r' := by
  intro c hc
  rw [h.head?] at hc
  exact hr c hc

theorem Alike.solid {r r' : List Char} (h : Alike r r') (hr : Solid r) : Solid r' := by
  obtain ⟨c, t, t', rfl, rfl, hhead⟩ := h
  intro d u hd
  obtain ⟨rfl, rfl⟩ := List.cons.inj hd
  obtain ⟨hblank, hslash⟩ := hr c t rfl
  refine ⟨hblank, fun hc => ?_⟩
  rw [← hhead (.inl hc)]
  exact hslash hc

/-- What follows a name is told from the first character. -/
theorem alike_name {w : String} (h : isName w = true) (r r' : List Char) : Alike (w.toList ++ r) (w.toList ++ r') := by
  obtain ⟨c, cs, hw, hc, -⟩ := isName_cons h
  have hpart := isNamePart_of_isNameStart hc
  rw [hw]
  exact alike_cons (ne_of_class hpart (by decide)) (ne_of_class hpart (by decide)) _ _

/-- A scanner reads a part of the text, and of what follows it looks at the start only. -/
def Reads {α : Type} (scan : List Char → Scan (α × List Char)) (s : List Char) (a : α) (r : List Char) : Prop :=
  ∃ u, s = u ++ r ∧ ∀ r', Alike r r' → scan (u ++ r') = .ok (a, r')

/-! ## Words and marks -/

theorem eat?_eq_some {mark : String} {s r : List Char} (h : eat? mark s = some r) : s = mark.toList ++ r := by
  unfold eat? dropStart? at h
  split at h
  · next hprefix =>
    obtain ⟨t, rfl⟩ := List.isPrefixOf_iff_prefix.mp hprefix
    rw [List.drop_left, Option.some.injEq] at h
    rw [h]
  · cases h

/-- Where a mark of one character is not eaten another character stands. -/
theorem head?_ne_of_eat? {mark : String} {m : Char} (hmark : mark.toList = [m]) {s : List Char} (h : eat? mark s = none) :
    s.head? ≠ some m := by
  intro hs
  obtain ⟨t, rfl⟩ := List.head?_eq_some_iff.mp hs
  have heat := eat?_append mark t
  rw [hmark, List.singleton_append, h] at heat
  cases heat

/-- A mark of one character is eaten or not as the first character is. -/
theorem Alike.eat? {mark : String} {m : Char} (hmark : mark.toList = [m]) {r r' : List Char} (h : Alike r r')
    (hr : Markup.eat? mark r = none) : Markup.eat? mark r' = none := by
  refine eat?_of_head (m := m) (by rw [hmark]; rfl) ?_
  rw [h.head?]
  exact head?_ne_of_eat? hmark hr

theorem expect_trivia {u : List Char} (h : Trivia u) (mark what : String) (s : List Char) :
    expect mark what (u ++ s) = expect mark what s := by
  unfold expect
  rw [skipTrivia_append h]

theorem expect_ok {mark what : String} {s r : List Char} (hmark : isMark mark = true) (h : expect mark what s = .ok ((), r)) :
    ∃ u, Trivia u ∧ s = u ++ (mark.toList ++ r) := by
  have hne : mark.toList ++ r ≠ [] := by
    intro hnil
    rw [isMark, (List.append_eq_nil_iff.mp hnil).1] at hmark
    cases hmark
  unfold expect at h
  dsimp only at h
  split at h
  · next heat =>
    obtain ⟨-, rfl⟩ := Prod.mk.inj (Except.ok.inj h)
    exact exists_trivia (eat?_eq_some heat) hne
  · cases h

theorem identifier_trivia {u : List Char} (h : Trivia u) (s : List Char) : identifier (u ++ s) = identifier s := by
  unfold identifier identifier?
  rw [skipTrivia_append h]

theorem ends_dropWhile (p : Char → Bool) (s : List Char) : Ends p (s.dropWhile p) := by
  intro c hc
  have hnot := List.head?_dropWhile_not p s
  rwa [Option.mem_def.mp hc] at hnot

theorem identifier?_some {s r : List Char} {w : String} (h : identifier? s = some (w, r)) :
    ∃ u, Trivia u ∧ isName w = true ∧ Ends isNamePart r ∧ s = u ++ (w.toList ++ r) := by
  unfold identifier? at h
  split at h
  · next c t hskip =>
    split at h
    · next hc =>
      obtain ⟨rfl, rfl⟩ := Prod.mk.inj (Option.some.inj h)
      obtain ⟨u, hu, rfl⟩ := exists_trivia hskip (List.cons_ne_nil c t)
      refine ⟨u, hu, ?_, ends_dropWhile _ _, ?_⟩
      · simp only [isName, String.toList_ofList, hc, Bool.true_and, List.all_takeWhile]
      · rw [String.toList_ofList, List.cons_append, List.takeWhile_append_dropWhile]
    · cases h
  · cases h

theorem identifier_ok {s r : List Char} {w : String} (h : identifier s = .ok (w, r)) :
    ∃ u, Trivia u ∧ isName w = true ∧ Ends isNamePart r ∧ s = u ++ (w.toList ++ r) := by
  unfold identifier at h
  split at h
  · next step hstep =>
    obtain rfl := Except.ok.inj h
    exact identifier?_some hstep
  · cases h

theorem identifier_reads {s r : List Char} {w : String} (h : identifier s = .ok (w, r)) : Reads identifier s w r := by
  obtain ⟨u, hu, hw, hr, rfl⟩ := identifier_ok h
  refine ⟨u ++ w.toList, (List.append_assoc _ _ _).symm, fun r' hr' => ?_⟩
  rw [List.append_assoc, identifier_trivia hu, identifier_name hw (hr'.ends hr)]

theorem eatKeyword?_trivia {u : List Char} (h : Trivia u) (word : String) (s : List Char) :
    eatKeyword? word (u ++ s) = eatKeyword? word s := by
  unfold eatKeyword?
  rw [skipTrivia_append h]

theorem eatKeyword?_some {word : String} {s r : List Char} (hword : isName word = true) (h : eatKeyword? word s = some r) :
    ∃ u, Trivia u ∧ Ends isNamePart r ∧ s = u ++ (word.toList ++ r) := by
  have hne : word.toList ++ r ≠ [] := by
    obtain ⟨c, cs, hc, -⟩ := isName_cons hword
    simp [hc]
  unfold eatKeyword? at h
  split at h
  · next t heat =>
    split at h
    · cases h
    · next hpart =>
      obtain rfl := Option.some.inj h
      obtain ⟨u, hu, hs⟩ := exists_trivia (eat?_eq_some heat) hne
      refine ⟨u, hu, fun c hc => ?_, hs⟩
      rw [Option.mem_def.mp hc] at hpart
      simpa using hpart
  · cases h

theorem eatKeyword?_reads {word : String} {s r : List Char} (hword : isName word = true) (h : eatKeyword? word s = some r) :
    ∃ u, s = u ++ (word.toList ++ r) ∧ ∀ r', Alike r r' → eatKeyword? word (u ++ (word.toList ++ r')) = some r' := by
  obtain ⟨u, hu, hr, rfl⟩ := eatKeyword?_some hword h
  refine ⟨u, rfl, fun r' hr' => ?_⟩
  rw [eatKeyword?_trivia hu, eatKeyword?_word hword (hr'.ends hr)]

theorem expectKeyword_ok {word : String} {s r : List Char} (h : expectKeyword word s = .ok ((), r)) :
    eatKeyword? word s = some r := by
  unfold expectKeyword at h
  split at h
  · next hword =>
    obtain ⟨-, rfl⟩ := Prod.mk.inj (Except.ok.inj h)
    exact hword
  · cases h

theorem expectKeyword_reads {word : String} {s r : List Char} (hword : isName word = true)
    (h : expectKeyword word s = .ok ((), r)) :
    ∃ u, s = u ++ (word.toList ++ r) ∧ ∀ r', Alike r r' → expectKeyword word (u ++ (word.toList ++ r')) = .ok ((), r') := by
  obtain ⟨u, hs, hu⟩ := eatKeyword?_reads hword (expectKeyword_ok h)
  refine ⟨u, hs, fun r' hr' => ?_⟩
  unfold expectKeyword
  rw [hu r' hr']

theorem skipTrivia_reads (s : List Char) :
    ∃ u, s = u ++ skipTrivia s ∧ ∀ r', Alike (skipTrivia s) r' → skipTrivia (u ++ r') = r' := by
  by_cases hnil : skipTrivia s = []
  · refine ⟨s, by rw [hnil, List.append_nil], fun r' hr' => ?_⟩
    obtain ⟨c, t, -, hr, -⟩ := hr'
    rw [hnil] at hr
    cases hr
  · obtain ⟨u, hu, hs⟩ := exists_trivia rfl hnil
    exact ⟨u, hs, fun r' hr' => by rw [skipTrivia_append hu, (hr'.solid (solid_skipTrivia s)).skipTrivia]⟩

/-- A mark behind blanks and comments. -/
theorem mark_takes {mark : String} {s r : List Char} (hmark : isMark mark = true) (h : eat? mark (skipTrivia s) = some r) :
    ∃ u, s = u ++ (mark.toList ++ r) ∧ ∀ r', eat? mark (skipTrivia (u ++ (mark.toList ++ r'))) = some r' := by
  obtain ⟨c, hc, hplain⟩ := (Option.any_eq_true _ _).mp hmark
  obtain ⟨cs, hcs⟩ := List.head?_eq_some_iff.mp hc
  simp only [Bool.and_eq_true, Bool.not_eq_true', bne_iff_ne] at hplain
  have hs := eat?_eq_some h
  obtain ⟨u, hu, hus⟩ := exists_trivia hs (by simp [hcs])
  refine ⟨u, hus, fun r' => ?_⟩
  have hskip : skipTrivia (mark.toList ++ r') = mark.toList ++ r' := by
    rw [hcs]
    exact skipTrivia_here _ hplain.1 hplain.2
  rw [skipTrivia_append hu, hskip, eat?_append]

theorem expect_takes {mark what : String} {s r : List Char} (hmark : isMark mark = true)
    (h : expect mark what s = .ok ((), r)) :
    ∃ u, s = u ++ (mark.toList ++ r) ∧ ∀ r', expect mark what (u ++ (mark.toList ++ r')) = .ok ((), r') := by
  obtain ⟨u, hu, hs⟩ := expect_ok hmark h
  exact ⟨u, hs, fun r' => by rw [expect_trivia hu, expect_mark hmark]⟩

end PatternCatalog.Markup
