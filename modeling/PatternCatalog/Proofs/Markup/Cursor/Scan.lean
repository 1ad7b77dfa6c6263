/-
  PatternCatalog.Proofs.Markup.Cursor.Scan — walks over blanks, names, strings and brace groups.

  Comments end where the first mark that closes them stands, so a walk that searches for it goes as
  far as a scanner that goes through them (`follows_skipComment`). A walk over a brace group has one
  brace open more than the group has inside it, so its count does not drop below zero
  (`follows_groupLoop`).
-/

import PatternCatalog.Proofs.Markup.Cursor

namespace PatternCatalog.Markup.Cursor

open Text

section

variable {src left : List Char}

/-! ## Blanks and comments -/

theorem follows_minus {whole part : Nat} (h : part ≤ whole) : Follows src left (minus whole part) (.ok (whole - part, left)) := by
  rw [minus, if_pos h]
  exact .pure _

theorem skipTrivia_trimStart (s : List Char) : Markup.skipTrivia (trimStart s) = Markup.skipTrivia s := by
  induction s with
  | nil => rfl
  | cons c s ih =>
    by_cases hc : isBlank c = true
    · rw [skipTrivia_blank s hc (ne_of_class hc (by decide)), ← ih, trimStart, List.dropWhile_cons_of_pos hc, trimStart]
    · rw [trimStart, List.dropWhile_cons_of_neg hc]

theorem skipTriviaFrom_line_end {s : List Char} (h : '\n' ∉ s) : skipTriviaFrom .line s = [] := by
  induction s with
  | nil => rfl
  | cons c s ih =>
    rw [List.mem_cons, not_or] at h
    rw [skipTriviaFrom_line_cons, if_neg (Ne.symm h.1), ih h.2]

theorem skipTriviaFrom_block_end {s : List Char} (h : ¬ ['*', '/'] <:+: s) : skipTriviaFrom .block s = [] := by
  by_contra hne
  obtain ⟨body, u, -, -, hs⟩ := skipped_skipTriviaFrom hne
  exact h ⟨body, u ++ skipTriviaFrom .block s, by rw [List.append_assoc]; exact hs.symm⟩

theorem not_mem_of_not_infix_singleton {c : Char} {u : List Char} (h : ¬ [c] <:+: u) : c ∉ u := fun hmem => by
  obtain ⟨v, w, rfl⟩ := List.append_of_mem hmem
  exact h ⟨v, w, by simp⟩

theorem follows_lineComment (t : List Char) : ∃ r, r.length < t.length + 2 ∧ Markup.skipTrivia r = skipTriviaFrom .line t ∧
    Follows src ('/' :: '/' :: t) (skipComment ('/' :: '/' :: t)) (.ok (.inl (), r)) := by
  have hline : "//".toList.isPrefixOf ('/' :: '/' :: t) = true := rfl
  have hoffset : offset? ['\n'] ('/' :: '/' :: t) = ((offset? ['\n'] t).map (1 + ·)).map (1 + ·) := rfl
  cases hend : offset? ['\n'] t with
  | some n =>
    obtain ⟨u, r, rfl, rfl, hu⟩ := offset?_some hend (List.cons_ne_nil _ _)
    have hfeed : '\n' ∉ u := not_mem_of_not_infix_singleton hu
    have hskip : Markup.skipTrivia ('\n' :: r) = skipTriviaFrom .line (u ++ '\n' :: r) :=
      (skipTrivia_feed r).trans (skipTriviaFrom_line hfeed r).symm
    refine ⟨'\n' :: r, by simp only [List.length_append, List.length_cons]; omega, hskip, ?_⟩
    rw [hend] at hoffset
    rw [skipComment, if_pos hline, hoffset]
    exact (follows_advance ('/' :: '/' :: u) ('\n' :: r)).step (.pure _)
  | none =>
    have hfeed : '\n' ∉ t := not_mem_of_not_infix_singleton (offset?_none hend (List.cons_ne_nil _ _))
    refine ⟨[], Nat.succ_pos _, (skipTriviaFrom_line_end hfeed).symm, ?_⟩
    rw [hend] at hoffset
    rw [skipComment, if_pos hline, hoffset]
    have hadvance : Follows src _ _ _ := follows_advance ('/' :: '/' :: t) []
    rw [List.append_nil] at hadvance
    exact hadvance.step (.pure _)

theorem follows_blockComment (t : List Char) : ∃ r, r.length < t.length + 2 ∧ Markup.skipTrivia r = skipTriviaFrom .block t ∧
    Follows src ('/' :: '*' :: t) (skipComment ('/' :: '*' :: t)) (.ok (.inl (), r)) := by
  have hslice : slice ('/' :: '*' :: t) 2 (octets ('/' :: '*' :: t)) = pure t := by
    have h := slice_append ['/', '*'] t []
    rwa [List.append_nil, ← octets_append] at h
  have hline : ¬ "//".toList.isPrefixOf ('/' :: '*' :: t) = true := by simp
  have hblock : "/*".toList.isPrefixOf ('/' :: '*' :: t) = true := rfl
  rw [skipComment, if_neg hline, if_pos hblock, hslice, pure_bind]
  cases hend : offset? "*/".toList t with
  | some n =>
    obtain ⟨u, r, rfl, rfl, hu⟩ := offset?_some hend (List.cons_ne_nil _ _)
    refine ⟨r, by simp only [List.length_append]; omega, (skipTriviaFrom_block hu r).symm, ?_⟩
    have hadvance : Follows src _ _ _ := follows_advance ('/' :: '*' :: (u ++ "*/".toList)) r
    have hoctets : octets ('/' :: '*' :: (u ++ "*/".toList)) = octets u + 4 := by
      have hmarks : octets "*/".toList = 2 := rfl
      have hslash : '/'.utf8Size = 1 := rfl
      have hstar : '*'.utf8Size = 1 := rfl
      rw [octets_cons, octets_cons, octets_append]
      omega
    rw [hoctets] at hadvance
    simp only [List.cons_append, List.append_assoc] at hadvance
    exact hadvance.step (.pure _)
  | none =>
    refine ⟨[], Nat.succ_pos _, (skipTriviaFrom_block_end (offset?_none hend (List.cons_ne_nil _ _))).symm, ?_⟩
    exact .within fun h => (follows_get h).step ((follows_seek List.nil_suffix).step (.pure _))

/-- After a comment blanks and comments are skipped as before it; without one nothing is. -/
theorem follows_skipComment {s : List Char} (hblank : Ends isBlank s) :
    (Markup.skipTrivia s = s ∧ Follows src s (skipComment s) (.ok (.inr (), s))) ∨
      ∃ r, r.length < s.length ∧ Markup.skipTrivia r = Markup.skipTrivia s ∧ Follows src s (skipComment s) (.ok (.inl (), r)) := by
  by_cases hline : "//".toList.isPrefixOf s = true
  · obtain ⟨t, rfl⟩ := List.isPrefixOf_iff_prefix.mp hline
    exact .inr (follows_lineComment t)
  by_cases hblock : "/*".toList.isPrefixOf s = true
  · obtain ⟨t, rfl⟩ := List.isPrefixOf_iff_prefix.mp hblock
    exact .inr (follows_blockComment t)
  · have hsolid : Solid s := by
      rintro c t rfl
      refine ⟨hblank c rfl, ?_⟩
      rintro rfl
      refine ⟨fun ht => hline ?_, fun ht => hblock ?_⟩
      · obtain ⟨t, rfl⟩ := List.head?_eq_some_iff.mp ht
        rfl
      · obtain ⟨t, rfl⟩ := List.head?_eq_some_iff.mp ht
        rfl
    refine .inl ⟨hsolid.skipTrivia, ?_⟩
    rw [skipComment, if_neg hline, if_neg hblock]
    exact .pure _

theorem follows_skipTrivia : Follows src left Cursor.skipTrivia (.ok ((), Markup.skipTrivia left)) := by
  induction hlength : left.length using Nat.strong_induction_on generalizing left with
  | _ n ih =>
    have hleft : left = left.takeWhile isBlank ++ trimStart left := List.takeWhile_append_dropWhile.symm
    have hle : (trimStart left).length ≤ left.length := (List.dropWhile_suffix _).length_le
    have hround : ∀ {x r}, Follows src (trimStart left) (skipComment (trimStart left)) (.ok (x, r)) →
        Follows src left (triviaRound ()) (.ok (x, r)) := fun h => by
      refine follows_rest.step ((follows_minus (octets_le_of_suffix (List.dropWhile_suffix _))).step ?_)
      have hblanks : octets left - octets (trimStart left) = octets (left.takeWhile isBlank) := by
        rw [congrArg octets hleft, octets_append, Nat.add_sub_cancel]
      have hadvance : Follows src _ _ _ := follows_advance (left.takeWhile isBlank) (trimStart left)
      rw [← hleft] at hadvance
      rw [← trimStart, hblanks]
      exact hadvance.step h
    have hends : Ends isBlank (trimStart left) := ends_dropWhile isBlank left
    rw [← skipTrivia_trimStart]
    rcases @follows_skipComment src _ hends with ⟨hskip, hcomment⟩ | ⟨r, hlt, hskip, hcomment⟩
    · rw [hskip]
      exact follows_loop_done (hround hcomment)
    · rw [← hskip]
      exact follows_loop_next (hround hcomment) (by omega) (ih _ (by omega) rfl)

theorem skipTrivia_suffix (s : List Char) : Markup.skipTrivia s <:+ s := follows_skipTrivia.suffix

/-! ## Words and marks -/

theorem follows_eat (mark : String) :
    Follows src left (eat mark) (.ok ((eat? mark left).isSome, eatOptional mark left)) := by
  refine follows_rest.step ?_
  by_cases hmark : mark.toList.isPrefixOf left = true
  · obtain ⟨r, rfl⟩ := List.isPrefixOf_iff_prefix.mp hmark
    rw [if_pos hmark, eat?_append, eatOptional_mark]
    exact (follows_advance mark.toList r).step (.pure _)
  · have hnone : eat? mark left = none := if_neg hmark
    rw [if_neg hmark, eatOptional, hnone]
    exact .pure _

theorem follows_expect (mark what : String) : Follows src left (Cursor.expect mark what) (Markup.expect mark what left) := by
  refine follows_skipTrivia.step ((follows_eat mark).step ?_)
  rw [Markup.expect, eatOptional]
  cases eat? mark (Markup.skipTrivia left) with
  | some r => exact .pure _
  | none => exact follows_expected what

theorem follows_eatKeyword (word : String) : Follows src left (eatKeyword word)
    (.ok ((eatKeyword? word left).isSome, (eatKeyword? word left).getD (Markup.skipTrivia left))) := by
  refine follows_skipTrivia.step (follows_rest.step ?_)
  rw [eatKeyword?]
  generalize Markup.skipTrivia left = s
  by_cases hword : word.toList.isPrefixOf s = true
  · obtain ⟨r, rfl⟩ := List.isPrefixOf_iff_prefix.mp hword
    have hslice : slice (word.toList ++ r) (octets word.toList) (octets (word.toList ++ r)) = pure r := by
      have h := slice_append word.toList r []
      rwa [List.append_nil, ← octets_append] at h
    rw [if_pos hword, hslice, pure_bind, eat?_append]
    dsimp only
    split
    · exact .pure _
    · exact (follows_advance word.toList r).step (.pure _)
  · have hnone : eat? word s = none := if_neg hword
    rw [if_neg hword, hnone]
    exact .pure _

theorem follows_expectKeyword (word : String) :
    Follows src left (Cursor.expectKeyword word) (Markup.expectKeyword word left) := by
  refine (follows_eatKeyword word).step ?_
  rw [Markup.expectKeyword]
  cases eatKeyword? word left with
  | some r => exact .pure _
  | none => exact follows_expected word

theorem follows_skipWhile (p : Char → Bool) : Follows src left (skipWhile p) (.ok ((), left.dropWhile p)) := by
  induction left with
  | nil => exact follows_loop_done (follows_peek.step (.pure _))
  | cons c r ih =>
    by_cases hc : p c = true
    · rw [List.dropWhile_cons_of_pos hc]
      refine follows_loop_next (follows_peek.step ?_) (Nat.lt_succ_self _) ih
      rw [List.head?_cons, Option.any_some, if_pos hc]
      exact (follows_bump c r).step (.pure _)
    · rw [List.dropWhile_cons_of_neg hc]
      refine follows_loop_done (follows_peek.step ?_)
      rw [List.head?_cons, Option.any_some, if_neg hc]
      exact .pure _

theorem follows_identifier? : Follows src left Cursor.identifier?
    (.ok ((Markup.identifier? left).map (·.1), ((Markup.identifier? left).map (·.2)).getD (Markup.skipTrivia left))) := by
  refine follows_skipTrivia.step ?_
  rw [Markup.identifier?]
  generalize Markup.skipTrivia left = s
  refine .within fun hs => follows_here.step (follows_peek.step ?_)
  cases s with
  | nil => exact .pure _
  | cons c r =>
    rw [List.head?_cons, Option.any_some]
    dsimp only
    by_cases hc : isNameStart c = true
    · have hname : c :: r = (c :: r.takeWhile isNamePart) ++ r.dropWhile isNamePart := by simp
      rw [hname] at hs
      have hsource : Follows src (r.dropWhile isNamePart) _ _ := follows_source hs
      rw [← hname] at hsource
      rw [if_pos hc, if_pos hc]
      exact (follows_bump c r).step ((follows_skipWhile isNamePart).step (follows_here.step (hsource.step (.pure _))))
    · rw [if_neg hc, if_neg hc]
      exact .pure _

theorem follows_identifier : Follows src left Cursor.identifier (Markup.identifier left) := by
  refine follows_identifier?.step ?_
  rw [Markup.identifier]
  cases Markup.identifier? left with
  | some step => exact .pure _
  | none => exact follows_expected _

/-! ## Strings and brace groups -/

theorem follows_stringLoop (quote : Char) (acc : List Char) : Follows src left (loop (stringRound quote) acc.reverse)
    (match stringBody? quote acc left with
    | some (value, r) => .ok (value, r)
    | none => .error (.expected "closing quote" [])) := by
  fun_induction stringBody? quote acc left with
  | case1 acc c r ih =>
    refine follows_loop_next (t := (unescape c :: acc).reverse) ((follows_bump '\\' (c :: r)).step ?_)
      (Nat.lt_succ_of_lt (Nat.lt_succ_self _)) ih
    rw [List.reverse_cons]
    exact (follows_bump c r).step (.pure _)
  | case2 acc r hescape =>
    obtain rfl : r = [] := List.eq_nil_iff_forall_not_mem.mpr fun c hc => by
      obtain ⟨d, t, rfl⟩ := List.exists_cons_of_ne_nil (List.ne_nil_of_mem hc)
      exact hescape d t rfl rfl
    refine follows_loop_failed ((follows_bump '\\' []).step ?_)
    exact follows_bump_nil.step (follows_expected _)
  | case3 acc r hescape hback =>
    refine follows_loop_done ((follows_bump quote r).step ?_)
    dsimp only
    rw [if_neg hback, if_pos rfl]
    exact .pure _
  | case4 acc c r hescape hback hquote ih =>
    refine follows_loop_next (t := (c :: acc).reverse) ((follows_bump c r).step ?_) (Nat.lt_succ_self _) ih
    dsimp only
    rw [if_neg hback, if_neg hquote, List.reverse_cons]
    exact .pure _
  | case5 acc => exact follows_loop_failed (follows_bump_nil.step (follows_expected _))

theorem follows_stringLiteral : Follows src left Cursor.stringLiteral (Markup.stringLiteral left) := by
  refine follows_peek.step ?_
  cases left with
  | nil => exact follows_expected _
  | cons c r =>
    rw [List.head?_cons, Markup.stringLiteral]
    dsimp only
    by_cases hc : isQuote c = true
    · rw [if_pos hc, if_pos hc]
      refine (follows_bump c r).step ?_
      have hloop : Follows src r _ _ := follows_stringLoop c []
      rw [List.reverse_nil] at hloop
      cases hbody : stringBody? c [] r with
      | none =>
        rw [hbody] at hloop
        exact hloop.failed
      | some step =>
        rw [hbody] at hloop
        exact hloop.step (.pure _)
    · rw [if_neg hc, if_neg hc]
      exact follows_expected _

theorem groupBody_unclosed {quote : Char} {acc s : List Char} (h : stringBody? quote acc s = none) (depth : Nat) (acc' : List Char) :
    groupBody depth (some quote) acc' s = .error (.expected "closing quote" []) := by
  fun_induction stringBody? quote acc s generalizing acc' with
  | case1 acc c r ih =>
    rw [groupBody.eq_def]
    exact ih h _
  | case2 acc r hescape =>
    obtain rfl : r = [] := List.eq_nil_iff_forall_not_mem.mpr fun c hc => by
      obtain ⟨d, t, rfl⟩ := List.exists_cons_of_ne_nil (List.ne_nil_of_mem hc)
      exact hescape d t rfl rfl
    rfl
  | case3 => cases h
  | case4 acc c r hescape hback hquote ih =>
    rw [groupBody.eq_def]
    dsimp only
    rw [if_neg hback, if_neg hquote]
    exact ih h _
  | case5 => rfl

/-- A string in a brace group is gone over as a string alone is read. -/
theorem groupBody_string {quote : Char} (hquote : isQuote quote = true) (depth : Nat) (acc r : List Char) :
    ∃ acc', groupBody depth none acc (quote :: r) = (do
      let (_, r) ← Markup.stringLiteral (quote :: r)
      groupBody depth none acc' r) := by
  rw [groupBody_quote _ _ _ hquote, Markup.stringLiteral]
  dsimp only
  rw [if_pos hquote]
  cases hbody : stringBody? quote [] r with
  | none => exact ⟨[], groupBody_unclosed hbody _ _⟩
  | some step =>
    obtain ⟨u, hu, rfl, -⟩ := (stringBody?_iff hquote).mp hbody
    exact ⟨_, groupBody_inQuotes hu hquote _ _ _⟩

theorem stringLiteral_length {s r : List Char} {value : String} (h : Markup.stringLiteral s = .ok (value, r)) :
    r.length < s.length := by
  obtain ⟨quote, u, -, -, rfl, -⟩ := stringLiteral_iff.mp h
  simp only [List.length_cons, List.length_append]
  omega

/-- With one brace open more than a group has open inside it, the rest of the group is skipped. -/
theorem follows_groupLoop (depth : Nat) (acc : List Char) : Follows src left (loop groupRound (depth + 1)) (do
    let (_, r) ← groupBody depth none acc left
    return ((), r)) := by
  induction hlength : left.length using Nat.strong_induction_on generalizing left depth acc with
  | _ n ih =>
    cases left with
    | nil => exact follows_loop_failed (follows_peek.step (follows_expected _))
    | cons c r =>
      have hlt : r.length < n := by rw [← hlength]; exact Nat.lt_succ_self _
      by_cases hquote : isQuote c = true
      · obtain ⟨acc', hgroup⟩ := groupBody_string hquote depth acc r
        have hround : Follows src (c :: r) (groupRound (depth + 1)) (do
            let (_, r) ← Markup.stringLiteral (c :: r)
            return (.inl (depth + 1), r)) := by
          refine follows_peek.step ?_
          rw [List.head?_cons]
          dsimp only
          rw [if_pos hquote]
          exact follows_stringLiteral.bind fun _ _ _ _ => .pure _
        rw [hgroup, bind_assoc]
        refine follows_loop_on (f := fun _ => depth + 1) hround fun _ r' hstring _ => ?_
        have hshort := stringLiteral_length hstring
        exact ⟨hshort, ih _ (hlength ▸ hshort) depth _ rfl⟩
      by_cases hopen : c = '\x7b'
      · subst hopen
        rw [groupBody_open]
        refine follows_loop_next (follows_peek.step ?_) (Nat.lt_succ_self _) (ih _ hlt (depth + 1) _ rfl)
        exact (follows_bump _ r).step (.pure _)
      by_cases hclose : c = '\x7d'
      · subst hclose
        cases depth with
        | zero =>
          rw [groupBody_close]
          refine follows_loop_done (follows_peek.step ?_)
          exact (Follows.pure 0).step ((follows_bump _ r).step (.pure _))
        | succ depth =>
          rw [groupBody_level]
          refine follows_loop_next (follows_peek.step ?_) (Nat.lt_succ_self _) (ih _ hlt depth _ rfl)
          exact (Follows.pure (depth + 1)).step ((follows_bump _ r).step (.pure _))
      · rw [groupBody_clear _ _ _ ⟨Bool.eq_false_iff.mpr hquote, hopen, hclose⟩]
        refine follows_loop_next (follows_peek.step ?_) (Nat.lt_succ_self _) (ih _ hlt depth _ rfl)
        rw [List.head?_cons]
        dsimp only
        rw [if_neg hquote, if_neg hopen, if_neg hclose]
        exact (follows_bump c r).step (.pure _)

/-- A brace group is skipped, from its opening brace on. -/
theorem follows_skipGroup (r : List Char) : Follows src ('\x7b' :: r) skipGroup (do
    let (_, r) ← groupBody 0 none [] r
    return ((), r)) :=
  follows_loop_next (follows_peek.step ((follows_bump _ r).step (.pure _))) (Nat.lt_succ_self _) (follows_groupLoop 0 [])

end

end PatternCatalog.Markup.Cursor
