/-
  PatternCatalog.Proofs.Markup.Cursor.Module — walks over imports and whole examples.

  A walk over an example ends with the answer of the reader and without a fault, and the offset of an
  error that expected something else is the place of a character (`parse_passes_checks`).
-/

import PatternCatalog.Proofs.Markup.Cursor.Element

namespace PatternCatalog.Markup.Cursor

open Text

section

variable {src left : List Char}

/-! ## Imports -/

theorem specifier_skipTrivia (s : List Char) : Markup.specifier (Markup.skipTrivia s) = Markup.specifier s := by
  rw [Markup.specifier, Markup.specifier, identifier_skipTrivia]

theorem follows_specifier : Follows src left Cursor.specifier (Markup.specifier left) := by
  refine follows_identifier.bind fun imported r _ _ => ?_
  dsimp only
  rw [givenName, bind_assoc]
  refine (follows_eatKeyword "as").step ?_
  cases eatKeyword? "as" r with
  | some t => exact follows_identifier.bind fun name t _ _ => follows_skipTrivia.step (.pure _)
  | none =>
    refine (Follows.pure imported).step (follows_skipTrivia.step ?_)
    rw [Option.getD_none, skipTrivia_skipTrivia]
    exact .pure _

theorem follows_namesRound (before : List (String × Imported)) (hopen : eat? "\x7d" (Markup.skipTrivia left) = none) :
    Follows src left (namesRound before) (do
      let (b, r) ← Markup.specifier left
      match eat? "," r with
      | some r => return (.inl (before ++ [b]), r)
      | none =>
        let (_, r) ← Markup.expect "\x7d" "`\x7d`" r
        return (.inr (before ++ [b]), r)) := by
  refine follows_skipTrivia.step ((follows_eat "\x7d").step ?_)
  rw [eatOptional, hopen, ← specifier_skipTrivia]
  refine follows_specifier.bind fun b r _ _ => (follows_eat ",").step ?_
  dsimp only
  rw [eatOptional]
  cases eat? "," r with
  | some t => exact .pure _
  | none => exact (follows_expect _ _).bind fun _ _ _ _ => .pure _

/-- The names that are read on are put behind those before. -/
theorem follows_namesLoop (fuel : Nat) (before : List (String × Imported)) (h : left.length < fuel) :
    Follows src left (loop namesRound before) (do
      let (others, r) ← Markup.namedImports fuel left
      return (before ++ others, r)) := by
  induction fuel generalizing left before with
  | zero => exact absurd h (Nat.not_lt_zero _)
  | succ fuel ih =>
    rw [namedImports_succ]
    cases hopen : eat? "\x7d" (Markup.skipTrivia left) with
    | some r =>
      refine follows_loop_done (follows_skipTrivia.step ((follows_eat "\x7d").step ?_))
      rw [eatOptional, hopen, List.append_nil]
      exact .pure _
    | none =>
      have hround : Follows src left _ _ := follows_namesRound before hopen
      have hspecifier : Follows left left _ _ := follows_specifier
      cases hname : Markup.specifier left with
      | error e =>
        rw [hname] at hround
        exact follows_loop_failed hround
      | ok step =>
        obtain ⟨b, r⟩ := step
        rw [hname] at hround hspecifier
        have hle := hspecifier.suffix.length_le
        rw [ok_bind] at hround ⊢
        dsimp only at hround ⊢
        cases hcomma : eat? "," r with
        | some t =>
          obtain rfl := eat?_eq_some hcomma
          have hlength : t.length < left.length := hle
          rw [hcomma] at hround
          exact follows_loop_next hround hlength (ih (before ++ [b]) (by omega)).behind
        | none =>
          rw [hcomma] at hround
          dsimp only at hround ⊢
          cases hbrace : Markup.expect "\x7d" "`\x7d`" r with
          | error e =>
            rw [hbrace] at hround
            exact follows_loop_failed hround
          | ok step =>
            rw [hbrace] at hround
            exact follows_loop_done hround

theorem follows_namedImports : Follows src left Cursor.namedImports (Markup.namedImports (left.length + 1) left) :=
  (follows_namesLoop _ [] (Nat.lt_succ_self _)).of_nil

theorem follows_namespaceImport : Follows src left Cursor.namespaceImport (Markup.namespaceImport left) :=
  (follows_expectKeyword _).bind fun _ _ _ _ => follows_identifier.bind fun _ _ _ _ => .pure _

theorem follows_bindingGroup : Follows src left Cursor.bindingGroup (Markup.bindingGroup left) := by
  refine (follows_eat "\x7b").step ?_
  rw [Markup.bindingGroup, eatOptional]
  cases eat? "\x7b" left with
  | some r => exact follows_namedImports
  | none =>
    refine (follows_eat "*").step ?_
    rw [eatOptional, Option.getD_none]
    cases eat? "*" left with
    | some r => exact follows_namespaceImport
    | none => exact .pure _

theorem follows_skipComma : Follows src left skipComma (.ok ((), afterComma (Markup.skipTrivia left))) := by
  refine follows_skipTrivia.step ((follows_eat ",").step ?_)
  rw [afterComma, eatOptional]
  cases eat? "," (Markup.skipTrivia left) with
  | some t => exact follows_skipTrivia
  | none => exact .pure _

theorem follows_importBindings : Follows src left Cursor.importBindings (Markup.importBindings left) := by
  refine (follows_eat "*").step ?_
  cases hstar : eat? "*" left with
  | some r =>
    rw [eatOptional, hstar, Markup.importBindings, hstar]
    exact follows_namespaceImport
  | none =>
    rw [eatOptional, hstar, Option.getD_none]
    refine follows_peek.step ?_
    by_cases hbrace : left.head? = some '\x7b'
    · rw [if_pos hbrace, Markup.importBindings, hstar]
      dsimp only
      rw [if_pos hbrace]
      exact follows_bindingGroup
    · rw [if_neg hbrace, importBindings_of_name hstar hbrace]
      exact follows_identifier.bind fun _ _ _ _ => follows_skipComma.step (follows_bindingGroup.bind fun _ _ _ _ => .pure _)

theorem follows_importDeclaration : Follows src left Cursor.importDeclaration (Markup.importDeclaration left) := by
  refine follows_skipTrivia.step (follows_peek.step ?_)
  rw [Markup.importDeclaration]
  dsimp only
  generalize Markup.skipTrivia left = s
  split
  · exact follows_stringLiteral.bind fun _ _ _ _ => follows_skipTrivia.step ((follows_eat ";").step (.pure _))
  · exact follows_importBindings.bind fun _ _ _ _ => (follows_expectKeyword _).bind fun _ _ _ _ => follows_skipTrivia.step
      (follows_stringLiteral.bind fun _ _ _ _ => follows_skipTrivia.step ((follows_eat ";").step (.pure _)))

theorem imports_skipTrivia (fuel : Nat) (s : List Char) :
    Markup.imports (fuel + 1) (Markup.skipTrivia s) = Markup.imports (fuel + 1) s := by
  rw [Markup.imports, Markup.imports, eatKeyword?, eatKeyword?, skipTrivia_skipTrivia]

/-- The imports that are read on are put behind those before. -/
theorem follows_importsLoop (fuel : Nat) (before : List Import) (h : left.length < fuel) :
    Follows src left (loop importsRound before) (do
      let (others, r) ← Markup.imports fuel left
      return (before ++ others, r)) := by
  induction fuel generalizing left before with
  | zero => exact absurd h (Nat.not_lt_zero _)
  | succ fuel ih =>
    rw [Markup.imports]
    cases hword : eatKeyword? "import" left with
    | none =>
      refine follows_loop_done ((follows_eatKeyword _).step ?_)
      rw [hword, List.append_nil]
      exact .pure _
    | some r =>
      obtain ⟨u, hu, -⟩ := eatKeyword?_reads (by decide) hword
      have hlength : r.length < left.length := by
        rw [hu, List.length_append, List.length_append]
        have hword : 0 < "import".toList.length := by decide
        omega
      have hround : Follows src left (importsRound before) (do
          let (more, t) ← Markup.importDeclaration r
          return (.inl (before ++ more), Markup.skipTrivia t)) := by
        refine (follows_eatKeyword _).step ?_
        rw [hword]
        exact follows_importDeclaration.bind fun _ _ _ _ => follows_skipTrivia.step (.pure _)
      have himport : Follows r r _ _ := follows_importDeclaration
      cases hmore : Markup.importDeclaration r with
      | error e =>
        rw [hmore] at hround
        dsimp only
        rw [hmore]
        exact follows_loop_failed hround
      | ok step =>
        obtain ⟨more, t⟩ := step
        rw [hmore] at hround himport
        have hle := ((skipTrivia_suffix t).trans himport.suffix).length_le
        obtain ⟨fuel, rfl⟩ : ∃ k, fuel = k + 1 := ⟨fuel - 1, by omega⟩
        have hloop : Follows src (Markup.skipTrivia t) _ _ := ih (before ++ more) (by omega)
        rw [imports_skipTrivia] at hloop
        dsimp only
        rw [hmore, ok_bind]
        exact follows_loop_next hround (by omega) hloop.behind

theorem follows_imports : Follows src (Markup.skipTrivia left) (loop importsRound []) (Markup.imports (left.length + 1) left) := by
  have hle := (skipTrivia_suffix left).length_le
  have hloop : Follows src (Markup.skipTrivia left) _ _ := follows_importsLoop (left.length + 1) [] (by omega)
  rw [imports_skipTrivia] at hloop
  exact hloop.of_nil

/-! ## Modules -/

theorem follows_elementExpression (limit fuel : Nat) (h : left.length < fuel) :
    Follows src left (Cursor.elementExpression limit) (Markup.elementExpression limit fuel left) := by
  induction fuel generalizing left with
  | zero => exact absurd h (Nat.not_lt_zero _)
  | succ fuel ih =>
    intro hsrc
    rw [Cursor.elementExpression, Markup.elementExpression]
    refine (follows_skipTrivia.step ((follows_eat "(").step ?_)) hsrc
    dsimp only
    rw [eatOptional]
    cases hopen : eat? "(" (Markup.skipTrivia left) with
    | none => exact (followsElements limit _).element (Nat.succ_pos _) (Nat.le_succ _)
    | some r =>
      have hlength := eat?_skipTrivia_length (by decide) hopen
      have hsuffix : r <:+ left := by
        obtain ⟨u, hu⟩ := skipTrivia_suffix left
        exact ⟨u ++ ['('], by rw [← hu, eat?_eq_some hopen]; simp⟩
      have hleft : octets r < (before hsrc).left := by
        rw [left_before]
        exact octets_lt_of_suffix hsuffix hlength
      exact (follows_onward hleft fun h _ => ih (by omega) h).bind fun _ _ _ _ => (follows_expect _ _).bind fun _ _ _ _ => .pure _

theorem follows_block (limit : Nat) : Follows src left (Cursor.block limit) (Markup.block limit left) :=
  (follows_expectKeyword _).bind fun _ _ _ _ => (follows_elementExpression limit _ (Nat.lt_succ_self _)).bind fun _ _ _ _ =>
    follows_skipTrivia.step ((follows_eat ";").step ((follows_expect _ _).bind fun _ _ _ _ => .pure _))

theorem follows_noArguments : Follows src left Cursor.noArguments (Markup.noArguments left) :=
  (follows_expect _ _).bind fun _ _ _ _ => follows_expect _ _

theorem follows_componentFunction (limit : Nat) :
    Follows src left (Cursor.componentFunction limit) (Markup.componentFunction limit left) := by
  refine (follows_eatKeyword _).step ?_
  rw [Markup.componentFunction]
  cases eatKeyword? "function" left with
  | some r =>
    exact follows_identifier?.step (follows_noArguments.bind fun _ _ _ _ => (follows_expect _ _).bind fun _ _ _ _ =>
      follows_block limit)
  | none =>
    have hskip : Markup.noArguments (Markup.skipTrivia left) = Markup.noArguments left := by
      rw [Markup.noArguments, Markup.noArguments, expect_skipTrivia]
    rw [← hskip]
    refine follows_noArguments.bind fun _ r _ _ => (follows_expect _ _).bind fun _ s _ _ => follows_skipTrivia.step ?_
    dsimp only
    generalize Markup.skipTrivia s = t
    refine follows_peek.step ?_
    by_cases hbrace : t.head? = some '\x7b'
    · obtain ⟨u, rfl⟩ := List.head?_eq_some_iff.mp hbrace
      exact (follows_bump _ u).step (follows_block limit)
    · rw [if_neg hbrace, eat?_of_head (m := '\x7b') rfl hbrace]
      exact follows_elementExpression limit _ (Nat.lt_succ_self _)

theorem follows_module (limit : Nat) : Follows src left (Cursor.module limit) (do
    let m ← Markup.module limit left
    return (m, [])) := by
  rw [Markup.module, bind_assoc]
  refine follows_skipTrivia.step (follows_imports.bind fun imports s₁ _ _ => ?_)
  dsimp only
  rw [bind_assoc]
  refine (follows_expectKeyword _).bind fun _ s₂ _ _ => ?_
  dsimp only
  rw [bind_assoc]
  refine (follows_expectKeyword _).bind fun _ s₃ _ _ => ?_
  dsimp only
  rw [bind_assoc]
  refine (follows_componentFunction limit).bind fun root s₄ _ _ => follows_skipTrivia.step ((follows_eat ";").step
    (follows_skipTrivia.step (follows_atEnd.step ?_)))
  dsimp only
  generalize Markup.skipTrivia (eatOptional ";" (Markup.skipTrivia s₄)) = s
  cases s with
  | nil => exact .pure _
  | cons c r => exact follows_expected _

end

/-- Where a failure expected something else, at a place of the text, there is a character. -/
theorem expected_place {source what : String} {e : Failure} {offset : Nat} (he : ∀ s ∈ e.left?, s <:+ source.toList)
    (h : e.error (octets source.toList) = .expected what offset) :
    (⟨offset⟩ : String.Pos.Raw).IsValid source ∧ offset < source.utf8ByteSize := by
  cases e with
  | tooDeep => cases h
  | mismatchedClose => cases h
  | expected what left =>
    cases left with
    | nil => cases h
    | cons c r =>
      obtain ⟨-, rfl⟩ := Error.expected.inj h
      obtain ⟨u, hu⟩ := he (c :: r) rfl
      have hc := c.utf8Size_pos
      have hoctets := congrArg octets hu
      rw [octets_append, octets_cons] at hoctets
      rw [← isSome_splitOctets?_iff_isValid, isSome_splitOctets?_iff, ← octets_toList, octets_cons]
      exact ⟨⟨u, c :: r, hu.symm, by omega⟩, by omega⟩

/-- A walk over an example passes every check of its cursor, whatever the text and the limit. It ends with
the answer of the reader; where that expected something else, there is a character. -/
theorem parse_passes_checks (source : String) (limit : Nat) :
    (∀ f, Cursor.parse source limit ≠ .error (.fault f)) ∧
      Cursor.parse source limit = (Markup.parse source limit).mapError .error ∧
      ∀ what offset, Markup.parse source limit = .error (.expected what offset) →
        (⟨offset⟩ : String.Pos.Raw).IsValid source ∧ offset < source.utf8ByteSize := by
  have hmodule : Answers source.toList source.toList _ _ := follows_module limit List.suffix_rfl
  rw [Cursor.parse, Markup.parse, ofText_eq]
  generalize Cursor.module limit (before List.suffix_rfl) = answer at hmodule
  cases hread : Markup.module limit source.toList with
  | ok m =>
    rw [hread] at hmodule
    cases hmodule with
    | ok _ => exact ⟨(fun f h => by cases h), rfl, fun what offset h => by cases h⟩
  | error e =>
    rw [hread] at hmodule
    cases hmodule with
    | error he => exact ⟨(fun f h => by cases h), rfl, fun what offset h => expected_place he (Except.error.inj h)⟩

/-- The place where a module without its export goes wrong, behind a character of two octets and before another. -/
theorem missing_export_place :
    Markup.parse "/* é */ ü" 1 = .error (.expected "export" 9) ∧ (⟨9⟩ : String.Pos.Raw).IsValid "/* é */ ü" ∧ 9 < 11 := by
  have hparse : Markup.parse "/* é */ ü" 1 = .error (.expected "export" 9) := by rfl
  exact ⟨hparse, (parse_passes_checks "/* é */ ü" 1).2.2 _ _ hparse⟩

end PatternCatalog.Markup.Cursor
