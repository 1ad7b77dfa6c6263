/-
  PatternCatalog.Proofs.Markup.Reads.Import — how far the scanners of imports look.

  No scanner of imports needs more fuel than the characters that it reads, and none looks further
  than the start of what follows: `namedImports_takes` for a list of names, `importDeclaration_reads`
  for one import, `imports_reads` for all imports of a text.
-/

import PatternCatalog.Proofs.Markup.Reads

namespace PatternCatalog.Markup

/-! ## Names -/

theorem skipTrivia_skipTrivia (s : List Char) : skipTrivia (skipTrivia s) = skipTrivia s := (solid_skipTrivia s).skipTrivia

theorem identifier_skipTrivia (s : List Char) : identifier (skipTrivia s) = identifier s := by
  unfold identifier identifier?
  rw [skipTrivia_skipTrivia]

/-- One name of a brace list, with the blanks and comments after it. -/
def specifier (s : List Char) : Scan ((String × Imported) × List Char) := do
  let (imported, s) ← identifier s
  let (name, s) ← match eatKeyword? "as" s with
    | some s => identifier s
    | none => .ok (imported, s)
  return ((name, .ofName imported), skipTrivia s)

theorem namedImports_succ (fuel : Nat) (s : List Char) :
    namedImports (fuel + 1) s =
      match eat? "\x7d" (skipTrivia s) with
      | some s => .ok ([], s)
      | none => do
        let (binding, s) ← specifier s
        match eat? "," s with
        | some s =>
          let (others, s) ← namedImports fuel s
          return (binding :: others, s)
        | none =>
          let (_, s) ← expect "\x7d" "`\x7d`" s
          return ([binding], s) := by
  rw [namedImports]
  dsimp only
  cases heat : eat? "\x7d" (skipTrivia s) with
  | some s => rfl
  | none =>
    rw [identifier_skipTrivia, specifier]
    refine Except.bind_bind_congr fun (imported, s) _ => ?_
    dsimp only
    cases eatKeyword? "as" s with
    | none => rfl
    | some s => exact Except.bind_bind_congr fun _ _ => rfl

/-- What follows a name of a list does not start as the word `as`. -/
theorem specifier_reads {s r : List Char} {b : String × Imported} (h : specifier s = .ok (b, r)) (hr : r.head? ≠ some 'a') :
    ∃ u w x, Trivia u ∧ isName w = true ∧ s = u ++ (w.toList ++ (x ++ r)) ∧
      ∀ r', Alike r r' → specifier (u ++ (w.toList ++ (x ++ r'))) = .ok (b, r') := by
  obtain ⟨⟨imported, s₁⟩, himported, hrest⟩ := Except.bind_ok h
  obtain ⟨u, hu, hw, hends, rfl⟩ := identifier_ok himported
  have hfirst : ∀ t, Ends isNamePart t → identifier (u ++ (imported.toList ++ t)) = .ok (imported, t) := fun t ht => by
    rw [identifier_trivia hu, identifier_name hw ht]
  dsimp only at hrest
  split at hrest
  · next s₂ has =>
    obtain ⟨⟨name, s₃⟩, hname, hlast⟩ := Except.bind_ok hrest
    obtain ⟨rfl, rfl⟩ := Prod.mk.inj (Except.ok.inj hlast)
    obtain ⟨v, rfl, hv⟩ := eatKeyword?_reads (by decide) has
    obtain ⟨x, rfl, hx⟩ := identifier_reads hname
    obtain ⟨y, hy, hskip⟩ := skipTrivia_reads s₃
    refine ⟨u, imported, v ++ ("as".toList ++ (x ++ y)), hu, hw, ?_, fun r' hr' => ?_⟩
    · simp only [List.append_assoc, ← hy]
    · have hlocal : Alike s₃ (y ++ r') := by
        rw [hy]
        exact hr'.append y
      have hword : Alike (v ++ ("as".toList ++ (x ++ s₃))) (v ++ ("as".toList ++ (x ++ (y ++ r')))) :=
        (alike_name (by decide) _ _).append v
      rw [specifier]
      simp only [List.append_assoc, hfirst _ (hword.ends hends), hv _ (hlocal.append x), hx _ hlocal, hskip r' hr', ok_bind,
        pure, Except.pure]
  · next has =>
    obtain ⟨rfl, rfl⟩ := Prod.mk.inj (Except.ok.inj hrest)
    obtain ⟨y, hy, hskip⟩ := skipTrivia_reads s₁
    refine ⟨u, imported, y, hu, hw, by rw [← hy], fun r' hr' => ?_⟩
    have hlocal : Alike s₁ (y ++ r') := by
      rw [hy]
      exact hr'.append y
    have hnone : eatKeyword? "as" (y ++ r') = none := by
      unfold eatKeyword?
      rw [hskip r' hr', eat?_of_head (m := 'a') (by decide) (by rwa [hr'.head?])]
    rw [specifier]
    simp only [hfirst _ (hlocal.ends hends), hnone, hskip r' hr', ok_bind, pure, Except.pure]

/-- The names of a brace list need no more fuel than they have characters. -/
theorem namedImports_takes {fuel : Nat} {s r : List Char} {bs : List (String × Imported)}
    (h : namedImports fuel s = .ok (bs, r)) :
    ∃ u, s = u ++ r ∧ ∀ r' fuel', u.length ≤ fuel' → namedImports fuel' (u ++ r') = .ok (bs, r') := by
  induction fuel generalizing s bs with
  | zero => cases h
  | succ fuel ih =>
    rw [namedImports_succ] at h
    split at h
    · next s₁ hclose =>
      obtain ⟨rfl, rfl⟩ := Prod.mk.inj (Except.ok.inj h)
      obtain ⟨u, rfl, hu⟩ := mark_takes (by decide) hclose
      refine ⟨u ++ ['\x7d'], by simp, fun r' fuel' hfuel => ?_⟩
      obtain ⟨fuel', rfl⟩ : ∃ k, fuel' = k + 1 := ⟨fuel' - 1, by simp at hfuel; omega⟩
      have htext : u ++ ['\x7d'] ++ r' = u ++ ("\x7d".toList ++ r') := by simp
      rw [htext, namedImports_succ]
      simp only [hu]
    · obtain ⟨⟨b, s₁⟩, hb, hrest⟩ := Except.bind_ok h
      -- a name of the list does not start as its closing brace
      have hopen : ∀ {u w x}, Trivia u → isName w = true → eat? "\x7d" (skipTrivia (u ++ (w.toList ++ x))) = none :=
        fun hu hw => by
          rw [skipTrivia_append hu, skipTrivia_name hw, eat?_of_head (m := '\x7d') (by decide) (name_head hw _ (by decide))]
      dsimp only at hrest
      split at hrest
      · next s₂ hcomma =>
        obtain ⟨⟨others, s₃⟩, hothers, hlast⟩ := Except.bind_ok hrest
        dsimp only at hothers hlast
        obtain ⟨rfl, rfl⟩ := Prod.mk.inj (Except.ok.inj hlast)
        obtain rfl := eat?_eq_some hcomma
        obtain ⟨u, w, x, hu, hw, rfl, hspecifier⟩ := specifier_reads hb (by simp)
        obtain ⟨y, rfl, hy⟩ := ih hothers
        refine ⟨u ++ (w.toList ++ (x ++ (',' :: y))), by simp, fun r' fuel' hfuel => ?_⟩
        obtain ⟨fuel', rfl⟩ : ∃ k, fuel' = k + 1 := ⟨fuel' - 1, by simp at hfuel; omega⟩
        have htext : u ++ (w.toList ++ (x ++ (',' :: y))) ++ r' = u ++ (w.toList ++ (x ++ (",".toList ++ (y ++ r')))) := by simp
        have hmark : Alike (",".toList ++ (y ++ s₃)) (",".toList ++ (y ++ r')) := alike_cons (by decide) (by decide) _ _
        simp only [List.length_append, List.length_cons] at hfuel
        rw [htext, namedImports_succ, hopen hu hw]
        simp only [hspecifier _ hmark, eat?_append, hy r' fuel' (by omega), ok_bind, pure, Except.pure]
      · next hcomma =>
        obtain ⟨⟨_, s₂⟩, hclose, hlast⟩ := Except.bind_ok hrest
        dsimp only at hlast
        obtain ⟨rfl, rfl⟩ := Prod.mk.inj (Except.ok.inj hlast)
        obtain ⟨v, hv, rfl⟩ := expect_ok (by decide) hclose
        have hmark : ∀ r', Alike (v ++ ("\x7d".toList ++ s₂)) (v ++ ("\x7d".toList ++ r')) := fun r' =>
          (alike_cons (by decide) (by decide) _ _).append v
        obtain ⟨u, w, x, hu, hw, rfl, hspecifier⟩ := specifier_reads hb (hv.head? (by decide) (by decide) (by decide) _)
        refine ⟨u ++ (w.toList ++ (x ++ (v ++ ['\x7d']))), by simp, fun r' fuel' hfuel => ?_⟩
        obtain ⟨fuel', rfl⟩ : ∃ k, fuel' = k + 1 := ⟨fuel' - 1, by simp at hfuel; omega⟩
        have htext : u ++ (w.toList ++ (x ++ (v ++ ['\x7d']))) ++ r' =
            u ++ (w.toList ++ (x ++ (v ++ ("\x7d".toList ++ r')))) := by simp
        have hbrace : ∀ r', expect "\x7d" "`\x7d`" ("\x7d".toList ++ r') = .ok ((), r') := expect_mark (by decide) _
        have hcomma' : eat? "," (v ++ ("\x7d".toList ++ r')) = none := (hmark r').eat? (m := ',') (by decide) hcomma
        rw [htext, namedImports_succ, hopen hu hw]
        simp only [hspecifier _ (hmark r'), hcomma', expect_trivia hv, hbrace, ok_bind, pure, Except.pure]

theorem namespaceImport_reads {s r : List Char} {bs : List (String × Imported)} (h : namespaceImport s = .ok (bs, r)) :
    Reads namespaceImport s bs r := by
  obtain ⟨⟨_, s₁⟩, has, hrest⟩ := Except.bind_ok h
  obtain ⟨⟨name, s₂⟩, hname, hlast⟩ := Except.bind_ok hrest
  obtain ⟨rfl, rfl⟩ := Prod.mk.inj (Except.ok.inj hlast)
  obtain ⟨u, rfl, hu⟩ := expectKeyword_reads (by decide) has
  obtain ⟨v, rfl, hv⟩ := identifier_reads hname
  refine ⟨u ++ ("as".toList ++ v), by simp, fun r' hr' => ?_⟩
  rw [List.append_assoc, List.append_assoc, namespaceImport, hu _ (hr'.append v)]
  simp only [hv r' hr', ok_bind, pure, Except.pure]

theorem bindingGroup_reads {s r : List Char} {bs : List (String × Imported)} (h : bindingGroup s = .ok (bs, r)) :
    Reads bindingGroup s bs r := by
  unfold bindingGroup at h
  split at h
  · next s₁ hbrace =>
    obtain rfl := eat?_eq_some hbrace
    obtain ⟨u, rfl, hu⟩ := namedImports_takes h
    refine ⟨'\x7b' :: u, rfl, fun r' _ => ?_⟩
    have heat : eat? "\x7b" ('\x7b' :: (u ++ r')) = some (u ++ r') := eat?_append "\x7b" _
    simp only [bindingGroup, List.cons_append, heat]
    exact hu r' _ (by rw [List.length_append]; omega)
  split at h
  · next s₁ hstar =>
    obtain rfl := eat?_eq_some hstar
    obtain ⟨u, rfl, hu⟩ := namespaceImport_reads h
    refine ⟨'*' :: u, rfl, fun r' hr' => ?_⟩
    have heat : eat? "*" ('*' :: (u ++ r')) = some (u ++ r') := eat?_append "*" _
    have hnone : eat? "\x7b" ('*' :: (u ++ r')) = none := eat?_of_head (m := '\x7b') (by decide) (by simp)
    simp only [bindingGroup, List.cons_append, hnone, heat]
    exact hu r' hr'
  · next _ hbrace _ hstar =>
    obtain ⟨rfl, rfl⟩ := Prod.mk.inj (Except.ok.inj h)
    refine ⟨[], rfl, fun r' hr' => ?_⟩
    simp only [bindingGroup, List.nil_append, hr'.eat? (m := '\x7b') (by decide) hbrace, hr'.eat? (m := '*') (by decide) hstar]

/-- Drops a comma and what is skipped after it, if there is one. -/
def afterComma (s : List Char) : List Char :=
  match eat? "," s with
  | some s => skipTrivia s
  | none => s

theorem afterComma_reads (s : List Char) :
    ∃ u, s = u ++ afterComma (skipTrivia s) ∧
      ∀ r', Alike (afterComma (skipTrivia s)) r' → afterComma (skipTrivia (u ++ r')) = r' := by
  unfold afterComma
  cases heat : eat? "," (skipTrivia s) with
  | some s₁ =>
    obtain ⟨u, rfl, hu⟩ := mark_takes (by decide) heat
    obtain ⟨v, hv, hskip⟩ := skipTrivia_reads s₁
    refine ⟨u ++ (',' :: v), ?_, fun r' hr' => ?_⟩
    · rw [List.append_assoc, List.cons_append, ← hv]
      rfl
    · have htext : u ++ (',' :: v) ++ r' = u ++ (",".toList ++ (v ++ r')) := by simp
      rw [htext, hu]
      exact hskip r' hr'
  | none =>
    obtain ⟨u, hs, hu⟩ := skipTrivia_reads s
    refine ⟨u, hs, fun r' hr' => ?_⟩
    simp only [hu r' hr', hr'.eat? (m := ',') (by decide) heat]

theorem importBindings_of_name {s : List Char} (hstar : eat? "*" s = none) (hbrace : s.head? ≠ some '\x7b') :
    importBindings s = do
      let (name, s) ← identifier s
      let (others, s) ← bindingGroup (afterComma (skipTrivia s))
      return ((name, .default_) :: others, s) := by
  unfold importBindings
  rw [hstar]
  exact if_neg hbrace

theorem importBindings_reads {s r : List Char} {bs : List (String × Imported)} (h : importBindings s = .ok (bs, r)) :
    Reads importBindings s bs r := by
  cases hstar : eat? "*" s with
  | some s₁ =>
    obtain rfl := eat?_eq_some hstar
    unfold importBindings at h
    rw [hstar] at h
    obtain ⟨u, rfl, hu⟩ := namespaceImport_reads h
    refine ⟨'*' :: u, rfl, fun r' hr' => ?_⟩
    have heat : eat? "*" ('*' :: (u ++ r')) = some (u ++ r') := eat?_append "*" _
    simp only [importBindings, List.cons_append, heat]
    exact hu r' hr'
  | none =>
    by_cases hbrace : s.head? = some '\x7b'
    · unfold importBindings at h
      simp only [hstar, hbrace, if_true] at h
      obtain ⟨u, rfl, hu⟩ := bindingGroup_reads h
      refine ⟨u, rfl, fun r' hr' => ?_⟩
      have halike := hr'.append u
      rw [← halike.head?] at hbrace
      simp only [importBindings, halike.eat? (m := '*') (by decide) hstar, hbrace, if_true, hu r' hr']
    · rw [importBindings_of_name hstar hbrace] at h
      obtain ⟨⟨name, s₁⟩, hname, hrest⟩ := Except.bind_ok h
      obtain ⟨⟨others, s₂⟩, hothers, hlast⟩ := Except.bind_ok hrest
      obtain ⟨rfl, rfl⟩ := Prod.mk.inj (Except.ok.inj hlast)
      obtain ⟨u, rfl, hu⟩ := identifier_reads hname
      obtain ⟨v, hv, hcomma⟩ := afterComma_reads s₁
      obtain ⟨x, hx, hgroup⟩ := bindingGroup_reads hothers
      rw [hx] at hv hcomma
      subst hv
      refine ⟨u ++ (v ++ x), by simp, fun r' hr' => ?_⟩
      have htext : u ++ (v ++ x) ++ r' = u ++ (v ++ (x ++ r')) := by simp
      have halike := hr'.append x
      have hwhole := (halike.append v).append u
      rw [← hwhole.head?] at hbrace
      rw [htext, importBindings_of_name (hwhole.eat? (m := '*') (by decide) hstar) hbrace]
      simp only [hu _ (halike.append v), hcomma _ halike, hgroup r' hr', ok_bind, pure, Except.pure]

/-- A statement's end, with its semicolon if there is one. -/
theorem semicolon_reads (s : List Char) :
    ∃ u, s = u ++ eatOptional ";" (skipTrivia s) ∧
      ∀ r', Alike (eatOptional ";" (skipTrivia s)) r' → eatOptional ";" (skipTrivia (u ++ r')) = r' := by
  unfold eatOptional
  cases heat : eat? ";" (skipTrivia s) with
  | some r =>
    obtain ⟨u, hs, hu⟩ := mark_takes (by decide) heat
    refine ⟨u ++ [';'], by simpa using hs, fun r' _ => ?_⟩
    have htext : u ++ [';'] ++ r' = u ++ (";".toList ++ r') := by simp
    rw [htext, hu, Option.getD_some]
  | none =>
    obtain ⟨u, hs, hu⟩ := skipTrivia_reads s
    refine ⟨u, hs, fun r' hr' => ?_⟩
    rw [Option.getD_none] at hr'
    rw [hu r' hr', hr'.eat? (m := ';') (by decide) heat, Option.getD_none]

/-- A string literal behind blanks and comments, and the end of its statement. -/
theorem source_reads {s s₁ : List Char} {value : String} (h : stringLiteral (skipTrivia s) = .ok (value, s₁)) :
    ∃ u c v, isQuote c = true ∧ (skipTrivia s).head? = some c ∧ s = u ++ (c :: (v ++ eatOptional ";" (skipTrivia s₁))) ∧
      ∀ r', Alike (eatOptional ";" (skipTrivia s₁)) r' → ∃ s₂,
        skipTrivia (u ++ (c :: (v ++ r'))) = c :: (v ++ r') ∧ stringLiteral (c :: (v ++ r')) = .ok (value, s₂) ∧
          eatOptional ";" (skipTrivia s₂) = r' := by
  obtain ⟨u, hu, hskip⟩ := skipTrivia_reads s
  obtain ⟨c, v, hc, hquotes, hv, rfl⟩ := stringLiteral_iff.mp h
  obtain ⟨w, hw, hend⟩ := semicolon_reads s₁
  rw [hv] at hu hskip
  refine ⟨u, c, v ++ c :: w, hc, by rw [hv]; rfl, ?_, fun r' hr' => ⟨w ++ r', ?_, ?_, hend r' hr'⟩⟩
  · rw [List.append_assoc, List.cons_append, ← hw, ← hu]
  · exact hskip _ (alike_cons (ne_of_class hc (by decide)) (ne_of_class hc (by decide)) _ _)
  · exact stringLiteral_iff.mpr ⟨c, v, hc, hquotes, by simp, rfl⟩

theorem importDeclaration_reads {s r : List Char} {is : List Import} (h : importDeclaration s = .ok (is, r)) :
    Reads importDeclaration s is r := by
  unfold importDeclaration at h
  dsimp only at h
  split at h
  · next hquote =>
    obtain ⟨⟨_, s₁⟩, hsource, hlast⟩ := Except.bind_ok h
    obtain ⟨rfl, rfl⟩ := Prod.mk.inj (Except.ok.inj hlast)
    obtain ⟨u, c, v, hc, hhead, hs, hread⟩ := source_reads hsource
    rw [hhead] at hquote
    refine ⟨u ++ (c :: v), by simpa using hs, fun r' hr' => ?_⟩
    obtain ⟨s₂, hskip, hliteral, hend⟩ := hread r' hr'
    have htext : u ++ (c :: v) ++ r' = u ++ (c :: (v ++ r')) := by simp
    rw [htext, importDeclaration, hskip]
    simp only [List.head?_cons, hquote, if_true, hliteral, hend, ok_bind, pure, Except.pure]
  · next hquote =>
    obtain ⟨u, hu, hskip⟩ := skipTrivia_reads s
    obtain ⟨⟨bindings, s₁⟩, hbindings, hrest⟩ := Except.bind_ok h
    obtain ⟨⟨_, s₂⟩, hfrom, hrest⟩ := Except.bind_ok hrest
    obtain ⟨⟨source, s₃⟩, hsource, hlast⟩ := Except.bind_ok hrest
    dsimp only at hfrom hsource hlast
    obtain ⟨rfl, rfl⟩ := Prod.mk.inj (Except.ok.inj hlast)
    obtain ⟨x, hx, hgroup⟩ := importBindings_reads hbindings
    obtain ⟨y, rfl, hy⟩ := expectKeyword_reads (by decide) hfrom
    obtain ⟨z, c, v, hc, -, rfl, hread⟩ := source_reads hsource
    rw [hx] at hu hskip hquote
    refine ⟨u ++ (x ++ (y ++ ("from".toList ++ (z ++ (c :: v))))), by simpa using hu, fun r' hr' => ?_⟩
    obtain ⟨s₄, hsource', hliteral, hend⟩ := hread r' hr'
    have hfrom' : Alike (y ++ ("from".toList ++ (z ++ (c :: (v ++ eatOptional ";" (skipTrivia s₃))))))
        (y ++ ("from".toList ++ (z ++ (c :: (v ++ r'))))) := (alike_name (by decide) _ _).append y
    have hstart := hfrom'.append x
    have htext : u ++ (x ++ (y ++ ("from".toList ++ (z ++ (c :: v))))) ++ r' =
        u ++ (x ++ (y ++ ("from".toList ++ (z ++ (c :: (v ++ r')))))) := by simp
    have hsource'' : Alike (z ++ (c :: (v ++ eatOptional ";" (skipTrivia s₃)))) (z ++ (c :: (v ++ r'))) :=
      (alike_cons (ne_of_class hc (by decide)) (ne_of_class hc (by decide)) _ _).append z
    rw [← hstart.head?] at hquote
    rw [htext, importDeclaration, hskip _ hstart]
    simp only [hquote, if_false, hgroup _ hfrom', hy _ hsource'', hsource', hliteral, hend, ok_bind, pure, Except.pure]

/-- The imports of a text need no more fuel than they have characters. -/
theorem imports_reads {fuel : Nat} {s r : List Char} {is : List Import} (h : imports fuel s = .ok (is, r))
    (hfuel : s.length < fuel) (hr : r.head? ≠ some 'i') :
    ∃ u, s = u ++ r ∧ ∀ r' fuel', Alike r r' → u.length < fuel' → imports fuel' (u ++ r') = .ok (is, r') := by
  induction fuel generalizing s is with
  | zero => omega
  | succ fuel ih =>
    rw [imports] at h
    split at h
    · next s₁ hword =>
      obtain ⟨⟨first, s₂⟩, hfirst, hrest⟩ := Except.bind_ok h
      obtain ⟨⟨others, s₃⟩, hothers, hlast⟩ := Except.bind_ok hrest
      dsimp only at hothers hlast
      obtain ⟨rfl, rfl⟩ := Prod.mk.inj (Except.ok.inj hlast)
      obtain ⟨u, rfl, hu⟩ := eatKeyword?_reads (by decide) hword
      obtain ⟨v, rfl, hv⟩ := importDeclaration_reads hfirst
      have hlength : s₂.length < fuel := by
        simp at hfuel
        omega
      obtain ⟨w, rfl, hw⟩ := ih hothers hlength
      refine ⟨u ++ ("import".toList ++ (v ++ w)), by simp, fun r' fuel' hr' hfuel' => ?_⟩
      obtain ⟨fuel', rfl⟩ : ∃ k, fuel' = k + 1 := ⟨fuel' - 1, by omega⟩
      have htext : u ++ ("import".toList ++ (v ++ w)) ++ r' = u ++ ("import".toList ++ (v ++ (w ++ r'))) := by simp
      have halike := hr'.append w
      simp at hfuel'
      rw [htext, imports, hu _ (halike.append v)]
      simp only [hv _ halike, hw r' fuel' hr' (by omega), ok_bind, pure, Except.pure]
    · next hword =>
      obtain ⟨rfl, rfl⟩ := Prod.mk.inj (Except.ok.inj h)
      obtain ⟨u, hs, hskip⟩ := skipTrivia_reads s
      refine ⟨u, hs, fun r' fuel' hr' hfuel' => ?_⟩
      obtain ⟨fuel', rfl⟩ : ∃ k, fuel' = k + 1 := ⟨fuel' - 1, by omega⟩
      have hnone : eatKeyword? "import" (u ++ r') = none := by
        unfold eatKeyword?
        rw [hskip r' hr', eat?_of_head (m := 'i') (by decide) (by rwa [hr'.head?])]
      rw [imports, hnone, hskip r' hr']

end PatternCatalog.Markup
