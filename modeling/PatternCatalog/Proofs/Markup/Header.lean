/-
  PatternCatalog.Proofs.Markup.Header — an example around its root element.

  An example is a header, an element at depth one and a footer (`module_eq`). The header holds the
  imports and the start of the default export, up to the element, and says what the footer has to
  close (`Header`). Only the element is read under the limit. A header looks no further than the
  start of the element (`header_reads`).
-/

import PatternCatalog.Proofs.Markup.Reads.Import

namespace PatternCatalog.Markup

open Text

/-! ## Parentheses -/

theorem eat?_skipTrivia_length {mark : String} {s r : List Char} (hmark : mark.toList ≠ []) (h : eat? mark (skipTrivia s) = some r) :
    r.length < s.length := by
  have hs := eat?_eq_some h
  have hpos := List.length_pos_iff.mpr hmark
  obtain ⟨u, -, rfl⟩ := exists_trivia hs (by simp [hmark])
  simp only [List.length_append]
  omega

/-- The opening parentheses before an element, counted. -/
def parentheses (s : List Char) : Nat × List Char :=
  match h : eat? "(" (skipTrivia s) with
  | some r => ((parentheses r).1 + 1, (parentheses r).2)
  | none => (0, skipTrivia s)
termination_by s.length
decreasing_by all_goals exact eat?_skipTrivia_length (by decide) h

theorem parentheses_open {s r : List Char} (h : eat? "(" (skipTrivia s) = some r) :
    parentheses s = ((parentheses r).1 + 1, (parentheses r).2) := by
  rw [parentheses]
  split
  · next t ht =>
    rw [h] at ht
    obtain rfl := Option.some.inj ht
    rfl
  · next hnone =>
    rw [h] at hnone
    cases hnone

theorem parentheses_none {s : List Char} (h : eat? "(" (skipTrivia s) = none) : parentheses s = (0, skipTrivia s) := by
  rw [parentheses]
  split
  · next t ht =>
    rw [h] at ht
    cases ht
  · rfl

def closeParentheses : Nat → List Char → Scan (Unit × List Char)
  | 0, s => return ((), s)
  | n + 1, s => do
    let (_, s) ← closeParentheses n s
    expect ")" "`)`" s

theorem elementExpression_eq {limit fuel : Nat} {s : List Char} (h : s.length < fuel) :
    elementExpression limit fuel s = (do
      let (node, r) ← element limit ((parentheses s).2.length + 1) 1 (parentheses s).2
      let (_, r) ← closeParentheses (parentheses s).1 r
      return (node, r)) := by
  induction fuel generalizing s with
  | zero => omega
  | succ fuel ih =>
    rw [elementExpression]
    cases heat : eat? "(" (skipTrivia s) with
    | none =>
      rw [parentheses_none heat]
      exact (bind_pure _).symm
    | some r =>
      have hlength := eat?_skipTrivia_length (by decide) heat
      dsimp only
      rw [ih (by omega), parentheses_open heat, bind_assoc]
      refine Except.bind_congr fun _ _ => ?_
      dsimp only [closeParentheses]
      rw [bind_assoc, bind_assoc]
      rfl

/-! ## Header and footer -/

/-- What stands before the root element. -/
structure Header where
  imports : List Import
  /-- Whether the element is returned from a block. -/
  block : Bool
  parentheses : Nat
  deriving DecidableEq, Repr

/-- The start of the function, up to its element: whether a block is open. -/
def functionStart (s : List Char) : Scan (Bool × List Char) :=
  match eatKeyword? "function" s with
  | some s => do
    let s := ((identifier? s).map (·.2)).getD (skipTrivia s)
    let (_, s) ← noArguments s
    let (_, s) ← expect "\x7b" "`\x7b`" s
    let (_, s) ← expectKeyword "return" s
    return (true, s)
  | none => do
    let (_, s) ← noArguments s
    let (_, s) ← expect "=>" "`=>`" s
    match eat? "\x7b" (skipTrivia s) with
    | some s =>
      let (_, s) ← expectKeyword "return" s
      return (true, s)
    | none => return (false, skipTrivia s)

def header (s : List Char) : Scan (Header × List Char) := do
  let (imports, s) ← imports (s.length + 1) s
  let (_, s) ← expectKeyword "export" s
  let (_, s) ← expectKeyword "default" s
  let (block, s) ← functionStart s
  return (⟨imports, block, (parentheses s).1⟩, (parentheses s).2)

/-- The end of the function after its element. -/
def functionEnd (block : Bool) (s : List Char) : Scan (Unit × List Char) :=
  if block then expect "\x7d" "`\x7d`" (eatOptional ";" (skipTrivia s)) else return ((), s)

/-- What stands after the root element. -/
def footer (h : Header) (s : List Char) : Scan Unit := do
  let (_, s) ← closeParentheses h.parentheses s
  let (_, s) ← functionEnd h.block s
  let s := skipTrivia (eatOptional ";" (skipTrivia s))
  if s = [] then return () else .error (.expected "end of example" s)

/-- An element in its parentheses, and the end of its function. -/
def rest (limit : Nat) (block : Bool) (s : List Char) : Scan (Node × List Char) := do
  let (node, r) ← element limit ((parentheses s).2.length + 1) 1 (parentheses s).2
  let (_, r) ← closeParentheses (parentheses s).1 r
  let (_, r) ← functionEnd block r
  return (node, r)

theorem block_eq (limit : Nat) (s : List Char) : block limit s = (do
    let (_, s) ← expectKeyword "return" s
    rest limit true s) := by
  rw [block]
  refine Except.bind_congr fun (_, s) _ => ?_
  dsimp only
  rw [elementExpression_eq (Nat.lt_succ_self _), bind_assoc, rest]
  refine Except.bind_congr fun _ _ => ?_
  rw [bind_assoc]
  rfl

theorem rest_false (limit : Nat) (s : List Char) : rest limit false s = elementExpression limit (s.length + 1) s := by
  rw [elementExpression_eq (Nat.lt_succ_self _), rest]
  rfl

theorem componentFunction_eq (limit : Nat) (s : List Char) : componentFunction limit s = (do
    let (block, s) ← functionStart s
    rest limit block s) := by
  rw [componentFunction, functionStart]
  cases eatKeyword? "function" s with
  | some s =>
    refine Except.bind_bind_congr fun (_, s) _ => Except.bind_bind_congr fun (_, s) _ => ?_
    dsimp only
    rw [block_eq, bind_assoc]
    rfl
  | none =>
    refine Except.bind_bind_congr fun (_, s) _ => Except.bind_bind_congr fun (_, s) _ => ?_
    dsimp only
    cases eat? "\x7b" (skipTrivia s) with
    | none => exact (rest_false limit _).symm
    | some s =>
      dsimp only
      rw [block_eq, bind_assoc]
      rfl

/-- An example is its header, its root element and its footer; only the element sees the limit. -/
theorem module_eq (limit : Nat) (s : List Char) : module limit s = (do
    let (h, s) ← header s
    let (root, s) ← element limit (s.length + 1) 1 s
    footer h s
    return ⟨h.imports, root⟩) := by
  rw [module, header]
  refine Except.bind_bind_congr fun (is, s) _ => Except.bind_bind_congr fun (_, s) _ => Except.bind_bind_congr fun (_, s) _ => ?_
  dsimp only
  rw [componentFunction_eq, bind_assoc, bind_assoc]
  refine Except.bind_congr fun (block, s) _ => ?_
  dsimp only
  rw [rest, bind_assoc, pure_bind]
  refine Except.bind_congr fun (root, s) _ => ?_
  dsimp only
  rw [footer, bind_assoc, bind_assoc]
  refine Except.bind_congr fun (_, s) _ => ?_
  dsimp only
  rw [bind_assoc, bind_assoc]
  refine Except.bind_congr fun (_, s) _ => ?_
  dsimp only
  rw [pure_bind]
  dsimp only
  split <;> rfl

/-- The parts of an accepted example. -/
theorem module_ok {limit : Nat} {s : List Char} {m : Module} (h : module limit s = .ok m) :
    ∃ hd r t, header s = .ok (hd, r) ∧ element limit (r.length + 1) 1 r = .ok (m.root, t) ∧ footer hd t = .ok () ∧
      m.imports = hd.imports := by
  rw [module_eq] at h
  obtain ⟨⟨hd, r⟩, hheader, hrest⟩ := Except.bind_ok h
  obtain ⟨⟨root, t⟩, hroot, hend⟩ := Except.bind_ok hrest
  obtain ⟨_, hfooter, hlast⟩ := Except.bind_ok hend
  obtain rfl := Except.ok.inj hlast
  exact ⟨hd, r, t, hheader, hroot, hfooter, rfl⟩

theorem parse_of_parts {source : String} {limit : Nat} {hd : Header} {r t : List Char} {root : Node}
    (hheader : header source.toList = .ok (hd, r)) (hroot : element limit (r.length + 1) 1 r = .ok (root, t))
    (hfooter : footer hd t = .ok ()) : parse source limit = .ok ⟨hd.imports, root⟩ := by
  rw [parse, module_eq, hheader, ok_bind]
  dsimp only
  rw [hroot, ok_bind]
  dsimp only
  rw [hfooter]
  rfl

/-! ## How far a header looks -/

theorem parentheses_reads (s : List Char) :
    ∃ u, s = u ++ (parentheses s).2 ∧ ∀ r', Alike (parentheses s).2 r' → parentheses (u ++ r') = ((parentheses s).1, r') := by
  induction s using parentheses.induct with
  | case1 s r heat ih =>
    obtain ⟨v, hv, hread⟩ := ih
    obtain ⟨u, hu, hmark⟩ := mark_takes (by decide) heat
    rw [parentheses_open heat]
    refine ⟨u ++ ('(' :: v), ?_, fun r' hr' => ?_⟩
    · rw [List.append_assoc, List.cons_append, ← hv]
      exact hu
    · have htext : u ++ ('(' :: v) ++ r' = u ++ ("(".toList ++ (v ++ r')) := by simp
      rw [htext, parentheses_open (hmark _), hread r' hr']
  | case2 s heat =>
    obtain ⟨u, hu, hskip⟩ := skipTrivia_reads s
    rw [parentheses_none heat]
    refine ⟨u, hu, fun r' hr' => ?_⟩
    rw [parentheses_none (by rw [hskip r' hr', hr'.eat? (m := '(') (by decide) heat]), hskip r' hr']

theorem noArguments_takes {s r : List Char} (h : noArguments s = .ok ((), r)) :
    ∃ u v, s = u ++ ("(".toList ++ (v ++ (")".toList ++ r))) ∧ Trivia u ∧
      ∀ r', noArguments (u ++ ("(".toList ++ (v ++ (")".toList ++ r')))) = .ok ((), r') := by
  obtain ⟨⟨_, s₁⟩, hopen, hclose⟩ := Except.bind_ok h
  obtain ⟨u, hu, rfl⟩ := expect_ok (by decide) hopen
  obtain ⟨v, rfl, hv⟩ := expect_takes (by decide) hclose
  refine ⟨u, v, rfl, hu, fun r' => ?_⟩
  rw [noArguments, expect_trivia hu, expect_mark (by decide), ok_bind]
  exact hv r'

/-- The text after the name of a function, if it has one. -/
def afterName (s : List Char) : List Char := ((identifier? s).map (·.2)).getD (skipTrivia s)

theorem afterName_ok {s r : List Char} {w : String} (h : identifier s = .ok (w, r)) : afterName s = r := by
  unfold identifier at h
  split at h
  · next step hstep =>
    obtain rfl := Except.ok.inj h
    rw [afterName, hstep]
    rfl
  · cases h

theorem afterName_mark {u : List Char} (h : Trivia u) {c : Char} (hstart : isNameStart c = false) (hblank : isBlank c = false)
    (hslash : c ≠ '/') (r : List Char) : afterName (u ++ c :: r) = c :: r := by
  have hskip : skipTrivia (u ++ c :: r) = c :: r := by rw [skipTrivia_append h, skipTrivia_here r hblank hslash]
  simp [afterName, identifier?, hskip, hstart]

theorem expect_skipTrivia (mark what : String) (s : List Char) : expect mark what (skipTrivia s) = expect mark what s := by
  unfold expect
  rw [skipTrivia_skipTrivia]

theorem noArguments_afterName {s r : List Char} (h : noArguments (afterName s) = .ok ((), r)) :
    ∃ u, s = u ++ (")".toList ++ r) ∧ ∀ r', noArguments (afterName (u ++ (")".toList ++ r'))) = .ok ((), r') := by
  cases hname : identifier s with
  | ok step =>
    rw [afterName_ok hname] at h
    obtain ⟨u, v, hs, -, hread⟩ := noArguments_takes h
    obtain ⟨x, rfl, hx⟩ := identifier_reads hname
    refine ⟨x ++ (u ++ ("(".toList ++ v)), by simp [hs], fun r' => ?_⟩
    have hfollow : Alike step.2 (u ++ ("(".toList ++ (v ++ (")".toList ++ r')))) := by
      rw [hs]
      exact (alike_cons (by decide) (by decide) _ _).append u
    simp only [List.append_assoc]
    rw [afterName_ok (hx _ hfollow), hread r']
  | error e =>
    have hskip : afterName s = skipTrivia s := by
      unfold identifier at hname
      split at hname
      · cases hname
      · next hnone => rw [afterName, hnone]; rfl
    rw [hskip, noArguments, expect_skipTrivia] at h
    obtain ⟨u, v, rfl, hu, hread⟩ := noArguments_takes h
    refine ⟨u ++ ("(".toList ++ v), by simp, fun r' => ?_⟩
    have hmark : afterName (u ++ '(' :: (v ++ (")".toList ++ r'))) = '(' :: (v ++ (")".toList ++ r')) :=
      afterName_mark hu (by decide) (by decide) (by decide) _
    have htrivia := hread r'
    rw [noArguments, expect_trivia hu] at htrivia
    simp only [List.append_assoc]
    exact (congrArg noArguments hmark).trans htrivia

theorem functionStart_reads {s r : List Char} {b : Bool} (h : functionStart s = .ok (b, r)) : Reads functionStart s b r := by
  unfold functionStart at h
  split at h
  · next s₁ hword =>
    obtain ⟨⟨_, s₂⟩, harguments, hrest⟩ := Except.bind_ok h
    obtain ⟨⟨_, s₃⟩, hbrace, hrest⟩ := Except.bind_ok hrest
    obtain ⟨⟨_, s₄⟩, hreturn, hlast⟩ := Except.bind_ok hrest
    dsimp only at hbrace hreturn hlast
    obtain ⟨rfl, rfl⟩ := Prod.mk.inj (Except.ok.inj hlast)
    obtain ⟨u, rfl, hu⟩ := eatKeyword?_reads (by decide) hword
    obtain ⟨v, rfl, hv⟩ := noArguments_afterName harguments
    obtain ⟨w, rfl, hw⟩ := expect_takes (by decide) hbrace
    obtain ⟨x, rfl, hx⟩ := expectKeyword_reads (by decide) hreturn
    refine ⟨u ++ ("function".toList ++ (v ++ (")".toList ++ (w ++ ("\x7b".toList ++ (x ++ "return".toList)))))), by simp,
      fun r' hr' => ?_⟩
    have hend : Alike (v ++ (")".toList ++ (w ++ ("\x7b".toList ++ (x ++ ("return".toList ++ s₄))))))
        (v ++ (")".toList ++ (w ++ ("\x7b".toList ++ (x ++ ("return".toList ++ r')))))) :=
      (alike_cons (by decide) (by decide) _ _).append v
    have harguments' := hv (w ++ ("\x7b".toList ++ (x ++ ("return".toList ++ r'))))
    rw [afterName] at harguments'
    simp only [List.append_assoc]
    unfold functionStart
    rw [hu _ hend]
    simp only [harguments', hw, hx r' hr', ok_bind, pure, Except.pure]
  · next hword =>
    obtain ⟨⟨_, s₁⟩, harguments, hrest⟩ := Except.bind_ok h
    obtain ⟨⟨_, s₂⟩, harrow, hbody⟩ := Except.bind_ok hrest
    dsimp only at harrow hbody
    obtain ⟨u, v, rfl, hu, hv⟩ := noArguments_takes harguments
    obtain ⟨w, rfl, hw⟩ := expect_takes (by decide) harrow
    have hmark : ∀ x, eatKeyword? "function" ('(' :: x) = none := fun x =>
      eatKeyword?_of_head (m := 'f') (by decide) (by decide) (by decide) (by decide) x
    have hnone : ∀ x, eatKeyword? "function" (u ++ ("(".toList ++ x)) = none := fun x =>
      (eatKeyword?_trivia hu _ _).trans (hmark x)
    split at hbody
    · next s₃ hbrace =>
      obtain ⟨⟨_, s₄⟩, hreturn, hlast⟩ := Except.bind_ok hbody
      obtain ⟨rfl, rfl⟩ := Prod.mk.inj (Except.ok.inj hlast)
      obtain ⟨x, rfl, hx⟩ := mark_takes (by decide) hbrace
      obtain ⟨y, rfl, hy⟩ := expectKeyword_reads (by decide) hreturn
      refine ⟨u ++ ("(".toList ++ (v ++ (")".toList ++ (w ++ ("=>".toList ++ (x ++ ("\x7b".toList ++ (y ++ "return".toList)))))))),
        by simp, fun r' hr' => ?_⟩
      simp only [List.append_assoc]
      unfold functionStart
      rw [hnone]
      simp only [hv, hw, hx, hy r' hr', ok_bind, pure, Except.pure]
    · next hbrace =>
      obtain ⟨rfl, rfl⟩ := Prod.mk.inj (Except.ok.inj hbody)
      obtain ⟨x, hx, hskip⟩ := skipTrivia_reads s₂
      refine ⟨u ++ ("(".toList ++ (v ++ (")".toList ++ (w ++ ("=>".toList ++ x))))), by simp [← hx], fun r' hr' => ?_⟩
      simp only [List.append_assoc]
      unfold functionStart
      rw [hnone]
      simp only [hv, hw, hskip r' hr', hr'.eat? (m := '\x7b') (by decide) hbrace, ok_bind, pure, Except.pure]

theorem header_reads {s r : List Char} {h : Header} (hs : header s = .ok (h, r)) : Reads header s h r := by
  obtain ⟨⟨is, s₁⟩, himports, hrest⟩ := Except.bind_ok hs
  obtain ⟨⟨_, s₂⟩, hexport, hrest⟩ := Except.bind_ok hrest
  obtain ⟨⟨_, s₃⟩, hdefault, hrest⟩ := Except.bind_ok hrest
  obtain ⟨⟨b, s₄⟩, hstart, hlast⟩ := Except.bind_ok hrest
  dsimp only at hexport hdefault hstart hlast
  obtain ⟨rfl, rfl⟩ := Prod.mk.inj (Except.ok.inj hlast)
  obtain ⟨u, hu, hends, hs₁⟩ := eatKeyword?_some (by decide) (expectKeyword_ok hexport)
  -- the imports end where no further one starts
  have hhead : s₁.head? ≠ some 'i' := by
    rw [hs₁]
    exact hu.head? (by decide) (by decide) (by decide) _
  obtain ⟨v, rfl, hv⟩ := imports_reads himports (Nat.lt_succ_self _) hhead
  obtain ⟨w, rfl, hw⟩ := expectKeyword_reads (by decide) hexport
  obtain ⟨x, rfl, hx⟩ := expectKeyword_reads (by decide) hdefault
  obtain ⟨y, rfl, hy⟩ := functionStart_reads hstart
  obtain ⟨z, hz, hread⟩ := parentheses_reads s₄
  refine ⟨v ++ (w ++ ("export".toList ++ (x ++ ("default".toList ++ (y ++ z))))), by simp [← hz], fun r' hr' => ?_⟩
  have hinner : Alike s₄ (z ++ r') := by
    rw [hz]
    exact hr'.append z
  have hword : Alike (x ++ ("default".toList ++ (y ++ s₄))) (x ++ ("default".toList ++ (y ++ (z ++ r')))) :=
    (alike_name (by decide) _ _).append x
  have hfirst : Alike (w ++ ("export".toList ++ (x ++ ("default".toList ++ (y ++ s₄)))))
      (w ++ ("export".toList ++ (x ++ ("default".toList ++ (y ++ (z ++ r')))))) := (alike_name (by decide) _ _).append w
  simp only [List.append_assoc]
  rw [header, hv _ _ hfirst (by rw [List.length_append]; omega), ok_bind]
  simp only [hw _ hword, hx _ (hinner.append y), hy _ hinner, hread r' hr', ok_bind, pure, Except.pure]

end PatternCatalog.Markup
