/-
  PatternCatalog.Proofs.Markup.Reads.Element — how far the scanners of elements look.

  An opening tag (`opening_takes`), an element and the children of one (`takesElements`) end at a
  closing angle bracket, so they are told from what they take, whatever follows; the attributes of a
  tag are told from the start of what follows too (`attributes_reads`). None needs more fuel than it
  takes characters.
-/

import PatternCatalog.Proofs.Markup.Reads

namespace PatternCatalog.Markup

open Text

/-! ## Tags -/

theorem tagName_reads {s r : List Char} {tag : List String} (h : tagName s = .ok (tag, r)) : Reads tagName s tag r := by
  obtain ⟨⟨first, s₁⟩, hfirst, hrest⟩ := Except.bind_ok h
  obtain ⟨u, rfl, hu⟩ := identifier_reads hfirst
  dsimp only at hrest
  split at hrest
  · next s₂ hdot =>
    obtain ⟨⟨second, s₃⟩, hsecond, hend⟩ := Except.bind_ok hrest
    obtain ⟨rfl, rfl⟩ := Prod.mk.inj (Except.ok.inj hend)
    obtain ⟨v, rfl, hv⟩ := identifier_reads hsecond
    obtain rfl := eat?_eq_some hdot
    refine ⟨u ++ ('.' :: v), by simp, fun r' hr' => ?_⟩
    have hfirst' := hu ('.' :: (v ++ r')) (alike_cons (by decide) (by decide) _ _)
    have heat : eat? "." ('.' :: (v ++ r')) = some (v ++ r') := eat?_append "." _
    rw [List.append_assoc, List.cons_append, tagName, hfirst', ok_bind]
    simp only [heat, hv r' hr', ok_bind, pure, Except.pure]
  · next hdot =>
    obtain ⟨rfl, rfl⟩ := Prod.mk.inj (Except.ok.inj hrest)
    refine ⟨u, rfl, fun r' hr' => ?_⟩
    rw [tagName, hu r' hr', ok_bind]
    simp only [hr'.eat? (m := '.') (by decide) hdot, pure, Except.pure]

theorem attributeName_ok {s r : List Char} {name : String} (h : attributeName s = .ok (name, r)) :
    isAttributeName name = true ∧ Ends isAttributeChar r ∧ s = name.toList ++ r := by
  unfold attributeName at h
  dsimp only at h
  split at h
  · cases h
  · next hne =>
    obtain ⟨rfl, rfl⟩ := Prod.mk.inj (Except.ok.inj h)
    refine ⟨isAttributeName_iff.mpr ?_, ends_dropWhile _ _, ?_⟩
    · rw [String.toList_ofList]
      exact ⟨hne, fun c hc => List.mem_takeWhile_imp hc⟩
    · rw [String.toList_ofList, List.takeWhile_append_dropWhile]

theorem attributeValue_takes {s r : List Char} {value : Option LiteralValue} (h : attributeValue s = .ok (value, r)) :
    ∃ u, 2 ≤ u.length ∧ s = u ++ r ∧ ∀ r', attributeValue (u ++ r') = .ok (value, r') := by
  unfold attributeValue at h
  dsimp only at h
  split at h
  · next c t hskip =>
    obtain ⟨u, hu, rfl⟩ := exists_trivia hskip (List.cons_ne_nil c t)
    have hstart : isBlank c = false → c ≠ '/' → ∀ t', skipTrivia (u ++ c :: t') = c :: t' := fun hblank hslash t' => by
      rw [skipTrivia_append hu, skipTrivia_here t' hblank hslash]
    split at h
    · next hquote =>
      split at h
      · next d rest hrest =>
        obtain ⟨rfl, rfl⟩ := Prod.mk.inj (Except.ok.inj h)
        have hclass : isBlank c = false ∧ c ≠ '/' := by rcases hquote with rfl | rfl <;> decide
        have hself : ∀ r', Ends (· != c) (c :: r') := ends_cons (by simp)
        have hd : d = c := by
          have hends := ends_dropWhile (· != c) t
          rw [hrest] at hends
          simpa using hends d rfl
        have hplain : ∀ e ∈ t.takeWhile (· != c), (e != c) = true := fun e he =>
          List.mem_takeWhile_imp (p := (· != c)) he
        have ht := List.takeWhile_append_dropWhile (p := (· != c)) (l := t)
        rw [hrest, hd] at ht
        refine ⟨u ++ (c :: (t.takeWhile (· != c) ++ [c])), by simp; omega, by simp [ht], fun r' => ?_⟩
        have htext : u ++ (c :: (t.takeWhile (· != c) ++ [c])) ++ r' = u ++ (c :: (t.takeWhile (· != c) ++ c :: r')) := by simp
        unfold attributeValue
        rw [htext, hstart hclass.1 hclass.2]
        simp only [hquote, if_true, takeWhile_run hplain (hself r'), dropWhile_run hplain (hself r')]
      · cases h
    split at h
    · next hquote hbrace =>
      obtain ⟨⟨inner, rest⟩, hinner, hend⟩ := Except.bind_ok h
      obtain ⟨rfl, rfl⟩ := Prod.mk.inj (Except.ok.inj hend)
      obtain ⟨hgroup, rfl⟩ := groupBody_iff.mp hinner
      subst hbrace
      refine ⟨u ++ ('\x7b' :: (inner ++ ['\x7d'])), by simp; omega, by simp, fun r' => ?_⟩
      have htext : u ++ ('\x7b' :: (inner ++ ['\x7d'])) ++ r' = u ++ ('\x7b' :: (inner ++ '\x7d' :: r')) := by simp
      unfold attributeValue
      rw [htext, hstart (by decide) (by decide)]
      simp only [hquote, if_true, if_false, groupBody_iff.mpr ⟨hgroup, rfl⟩, ok_bind, pure, Except.pure]
    · cases h
  · cases h

/-- One attribute; without a value, with the blanks and comments after it. -/
def nextAttribute (s : List Char) : Scan (Attribute × List Char) := do
  let (name, s) ← attributeName s
  match eat? "=" (skipTrivia s) with
  | some s =>
    let (value, s) ← attributeValue s
    return (⟨name, value⟩, s)
  | none => return (⟨name, some (.boolean true)⟩, skipTrivia s)

theorem attributes_end {fuel : Nat} {s r : List Char} {c : Char} (hskip : skipTrivia s = c :: r) (hc : c = '/' ∨ c = '>') :
    attributes (fuel + 1) s = .ok ([], c :: r) := by
  rw [attributes, hskip]
  simp only [hc, if_true]

theorem attributes_group {fuel : Nat} {s r : List Char} (hskip : skipTrivia s = '\x7b' :: r) :
    attributes (fuel + 1) s = (do
      let (_, r) ← groupBody 0 none [] r
      attributes fuel r) := by
  rw [attributes, hskip]
  rfl

theorem attributes_next {fuel : Nat} {s r : List Char} {c : Char} (hskip : skipTrivia s = c :: r) (hc : ¬ (c = '/' ∨ c = '>'))
    (hbrace : c ≠ '\x7b') : attributes (fuel + 1) s = (do
      let (a, s) ← nextAttribute (c :: r)
      let (others, s) ← attributes fuel s
      return (a :: others, s)) := by
  rw [attributes, hskip]
  simp only [hc, hbrace, if_false]
  rw [nextAttribute]
  refine Except.bind_bind_congr ?_
  rintro ⟨name, s⟩ -
  dsimp only
  cases eat? "=" (skipTrivia s) with
  | some s =>
    dsimp only
    rw [bind_assoc]
    rfl
  | none => rfl

theorem nextAttribute_reads {s r : List Char} {a : Attribute} (h : nextAttribute s = .ok (a, r)) :
    ∃ c u, isAttributeChar c = true ∧ s = c :: (u ++ r) ∧
      ∀ r', Alike r r' → nextAttribute (c :: (u ++ r')) = .ok (a, r') := by
  obtain ⟨⟨name, s₁⟩, hname, hrest⟩ := Except.bind_ok h
  obtain ⟨hisName, hends, rfl⟩ := attributeName_ok hname
  obtain ⟨hne, hchars⟩ := isAttributeName_iff.mp hisName
  obtain ⟨c, u, hu⟩ := List.exists_cons_of_ne_nil hne
  have hread : ∀ x, Ends isAttributeChar x → attributeName (c :: (u ++ x)) = .ok (name, x) := fun x hx => by
    rw [← List.cons_append, ← hu]
    exact attributeName_name hisName hx
  rw [hu]
  dsimp only at hrest
  split at hrest
  · next s₂ hequals =>
    obtain ⟨⟨value, s₃⟩, hvalue, hlast⟩ := Except.bind_ok hrest
    obtain ⟨rfl, rfl⟩ := Prod.mk.inj (Except.ok.inj hlast)
    obtain ⟨v, rfl, hv⟩ := mark_takes (by decide) hequals
    obtain ⟨w, -, rfl, hw⟩ := attributeValue_takes hvalue
    refine ⟨c, u ++ (v ++ ("=".toList ++ w)), hchars c (hu ▸ List.mem_cons_self), by simp, fun r' hr' => ?_⟩
    have hequal : Alike (v ++ ("=".toList ++ (w ++ s₃))) (v ++ ("=".toList ++ (w ++ r'))) :=
      (alike_cons (by decide) (by decide) _ _).append v
    simp only [List.append_assoc]
    rw [nextAttribute, hread _ (hequal.ends hends), ok_bind]
    simp only [hv, hw, ok_bind, pure, Except.pure]
  · next hequals =>
    obtain ⟨rfl, rfl⟩ := Prod.mk.inj (Except.ok.inj hrest)
    obtain ⟨v, hs₁, hv⟩ := skipTrivia_reads s₁
    refine ⟨c, u ++ v, hchars c (hu ▸ List.mem_cons_self), by simp [← hs₁], fun r' hr' => ?_⟩
    rw [hs₁] at hends
    simp only [List.append_assoc]
    rw [nextAttribute, hread _ ((hr'.append v).ends hends), ok_bind]
    simp only [hv r' hr', hr'.eat? (m := '=') (by decide) hequals, pure, Except.pure]

/-- The attributes of a tag need no more fuel than they have characters. -/
theorem attributes_reads {fuel : Nat} {s r : List Char} {as : List Attribute} (h : attributes fuel s = .ok (as, r)) :
    ∃ u, s = u ++ r ∧ Solid r ∧ ∀ r' fuel', Alike r r' → u.length < fuel' → attributes fuel' (u ++ r') = .ok (as, r') := by
  induction fuel generalizing s as with
  | zero => cases h
  | succ fuel ih =>
    obtain ⟨u, hs, hu⟩ := skipTrivia_reads s
    have hsolid := solid_skipTrivia s
    cases hskip : skipTrivia s with
    | nil =>
      rw [attributes, hskip] at h
      obtain ⟨rfl, rfl⟩ := Prod.mk.inj (Except.ok.inj h)
      rw [hskip] at hs hsolid
      -- at the end of the text nothing can be told from what follows
      refine ⟨u, hs, hsolid, fun r' fuel' halike => ?_⟩
      obtain ⟨_, _, _, hnil, _⟩ := halike
      cases hnil
    | cons c t =>
      rw [hskip] at hs hu hsolid
      subst hs
      by_cases hend : c = '/' ∨ c = '>'
      · rw [attributes_end hskip hend] at h
        obtain ⟨rfl, rfl⟩ := Prod.mk.inj (Except.ok.inj h)
        refine ⟨u, rfl, hsolid, fun r' fuel' hr' hfuel => ?_⟩
        obtain ⟨fuel', rfl⟩ : ∃ k, fuel' = k + 1 := ⟨fuel' - 1, by omega⟩
        have hskip' := hu r' hr'
        obtain ⟨d, t₁, t', hd, rfl, -⟩ := hr'
        obtain ⟨rfl, -⟩ := List.cons.inj hd
        exact attributes_end hskip' hend
      by_cases hbrace : c = '\x7b'
      · subst hbrace
        rw [attributes_group hskip] at h
        obtain ⟨⟨g, s₁⟩, hgroup, hrest⟩ := Except.bind_ok h
        obtain ⟨hg, rfl⟩ := groupBody_iff.mp hgroup
        obtain ⟨w, rfl, hr, hw⟩ := ih hrest
        refine ⟨u ++ ('\x7b' :: (g ++ '\x7d' :: w)), by simp, hr, fun r' fuel' hr' hfuel => ?_⟩
        obtain ⟨fuel', rfl⟩ : ∃ k, fuel' = k + 1 := ⟨fuel' - 1, by omega⟩
        have htext : u ++ ('\x7b' :: (g ++ '\x7d' :: w)) ++ r' = u ++ ('\x7b' :: (g ++ '\x7d' :: (w ++ r'))) := by simp
        simp only [List.length_append, List.length_cons] at hfuel
        rw [htext, attributes_group (hu _ (alike_cons (by decide) (by decide) _ _)), groupBody_iff.mpr ⟨hg, rfl⟩]
        exact hw r' fuel' hr' (by omega)
      · rw [attributes_next hskip hend hbrace] at h
        obtain ⟨⟨a, s₁⟩, ha, hrest⟩ := Except.bind_ok h
        obtain ⟨⟨others, s₂⟩, hothers, hlast⟩ := Except.bind_ok hrest
        obtain ⟨rfl, rfl⟩ := Prod.mk.inj (Except.ok.inj hlast)
        obtain ⟨d, v, hd, htext, hv⟩ := nextAttribute_reads ha
        obtain ⟨rfl, rfl⟩ := List.cons.inj htext
        obtain ⟨w, hw, hr, hread⟩ := ih hothers
        rw [hw] at hv
        refine ⟨u ++ (c :: (v ++ w)), by simp [hw], hr, fun r' fuel' hr' hfuel => ?_⟩
        obtain ⟨fuel', rfl⟩ : ∃ k, fuel' = k + 1 := ⟨fuel' - 1, by omega⟩
        have hstart : skipTrivia (u ++ (c :: (v ++ (w ++ r')))) = c :: (v ++ (w ++ r')) :=
          hu _ (alike_cons (ne_of_class hd (by decide)) (ne_of_class hd (by decide)) _ _)
        simp only [List.length_append, List.length_cons] at hfuel
        simp only [List.append_assoc, List.cons_append]
        rw [attributes_next hstart hend hbrace, hv _ (hr'.append w), ok_bind]
        simp only [hread r' fuel' hr' (by omega), ok_bind, pure, Except.pure]

/-- An opening tag; an element that is alone has no children and no closing tag. -/
structure Opening where
  tag : List String
  attributes : List Attribute
  alone : Bool
  deriving DecidableEq, Repr

def opening (s : List Char) : Scan (Opening × List Char) := do
  let (_, s) ← expect "<" "element" s
  let (tag, s) ← tagName s
  let (attributes, s) ← attributes (s.length + 1) s
  let s := skipTrivia s
  match eat? "/>" s with
  | some s => return (⟨tag, attributes, true⟩, s)
  | none =>
    let (_, s) ← expect ">" "`>`" s
    return (⟨tag, attributes, false⟩, s)

theorem Alike.eat?_alone {r r' : List Char} (h : Alike r r') (hr : Markup.eat? "/>" r = none) : Markup.eat? "/>" r' = none := by
  cases heat : Markup.eat? "/>" r' with
  | none => rfl
  | some t =>
    obtain ⟨c, u, u', rfl, hr', hhead⟩ := h
    have htext : c :: u' = '/' :: '>' :: t := by rw [← hr', eat?_eq_some heat]; rfl
    obtain ⟨rfl, rfl⟩ := List.cons.inj htext
    obtain ⟨v, rfl⟩ := List.head?_eq_some_iff.mp (hhead (.inl rfl))
    have hsome : Markup.eat? "/>" ('/' :: '>' :: v) = some v := eat?_append "/>" v
    rw [hr] at hsome
    cases hsome

/-- An opening tag has two characters at least. -/
theorem opening_takes {s r : List Char} {o : Opening} (h : opening s = .ok (o, r)) :
    ∃ u, 2 ≤ u.length ∧ s = u ++ r ∧ ∀ r', opening (u ++ r') = .ok (o, r') := by
  obtain ⟨⟨_, s₁⟩, hmark, hafterMark⟩ := Except.bind_ok h
  obtain ⟨⟨tag, s₂⟩, htag, hafterTag⟩ := Except.bind_ok hafterMark
  obtain ⟨⟨as, s₃⟩, has, hrest⟩ := Except.bind_ok hafterTag
  obtain ⟨u, rfl, hu⟩ := expect_takes (by decide) hmark
  obtain ⟨v, rfl, hv⟩ := tagName_reads htag
  obtain ⟨w, rfl, hsolid, hw⟩ := attributes_reads has
  dsimp only at hrest
  rw [hsolid.skipTrivia] at hrest
  have hattributes : ∀ r', Alike s₃ r' → attributes ((w ++ r').length + 1) (w ++ r') = .ok (as, r') := fun r' hr' =>
    hw r' _ hr' (by rw [List.length_append]; omega)
  split at hrest
  · next s₄ halone =>
    obtain ⟨rfl, rfl⟩ := Prod.mk.inj (Except.ok.inj hrest)
    obtain rfl := eat?_eq_some halone
    refine ⟨u ++ ('<' :: (v ++ (w ++ ['/', '>']))), by simp; omega, by simp, fun r' => ?_⟩
    have htext : u ++ ('<' :: (v ++ (w ++ ['/', '>']))) ++ r' = u ++ ("<".toList ++ (v ++ (w ++ ("/>".toList ++ r')))) := by simp
    have halike : Alike ("/>".toList ++ s₄) ("/>".toList ++ r') := alike_two (by decide) _ _
    rw [htext, opening, hu, ok_bind]
    simp only [hv _ (halike.append w), hattributes _ halike, (halike.solid hsolid).skipTrivia, eat?_append, ok_bind, pure,
      Except.pure]
  · next halone =>
    obtain ⟨⟨_, s₄⟩, hclose, hlast⟩ := Except.bind_ok hrest
    obtain ⟨rfl, rfl⟩ := Prod.mk.inj (Except.ok.inj hlast)
    obtain ⟨x, rfl, hx⟩ := expect_takes (by decide) hclose
    refine ⟨u ++ ('<' :: (v ++ (w ++ (x ++ ['>'])))), by simp; omega, by simp, fun r' => ?_⟩
    have htext : u ++ ('<' :: (v ++ (w ++ (x ++ ['>'])))) ++ r' =
        u ++ ("<".toList ++ (v ++ (w ++ (x ++ (">".toList ++ r'))))) := by simp
    have halike : Alike (x ++ (">".toList ++ s₄)) (x ++ (">".toList ++ r')) :=
      (alike_cons (by decide) (by decide) _ _).append x
    rw [htext, opening, hu, ok_bind]
    simp only [hv _ (halike.append w), hattributes _ halike, (halike.solid hsolid).skipTrivia, halike.eat?_alone halone, hx,
      ok_bind, pure, Except.pure]

/-! ## Elements -/

theorem element_succ (limit fuel depth : Nat) (s : List Char) :
    element limit (fuel + 1) depth s =
      if limit < depth then .error (.tooDeep limit)
      else do
        let (o, s) ← opening s
        if o.alone then return (⟨o.tag, o.attributes, []⟩, s)
        else
          let (cs, s) ← children limit fuel depth o.tag s
          return (⟨o.tag, o.attributes, cs⟩, s) := by
  rw [element]
  split
  · rfl
  rw [opening]
  refine Except.bind_bind_congr fun (_, s) _ => Except.bind_bind_congr fun (tag, s) _ => Except.bind_bind_congr fun (as, s) _ => ?_
  dsimp only
  cases eat? "/>" (skipTrivia s) with
  | some s => rfl
  | none =>
    dsimp only
    rw [bind_assoc]
    rfl

/-- Characters that are skipped between elements and brace groups. -/
def IsText (t : List Char) : Prop := ∀ c ∈ t, c ≠ '<' ∧ c ≠ '\x7b'

theorem skipText_append {t : List Char} (h : IsText t) (r : List Char) : skipText (t ++ r) = skipText r :=
  List.dropWhile_append_of_pos fun c hc => by simpa using h c hc

theorem exists_text (s : List Char) : ∃ t, IsText t ∧ s = t ++ skipText s := by
  refine ⟨s.takeWhile fun c => c != '<' && c != '\x7b', fun c hc => ?_, List.takeWhile_append_dropWhile.symm⟩
  simpa using List.mem_takeWhile_imp hc

theorem skipText_head {s r : List Char} {c : Char} (h : skipText s = c :: r) : c = '<' ∨ c = '\x7b' := by
  have hends := ends_dropWhile (fun c => c != '<' && c != '\x7b') s
  have hc := hends c (by rw [skipText] at h; rw [h]; rfl)
  by_cases hangle : c = '<'
  · exact .inl hangle
  · exact .inr (by simpa [hangle] using hc)

theorem skipText_mark {c : Char} (h : c = '<' ∨ c = '\x7b') (r : List Char) : skipText (c :: r) = c :: r := by
  rcases h with rfl | rfl <;> rfl

/-- What stands between elements and brace groups is skipped, whatever follows it. -/
theorem skipText_takes {s r : List Char} {c : Char} (h : skipText s = c :: r) :
    ∃ t, IsText t ∧ s = t ++ c :: r ∧ ∀ r', skipText (t ++ c :: r') = c :: r' := by
  obtain ⟨t, ht, hs⟩ := exists_text s
  rw [h] at hs
  exact ⟨t, ht, hs, fun r' => by rw [skipText_append ht, skipText_mark (skipText_head h)]⟩

/-- What stands next among the children of an element. -/
inductive Next (s : List Char) : Prop
  | nothing (h : skipText s = [])
  | group (r : List Char) (h : skipText s = '\x7b' :: r)
  | closing (r : List Char) (h : skipText s = '<' :: '/' :: r)
  | element (r : List Char) (h : skipText s = '<' :: r) (hslash : r.head? ≠ some '/')

theorem next (s : List Char) : Next s := by
  cases h : skipText s with
  | nil => exact .nothing h
  | cons c r =>
    rcases skipText_head h with rfl | rfl
    · by_cases hslash : r.head? = some '/'
      · obtain ⟨t, rfl⟩ := List.head?_eq_some_iff.mp hslash
        exact .closing t h
      · exact .element r h hslash
    · exact .group r h

/-- A closing tag, after its slash. -/
def closing (tag : List String) (s r : List Char) : Scan (List Node × List Char) := do
  let (closed, r) ← tagName r
  let (_, r) ← expect ">" "`>`" r
  if closed = tag then return ([], r) else .error (.mismatchedClose tag closed s)

section
variable {limit fuel depth : Nat} {tag : List String} {s r : List Char}

theorem children_end (h : skipText s = []) :
    children limit (fuel + 1) depth tag s = .error (.expected "closing tag" []) := by
  rw [children, h]

theorem children_group (h : skipText s = '\x7b' :: r) :
    children limit (fuel + 1) depth tag s = (do
      let (_, r) ← groupBody 0 none [] r
      children limit fuel depth tag r) := by
  rw [children, h]
  exact if_pos rfl

theorem children_closing (h : skipText s = '<' :: '/' :: r) :
    children limit (fuel + 1) depth tag s = closing tag ('<' :: '/' :: r) r := by
  rw [children, h]
  rfl

theorem children_element (h : skipText s = '<' :: r) (hslash : r.head? ≠ some '/') :
    children limit (fuel + 1) depth tag s = do
      let (child, s) ← element limit fuel (depth + 1) ('<' :: r)
      let (others, s) ← children limit fuel depth tag s
      return (child :: others, s) := by
  rw [children, h]
  dsimp only
  rw [if_neg (by decide), if_neg hslash]

end

theorem closing_takes {tag : List String} {s r left : List Char} {ns : List Node} (h : closing tag s r = .ok (ns, left)) :
    ns = [] ∧ ∃ u, r = u ++ left ∧ ∀ s' r', closing tag s' (u ++ r') = .ok ([], r') := by
  obtain ⟨⟨closed, s₁⟩, htag, hafterTag⟩ := Except.bind_ok h
  obtain ⟨⟨_, s₂⟩, hmark, hlast⟩ := Except.bind_ok hafterTag
  obtain ⟨u, rfl, hu⟩ := tagName_reads htag
  obtain ⟨v, rfl, hv⟩ := expect_takes (by decide) hmark
  dsimp only at hlast
  split at hlast
  · next hclosed =>
    obtain ⟨rfl, rfl⟩ := Prod.mk.inj (Except.ok.inj hlast)
    refine ⟨rfl, u ++ (v ++ ['>']), by simp, fun s' r' => ?_⟩
    have htext : u ++ (v ++ ['>']) ++ r' = u ++ (v ++ (">".toList ++ r')) := by simp
    have halike : Alike (v ++ (">".toList ++ s₂)) (v ++ (">".toList ++ r')) := (alike_cons (by decide) (by decide) _ _).append v
    rw [htext, closing, hu _ halike]
    simp only [hv, hclosed, if_true, ok_bind, pure, Except.pure]
  · cases hlast

/-- The elements that are read with some fuel are told from what they take, and need no more fuel
than they have characters. -/
structure TakesElements (limit fuel : Nat) : Prop where
  element : ∀ {depth s n r}, element limit fuel depth s = .ok (n, r) →
    ∃ u, 2 ≤ u.length ∧ s = u ++ r ∧
      ∀ r' fuel', u.length ≤ fuel' → Markup.element limit fuel' depth (u ++ r') = .ok (n, r')
  children : ∀ {depth tag s ns r}, children limit fuel depth tag s = .ok (ns, r) →
    ∃ u, 2 ≤ u.length ∧ s = u ++ r ∧
      ∀ r' fuel', u.length ≤ fuel' → Markup.children limit fuel' depth tag (u ++ r') = .ok (ns, r')

theorem TakesElements.element_step {limit fuel : Nat} (ih : TakesElements limit fuel) {depth : Nat} {s r : List Char}
    {n : Node} (h : Markup.element limit (fuel + 1) depth s = .ok (n, r)) :
    ∃ u, 2 ≤ u.length ∧ s = u ++ r ∧
      ∀ r' fuel', u.length ≤ fuel' → Markup.element limit fuel' depth (u ++ r') = .ok (n, r') := by
  rw [element_succ] at h
  split at h
  · cases h
  next hdepth =>
  obtain ⟨⟨o, s₁⟩, ho, hrest⟩ := Except.bind_ok h
  obtain ⟨u, hlength, rfl, hu⟩ := opening_takes ho
  dsimp only at hrest
  split at hrest
  · next halone =>
    obtain ⟨rfl, rfl⟩ := Prod.mk.inj (Except.ok.inj hrest)
    refine ⟨u, hlength, rfl, fun r' fuel' hfuel => ?_⟩
    obtain ⟨fuel', rfl⟩ : ∃ k, fuel' = k + 1 := ⟨fuel' - 1, by omega⟩
    rw [element_succ, if_neg hdepth, hu, ok_bind]
    exact if_pos halone
  · next halone =>
    obtain ⟨⟨cs, s₂⟩, hcs, hlast⟩ := Except.bind_ok hrest
    dsimp only at hlast
    obtain ⟨rfl, rfl⟩ := Prod.mk.inj (Except.ok.inj hlast)
    obtain ⟨v, -, rfl, hv⟩ := ih.children hcs
    refine ⟨u ++ v, by rw [List.length_append]; omega, by simp, fun r' fuel' hfuel => ?_⟩
    rw [List.length_append] at hfuel
    obtain ⟨fuel', rfl⟩ : ∃ k, fuel' = k + 1 := ⟨fuel' - 1, by omega⟩
    rw [element_succ, if_neg hdepth, List.append_assoc, hu, ok_bind]
    simp only [halone, hv r' fuel' (by omega), ok_bind, pure, Except.pure]
    rfl

theorem TakesElements.children_step {limit fuel : Nat} (ih : TakesElements limit fuel) {depth : Nat} {tag : List String}
    {s r : List Char} {ns : List Node} (h : Markup.children limit (fuel + 1) depth tag s = .ok (ns, r)) :
    ∃ u, 2 ≤ u.length ∧ s = u ++ r ∧
      ∀ r' fuel', u.length ≤ fuel' → Markup.children limit fuel' depth tag (u ++ r') = .ok (ns, r') := by
  cases next s with
  | nothing hskip =>
    rw [children_end hskip] at h
    cases h
  | group s₁ hskip =>
    rw [children_group hskip] at h
    obtain ⟨t, -, rfl, ht⟩ := skipText_takes hskip
    obtain ⟨⟨g, s₂⟩, hgroup, hrest⟩ := Except.bind_ok h
    obtain ⟨hg, rfl⟩ := groupBody_iff.mp hgroup
    obtain ⟨v, hlength, rfl, hv⟩ := ih.children hrest
    refine ⟨t ++ ('\x7b' :: (g ++ ('\x7d' :: v))), by simp; omega, by simp, fun r' fuel' hfuel => ?_⟩
    have htext : t ++ ('\x7b' :: (g ++ ('\x7d' :: v))) ++ r' = t ++ '\x7b' :: (g ++ '\x7d' :: (v ++ r')) := by simp
    simp only [List.length_append, List.length_cons] at hfuel
    obtain ⟨fuel', rfl⟩ : ∃ k, fuel' = k + 1 := ⟨fuel' - 1, by omega⟩
    rw [htext, children_group (ht _), groupBody_iff.mpr ⟨hg, rfl⟩, ok_bind]
    exact hv r' fuel' (by omega)
  | closing s₁ hskip =>
    rw [children_closing hskip] at h
    obtain ⟨t, -, rfl, ht⟩ := skipText_takes hskip
    obtain ⟨rfl, u, rfl, hu⟩ := closing_takes h
    refine ⟨t ++ ('<' :: '/' :: u), by simp; omega, by simp, fun r' fuel' hfuel => ?_⟩
    have htext : t ++ ('<' :: '/' :: u) ++ r' = t ++ '<' :: '/' :: (u ++ r') := by simp
    simp only [List.length_append, List.length_cons] at hfuel
    obtain ⟨fuel', rfl⟩ : ∃ k, fuel' = k + 1 := ⟨fuel' - 1, by omega⟩
    rw [htext, children_closing (ht _), hu]
  | element s₁ hskip hslash =>
    rw [children_element hskip hslash] at h
    obtain ⟨t, -, rfl, ht⟩ := skipText_takes hskip
    obtain ⟨⟨child, s₂⟩, hchild, hrest⟩ := Except.bind_ok h
    obtain ⟨⟨others, s₃⟩, hothers, hlast⟩ := Except.bind_ok hrest
    dsimp only at hothers hlast
    obtain ⟨rfl, rfl⟩ := Prod.mk.inj (Except.ok.inj hlast)
    obtain ⟨u, hlength, hu, hreadChild⟩ := ih.element hchild
    obtain ⟨v, hlengthOthers, rfl, hv⟩ := ih.children hothers
    obtain ⟨d, u, rfl⟩ : ∃ d u', u = '<' :: d :: u' := by
      match u, hlength with
      | c :: d :: u, _ => exact ⟨d, u, by rw [(List.cons.inj hu).1]⟩
    obtain rfl : s₁ = d :: (u ++ (v ++ s₃)) := by simpa using hu
    refine ⟨t ++ ('<' :: d :: (u ++ v)), by simp; omega, by simp, fun r' fuel' hfuel => ?_⟩
    have htext : t ++ ('<' :: d :: (u ++ v)) ++ r' = t ++ '<' :: (d :: (u ++ (v ++ r'))) := by simp
    have hslash' : (d :: (u ++ (v ++ r'))).head? ≠ some '/' := by simpa using hslash
    simp only [List.length_append, List.length_cons] at hfuel hlength
    obtain ⟨fuel', rfl⟩ : ∃ k, fuel' = k + 1 := ⟨fuel' - 1, by omega⟩
    have hchild' := hreadChild (v ++ r') fuel' (by simp only [List.length_cons]; omega)
    rw [List.cons_append, List.cons_append] at hchild'
    rw [htext, children_element (ht _) hslash', hchild', ok_bind]
    simp only [hv r' fuel' (by omega), ok_bind, pure, Except.pure]

theorem takesElements (limit fuel : Nat) : TakesElements limit fuel := by
  induction fuel with
  | zero => exact ⟨(fun h => nomatch h), (fun h => nomatch h)⟩
  | succ fuel ih => exact ⟨ih.element_step, ih.children_step⟩

end PatternCatalog.Markup
