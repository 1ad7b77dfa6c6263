/-
  PatternCatalog.Proofs.Markup.Calls — what the reading of an element goes through.

  An element is read by reading its children, and children one after another: the next element and
  then the others, or the others after a brace group (`Calls`). What a call reads depends on the fuel
  no more (`Call.read`), and each call is read through the calls that it makes (`read_element`,
  `read_group`, `read_child`). A call stands behind its caller's text, and only it decides what its
  caller reads (`Within.of_calls`).
-/

import Mathlib.Logic.Relation
import PatternCatalog.Proofs.Markup.Reads.Element

namespace PatternCatalog.Markup

open Relation (ReflTransGen)

/-! ## Fuel -/

theorem skipText_length {s r : List Char} {c : Char} (h : skipText s = c :: r) : r.length < s.length := by
  obtain ⟨t, -, rfl, -⟩ := skipText_takes h
  simp
  omega

theorem groupBody_length {s g r : List Char} (h : groupBody 0 none [] s = .ok (g, r)) : r.length < s.length := by
  obtain ⟨-, rfl⟩ := groupBody_iff.mp h
  simp
  omega

theorem opening_length {s r : List Char} {o : Opening} (h : opening s = .ok (o, r)) : r.length + 2 ≤ s.length := by
  obtain ⟨u, hu, rfl, -⟩ := opening_takes h
  rw [List.length_append]
  omega

theorem element_length {limit fuel depth : Nat} {s r : List Char} {n : Node} (h : element limit fuel depth s = .ok (n, r)) :
    r.length < s.length := by
  obtain ⟨u, hu, rfl, -⟩ := (takesElements limit fuel).element h
  rw [List.length_append]
  omega

/-- An element or the children of one are read in the same way with any fuel that is as long as the
text. -/
structure FuelFree (limit fuel : Nat) : Prop where
  element : ∀ {fuel' depth s}, 0 < fuel → 0 < fuel' → s.length ≤ fuel → s.length ≤ fuel' →
    Markup.element limit fuel depth s = Markup.element limit fuel' depth s
  children : ∀ {fuel' depth tag s}, s.length < fuel → s.length < fuel' →
    Markup.children limit fuel depth tag s = Markup.children limit fuel' depth tag s

theorem FuelFree.element_step {limit fuel : Nat} (ih : FuelFree limit fuel) {fuel' depth : Nat} {s : List Char}
    (h : s.length ≤ fuel + 1) (h' : s.length ≤ fuel' + 1) :
    Markup.element limit (fuel + 1) depth s = Markup.element limit (fuel' + 1) depth s := by
  rw [element_succ, element_succ]
  split
  · rfl
  refine Except.bind_congr fun (o, r) ho => ?_
  have hlength := opening_length ho
  dsimp only
  rw [ih.children (by omega) (by omega : r.length < fuel')]

theorem FuelFree.children_step {limit fuel : Nat} (ih : FuelFree limit fuel) {fuel' depth : Nat} {tag : List String}
    {s : List Char} (h : s.length < fuel + 1) (h' : s.length < fuel' + 1) :
    Markup.children limit (fuel + 1) depth tag s = Markup.children limit (fuel' + 1) depth tag s := by
  cases next s with
  | nothing hskip => rw [children_end hskip, children_end hskip]
  | closing r hskip => rw [children_closing hskip, children_closing hskip]
  | group r hskip =>
    have hlength := skipText_length hskip
    rw [children_group hskip, children_group hskip]
    refine Except.bind_congr fun (g, r') hg => ?_
    have hgroup := groupBody_length hg
    exact ih.children (by omega) (by omega)
  | element r hskip hslash =>
    have hlength := skipText_length hskip
    have hchild : ('<' :: r).length ≤ s.length := hlength
    rw [children_element hskip hslash, children_element hskip hslash,
      ih.element (by omega) (by omega : 0 < fuel') (by omega) (by omega)]
    refine Except.bind_congr fun (n, r') hn => ?_
    have helement := element_length hn
    dsimp only
    rw [ih.children (by omega) (by omega : r'.length < fuel')]

theorem fuelFree (limit fuel : Nat) : FuelFree limit fuel := by
  induction fuel with
  | zero => exact ⟨fun h => absurd h (Nat.lt_irrefl 0), fun h => absurd h (Nat.not_lt_zero _)⟩
  | succ fuel ih =>
    refine ⟨fun _ hpos h h' => ?_, fun h h' => ?_⟩
    · obtain ⟨fuel', rfl⟩ := Nat.exists_eq_add_one.mpr hpos
      exact ih.element_step h h'
    · obtain ⟨fuel', rfl⟩ := Nat.exists_eq_add_one.mpr (Nat.zero_lt_of_lt h')
      exact ih.children_step h h'

/-! ## Calls -/

/-- An element to be read at a depth, or the children of an element at a depth. -/
inductive Call where
  | element (depth : Nat) (s : List Char)
  | children (depth : Nat) (tag : List String) (s : List Char)

def Call.text : Call → List Char
  | .element _ s => s
  | .children _ _ s => s

/-- The call at another text. -/
def Call.at (s : List Char) : Call → Call
  | .element depth _ => .element depth s
  | .children depth tag _ => .children depth tag s

/-- The elements that a call reads: one, or the children up to the closing tag. -/
def Call.read (limit : Nat) : Call → Scan (List Node × List Char)
  | .element depth s => do
    let (n, s) ← Markup.element limit (s.length + 1) depth s
    return ([n], s)
  | .children depth tag s => Markup.children limit (s.length + 1) depth tag s

/-- No element is lost in the list that holds it. -/
theorem single_injective : Function.Injective fun x : Scan (Node × List Char) => (do
    let (n, s) ← x
    return ([n], s)) := by
  rintro (e | ⟨n, s⟩) (e' | ⟨n', s'⟩) h
  · exact congrArg Except.error (Except.error.inj h)
  · cases h
  · cases h
  · obtain ⟨hn, rfl⟩ := Prod.mk.inj (Except.ok.inj h)
    rw [(List.cons.inj hn).1]

section
variable {limit depth : Nat} {tag : List String} {s r : List Char}

theorem read_children {fuel : Nat} (h : s.length < fuel) :
    children limit fuel depth tag s = Call.read limit (.children depth tag s) :=
  (fuelFree limit fuel).children h (Nat.lt_succ_self _)

theorem read_element : Call.read limit (.element depth s) =
    if limit < depth then .error (.tooDeep limit)
    else do
      let (o, s) ← opening s
      if o.alone then return ([⟨o.tag, o.attributes, []⟩], s)
      else
        let (cs, s) ← Call.read limit (.children depth o.tag s)
        return ([⟨o.tag, o.attributes, cs⟩], s) := by
  rw [Call.read, element_succ]
  split
  · rfl
  rw [bind_assoc]
  refine Except.bind_congr fun (o, r) ho => ?_
  have hlength := opening_length ho
  dsimp only
  rw [read_children (by omega)]
  split
  · rfl
  · rw [bind_assoc]
    rfl

theorem read_of_element {n : Node} (h : element limit (s.length + 1) depth s = .ok (n, r)) :
    Call.read limit (.element depth s) = .ok ([n], r) := by
  rw [Call.read, h]
  rfl

theorem read_end (h : skipText s = []) : Call.read limit (.children depth tag s) = .error (.expected "closing tag" []) :=
  children_end h

theorem read_closing (h : skipText s = '<' :: '/' :: r) :
    Call.read limit (.children depth tag s) = closing tag ('<' :: '/' :: r) r := children_closing h

theorem read_group (h : skipText s = '\x7b' :: r) : Call.read limit (.children depth tag s) = (do
    let (_, r) ← groupBody 0 none [] r
    Call.read limit (.children depth tag r)) := by
  have hlength := skipText_length h
  rw [Call.read, children_group h]
  refine Except.bind_congr fun (g, r') hg => ?_
  have hgroup := groupBody_length hg
  exact read_children (by omega)

theorem read_child (h : skipText s = '<' :: r) (hslash : r.head? ≠ some '/') :
    Call.read limit (.children depth tag s) = (do
      let (child, s) ← Call.read limit (.element (depth + 1) ('<' :: r))
      let (others, s) ← Call.read limit (.children depth tag s)
      return (child ++ others, s)) := by
  have hlength := skipText_length h
  have helement : element limit s.length (depth + 1) ('<' :: r) = element limit (('<' :: r).length + 1) (depth + 1) ('<' :: r) :=
    (fuelFree limit _).element (by omega) (Nat.succ_pos _) hlength (Nat.le_succ _)
  have hread : Call.read limit (.children depth tag s) = children limit (s.length + 1) depth tag s := rfl
  rw [hread, children_element h hslash, helement, Call.read, bind_assoc]
  refine Except.bind_congr fun (n, r') hn => ?_
  have hrest := element_length hn
  rw [List.length_cons] at hrest
  dsimp only
  rw [read_children (by omega), pure_bind]
  rfl

/-- Text that is skipped does not matter to the children after it. -/
theorem read_text {t : List Char} (h : IsText t) (s : List Char) :
    Call.read limit (.children depth tag (t ++ s)) = Call.read limit (.children depth tag s) := by
  have hskip : ∀ fuel, children limit (fuel + 1) depth tag (t ++ s) = children limit (fuel + 1) depth tag s := fun fuel => by
    rw [children, children, skipText_append h]
  rw [Call.read, hskip, read_children (by rw [List.length_append]; omega)]

end

/-- One call makes another. -/
inductive Calls (limit : Nat) : Call → Call → Prop
  | inside {depth : Nat} {s r : List Char} {o : Opening} (hdepth : depth ≤ limit) (ho : opening s = .ok (o, r))
      (halone : o.alone = false) : Calls limit (.element depth s) (.children depth o.tag r)
  | group {depth : Nat} {tag : List String} {s r g r' : List Char} (h : skipText s = '\x7b' :: r)
      (hg : groupBody 0 none [] r = .ok (g, r')) : Calls limit (.children depth tag s) (.children depth tag r')
  | child {depth : Nat} {tag : List String} {s r : List Char} (h : skipText s = '<' :: r) (hslash : r.head? ≠ some '/') :
      Calls limit (.children depth tag s) (.element (depth + 1) ('<' :: r))
  | after {depth : Nat} {tag : List String} {s r r' : List Char} {child : List Node} (h : skipText s = '<' :: r)
      (hslash : r.head? ≠ some '/') (hchild : Call.read limit (.element (depth + 1) ('<' :: r)) = .ok (child, r')) :
      Calls limit (.children depth tag s) (.children depth tag r')

section
variable {limit depth : Nat} {tag : List String} {s r : List Char} {call : Call}

theorem calls_element : Calls limit (.element depth s) call ↔
    ∃ o r, depth ≤ limit ∧ opening s = .ok (o, r) ∧ o.alone = false ∧ call = .children depth o.tag r := by
  constructor
  · rintro (⟨hdepth, ho, halone⟩)
    exact ⟨_, _, hdepth, ho, halone, rfl⟩
  · rintro ⟨o, r, hdepth, ho, halone, rfl⟩
    exact .inside hdepth ho halone

theorem calls_end (h : skipText s = []) : ¬ Calls limit (.children depth tag s) call := by
  intro hstep
  cases hstep with
  | group h' _ => rw [h] at h'; cases h'
  | child h' _ => rw [h] at h'; cases h'
  | after h' _ _ => rw [h] at h'; cases h'

theorem calls_closing (h : skipText s = '<' :: '/' :: r) : ¬ Calls limit (.children depth tag s) call := by
  intro hstep
  cases hstep with
  | group h' _ => rw [h] at h'; cases h'
  | child h' hslash => rw [h] at h'; obtain ⟨-, rfl⟩ := List.cons.inj h'; exact hslash rfl
  | after h' hslash _ => rw [h] at h'; obtain ⟨-, rfl⟩ := List.cons.inj h'; exact hslash rfl

theorem calls_group (h : skipText s = '\x7b' :: r) : Calls limit (.children depth tag s) call ↔
    ∃ g r', groupBody 0 none [] r = .ok (g, r') ∧ call = .children depth tag r' := by
  constructor
  · intro hstep
    cases hstep with
    | group h' hg =>
      rw [h] at h'
      obtain ⟨-, rfl⟩ := List.cons.inj h'
      exact ⟨_, _, hg, rfl⟩
    | child h' _ => rw [h] at h'; cases h'
    | after h' _ _ => rw [h] at h'; cases h'
  · rintro ⟨g, r', hg, rfl⟩
    exact .group h hg

theorem calls_child (h : skipText s = '<' :: r) (hslash : r.head? ≠ some '/') : Calls limit (.children depth tag s) call ↔
    call = .element (depth + 1) ('<' :: r) ∨
      ∃ child r', Call.read limit (.element (depth + 1) ('<' :: r)) = .ok (child, r') ∧ call = .children depth tag r' := by
  constructor
  · intro hstep
    cases hstep with
    | group h' _ => rw [h] at h'; cases h'
    | child h' _ =>
      rw [h] at h'
      obtain ⟨-, rfl⟩ := List.cons.inj h'
      exact .inl rfl
    | after h' _ hchild =>
      rw [h] at h'
      obtain ⟨-, rfl⟩ := List.cons.inj h'
      exact .inr ⟨_, _, hchild, rfl⟩
  · rintro (rfl | ⟨child, r', hchild, rfl⟩)
    · exact .child h hslash
    · exact .after h hslash hchild

end

/-- A measure that drops from a call to the calls that it makes. -/
def Call.size : Call → Nat
  | .element _ s => 2 * s.length
  | .children _ _ s => 2 * s.length + 1

theorem read_takes {limit depth : Nat} {s r : List Char} {ns : List Node}
    (h : Call.read limit (.element depth s) = .ok (ns, r)) :
    ∃ u, 2 ≤ u.length ∧ s = u ++ r ∧ ∀ r', Call.read limit (.element depth (u ++ r')) = .ok (ns, r') := by
  obtain ⟨⟨n, s₁⟩, hn, hlast⟩ := Except.bind_ok h
  obtain ⟨rfl, rfl⟩ := Prod.mk.inj (Except.ok.inj hlast)
  obtain ⟨u, hlength, rfl, hu⟩ := (takesElements limit _).element hn
  refine ⟨u, hlength, rfl, fun r' => ?_⟩
  rw [Call.read, hu r' _ (by rw [List.length_append]; omega)]
  rfl

theorem read_length {limit depth : Nat} {s r : List Char} {ns : List Node}
    (h : Call.read limit (.element depth s) = .ok (ns, r)) : r.length < s.length := by
  obtain ⟨u, hlength, rfl, -⟩ := read_takes h
  rw [List.length_append]
  omega

theorem Calls.size_lt {limit : Nat} {call call' : Call} (h : Calls limit call call') : call'.size < call.size := by
  cases h with
  | inside hdepth ho halone =>
    have := opening_length ho
    simp only [Call.size]
    omega
  | group h hg =>
    have := skipText_length h
    have := groupBody_length hg
    simp only [Call.size]
    omega
  | child h hslash =>
    have := skipText_length h
    simp only [Call.size, List.length_cons]
    omega
  | after h hslash hchild =>
    have := skipText_length h
    have := read_length hchild
    rw [List.length_cons] at this
    simp only [Call.size]
    omega

/-! ## What a call decides -/

/-- What a call reads is decided by the call that it makes: where another text is read as that call's
is, the text that stands before it is read as before. The text of an element is told from its start
too, and an opening tag has two characters at least. -/
theorem Calls.frame {limit : Nat} {call call' : Call} (h : Calls limit call call') :
    ∃ u, call.text = u ++ call'.text ∧ (∀ depth s, call = .element depth s → 2 ≤ u.length) ∧
      ∀ r', (∀ depth s, call' = .element depth s → Alike s r') → (call'.at r').read limit = call'.read limit →
        (call.at (u ++ r')).read limit = call.read limit := by
  cases h with
  | inside hdepth ho halone =>
    obtain ⟨u, hlength, rfl, hu⟩ := opening_takes ho
    refine ⟨u, rfl, fun _ _ _ => hlength, fun r' _ hread => ?_⟩
    rw [Call.at] at hread
    rw [Call.at, read_element, read_element, hu, ho]
    simp only [halone, Bool.false_eq_true, if_false, ok_bind, hread]
  | @group _ _ _ _ g _ h hg =>
    obtain ⟨t, -, rfl, ht⟩ := skipText_takes h
    obtain ⟨hbalanced, rfl⟩ := groupBody_iff.mp hg
    refine ⟨t ++ ('\x7b' :: (g ++ ['\x7d'])), by simp [Call.text], (fun _ _ h => nomatch h), fun r' _ hread => ?_⟩
    have htext : t ++ ('\x7b' :: (g ++ ['\x7d'])) ++ r' = t ++ '\x7b' :: (g ++ '\x7d' :: r') := by simp
    rw [Call.at, htext, read_group (ht _), read_group h, groupBody_iff.mpr ⟨hbalanced, rfl⟩, hg]
    exact hread
  | child h hslash =>
    obtain ⟨t, -, rfl, ht⟩ := skipText_takes h
    refine ⟨t, rfl, (fun _ _ h => nomatch h), fun r' hr' hread => ?_⟩
    obtain ⟨c, x, x', hx, rfl, hhead⟩ := hr' _ _ rfl
    obtain ⟨rfl, rfl⟩ := List.cons.inj hx
    rw [hhead (.inr rfl)] at hslash
    rw [Call.at, read_child (ht _) hslash, read_child h (hhead (.inr rfl) ▸ hslash)]
    rw [Call.at] at hread
    rw [hread]
  | after h hslash hchild =>
    obtain ⟨t, -, rfl, ht⟩ := skipText_takes h
    obtain ⟨v, hlength, hv, hread⟩ := read_takes hchild
    refine ⟨t ++ v, by simp [Call.text, hv], (fun _ _ h => nomatch h), fun r' _ hothers => ?_⟩
    obtain ⟨c, x, x', hx, hx', hhead⟩ := alike_two hlength _ r'
    rw [← hv] at hx
    obtain ⟨rfl, rfl⟩ := List.cons.inj hx
    have hslash' : x'.head? ≠ some '/' := by rwa [← hhead (.inr rfl)]
    have hchild' := hread r'
    rw [hx'] at hchild'
    rw [Call.at, List.append_assoc, hx', read_child (ht _) hslash', read_child h hslash, hchild, hchild']
    rw [Call.at] at hothers
    simp only [ok_bind, hothers]

/-- A text among the children of an element is all that an element around it looks at there. -/
theorem frame {limit depth : Nat} {tag : List String} {s : List Char} {call : Call}
    (h : ReflTransGen (Calls limit) call (.children depth tag s)) :
    ∃ u, call.text = u ++ s ∧ (∀ depth s, call = .element depth s → 2 ≤ u.length) ∧
      ∀ s', Call.read limit (.children depth tag s') = Call.read limit (.children depth tag s) →
        (call.at (u ++ s')).read limit = call.read limit := by
  induction h using ReflTransGen.head_induction_on with
  | refl => exact ⟨[], rfl, (fun _ _ h => nomatch h), fun s' hs' => hs'⟩
  | head hstep _ ih =>
    obtain ⟨v, hv, hlengthInner, hreadInner⟩ := ih
    obtain ⟨u, hu, hlength, hread⟩ := hstep.frame
    refine ⟨u ++ v, by rw [hu, hv, List.append_assoc], fun depth s h => ?_, fun s' hs' => ?_⟩
    · have := hlength depth s h
      rw [List.length_append]
      omega
    · rw [List.append_assoc]
      refine hread _ (fun depth' t ht => ?_) (hreadInner s' hs')
      have hcall : t = v ++ s := by
        rw [← hv, ht]
        rfl
      rw [hcall]
      exact alike_two (hlengthInner depth' t ht) _ _

end PatternCatalog.Markup
