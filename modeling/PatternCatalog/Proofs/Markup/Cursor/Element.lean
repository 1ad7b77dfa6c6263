/-
  PatternCatalog.Proofs.Markup.Cursor.Element — walks over literals, tags and elements.

  A walk over a literal has a cursor of its own in the text of an expression (`onText_stringExpression`).
  An element and the children of one are walked over together: a child starts behind the start of the
  element around it, and each round of the children takes a brace group or a child (`followsElements`).
-/

import PatternCatalog.Proofs.Markup.Cursor.Scan
import PatternCatalog.Proofs.Markup.Header

namespace PatternCatalog.Markup.Cursor

open Text

section

variable {α : Type} {src left : List Char}

/-! ## Literals -/

theorem onText_ok {s r : List Char} {walk : Walk (Option α)} {a : Option α} (h : Follows s s walk (.ok (a, r))) :
    onText s walk = pure a := by
  have hanswers := h List.suffix_rfl
  funext c
  rw [onText, ofText_eq]
  generalize walk (before List.suffix_rfl) = answer at hanswers
  cases hanswers
  rfl

theorem onText_failed {s : List Char} {walk : Walk (Option α)} {e : Failure} (h : Follows s s walk (.error e)) :
    onText s walk = pure none := by
  have hanswers := h List.suffix_rfl
  funext c
  rw [onText, ofText_eq]
  generalize walk (before List.suffix_rfl) = answer at hanswers
  cases hanswers
  rfl

theorem onText_stringExpression (s : List Char) : onText s stringExpression = pure (stringExpression? s) := by
  cases s with
  | nil => exact onText_ok (follows_peek.step (.pure _))
  | cons c r =>
    have hliteral : Follows (c :: r) (c :: r) _ _ := follows_stringLiteral
    rw [Markup.stringLiteral] at hliteral
    rw [stringExpression?]
    by_cases hc : isQuote c = true
    · rw [if_pos hc] at hliteral ⊢
      cases hbody : stringBody? c [] r with
      | none =>
        rw [hbody] at hliteral
        refine onText_failed (e := .expected "closing quote" []) (follows_peek.step ?_)
        dsimp only [List.head?_cons]
        rw [if_pos hc]
        exact hliteral.failed
      | some step =>
        obtain ⟨value, t⟩ := step
        rw [hbody] at hliteral
        refine onText_ok (r := t) (follows_peek.step ?_)
        dsimp only [List.head?_cons]
        rw [if_pos hc]
        refine hliteral.step (follows_atEnd.step ?_)
        cases t with
        | nil =>
          rw [String.toList_ofList]
          by_cases hmark : c = '\x60' ∧ containsText ['$', '\x7b'] value = true
          · rw [if_neg (by simp [hmark])]
            dsimp only
            rw [if_pos hmark]
            exact .pure _
          · rw [if_pos (by simpa [Decidable.imp_iff_not_or] using hmark)]
            dsimp only
            rw [if_neg hmark]
            exact .pure _
        | cons d t => exact .pure _
    · rw [if_neg hc]
      refine onText_ok (r := c :: r) (follows_peek.step ?_)
      dsimp only [List.head?_cons]
      rw [if_neg hc]
      exact .pure _

theorem follows_literalExpression (s : List Char) :
    Follows src left (literalExpression s) (.ok (literalExpression? s, left)) := by
  rw [literalExpression, literalExpression?, onText_stringExpression]
  split
  · exact .pure _
  split
  · exact .pure _
  cases Binary64.read? s with
  | none => exact .pure _
  | some x =>
    dsimp only
    split <;> exact .pure _

/-! ## Tags -/

theorem follows_tagName : Follows src left Cursor.tagName (Markup.tagName left) := by
  refine follows_identifier.bind fun first r _ _ => (follows_eat ".").step ?_
  dsimp only
  rw [eatOptional]
  cases eat? "." r with
  | none => exact .pure _
  | some t => exact follows_identifier.bind fun second t _ _ => .pure _

theorem follows_attributeName : Follows src left Cursor.attributeName (Markup.attributeName left) := by
  refine .within fun hleft => follows_here.step ((follows_skipWhile _).step (follows_here.step ?_))
  have hsplit : left.takeWhile isAttributeChar ++ left.dropWhile isAttributeChar = left := List.takeWhile_append_dropWhile
  rw [Markup.attributeName]
  cases hname : left.takeWhile isAttributeChar with
  | nil =>
    rw [hname, List.nil_append] at hsplit
    rw [hsplit, if_pos rfl]
    exact follows_expected _
  | cons c u =>
    have hsource : Follows src (left.dropWhile isAttributeChar) _ _ := follows_source (hsplit.symm ▸ hleft)
    rw [hsplit, hname] at hsource
    have hmoved : ¬ octets src - octets left = octets src - octets (left.dropWhile isAttributeChar) := by
      have hle := octets_le_of_suffix hleft
      have hc := c.utf8Size_pos
      have hoctets := congrArg octets hsplit
      rw [hname, octets_append, octets_cons] at hoctets
      omega
    rw [if_neg hmoved, if_neg (List.cons_ne_nil _ _)]
    exact follows_here.step (hsource.step (.pure _))

theorem follows_quotedValue {quote : Char} (hquote : quote.utf8Size = 1) : Follows src left (quotedValue quote)
    (match left.dropWhile (· != quote) with
    | _ :: r => .ok (some (.string (String.ofList (left.takeWhile (· != quote)))), r)
    | [] => .error (.expected "closing quote" left)) := by
  refine .within fun hleft => follows_here.step (follows_rest.step ?_)
  cases hend : offset? [quote] left with
  | none =>
    have hopen : quote ∉ left := not_mem_of_not_infix_singleton (offset?_none hend (List.cons_ne_nil _ _))
    have hdrop : left.dropWhile (· != quote) = [] := List.dropWhile_eq_nil_iff.mpr fun d hd => by
      simpa using ne_of_mem_of_not_mem hd hopen
    rw [hdrop]
    exact follows_expected _
  | some n =>
    obtain ⟨u, r, rfl, rfl, hu⟩ := offset?_some hend (List.cons_ne_nil _ _)
    have hplain : ∀ d ∈ u, (d != quote) = true := fun d hd => by
      simpa using ne_of_mem_of_not_mem hd (not_mem_of_not_infix_singleton hu)
    have hclose : Ends (· != quote) ([quote] ++ r) := ends_cons (by simp) r
    have hoctets : octets (u ++ [quote]) = octets u + 1 := by
      rw [octets_append, octets_cons, hquote]
      rfl
    have hadvance : Follows src _ _ _ := follows_advance (u ++ [quote]) r
    have hsource : Follows src r _ _ := follows_source hleft
    rw [List.append_assoc, hoctets] at hadvance
    rw [← octets_sub_append hleft] at hsource
    rw [takeWhile_run hplain hclose, dropWhile_run hplain hclose]
    exact hadvance.step (hsource.step (.pure _))

theorem follows_groupValue (r : List Char) : Follows src ('\x7b' :: r) groupValue (do
    let (inner, r) ← groupBody 0 none [] r
    return (literalExpression? (trim inner), r)) := by
  refine .within fun hr => follows_here.step ((follows_skipGroup r).bind_map (f := fun _ => ()) fun inner t hgroup => ?_)
  obtain ⟨-, rfl⟩ := groupBody_iff.mp hgroup
  have hopen : octets src - octets ('\x7b' :: (inner ++ '\x7d' :: t)) + 1 = octets src - octets (inner ++ '\x7d' :: t) :=
    octets_sub_append (u := ['\x7b']) hr
  have hclose : octets src - octets ('\x7d' :: t) + 1 = octets src - octets t :=
    octets_sub_append (u := ['\x7d']) ((List.suffix_append ('\x7b' :: inner) _).trans hr)
  have hsource : Follows src t _ _ := follows_source ((List.suffix_cons _ _).trans hr)
  refine follows_here.step ?_
  rw [← hclose, hopen]
  refine (follows_minus (Nat.le_add_left _ _)).step ?_
  rw [Nat.add_sub_cancel]
  exact hsource.step (follows_literalExpression _)

theorem follows_attributeValue : Follows src left Cursor.attributeValue (Markup.attributeValue left) := by
  refine follows_skipTrivia.step (follows_peek.step ?_)
  rw [Markup.attributeValue]
  dsimp only
  generalize Markup.skipTrivia left = s
  cases s with
  | nil => exact follows_expected _
  | cons c r =>
    dsimp only [List.head?_cons]
    by_cases hquote : c = '"' ∨ c = '\''
    · rw [if_pos hquote, if_pos hquote]
      exact (follows_bump c r).step (follows_quotedValue (by rcases hquote with rfl | rfl <;> rfl))
    rw [if_neg hquote, if_neg hquote]
    by_cases hbrace : c = '\x7b'
    · rw [if_pos hbrace, if_pos hbrace, hbrace]
      exact follows_groupValue r
    · rw [if_neg hbrace, if_neg hbrace]
      exact follows_expected _

theorem follows_nextAttribute : Follows src left Cursor.nextAttribute (Markup.nextAttribute left) := by
  refine follows_attributeName.bind fun name r _ _ => follows_skipTrivia.step ((follows_eat "=").step ?_)
  dsimp only
  rw [eatOptional]
  cases eat? "=" (Markup.skipTrivia r) with
  | none => exact .pure _
  | some t => exact follows_attributeValue.bind fun value t _ _ => .pure _

/-- The attributes that are read on are put behind those before. -/
theorem follows_attributesLoop (fuel : Nat) (before : List Attribute) (h : left.length < fuel) :
    Follows src left (loop attributesRound before) (do
      let (others, r) ← Markup.attributes fuel left
      return (before ++ others, r)) := by
  induction fuel generalizing left before with
  | zero => exact absurd h (Nat.not_lt_zero _)
  | succ fuel ih =>
    have hlength := (skipTrivia_suffix left).length_le
    cases hskip : Markup.skipTrivia left with
    | nil =>
      rw [Markup.attributes, hskip, ok_bind]
      refine follows_loop_done (follows_skipTrivia.step (follows_peek.step ?_))
      rw [hskip, List.append_nil]
      exact .pure _
    | cons c r =>
      rw [hskip, List.length_cons] at hlength
      by_cases hend : c = '/' ∨ c = '>'
      · rw [attributes_end hskip hend, ok_bind]
        refine follows_loop_done (follows_skipTrivia.step (follows_peek.step ?_))
        rw [hskip, List.append_nil, List.head?_cons]
        dsimp only
        rw [if_pos hend]
        exact .pure _
      by_cases hbrace : c = '\x7b'
      · subst hbrace
        rw [attributes_group hskip, bind_assoc]
        refine follows_loop_on (f := fun _ => before) (follows_skipTrivia.step (follows_peek.step ?_)) fun g t hg ht => ?_
        · rw [hskip, List.head?_cons]
          dsimp only
          rw [if_neg hend, if_pos rfl]
          exact (follows_skipGroup r).bind_map (f := fun _ => ()) fun _ _ _ => .pure _
        · have hgroup := groupBody_length hg
          exact ⟨by omega, ih before (by omega)⟩
      · rw [attributes_next hskip hend hbrace, bind_assoc]
        refine follows_loop_on (f := fun a => before ++ [a]) (follows_skipTrivia.step (follows_peek.step ?_)) fun a t ha _ => ?_
        · rw [hskip, List.head?_cons]
          dsimp only
          rw [if_neg hend, if_neg hbrace]
          exact follows_nextAttribute.bind fun _ _ _ _ => .pure _
        · obtain ⟨d, u, -, htext, -⟩ := nextAttribute_reads ha
          obtain ⟨-, rfl⟩ := List.cons.inj htext
          rw [List.length_append] at hlength
          exact ⟨by omega, (ih (before ++ [a]) (by omega)).behind⟩

theorem follows_attributes : Follows src left Cursor.attributes (Markup.attributes (left.length + 1) left) :=
  (follows_attributesLoop _ [] (Nat.lt_succ_self _)).of_nil

/-! ## Elements -/

theorem follows_closingTag {s r : List Char} (hs : s <:+ src) (tag : List String) :
    Follows src r (closingTag tag (octets src - octets s)) (do
      let (_, r) ← closing tag s r
      return ((), r)) := by
  rw [closing, bind_assoc]
  refine follows_tagName.bind fun closed r₁ _ _ => ?_
  dsimp only
  rw [bind_assoc]
  refine (follows_expect _ _).bind fun _ r₂ _ _ => ?_
  dsimp only
  split
  · exact .pure _
  · exact fun _ => .error fun _ h => Option.some.inj h ▸ hs

/-- With enough fuel the elements of a text are read in the same way, from any place behind the start of the
element around them. -/
structure FollowsElements (limit fuel : Nat) : Prop where
  element : ∀ {src s : List Char} {depth : Nat}, 0 < fuel → s.length ≤ fuel →
    Follows src s (Cursor.element limit depth) (Markup.element limit fuel depth s)
  children : ∀ {src s : List Char} {start : Cursor} {depth : Nat} {tag : List String} {nodes : List Node},
    s.length < fuel → octets s < start.left →
    Follows src s (loop (childrenRound (onward start fun c _ => Cursor.element limit (depth + 1) c) tag) nodes) (do
      let (others, r) ← Markup.children limit fuel depth tag s
      return (nodes ++ others, r))

theorem expect_length {mark what : String} {s r : List Char} (hmark : mark.toList ≠ [])
    (h : Markup.expect mark what s = .ok ((), r)) : r.length < s.length := by
  rw [Markup.expect] at h
  split at h
  · next heat =>
    obtain ⟨-, rfl⟩ := Prod.mk.inj (Except.ok.inj h)
    exact eat?_skipTrivia_length hmark heat
  · cases h

theorem FollowsElements.element_step {limit fuel : Nat} (ih : FollowsElements limit fuel) {s : List Char} {depth : Nat}
    (h : s.length ≤ fuel + 1) : Follows src s (Cursor.element limit depth) (Markup.element limit (fuel + 1) depth s) := by
  intro hsrc
  rw [Cursor.element, Markup.element]
  by_cases hdepth : limit < depth
  · rw [if_pos hdepth, if_pos hdepth]
    exact .error fun r hr => absurd hr (Option.not_mem_none r)
  rw [if_neg hdepth, if_neg hdepth]
  refine ((follows_expect _ _).bind fun _ s₁ hmark hs₁ => follows_tagName.bind fun tag s₂ _ hs₂ =>
    follows_attributes.bind fun as s₃ _ hs₃ => follows_skipTrivia.step ((follows_eat "/>").step ?_)) hsrc
  dsimp only
  rw [eatOptional]
  cases eat? "/>" (Markup.skipTrivia s₃) with
  | some s₄ => exact .pure _
  | none =>
    refine (follows_expect _ _).bind fun _ s₄ hclose hs₄ => ?_
    have hsuffix := ((hs₄.trans (skipTrivia_suffix s₃)).trans hs₃).trans hs₂
    have hopen := expect_length (by decide) hmark
    have hlength := expect_length (by decide) hclose
    rw [Option.getD_none] at hlength
    have hle := (hs₃.trans hs₂).length_le
    have hskip := (skipTrivia_suffix s₃).length_le
    have hleft : octets s₄ < (before hsrc).left := by
      rw [left_before]
      exact octets_lt_of_suffix (hsuffix.trans hs₁) (by omega)
    exact (ih.children (by omega) hleft).of_nil.bind fun _ _ _ _ => .pure _

theorem FollowsElements.children_step {limit fuel : Nat} (ih : FollowsElements limit fuel) {s : List Char} {start : Cursor}
    {depth : Nat} {tag : List String} {nodes : List Node} (h : s.length < fuel + 1) (hstart : octets s < start.left) :
    Follows src s (loop (childrenRound (onward start fun c _ => Cursor.element limit (depth + 1) c) tag) nodes) (do
      let (others, r) ← Markup.children limit (fuel + 1) depth tag s
      return (nodes ++ others, r)) := by
  cases next s with
  | nothing hskip =>
    rw [children_end hskip]
    refine follows_loop_failed ((follows_skipWhile _).step ?_)
    rw [← skipText, hskip]
    exact follows_atEnd.step (follows_expected _)
  | closing r hskip =>
    have hround : Follows src s (childrenRound (onward start fun c _ => Cursor.element limit (depth + 1) c) tag nodes) (do
        let (_, r) ← closing tag ('<' :: '/' :: r) r
        return (.inr nodes, r)) := by
      refine (follows_skipWhile _).step ?_
      rw [← skipText, hskip]
      refine .within fun hclosing => follows_atEnd.step (follows_rest.step (follows_here.step ?_))
      exact (follows_advance ['<', '/'] r).step ((follows_closingTag hclosing tag).bind_map (f := fun _ => ()) fun _ _ _ => .pure _)
    rw [children_closing hskip]
    cases hclosing : closing tag ('<' :: '/' :: r) r with
    | error e =>
      rw [hclosing] at hround
      exact follows_loop_failed hround
    | ok step =>
      obtain ⟨others, t⟩ := step
      obtain ⟨rfl, -⟩ := closing_takes hclosing
      rw [hclosing] at hround
      rw [ok_bind]
      dsimp only
      rw [List.append_nil]
      exact follows_loop_done hround
  | group r hskip =>
    have hlength := skipText_length hskip
    rw [children_group hskip, bind_assoc]
    refine follows_loop_on (f := fun _ => nodes) ((follows_skipWhile _).step ?_) fun g t hg ht => ?_
    · rw [← skipText, hskip]
      refine follows_atEnd.step (follows_rest.step (follows_peek.step ?_))
      exact (follows_skipGroup r).bind_map (f := fun _ => ()) fun _ _ _ => .pure _
    · have hgroup := groupBody_length hg
      have hoctets := octets_le_of_suffix ht
      exact ⟨by omega, ih.children (by omega) (by omega)⟩
  | element r hskip hslash =>
    have hlength := skipText_length hskip
    have hsuffix : '<' :: r <:+ s := by
      rw [← hskip]
      exact List.dropWhile_suffix _
    have hoctets := octets_le_of_suffix hsuffix
    rw [children_element hskip hslash, bind_assoc]
    refine follows_loop_on (f := fun n => nodes ++ [n]) ((follows_skipWhile _).step ?_) fun n t hn ht => ?_
    · rw [← skipText, hskip]
      have hopen : ¬ "</".toList.isPrefixOf ('<' :: r) = true := fun h => by
        obtain ⟨t, ht⟩ := List.isPrefixOf_iff_prefix.mp h
        exact hslash (by rw [← (List.cons.inj ht).2]; rfl)
      refine follows_atEnd.step (follows_rest.step ?_)
      rw [if_neg hopen]
      refine follows_peek.step ?_
      rw [List.head?_cons, if_neg (by simp)]
      have hchild : ('<' :: r).length ≤ fuel := by
        rw [List.length_cons]
        omega
      exact (follows_onward (by omega) fun hsrc _ => ih.element (by omega) hchild hsrc).bind fun _ _ _ _ => .pure _
    · have helement := element_length hn
      have hoctets := octets_le_of_suffix ht
      rw [List.length_cons] at helement
      exact ⟨by omega, (ih.children (by omega) (by omega)).behind⟩

theorem followsElements (limit fuel : Nat) : FollowsElements limit fuel := by
  induction fuel with
  | zero => exact ⟨fun h => absurd h (Nat.lt_irrefl 0), fun h => absurd h (Nat.not_lt_zero _)⟩
  | succ fuel ih => exact ⟨fun _ => ih.element_step, ih.children_step⟩

end

end PatternCatalog.Markup.Cursor
