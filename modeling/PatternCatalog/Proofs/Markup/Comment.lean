/-
  PatternCatalog.Proofs.Markup.Comment — comments among the children of an element.

  A comment among children is written in braces, `{/* … */}`, and is meant to be skipped. The
  reader skips it as any brace group: by its quotes and braces, not as a comment.
  - `read_unseen`: text between elements and closed brace groups show nothing to the reader (`Unseen`).
  - `comment_unseen_iff`: a comment can be put everywhere among children, in every example, exactly
    when it is such a text. A comment without quotes and braces is (`unseen_of_clear`).

  An apostrophe in a comment opens a string that does not close, and the example is not read
  (`an_apostrophe_in_a_comment_opens_a_string`).
-/

import PatternCatalog.Proofs.Markup.Calls
import PatternCatalog.Proofs.Markup.Header

namespace PatternCatalog.Markup

open Relation (ReflTransGen)

/-- A text among children that shows nothing to the reader: text without angle brackets and closed
brace groups. -/
inductive Unseen : List Char → Prop
  | text {t : List Char} (ht : IsText t) : Unseen t
  | group {t g w : List Char} (ht : IsText t) (hg : Balanced g) (hw : Unseen w) : Unseen (t ++ '\x7b' :: (g ++ '\x7d' :: w))

/-- A comment among children. -/
def comment (c : List Char) : List Char := '\x7b' :: '/' :: '*' :: (c ++ ['*', '/', '\x7d'])

theorem unseen_of_clear {c : List Char} (h : ∀ d ∈ c, IsClear d) : Unseen (comment c) := by
  have hgroup : Balanced ('/' :: '*' :: (c ++ ['*', '/'])) :=
    .char (by decide) (.char (by decide) ((balanced_clear h).append (balanced_clear (by simp [IsClear, isQuote]))))
  have hcomment : comment c = [] ++ '\x7b' :: ('/' :: '*' :: (c ++ ['*', '/']) ++ '\x7d' :: []) := by simp [comment]
  rw [hcomment]
  exact .group (List.forall_mem_nil _) hgroup (.text (List.forall_mem_nil _))

/-- A place among the children of an element of an example. -/
def ChildPosition (limit : Nat) (before after : List Char) : Prop :=
  ∃ h root depth tag text, header (before ++ after) = .ok (h, root) ∧
    ReflTransGen (Calls limit) (.element 1 root) (.children depth tag (text ++ after)) ∧ IsText text

/-! ## What shows nothing can be put anywhere -/

theorem read_unseen {limit depth : Nat} {tag : List String} {w : List Char} (h : Unseen w) (s : List Char) :
    Call.read limit (.children depth tag (w ++ s)) = Call.read limit (.children depth tag s) := by
  induction h with
  | text ht => exact read_text ht s
  | @group t g w ht hg _ ih =>
    have htext : t ++ '\x7b' :: (g ++ '\x7d' :: w) ++ s = t ++ ('\x7b' :: (g ++ '\x7d' :: (w ++ s))) := by simp
    rw [htext, read_text ht, read_group (skipText_mark (.inr rfl) _), groupBody_iff.mpr ⟨hg, rfl⟩]
    exact ih

theorem module_unseen {limit : Nat} {before after w : List Char} (hw : Unseen w) (hplace : ChildPosition limit before after) :
    module limit (before ++ (w ++ after)) = module limit (before ++ after) := by
  obtain ⟨h, root, depth, tag, text, hheader, hpath, htext⟩ := hplace
  obtain ⟨u, hu, hreads⟩ := header_reads hheader
  obtain ⟨v, hv, hlength, hframe⟩ := frame hpath
  have hroot : root = v ++ (text ++ after) := hv
  have hsource : before ++ after = u ++ (v ++ text) ++ after := by rw [hu, hroot]; simp
  have hbefore : before = u ++ (v ++ text) := List.append_cancel_right hsource
  have htext' : before ++ (w ++ after) = u ++ (v ++ (text ++ (w ++ after))) := by simp [hbefore]
  have hheader' := hreads (v ++ (text ++ (w ++ after))) (hroot ▸ alike_two (hlength 1 root rfl) _ _)
  have hread := hframe (text ++ (w ++ after)) (by rw [read_text htext, read_unseen hw, read_text htext])
  have helement := single_injective hread
  rw [htext', module_eq, module_eq, hheader, hheader', ok_bind, ok_bind]
  dsimp only
  rw [helement]

/-! ## What shows something is seen in one example -/

/-- The end of an example, behind the place that is probed. A comment that is open there ends in it,
but no string and no brace group does. -/
def probeEnd : List Char := ['*', '/', '\n', '<', '/', 'A', '>']

/-- A text with a brace before the end of the example. -/
def Braced (r : List Char) : Prop := ∃ p, r = p ++ '\x7d' :: probeEnd

/-- A text that is not read to its end as blanks and comments. -/
def Stuck (r : List Char) : Prop := Braced r ∨ r = ['<', '/', 'A', '>']

theorem Braced.cons {c : Char} {r : List Char} (h : Braced (c :: r)) : Braced r ∨ c = '\x7d' ∧ r = probeEnd := by
  obtain ⟨p, hp⟩ := h
  cases p with
  | nil => exact .inr (List.cons.inj hp)
  | cons d p => exact .inl ⟨p, (List.cons.inj hp).2⟩

theorem Braced.tail {c : Char} {r : List Char} (h : Braced (c :: r)) (hc : c ≠ '\x7d') : Braced r :=
  h.cons.resolve_right fun h => hc h.1

theorem Stuck.ne_nil {r : List Char} (h : Stuck r) : r ≠ [] := by
  rcases h with ⟨p, rfl⟩ | rfl
  · simp
  · decide

theorem Stuck.tail {c : Char} {r : List Char} (h : Stuck (c :: r)) (hbrace : c ≠ '\x7d') (hangle : c ≠ '<') : Stuck r := by
  rcases h with h | h
  · exact .inl (h.tail hbrace)
  · exact absurd (List.cons.inj h).1 hangle

theorem stuck_skipTriviaFrom {mode : TriviaMode} {s : List Char} (h : Braced s) : Stuck (skipTriviaFrom mode s) := by
  fun_induction skipTriviaFrom mode s with
  | case1 r ih => exact ih ((h.tail (by decide)).tail (by decide))
  | case2 r ih => exact ih ((h.tail (by decide)).tail (by decide))
  | case3 c r _ _ hblank ih => exact ih (h.tail (ne_of_class hblank (by decide)))
  | case4 c r => exact .inl h
  | case5 r ih => exact ih (h.tail (by decide))
  | case6 c r _ ih =>
    rcases h.cons with h | ⟨-, rfl⟩
    · exact ih h
    · exact .inr (by decide)
  | case7 r ih => exact ih ((h.tail (by decide)).tail (by decide))
  | case8 c r _ ih =>
    rcases h.cons with h | ⟨-, rfl⟩
    · exact ih h
    · exact .inr (by decide)
  | case9 =>
    obtain ⟨p, hp⟩ := h
    simp at hp

theorem Stuck.skipTrivia {r : List Char} (h : Stuck r) : Stuck (skipTrivia r) := by
  rcases h with h | rfl
  · exact stuck_skipTriviaFrom h
  · exact .inr (by decide)

theorem Stuck.dropWhile {p : Char → Bool} {r : List Char} (h : Stuck r) (hbrace : p '\x7d' = false) (hangle : p '<' = false) :
    Stuck (r.dropWhile p) := by
  induction r with
  | nil => exact absurd rfl h.ne_nil
  | cons c r ih =>
    rw [List.dropWhile_cons]
    split
    · next hc => exact ih (h.tail (ne_of_class hc hbrace) (ne_of_class hc hangle))
    · exact h

/-- A mark of one character leaves the text stuck. -/
theorem Stuck.eat? {mark : String} {m : Char} (hmark : mark.toList = [m]) (hbrace : m ≠ '\x7d') (hangle : m ≠ '<')
    {s r : List Char} (hs : Stuck s) (h : eat? mark s = some r) : Stuck r := by
  rw [eat?_eq_some h, hmark] at hs
  exact hs.tail hbrace hangle

theorem Stuck.identifier {s r : List Char} {w : String} (hs : Stuck s) (h : identifier s = .ok (w, r)) : Stuck r := by
  unfold Markup.identifier at h
  split at h
  · next step hstep =>
    obtain rfl := Except.ok.inj h
    unfold identifier? at hstep
    split at hstep
    · next c t hskip =>
      split at hstep
      · next hc =>
        obtain ⟨-, rfl⟩ := Prod.mk.inj (Option.some.inj hstep)
        have hstuck : Stuck (c :: t) := hskip ▸ hs.skipTrivia
        exact (hstuck.tail (ne_of_class hc (by decide)) (ne_of_class hc (by decide))).dropWhile (by decide) (by decide)
      · cases hstep
    · cases hstep
  · cases h

theorem Stuck.tagName {s r : List Char} {tag : List String} (hs : Stuck s) (h : tagName s = .ok (tag, r)) : Stuck r := by
  obtain ⟨⟨first, s₁⟩, hfirst, hrest⟩ := Except.bind_ok h
  have hs₁ := hs.identifier hfirst
  dsimp only at hrest
  split at hrest
  · next s₂ hdot =>
    obtain ⟨⟨second, s₃⟩, hsecond, hlast⟩ := Except.bind_ok hrest
    obtain ⟨-, rfl⟩ := Prod.mk.inj (Except.ok.inj hlast)
    exact (hs₁.eat? (m := '.') (by decide) (by decide) (by decide) hdot).identifier hsecond
  · obtain ⟨-, rfl⟩ := Prod.mk.inj (Except.ok.inj hrest)
    exact hs₁

theorem Stuck.closing {s r left : List Char} {tag : List String} {ns : List Node} (hr : Stuck r)
    (h : closing tag s r = .ok (ns, left)) : Stuck left := by
  obtain ⟨⟨closed, s₁⟩, htag, hafterTag⟩ := Except.bind_ok h
  obtain ⟨⟨_, s₂⟩, hmark, hlast⟩ := Except.bind_ok hafterTag
  dsimp only at hlast
  have hs₂ : Stuck s₂ := by
    unfold expect at hmark
    dsimp only at hmark
    split at hmark
    · next heat =>
      obtain ⟨-, rfl⟩ := Prod.mk.inj (Except.ok.inj hmark)
      exact (hr.tagName htag).skipTrivia.eat? (m := '>') (by decide) (by decide) (by decide) heat
    · cases hmark
  split at hlast
  · obtain ⟨-, rfl⟩ := Prod.mk.inj (Except.ok.inj hlast)
    exact hs₂
  · cases hlast

/-- No example ends in a text that is stuck. -/
theorem Stuck.not_end {r : List Char} (h : Stuck r) (is : List Import) : footer ⟨is, false, 0⟩ r ≠ .ok () := by
  have hend : Stuck (Markup.skipTrivia (eatOptional ";" (Markup.skipTrivia r))) := by
    unfold eatOptional
    cases heat : Markup.eat? ";" (Markup.skipTrivia r) with
    | none => exact h.skipTrivia.skipTrivia
    | some t => exact (h.skipTrivia.eat? (m := ';') (by decide) (by decide) (by decide) heat).skipTrivia
  simp [footer, closeParentheses, functionEnd, hend.ne_nil, ok_bind, pure, Except.pure]

/-- A text that is empty or ends with a brace. -/
def EndsBraced (w : List Char) : Prop := ∀ c ∈ w.getLast?, c = '\x7d'

theorem EndsBraced.suffix {v w : List Char} (h : EndsBraced (v ++ w)) : EndsBraced w := fun c hc =>
  h c (by rw [List.getLast?_append, Option.mem_def.mp hc]; rfl)

theorem EndsBraced.ne_nil {c : Char} {w : List Char} (h : EndsBraced (c :: w)) (hc : c ≠ '\x7d') : w ≠ [] := by
  rintro rfl
  exact hc (h c rfl)

theorem EndsBraced.braced {w : List Char} (h : EndsBraced w) (hw : w ≠ []) : Braced (w ++ probeEnd) := by
  obtain ⟨p, d, rfl⟩ := (List.eq_nil_or_concat w).resolve_left hw
  obtain rfl : d = '\x7d' := h d (by simp)
  exact ⟨p, by simp⟩

/-- What is read before the end of the probed example, with no further element, shows nothing. -/
theorem unseen_of_read {w : List Char} (hw : EndsBraced w) {ns : List Node} {r : List Char}
    (h : Call.read 1 (.children 1 ["A"] (w ++ probeEnd)) = .ok (ns, r)) (hr : ¬ Stuck r) : Unseen w := by
  induction hlength : w.length using Nat.strong_induction_on generalizing w with
  | _ length ih =>
    obtain ⟨t, ht, htext⟩ := exists_text w
    cases hskip : skipText w with
    | nil =>
      rw [hskip, List.append_nil] at htext
      exact htext ▸ .text ht
    | cons c x =>
      rw [hskip] at htext
      subst htext
      have hx := hw.suffix
      rw [List.append_assoc, read_text ht] at h
      rcases skipText_head hskip with rfl | rfl
      · have hnext : skipText ('<' :: x ++ probeEnd) = '<' :: (x ++ probeEnd) := skipText_mark (.inl rfl) _
        have hne : x ≠ [] := hx.ne_nil (by decide)
        by_cases hslash : (x ++ probeEnd).head? = some '/'
        · obtain ⟨d, y, rfl⟩ := List.exists_cons_of_ne_nil hne
          obtain rfl : d = '/' := by simpa using hslash
          have hy : EndsBraced ('/' :: y) := EndsBraced.suffix (v := ['<']) hx
          have hbraced : Braced (y ++ probeEnd) :=
            (EndsBraced.suffix (v := ['/']) hy).braced (hy.ne_nil (by decide))
          rw [read_closing hnext] at h
          exact absurd (Stuck.closing (.inl hbraced) h) hr
        · rw [read_child hnext hslash, read_element, if_pos (by decide)] at h
          cases h
      · have hnext : skipText ('\x7b' :: x ++ probeEnd) = '\x7b' :: (x ++ probeEnd) := skipText_mark (.inr rfl) _
        rw [read_group hnext] at h
        obtain ⟨⟨g, s⟩, hgroup, hrest⟩ := Except.bind_ok h
        obtain ⟨hg, hs⟩ := groupBody_iff.mp hgroup
        -- the group ends before the end of the example, which has no brace
        rcases List.append_eq_append_iff.mp hs with ⟨y, -, hy⟩ | ⟨y, rfl, hy⟩
        · have hmem : '\x7d' ∈ probeEnd := by simp [hy]
          exact absurd hmem (by decide)
        · cases y with
          | nil => exact absurd (congrArg List.head? hy) (by simp [probeEnd])
          | cons d y =>
            obtain ⟨rfl, rfl⟩ := List.cons.inj hy
            have hy' : EndsBraced y := EndsBraced.suffix (v := '\x7b' :: (g ++ ['\x7d'])) (by simpa using hx)
            refine .group ht hg (ih y.length ?_ hy' hrest rfl)
            simp at hlength
            omega

/-! ## Comments -/

/-- The header of the example that is probed. -/
def probeHeader : List Char := "export default () => ".toList

def probeTag : List Char := ['<', 'A', '>']

/-- The example up to the children of its one element. -/
def probeStart : List Char := probeHeader ++ probeTag

theorem header_probe (x : List Char) : header (probeStart ++ x) = .ok (⟨[], false, 0⟩, probeTag ++ x) := by
  have hprobe : header (probeHeader ++ probeTag) = .ok (⟨[], false, 0⟩, probeTag) := by decide +kernel
  obtain ⟨u, hu, hread⟩ := header_reads hprobe
  obtain rfl := List.append_cancel_right hu
  have halike : Alike (probeTag ++ []) (probeTag ++ x) := alike_two (by decide) _ _
  rw [probeStart, List.append_assoc]
  exact hread _ halike

theorem opening_probe (x : List Char) : opening (probeTag ++ x) = .ok (⟨["A"], [], false⟩, x) := by
  have hprobe : opening probeTag = .ok (⟨["A"], [], false⟩, []) := by decide +kernel
  obtain ⟨u, -, hu, hread⟩ := opening_takes hprobe
  rw [List.append_nil] at hu
  rw [hu]
  exact hread x

theorem childPosition_probe (x : List Char) : ChildPosition 1 probeStart x :=
  ⟨_, _, 1, ["A"], [], header_probe x, .single (.inside (Nat.le_refl 1) (opening_probe x) rfl),
    List.forall_mem_nil _⟩

theorem parse_probe {x : List Char} {n : Node}
    (h : element 1 ((probeTag ++ x).length + 1) 1 (probeTag ++ x) = .ok (n, [])) :
    parse (String.ofList (probeStart ++ x)) 1 = .ok ⟨[], n⟩ :=
  parse_of_parts (by rw [String.toList_ofList]; exact header_probe x) h rfl

theorem parse_probe_error {x : List Char} {what : String}
    (h : element 1 ((probeTag ++ x).length + 1) 1 (probeTag ++ x) = .error (.expected what [])) :
    parse (String.ofList (probeStart ++ x)) 1 = .error (.unexpectedEnd what) := by
  rw [parse, String.toList_ofList, module_eq, header_probe, ok_bind]
  dsimp only
  rw [h]
  rfl

theorem module_probe {x : List Char} {m : Module} (h : module 1 (probeStart ++ x) = .ok m) :
    ∃ cs r, Call.read 1 (.children 1 ["A"] x) = .ok (cs, r) ∧ ¬ Stuck r := by
  obtain ⟨hd, r, t, hheader, hroot, hfooter, -⟩ := module_ok h
  obtain ⟨rfl, rfl⟩ := Prod.mk.inj (Except.ok.inj ((header_probe x).symm.trans hheader))
  have hread := read_of_element hroot
  rw [read_element, if_neg (by decide), opening_probe, ok_bind] at hread
  obtain ⟨⟨cs, t'⟩, hcs, hlast⟩ := Except.bind_ok hread
  obtain ⟨-, rfl⟩ := Prod.mk.inj (Except.ok.inj hlast)
  exact ⟨cs, t', hcs, fun hstuck => hstuck.not_end _ hfooter⟩

/-- Which comments can be put anywhere among children. -/
theorem comment_unseen_iff (c : List Char) :
    (∀ limit before after m, ChildPosition limit before after → parse (String.ofList (before ++ after)) limit = .ok m →
      parse (String.ofList (before ++ (comment c ++ after))) limit = .ok m) ↔ Unseen (comment c) := by
  constructor
  · intro h
    have hplain : parse (String.ofList (probeStart ++ probeEnd)) 1 = .ok ⟨[], ⟨["A"], [], []⟩⟩ := parse_probe rfl
    have hmodule := Except.mapError_ok (h 1 _ _ _ (childPosition_probe probeEnd) hplain)
    rw [String.toList_ofList] at hmodule
    obtain ⟨cs, r, hread, hstuck⟩ := module_probe hmodule
    have hcomment : comment c = '\x7b' :: '/' :: '*' :: (c ++ ['*', '/']) ++ ['\x7d'] := by simp [comment]
    refine unseen_of_read (fun d hd => ?_) hread hstuck
    rw [hcomment, List.getLast?_concat] at hd
    exact (Option.some.inj hd).symm
  · intro hunseen limit before after m hplace hm
    have hmodule := Except.mapError_ok hm
    rw [String.toList_ofList] at hmodule
    rw [parse, String.toList_ofList, module_unseen hunseen hplace, hmodule]
    rfl

example : Unseen (comment " a comment <b> ".toList) := unseen_of_clear (by simp [IsClear, isQuote])

theorem an_apostrophe_in_a_comment_opens_a_string :
    parse "export default () => <A>\x7b/* don't */\x7d</A>" 1 = .error (.unexpectedEnd "closing quote") ∧
      ¬ ∀ c limit before after m, ¬ ['*', '/'] <:+: c → ChildPosition limit before after →
        parse (String.ofList (before ++ after)) limit = .ok m →
          parse (String.ofList (before ++ (comment c ++ after))) limit = .ok m := by
  let c := [' ', 'd', 'o', 'n', '\'', 't', ' ']
  have herror : parse (String.ofList (probeStart ++ (comment c ++ ['<', '/', 'A', '>']))) 1 =
      .error (.unexpectedEnd "closing quote") := parse_probe_error rfl
  have htext : String.ofList (probeStart ++ (comment c ++ ['<', '/', 'A', '>'])) =
      "export default () => <A>\x7b/* don't */\x7d</A>" := by decide +kernel
  have hplain : parse (String.ofList (probeStart ++ ['<', '/', 'A', '>'])) 1 = .ok ⟨[], ⟨["A"], [], []⟩⟩ := parse_probe rfl
  refine ⟨htext ▸ herror, fun h => ?_⟩
  have hkept := h c 1 _ _ _ (by decide) (childPosition_probe _) hplain
  rw [herror] at hkept
  cases hkept

end PatternCatalog.Markup
