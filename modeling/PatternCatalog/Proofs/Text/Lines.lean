/-
  PatternCatalog.Proofs.Text.Lines — the lines of a text.

  A text without a line feed is one line, and a line feed after it starts the next
  (`lines_append_break`); so joined lines fall apart into the same lines (`lines_unlines`). In any
  text, what stands behind a line feed is lines of its own (`lines_append_newline`), and a line
  feed at the end adds no more than an empty line (`lines_ended`).
-/

import PatternCatalog.Text.Blank

namespace PatternCatalog.Text

/-! ## Breaks -/

/-- A carriage return before a line feed is part of the break. -/
theorem lines_cons_return {s : List Char} (h : s.head? = some '\n') : lines ('\r' :: s) = lines s := by
  cases s with
  | nil => cases h
  | cons c s =>
    cases Option.some.inj h
    rfl

/-- A character that does not belong to a break goes to the front of the first line. -/
theorem lines_cons {c : Char} {s : List Char} (hn : c ≠ '\n') (hr : c = '\r' → s.head? ≠ some '\n') :
    lines (c :: s) = (c :: (lines s).headD []) :: (lines s).tail := by
  rw [lines.eq_def (c :: s)]
  split
  · next h => cases h
  · next h => exact absurd (List.cons.inj h).1 hn
  · next h =>
    obtain ⟨hc, hs⟩ := List.cons.inj h
    exact absurd (by rw [hs]; rfl) (hr hc)
  · next h =>
    obtain ⟨rfl, rfl⟩ := List.cons.inj h
    split
    · next hs => rw [hs]; rfl
    · next hs => rw [hs]; rfl

theorem lines_ne_nil {s : List Char} (h : s ≠ []) : lines s ≠ [] := by
  unfold lines
  split
  · exact absurd rfl h
  · exact List.cons_ne_nil _ _
  · exact List.cons_ne_nil _ _
  · split
    · exact List.cons_ne_nil _ _
    · exact List.cons_ne_nil _ _

/-! ## One line -/

/-- No character of the text ends a line. -/
def InLine (s : List Char) : Prop := ∀ c ∈ s, c ≠ '\n' ∧ c ≠ '\r'

-- By name, so that the characters of the text are gone through and not all characters there are.
instance (s : List Char) : Decidable (InLine s) := List.decidableBAll (fun c => c ≠ '\n' ∧ c ≠ '\r') s

theorem InLine.append {s t : List Char} (hs : InLine s) (ht : InLine t) : InLine (s ++ t) := by
  intro c hc
  rcases List.mem_append.mp hc with hc | hc
  · exact hs c hc
  · exact ht c hc

/-- A text that stays one line when a line feed follows it. -/
structure IsLine (s : List Char) : Prop where
  no_feed : '\n' ∉ s
  no_return : s.getLast? ≠ some '\r'

theorem InLine.isLine {s : List Char} (h : InLine s) : IsLine s :=
  ⟨fun hmem => (h _ hmem).1 rfl, fun hlast => (h _ (List.mem_of_getLast? hlast)).2 rfl⟩

theorem lines_append_break {l : List Char} (hl : IsLine l) (s : List Char) : lines (l ++ '\n' :: s) = l :: lines s := by
  induction l with
  | nil => rfl
  | cons c l ih =>
    have hn : c ≠ '\n' := fun h => hl.no_feed (h ▸ List.mem_cons_self)
    have hrest : IsLine l := by
      refine ⟨fun h => hl.no_feed (List.mem_cons_of_mem _ h), fun h => hl.no_return ?_⟩
      rw [List.getLast?_cons, h]
      rfl
    have hr : c = '\r' → (l ++ '\n' :: s).head? ≠ some '\n' := by
      intro hc hhead
      cases l with
      | nil => exact hl.no_return (congrArg some hc)
      | cons d l => exact hrest.no_feed (Option.some.inj hhead ▸ List.mem_cons_self)
    rw [List.cons_append, lines_cons hn hr, ih hrest]
    rfl

theorem lines_of_not_mem {l : List Char} (hl : '\n' ∉ l) (hne : l ≠ []) : lines l = [l] := by
  induction l with
  | nil => exact absurd rfl hne
  | cons c l ih =>
    have hrest : '\n' ∉ l := fun h => hl (List.mem_cons_of_mem _ h)
    have hr : c = '\r' → l.head? ≠ some '\n' := fun _ h => hrest (List.mem_of_mem_head? h)
    rw [lines_cons (fun h => hl (h ▸ List.mem_cons_self)) hr]
    by_cases h : l = []
    · rw [h]
      rfl
    · rw [ih hrest h]
      rfl

/-! ## Joined lines -/

/-- Lines that were joined fall apart again, up to a line feed after the last of them. -/
theorem lines_unlines {ls : List (List Char)} (hls : ∀ l ∈ ls, IsLine l) (hne : ls ≠ []) (s : List Char) :
    lines (unlines ls ++ '\n' :: s) = ls ++ lines s := by
  induction ls with
  | nil => exact absurd rfl hne
  | cons l ls ih =>
    have hl := hls l List.mem_cons_self
    cases ls with
    | nil => exact lines_append_break hl s
    | cons l' ls =>
      have hrest := ih (fun x hx => hls x (List.mem_cons_of_mem _ hx)) (List.cons_ne_nil _ _)
      rw [unlines, List.append_assoc, List.cons_append, lines_append_break hl, hrest]
      · rfl
      · exact List.cons_ne_nil _ _

theorem unlines_cons {ls : List (List Char)} (hne : ls ≠ []) (l : List Char) : unlines (l :: ls) = l ++ '\n' :: unlines ls := by
  cases ls with
  | nil => exact absurd rfl hne
  | cons l' ls => rfl

theorem unlines_append {ls ls' : List (List Char)} (hne : ls ≠ []) (hne' : ls' ≠ []) :
    unlines (ls ++ ls') = unlines ls ++ '\n' :: unlines ls' := by
  induction ls with
  | nil => exact absurd rfl hne
  | cons l ls ih =>
    cases ls with
    | nil => exact unlines_cons hne' l
    | cons l' ls =>
      rw [List.cons_append, unlines_cons (by simp), ih (List.cons_ne_nil _ _), unlines_cons (List.cons_ne_nil l' ls),
        List.append_assoc, List.cons_append]

theorem unlines_concat {ls : List (List Char)} (hne : ls ≠ []) (last : List Char) :
    unlines (ls ++ [last]) = unlines ls ++ '\n' :: last := unlines_append hne (List.cons_ne_nil _ _)

/-- Without a line feed at the end, the last line has to hold something. -/
theorem lines_unlines_concat {ls : List (List Char)} (hls : ∀ l ∈ ls, IsLine l) (hne : ls ≠ []) {last : List Char}
    (hlast : '\n' ∉ last) (hsome : last ≠ []) : lines (unlines (ls ++ [last])) = ls ++ [last] := by
  rw [unlines_concat hne, lines_unlines hls hne, lines_of_not_mem hlast hsome]

/-! ## Any text before a break -/

/-- What stands behind a line feed is lines of its own. -/
theorem lines_append_newline (s t : List Char) : lines (s ++ '\n' :: t) = lines (s ++ ['\n']) ++ lines t := by
  induction s with
  | nil => rfl
  | cons c s ih =>
    have hhead : (s ++ '\n' :: t).head? = (s ++ ['\n']).head? := by cases s <;> rfl
    rw [List.cons_append, List.cons_append]
    by_cases hn : c = '\n'
    · rw [hn]
      exact congrArg ([] :: ·) ih
    by_cases hr : c = '\r' ∧ (s ++ ['\n']).head? = some '\n'
    · obtain ⟨rfl, hs⟩ := hr
      rw [lines_cons_return (hhead ▸ hs), lines_cons_return hs, ih]
    · have hr := not_and.mp hr
      obtain ⟨l, ls, hls⟩ := List.exists_cons_of_ne_nil (lines_ne_nil (s := s ++ ['\n']) (by simp))
      rw [lines_cons hn (hhead ▸ hr), lines_cons hn hr, ih, hls]
      rfl

/-- The lines of a text without and with a line feed at its end: that adds an empty line, or it
ends the last line, and a carriage return there becomes part of the break. -/
inductive Ended : List (List Char) → List (List Char) → Prop
  | empty (ls : List (List Char)) : Ended ls (ls ++ [[]])
  | same (ls : List (List Char)) : Ended ls ls
  | return_ (ls : List (List Char)) (l : List Char) : Ended (ls ++ [l ++ ['\r']]) (ls ++ [l])

theorem Ended.cons {ls ls' : List (List Char)} (h : Ended ls ls') (l : List Char) : Ended (l :: ls) (l :: ls') := by
  cases h with
  | empty => exact .empty (l :: ls)
  | same => exact .same (l :: ls)
  | return_ before last => exact .return_ (l :: before) last

theorem Ended.head {ls ls' : List (List Char)} (h : Ended ls ls') (c : Char) :
    Ended ((c :: ls.headD []) :: ls.tail) ((c :: ls'.headD []) :: ls'.tail) := by
  cases h with
  | empty =>
    cases ls with
    | nil => exact .same _
    | cons l ls => exact .empty ((c :: l) :: ls)
  | same => exact .same _
  | return_ before last =>
    cases before with
    | nil => exact .return_ [] (c :: last)
    | cons l before => exact .return_ ((c :: l) :: before) last

theorem lines_ended (s : List Char) : Ended (lines s) (lines (s ++ ['\n'])) := by
  induction s with
  | nil => exact .empty []
  | cons c s ih =>
    rw [List.cons_append]
    by_cases hn : c = '\n'
    · rw [hn]
      exact ih.cons []
    by_cases hr : c = '\r' ∧ (s ++ ['\n']).head? = some '\n'
    · obtain ⟨rfl, hs⟩ := hr
      cases s with
      | nil => exact .return_ [] []
      | cons d s =>
        rw [lines_cons_return hs, lines_cons_return (s := d :: s) hs]
        exact ih
    · have hr := not_and.mp hr
      have hr' : c = '\r' → s.head? ≠ some '\n' := by
        cases s with
        | nil => exact fun _ h => nomatch h
        | cons d s => exact hr
      rw [lines_cons hn hr', lines_cons hn hr]
      exact ih.head c

end PatternCatalog.Text
