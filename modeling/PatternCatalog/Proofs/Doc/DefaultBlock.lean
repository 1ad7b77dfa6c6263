/-
  PatternCatalog.Proofs.Doc.DefaultBlock — the default block of a comment.

  The scan for default blocks keeps track of fences in its own way: it does not look for fences
  inside a block. Still it has a fence open exactly where a plain fence scanner has one
  (`BlockScan.step_agrees`). So where the fences of a comment are closed, the scan stands in
  ordinary text, and a default block that comes next is found whatever came before it
  (`BlockScan.found_example`). Its lines are found as they were before they got their gutter
  (`dropGutter_gutter`), so an example at the end of a comment is what `defaultBlock?` gives
  (`example_at_end_found`).
-/

import PatternCatalog.Doc
import PatternCatalog.Proofs.Text.Lines

namespace PatternCatalog.Doc

open Text

/-! ## Fences -/

/-- The fence that is open after lines. -/
def fenceAfter (ls : List (List Char)) : Option (List Char) := ls.foldl (fun fence l => feedFence fence (trim l)) none

/-- Three or more of one of the two characters that fences are made of. -/
def IsFence (marker : List Char) : Prop :=
  ∃ c n, (c = '\x60' ∨ c = '~') ∧ 3 ≤ n ∧ marker = List.replicate n c

theorem takeWhile_eq_replicate (c : Char) (s : List Char) :
    s.takeWhile (· == c) = List.replicate (s.takeWhile (· == c)).length c :=
  List.eq_replicate_of_mem fun d hd => beq_iff_eq.mp (List.all_eq_true.mp List.all_takeWhile d hd)

theorem fenceMarker?_isFence {s marker : List Char} (h : fenceMarker? s = some marker) : IsFence marker ∧ marker <+: s := by
  cases s with
  | nil => cases h
  | cons c r =>
    simp only [fenceMarker?] at h
    split at h
    · next hc =>
      split at h
      · next hlength =>
        cases h
        refine ⟨⟨c, (r.takeWhile (· == c)).length + 1, hc, hlength, ?_⟩, ?_⟩
        · rw [List.replicate_succ, ← takeWhile_eq_replicate]
        · exact (List.prefix_cons_inj c).mpr (List.takeWhile_prefix _)
      · cases h
    · cases h

/-- A line that starts with a fence has a marker that starts with it. -/
theorem fenceMarker?_of_prefix {marker s : List Char} (hmarker : IsFence marker) (h : marker <+: s) :
    ∃ found, fenceMarker? s = some found ∧ marker <+: found := by
  obtain ⟨c, n, hc, hn, rfl⟩ := hmarker
  obtain ⟨n, rfl⟩ : ∃ k, n = k + 1 := ⟨n - 1, by omega⟩
  obtain ⟨rest, rfl⟩ := h
  have htake : (List.replicate n c ++ rest).takeWhile (· == c) = List.replicate n c ++ rest.takeWhile (· == c) :=
    List.takeWhile_append_of_pos fun d hd => beq_iff_eq.mpr (List.eq_of_mem_replicate hd)
  refine ⟨c :: (List.replicate n c ++ rest.takeWhile (· == c)), ?_, ⟨rest.takeWhile (· == c), rfl⟩⟩
  simp only [List.replicate_succ, List.cons_append, fenceMarker?, if_pos hc, htake]
  rw [if_pos]
  simp only [List.length_cons, List.length_append, List.length_replicate]
  omega

/-- An open fence is closed by the lines that start with it. -/
theorem feedFence_opened {marker : List Char} (hmarker : IsFence marker) (s : List Char) :
    feedFence (some marker) s = if marker.isPrefixOf s then none else some marker := by
  unfold feedFence
  by_cases h : marker <+: s
  · obtain ⟨found, hfound, hprefix⟩ := fenceMarker?_of_prefix hmarker h
    simp [hfound, List.isPrefixOf_iff_prefix.mpr h, List.isPrefixOf_iff_prefix.mpr hprefix]
  · have hno : ¬ marker.isPrefixOf s = true := fun hp => h (List.isPrefixOf_iff_prefix.mp hp)
    rw [if_neg hno]
    cases hfound : fenceMarker? s with
    | none => rfl
    | some found =>
      have hout : ¬ marker.isPrefixOf found = true := fun hp =>
        h ((List.isPrefixOf_iff_prefix.mp hp).trans (fenceMarker?_isFence hfound).2)
      simp [hout]

/-! ## The scan and the fences -/

namespace BlockScan

/-- Whether a scan has the given fence open: of its own, or as the start of the block it is in. -/
def Agrees (s : BlockScan) (fence : Option (List Char)) : Prop :=
  match s.mode with
  | .text => s.fence = fence ∧ ∀ marker ∈ fence, IsFence marker
  | .awaiting => s.fence = none ∧ fence = none
  | .body marker _ => s.fence = none ∧ fence = some marker ∧ IsFence marker

theorem textLine_agrees {s : BlockScan} {trimmed : List Char} (hfence : ∀ marker ∈ s.fence, IsFence marker) :
    (s.textLine trimmed).Agrees (feedFence s.fence trimmed) := by
  unfold textLine
  split
  · next h =>
    obtain ⟨hclosed, rfl, -⟩ := h
    have hnone : s.fence = none := Option.isNone_iff_eq_none.mp hclosed
    exact ⟨hnone, by rw [hnone]; rfl⟩
  · refine ⟨rfl, fun marker hmem => ?_⟩
    cases hopen : s.fence with
    | some opened =>
      have hopened := hfence opened hopen
      rw [hopen, feedFence_opened hopened] at hmem
      split at hmem
      · cases hmem
      · cases hmem
        exact hopened
    | none =>
      rw [hopen] at hmem
      simp only [feedFence] at hmem
      split at hmem
      · cases hmem
      · next h => cases h
      · next hfound _ => cases hmem; exact (fenceMarker?_isFence hfound).1

/-- The scan has a fence open exactly where the plain scanner has it open. -/
theorem step_agrees {s : BlockScan} {fence : Option (List Char)} (h : s.Agrees fence) (line : List Char) :
    (s.step line).Agrees (feedFence fence (trim line)) := by
  unfold step
  cases hmode : s.mode with
  | text =>
    simp only [Agrees, hmode] at h
    obtain ⟨rfl, hfence⟩ := h
    exact textLine_agrees hfence
  | awaiting =>
    simp only [Agrees, hmode] at h
    obtain ⟨hnone, rfl⟩ := h
    dsimp only
    split
    · next htrim => simp [Agrees, htrim, hnone, feedFence, fenceMarker?]
    · next marker hfound _ =>
      exact ⟨hnone, by simp [feedFence, hfound], (fenceMarker?_isFence hfound).1⟩
    · rw [← hnone]
      exact textLine_agrees fun marker hmem => by rw [hnone] at hmem; cases hmem
  | body marker ls =>
    simp only [Agrees, hmode] at h
    obtain ⟨hnone, rfl, hmarker⟩ := h
    rw [feedFence_opened hmarker]
    dsimp only
    split
    · exact ⟨hnone, fun marker hmem => nomatch hmem⟩
    · exact ⟨hnone, rfl, hmarker⟩

theorem foldl_agrees {s : BlockScan} {fence : Option (List Char)} (h : s.Agrees fence) (ls : List (List Char)) :
    (ls.foldl step s).Agrees (ls.foldl (fun fence l => feedFence fence (trim l)) fence) := by
  induction ls generalizing s fence with
  | nil => exact h
  | cons l ls ih => exact ih (step_agrees h l)

theorem scan_agrees (ls : List (List Char)) : (ls.foldl step {}).Agrees (fenceAfter ls) :=
  foldl_agrees (s := {}) ⟨rfl, fun _ hmem => nomatch hmem⟩ ls

/-- Outside all fences a scan is in no block. -/
theorem Agrees.closed {s : BlockScan} (h : s.Agrees none) : s.fence = none ∧ (s.mode = .text ∨ s.mode = .awaiting) := by
  simp only [Agrees] at h
  split at h
  · next hmode => exact ⟨h.1, .inl hmode⟩
  · next hmode => exact ⟨h.1, .inr hmode⟩
  · next hmode => cases h.2.1

end BlockScan

/-! ## An example -/

/-- Three backticks. -/
def backticks : List Char := ['\x60', '\x60', '\x60']

/-- The mark in front of each line of a comment. -/
def gutter : List Char := " * ".toList

/-- The lines that open a default block in a paragraph of its own. -/
def openingLines : List (List Char) := [" *".toList, gutter ++ "@default".toList, gutter ++ backticks ++ "tsx".toList]

/-- A comment with an example at its end. -/
def withExample (raw : String) (ls : List (List Char)) : String :=
  String.ofList (raw.toList ++ '\n' :: unlines (openingLines ++ ls.map (gutter ++ ·) ++ [gutter ++ backticks]))

/-- The lines of an example and of the block around it, without gutter. -/
def exampleBlock (ls : List (List Char)) : List (List Char) :=
  [[], "@default".toList, backticks ++ "tsx".toList] ++ ls ++ [backticks]

/-- A line that an example may have: it is one line, no blank ends it, and it does not close the fence. -/
structure ExampleLine (l : List Char) : Prop where
  no_feed : '\n' ∉ l
  trimmed : trimEnd l = l
  inside : ¬ backticks <+: trim l

instance (l : List Char) : Decidable (ExampleLine l) :=
  decidable_of_iff ('\n' ∉ l ∧ trimEnd l = l ∧ ¬ backticks <+: trim l)
    ⟨fun ⟨h, h', h''⟩ => ⟨h, h', h''⟩, fun h => ⟨h.no_feed, h.trimmed, h.inside⟩⟩

/-! ## Reading an example -/

theorem dropGutter_gutter {l : List Char} (h : trimEnd l = l) : dropGutter (gutter ++ l) = l := h

namespace BlockScan

theorem foldl_body {s : BlockScan} {marker : List Char} {before ls : List (List Char)} (hmode : s.mode = .body marker before)
    (hls : ∀ l ∈ ls, ¬ marker <+: trim l) : ls.foldl step s = { s with mode := .body marker (ls.reverse ++ before) } := by
  induction ls generalizing s before with
  | nil =>
    obtain ⟨fence, mode, afterBlank, found⟩ := s
    cases hmode
    rfl
  | cons l ls ih =>
    have hl : ¬ marker.isPrefixOf (trim l) = true := fun h => hls l List.mem_cons_self (List.isPrefixOf_iff_prefix.mp h)
    have hstep : s.step l = { s with mode := .body marker (l :: before) } := by
      unfold step
      simp only [hmode, if_neg hl]
    rw [List.foldl_cons, hstep, ih rfl fun x hx => hls x (List.mem_cons_of_mem _ hx)]
    simp

/-- Outside all fences an empty line makes the next one start a paragraph. -/
theorem step_empty {s : BlockScan} (h : s.Agrees none) :
    (s.step []).fence = none ∧ (s.step []).afterBlank = true ∧ ((s.step []).mode = .text ∨ (s.step []).mode = .awaiting) := by
  have htrim : trim [] = [] := rfl
  have hfeed : feedFence none [] = none := rfl
  obtain ⟨hfence, hmode | hmode⟩ := h.closed
  · simp [step, textLine, hmode, hfence, htrim, hfeed]
  · simp [step, hmode, hfence, htrim]

/-- A line without a fence is ordinary text, also after a `@default` line. -/
theorem step_of_no_fence {s : BlockScan} (hmode : s.mode = .text ∨ s.mode = .awaiting) {line : List Char}
    (hno : fenceMarker? (trim line) = none) (hne : trim line ≠ []) : s.step line = s.textLine (trim line) := by
  rcases hmode with hmode | hmode
  · simp only [step, hmode]
  · simp only [step, hmode]
    split
    · next h => exact absurd h hne
    · next hmarker _ => rw [hno] at hmarker; cases hmarker
    · rfl

theorem step_default {s : BlockScan} (hfence : s.fence = none) (hblank : s.afterBlank = true)
    (hmode : s.mode = .text ∨ s.mode = .awaiting) :
    s.step "@default".toList = { s with mode := .awaiting, afterBlank := false } := by
  have htrim : trim "@default".toList = "@default".toList := by decide
  have hno : fenceMarker? "@default".toList = none := by decide
  rw [step_of_no_fence hmode (htrim ▸ hno) (htrim ▸ by decide), htrim]
  exact if_pos ⟨by rw [hfence]; rfl, rfl, hblank⟩

theorem step_opening {s : BlockScan} (hmode : s.mode = .awaiting) :
    s.step (backticks ++ "tsx".toList) = { s with mode := .body backticks [] } := by
  have htrim : trim (backticks ++ "tsx".toList) = backticks ++ "tsx".toList := by decide
  have hmarker : fenceMarker? (backticks ++ "tsx".toList) = some backticks := by decide
  simp only [step, hmode, htrim, hmarker]
  split
  · next h => cases h
  · next h _ => cases h; rfl
  · next h _ => cases h

theorem step_closing {s : BlockScan} {ls : List (List Char)} (hmode : s.mode = .body backticks ls) :
    (s.step backticks).found = some ls.reverse := by
  have htrim : trim backticks = backticks := by decide
  simp only [step, hmode, htrim]
  rfl

/-- A default block that starts outside all fences is the one that is found, whatever came before. -/
theorem found_example {s : BlockScan} (h : s.Agrees none) {ls : List (List Char)} (hls : ∀ l ∈ ls, ¬ backticks <+: trim l) :
    ((exampleBlock ls).foldl step s).found = some ls := by
  obtain ⟨hfence, hblank, hmode⟩ := step_empty h
  rw [exampleBlock, List.foldl_append, List.foldl_append]
  simp only [List.foldl_cons, List.foldl_nil]
  rw [step_default hfence hblank hmode, step_opening rfl, foldl_body rfl hls, step_closing rfl]
  simp

end BlockScan

/-! ## The whole comment -/

theorem trimEnd_concat_blank {c : Char} (hc : isBlank c = true) (l : List Char) : trimEnd (l ++ [c]) = trimEnd l := by
  simp [trimEnd, hc]

theorem not_blank_of_trimEnd {l : List Char} {c : Char} (h : trimEnd l = l) (hlast : l.getLast? = some c) :
    isBlank c = false := by
  obtain ⟨before, rfl⟩ := List.getLast?_eq_some_iff.mp hlast
  refine Bool.eq_false_iff.mpr fun hc => ?_
  rw [trimEnd_concat_blank hc] at h
  have hlength : (trimEnd before).length ≤ before.length := by
    simpa [trimEnd] using (List.dropWhile_sublist isBlank (l := before.reverse)).length_le
  rw [h, List.length_append, List.length_singleton] at hlength
  omega

/-- A carriage return at the end of a line is a blank there. -/
theorem dropGutter_return (l : List Char) : dropGutter (l ++ ['\r']) = dropGutter l := by
  have hblank : isBlank '\r' = true := by decide
  have hstart : trimStart (l ++ ['\r']) = if (trimStart l).isEmpty then [] else trimStart l ++ ['\r'] := by
    simp [trimStart, List.dropWhile_append, hblank]
  unfold dropGutter
  rw [hstart]
  cases trimStart l with
  | nil => rfl
  | cons c s =>
    by_cases hc : c = '*'
    · subst hc
      cases s with
      | nil => exact trimEnd_concat_blank hblank []
      | cons d s =>
        by_cases hd : d = ' '
        · subst hd
          exact trimEnd_concat_blank hblank s
        · simp [hd, ← trimEnd_concat_blank hblank (d :: s)]
    · by_cases hd : c = ' '
      · subst hd
        exact trimEnd_concat_blank hblank s
      · simp [hc, hd, ← trimEnd_concat_blank hblank (c :: s)]

/-- A line feed at the end of a comment opens and closes no fence. -/
theorem fenceAfter_ended {ls ls' : List (List Char)} (h : Ended ls ls') :
    fenceAfter (ls'.map dropGutter) = fenceAfter (ls.map dropGutter) := by
  cases h with
  | empty =>
    rw [List.map_append, fenceAfter, List.foldl_append]
    rfl
  | same => rfl
  | return_ before last =>
    rw [List.map_append, List.map_append, List.map_singleton, List.map_singleton, dropGutter_return]

theorem ExampleLine.isLine {l : List Char} (h : ExampleLine l) : IsLine (gutter ++ l) := by
  refine ⟨fun hmem => ?_, fun hlast => ?_⟩
  · rcases List.mem_append.mp hmem with hmem | hmem
    · exact absurd hmem (by decide)
    · exact h.no_feed hmem
  · cases hl : l.getLast? with
    | none =>
      rw [List.getLast?_eq_none_iff.mp hl] at hlast
      exact absurd hlast (by decide)
    | some c =>
      rw [List.getLast?_append, hl] at hlast
      cases hlast
      exact absurd (not_blank_of_trimEnd h.trimmed hl) (by decide)

theorem blockLines_isLine {ls : List (List Char)} (hls : ∀ l ∈ ls, ExampleLine l) :
    ∀ l ∈ openingLines ++ ls.map (gutter ++ ·), IsLine l := by
  have hopening : ∀ l ∈ openingLines, InLine l := by decide
  intro l hl
  rcases List.mem_append.mp hl with hl | hl
  · exact (hopening l hl).isLine
  · obtain ⟨x, hx, rfl⟩ := List.mem_map.mp hl
    exact (hls x hx).isLine

theorem map_dropGutter_gutter {ls : List (List Char)} (hls : ∀ l ∈ ls, ExampleLine l) :
    (ls.map (gutter ++ ·)).map dropGutter = ls := by
  rw [List.map_map]
  exact (List.map_congr_left fun l hl => dropGutter_gutter (hls l hl).trimmed).trans (List.map_id _)

theorem commentLines_withExample (raw : String) {ls : List (List Char)} (hls : ∀ l ∈ ls, ExampleLine l) :
    commentLines (withExample raw ls) = (lines (raw.toList ++ ['\n'])).map dropGutter ++ exampleBlock ls := by
  have hlast : '\n' ∉ gutter ++ backticks := by decide
  have hopening : openingLines.map dropGutter = [[], "@default".toList, backticks ++ "tsx".toList] := by decide
  have hclosing : dropGutter (gutter ++ backticks) = backticks := by decide
  rw [commentLines, withExample, String.toList_ofList, lines_append_newline,
    lines_unlines_concat (blockLines_isLine hls) (List.cons_ne_nil _ _) hlast (by decide)]
  simp only [List.map_append, List.map_singleton]
  rw [hopening, map_dropGutter_gutter hls, hclosing]
  rfl

/-- An example at the end of a comment, outside all fences, is what the comment gives, line by
line as it was written. -/
theorem example_at_end_found (raw : String) (ls : List (List Char)) (hclosed : fenceAfter (commentLines raw) = none)
    (hls : ∀ l ∈ ls, ExampleLine l) : defaultBlock? (withExample raw ls) = some (String.ofList (unlines ls)) := by
  have hagrees := BlockScan.scan_agrees ((lines (raw.toList ++ ['\n'])).map dropGutter)
  have hended : fenceAfter ((lines (raw.toList ++ ['\n'])).map dropGutter) = none :=
    (fenceAfter_ended (lines_ended raw.toList)).trans hclosed
  have hfound := BlockScan.found_example (hended ▸ hagrees) fun l hl => (hls l hl).inside
  rw [defaultBlock?, commentLines_withExample raw hls, List.foldl_append, hfound]
  rfl

/-- Earlier blocks, other fences, tags and an unanswered `@default` line do not stand in the way,
and the indentation stays. -/
theorem example_after_others_found :
    let raw := "*\n * Shown.\n *\n * @default\n * \x60\x60\x60\n * <Old />\n * \x60\x60\x60\n *\n * ~~~\n * @media\n * ~~~\n *\n * @default"
    let ls := ["export default () => (".toList, "  <Button />".toList, [], ");".toList]
    fenceAfter (commentLines raw) = none ∧ (∀ l ∈ ls, ExampleLine l) ∧
      defaultBlock? (withExample raw ls) = some "export default () => (\n  <Button />\n\n);" :=
  have hclosed := by decide
  have hls := by decide
  ⟨hclosed, hls, example_at_end_found _ _ hclosed hls⟩

end PatternCatalog.Doc
