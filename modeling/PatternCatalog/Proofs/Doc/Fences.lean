/-
  PatternCatalog.Proofs.Doc.Fences — what is inside a fence, for tags and for default blocks.

  Tags and default blocks are found by two scans of one comment. The scan for tags follows the
  fences of all lines. The scan for default blocks follows them outside of blocks only; a block is
  gone through up to the line that starts with its marker, whatever fences are in it. Where that
  scan stands can be told from the lines it has read (`BlockScan.traced`), so the two can be
  compared before each line:
  - `fence_open_iff`: the scan for tags has a fence open exactly when the other one has one of its
    own, or is between the opening and the closing line of a block.
  - `tags_around_block`: the lines of a block all go to one `default` tag. The tags before it are
    those of the lines before the block, and those after it are of the lines after the block.
  - `fence_scanners_agree`: both, for every comment and for the block that is found in it.
-/

import PatternCatalog.Proofs.Doc.Examples
import PatternCatalog.Proofs.Text.Trim

namespace PatternCatalog.Doc

open Text

/-- What has been read of a comment after lines. -/
def Reading.after (ls : List (List Char)) : Reading := ls.foldl step {}

/-- Where the scan for default blocks stands after lines. -/
def BlockScan.after (ls : List (List Char)) : BlockScan := ls.foldl step {}

/-! ## Default blocks -/

/-- A default block without its closing line. -/
structure Block where
  marked : List Char
  blanks : List (List Char)
  opening : List Char
  marker : List Char
  body : List (List Char)
  is_marked : trim marked = "@default".toList
  blank : ∀ l ∈ blanks, trim l = []
  opens : fenceMarker? (trim opening) = some marker
  /-- No line of the body closes the block. -/
  inside : ∀ l ∈ body, ¬ marker <+: trim l

def Block.lines (b : Block) : List (List Char) := b.marked :: b.blanks ++ b.opening :: b.body

namespace BlockScan

/-- A default block may come next: the scan is outside of fences and blocks, and a paragraph starts. -/
structure Free (ls : List (List Char)) : Prop where
  outside : (after ls).fence = none
  no_block : ∀ marker body, (after ls).mode ≠ .body marker body
  paragraph : ∀ l ∈ ls.getLast?, trim l = []

/-- The last line that is not blank is the first one of a default block that may come. -/
def Awaits (ls : List (List Char)) : Prop :=
  ∃ before marked blanks, ls = before ++ marked :: blanks ∧ Free before ∧ trim marked = "@default".toList ∧
    ∀ l ∈ blanks, trim l = []

/-- The lines end between the opening and the closing line of a default block, after some lines of its body. -/
def Inside (ls : List (List Char)) (marker : List Char) (body : List (List Char)) : Prop :=
  ∃ before, ∃ b : Block, ls = before ++ b.lines ∧ Free before ∧ b.marker = marker ∧ b.body = body

/-- The lines end between the opening and the closing line of a default block. -/
def InBlock (ls : List (List Char)) : Prop := ∃ before, ∃ b : Block, ls = before ++ b.lines ∧ Free before

/-- A default block with its closing line is among the lines. -/
structure HasBlock (ls before : List (List Char)) (b : Block) (closing : List Char) (later : List (List Char)) : Prop where
  split : ls = before ++ b.lines ++ closing :: later
  free : Free before
  closes : b.marker <+: trim closing

def Found (ls body : List (List Char)) : Prop := ∃ before b closing later, HasBlock ls before b closing later ∧ b.body = body

theorem Found.concat {ls body : List (List Char)} (h : Found ls body) (l : List Char) : Found (ls ++ [l]) body := by
  obtain ⟨before, b, closing, later, hblock, hbody⟩ := h
  refine ⟨before, b, closing, later ++ [l], ⟨?_, hblock.free, hblock.closes⟩, hbody⟩
  rw [hblock.split, List.append_assoc, List.cons_append]

theorem Awaits.concat {ls : List (List Char)} (h : Awaits ls) {l : List Char} (hl : trim l = []) : Awaits (ls ++ [l]) := by
  obtain ⟨before, marked, blanks, rfl, hfree, hmarked, hblanks⟩ := h
  refine ⟨before, marked, blanks ++ [l], by rw [List.append_assoc, List.cons_append], hfree, hmarked, fun x hx => ?_⟩
  rcases List.mem_append.mp hx with hx | hx
  · exact hblanks x hx
  · exact List.mem_singleton.mp hx ▸ hl

theorem Awaits.open {ls : List (List Char)} (h : Awaits ls) {l marker : List Char} (hl : fenceMarker? (trim l) = some marker) :
    Inside (ls ++ [l]) marker [] := by
  obtain ⟨before, marked, blanks, rfl, hfree, hmarked, hblanks⟩ := h
  refine ⟨before, ⟨marked, blanks, l, marker, [], hmarked, hblanks, hl, fun _ hx => nomatch hx⟩, ?_, hfree, rfl, rfl⟩
  rw [List.append_assoc]
  rfl

theorem Inside.concat {ls body : List (List Char)} {marker : List Char} (h : Inside ls marker body) {l : List Char}
    (hl : ¬ marker <+: trim l) : Inside (ls ++ [l]) marker (body ++ [l]) := by
  obtain ⟨before, b, rfl, hfree, rfl, rfl⟩ := h
  have hinside : ∀ x ∈ b.body ++ [l], ¬ b.marker <+: trim x := by
    intro x hx
    rcases List.mem_append.mp hx with hx | hx
    · exact b.inside x hx
    · exact List.mem_singleton.mp hx ▸ hl
  exact ⟨before, { b with body := b.body ++ [l], inside := hinside }, by simp [Block.lines], hfree, rfl, rfl⟩

theorem Inside.inBlock {ls body : List (List Char)} {marker : List Char} (h : Inside ls marker body) : InBlock ls := by
  obtain ⟨before, b, hls, hfree, -, -⟩ := h
  exact ⟨before, b, hls, hfree⟩

theorem Inside.close {ls body : List (List Char)} {marker : List Char} (h : Inside ls marker body) {l : List Char}
    (hl : marker <+: trim l) : Found (ls ++ [l]) body := by
  obtain ⟨before, b, rfl, hfree, rfl, rfl⟩ := h
  exact ⟨before, b, l, [], ⟨rfl, hfree, hl⟩, rfl⟩

/-! ## Where the scan stands -/

/-- What a mode of the scan says of the lines before. -/
def ModeOf (ls : List (List Char)) : BlockMode → Prop
  | .text => True
  | .awaiting => Awaits ls
  | .body marker body => Inside ls marker body.reverse

/-- What the state of the scan says of the lines that it has read. -/
structure Traced (ls : List (List Char)) : Prop where
  paragraph : (∀ marker body, (after ls).mode ≠ .body marker body) →
    ((after ls).afterBlank = true ↔ ∀ l ∈ ls.getLast?, trim l = [])
  mode : ModeOf ls (after ls).mode
  found : ∀ body, (after ls).found = some body → Found ls body

theorem after_concat (ls : List (List Char)) (l : List Char) : after (ls ++ [l]) = (after ls).step l := by
  rw [after, List.foldl_append]
  rfl

variable {ls : List (List Char)} {l : List Char}

/-- The trace of a line that ends no block. -/
theorem Traced.concat (h : Traced ls) {s : BlockScan} (hafter : after (ls ++ [l]) = s)
    (hparagraph : (∀ marker body, s.mode ≠ .body marker body) → s.afterBlank = (trim l).isEmpty)
    (hmode : ModeOf (ls ++ [l]) s.mode) (hfound : s.found = (after ls).found) : Traced (ls ++ [l]) := by
  subst hafter
  refine ⟨fun hno => ?_, hmode, fun body hbody => (h.found body (hfound ▸ hbody)).concat l⟩
  rw [hparagraph hno, List.getLast?_concat, List.isEmpty_iff]
  exact ⟨fun hl x hx => Option.some.inj hx ▸ hl, fun hall => hall l rfl⟩

/-- A line of ordinary text. -/
theorem Traced.textLine (h : Traced ls) (hno : ∀ marker body, (after ls).mode ≠ .body marker body)
    (hstep : (after ls).step l = (after ls).textLine (trim l)) : Traced (ls ++ [l]) := by
  have hafter := (after_concat ls l).trans hstep
  unfold BlockScan.textLine at hafter
  split at hafter
  · next hmarked =>
    obtain ⟨hclosed, hdefault, hblank⟩ := hmarked
    have hfree : Free ls := ⟨Option.isNone_iff_eq_none.mp hclosed, hno, (h.paragraph hno).mp hblank⟩
    exact h.concat hafter (fun _ => by rw [hdefault]; rfl) ⟨ls, l, [], rfl, hfree, hdefault, fun _ hx => nomatch hx⟩ rfl
  · exact h.concat hafter (fun _ => rfl) trivial rfl

theorem ne_nil_of_marker {marker s : List Char} (hmarker : IsFence marker) (h : marker <+: s) : s ≠ [] := by
  obtain ⟨c, n, -, hn, rfl⟩ := hmarker
  rintro rfl
  have hlength := h.length_le
  simp only [List.length_replicate, List.length_nil] at hlength
  omega

theorem Traced.step (h : Traced ls) (l : List Char) : Traced (ls ++ [l]) := by
  have hafter := after_concat ls l
  have hmode := h.mode
  cases hcase : (after ls).mode with
  | text =>
    have hno : ∀ marker body, (after ls).mode ≠ .body marker body := fun _ _ => by simp [hcase]
    exact h.textLine hno (by simp only [BlockScan.step, hcase])
  | awaiting =>
    have hno : ∀ marker body, (after ls).mode ≠ .body marker body := fun _ _ => by simp [hcase]
    rw [hcase] at hmode
    by_cases hblank : trim l = []
    · -- the opening line still has to come
      have hnext : (after ls).step l = { after ls with afterBlank := true } := by
        rw [BlockScan.step, hcase]
        simp [hblank, hcase]
      refine h.concat (hafter.trans hnext) (fun _ => by rw [hblank]; rfl) ?_ rfl
      rw [hcase]
      exact hmode.concat hblank
    · cases hmarker : fenceMarker? (trim l) with
      | none => exact h.textLine hno (step_of_no_fence (.inr hcase) hmarker hblank)
      | some marker =>
        have hnext : (after ls).step l = { after ls with mode := .body marker [] } := by
          rw [BlockScan.step, hcase]
          simp [hmarker]
        exact h.concat (hafter.trans hnext) (fun hbody => absurd rfl (hbody marker [])) (hmode.open hmarker) rfl
  | body marker body =>
    rw [hcase] at hmode
    by_cases hcloses : marker <+: trim l
    · have hbegins : marker.isPrefixOf (trim l) = true := List.isPrefixOf_iff_prefix.mpr hcloses
      have hnext : after (ls ++ [l]) = { after ls with mode := .text, afterBlank := false, found := some body.reverse } := by
        rw [hafter, BlockScan.step, hcase]
        simp [hbegins]
      have hline : trim l ≠ [] := by
        obtain ⟨before, b, -, -, rfl, -⟩ := hmode
        exact ne_nil_of_marker (fenceMarker?_isFence b.opens).1 hcloses
      refine ⟨fun _ => ?_, by rw [hnext]; trivial, fun body' hfound => ?_⟩
      · rw [hnext, List.getLast?_concat]
        exact ⟨fun hfalse => absurd hfalse Bool.false_ne_true, fun hall => absurd (hall l rfl) hline⟩
      · rw [hnext] at hfound
        exact Option.some.inj hfound ▸ hmode.close hcloses
    · have hbegins : ¬ marker.isPrefixOf (trim l) = true := fun hp => hcloses (List.isPrefixOf_iff_prefix.mp hp)
      have hnext : (after ls).step l = { after ls with mode := .body marker (l :: body) } := by
        rw [BlockScan.step, hcase]
        simp [hbegins]
      refine h.concat (hafter.trans hnext) (fun hbody => absurd rfl (hbody marker (l :: body))) ?_ rfl
      rw [ModeOf, List.reverse_cons]
      exact hmode.concat hcloses

theorem traced (ls : List (List Char)) : Traced ls := by
  have hrun : ∀ ls before, Traced before → Traced (before ++ ls) := by
    intro ls
    induction ls with
    | nil => exact fun before h => by rwa [List.append_nil]
    | cons l ls ih =>
      intro before h
      have hnext := ih (before ++ [l]) (h.step l)
      rwa [List.append_assoc, List.singleton_append] at hnext
  refine hrun ls [] ⟨fun _ => ?_, trivial, fun _ h => nomatch h⟩
  exact ⟨fun _ _ hl => (nomatch hl), fun _ => rfl⟩

theorem Free.closed {ls : List (List Char)} (h : Free ls) : (Reading.after ls).fence = none := by
  have hagrees := scan_agrees ls
  rw [show (Reading.after ls).fence = fenceAfter ls from Reading.foldl_fence ls {}]
  simp only [Agrees] at hagrees
  split at hagrees
  · exact hagrees.1.symm.trans h.outside
  · exact hagrees.2
  · next marker body hmode => exact absurd hmode (h.no_block marker body)

end BlockScan

/-! ## The scan for tags around a block -/

namespace Reading

variable {before later : List (List Char)} {closing : List Char} {b : Block}

/-- Between the opening and the closing line of a block, its fence is open and all its lines went to a
`default` tag. -/
theorem after_block (hfree : BlockScan.Free before) (b : Block) :
    after (before ++ b.lines) =
      { after before with
        fence := some b.marker
        tags := ("default".toList, b.body.reverse ++ b.opening :: b.blanks.reverse) :: (after before).tags } := by
  have hlines : before ++ b.lines = before ++ ((b.marked :: b.blanks ++ [b.opening]) ++ b.body) := by simp [Block.lines]
  rw [hlines, after, List.foldl_append, List.foldl_append]
  have hopened := foldl_opening hfree.closed b.is_marked b.blank b.opens
  exact (congrArg (b.body.foldl step) hopened).trans (foldl_inside (fenceMarker?_isFence b.opens).1 rfl rfl b.inside)

theorem after_closing (h : BlockScan.HasBlock (before ++ b.lines ++ closing :: later) before b closing later) :
    after (before ++ b.lines ++ [closing]) =
      { after before with
        fence := none
        tags := ("default".toList, closing :: b.body.reverse ++ b.opening :: b.blanks.reverse) :: (after before).tags } := by
  have hbegins : b.marker.isPrefixOf (trim closing) = true := List.isPrefixOf_iff_prefix.mpr h.closes
  rw [after, List.foldl_append]
  refine (congrArg (step · closing) (after_block h.free b)).trans ?_
  simp only [step, Option.isSome_some, if_true, feedFence_opened (fenceMarker?_isFence b.opens).1, if_pos hbegins]
  rfl

/-- Reading after a tag goes on as in a comment of its own: it opens the same tags, and what comes
before the first of them goes to the tag. -/
def Continues (r own : Reading) (tag : List Char × List (List Char)) (older : List (List Char × List (List Char))) : Prop :=
  r.fence = own.fence ∧ ∃ newer more,
    r.tags = newer ++ (tag.1, more ++ tag.2) :: older ∧ newer.map (·.1) = own.tags.map (·.1)

theorem Continues.step {r own : Reading} {tag : List Char × List (List Char)} {older : List (List Char × List (List Char))}
    (h : Continues r own tag older) (l : List Char) : Continues (r.step l) (own.step l) tag older := by
  obtain ⟨hfence, newer, more, htags, hnames⟩ := h
  refine ⟨by rw [step_fence, step_fence, hfence], ?_⟩
  unfold Reading.step
  dsimp only
  rw [hfence]
  cases (if own.fence.isSome = true then none else tagLine? (trim l)) with
  | some opened => exact ⟨opened :: newer, more, by rw [htags]; rfl, by rw [List.map_cons, List.map_cons, hnames]⟩
  | none =>
    cases newer with
    | nil =>
      have hown : own.tags = [] := List.map_eq_nil_iff.mp hnames.symm
      refine ⟨[], l :: more, ?_, ?_⟩
      · rw [htags]
        rfl
      · rw [hown]
    | cons newest newer =>
      cases hown : own.tags with
      | nil => rw [hown] at hnames; cases hnames
      | cons ownNewest ownTags =>
        rw [hown] at hnames
        exact ⟨(newest.1, l :: newest.2) :: newer, more, by rw [htags]; rfl, hnames⟩

theorem Continues.foldl {r own : Reading} {tag : List Char × List (List Char)} {older : List (List Char × List (List Char))}
    (h : Continues r own tag older) (ls : List (List Char)) :
    Continues (ls.foldl Reading.step r) (ls.foldl Reading.step own) tag older := by
  induction ls generalizing r own with
  | nil => exact h
  | cons l ls ih => exact ih (h.step l)

/-- A tag as the comment has it. -/
def joined (t : List Char × List (List Char)) : Tag := ⟨String.ofList t.1, joinLines t.2⟩

theorem comment_tags_append {r : Reading} {newer older : List (List Char × List (List Char))} {t : List Char × List (List Char)}
    (h : r.tags = newer ++ t :: older) :
    r.comment.tags = older.reverse.map joined ++ joined t :: newer.reverse.map joined := by
  have hreverse : r.tags.reverse = older.reverse ++ t :: newer.reverse := by simp [h]
  calc r.comment.tags
    _ = r.tags.reverse.map joined := rfl
    _ = older.reverse.map joined ++ joined t :: newer.reverse.map joined := by rw [hreverse, List.map_append, List.map_cons]

theorem names_joined (tags : List (List Char × List (List Char))) :
    (tags.reverse.map joined).map (·.name) = (tags.map (·.1)).reverse.map String.ofList := by
  rw [← List.map_reverse, List.map_map, List.map_map]
  rfl

/-- The names of the tags that lines open. -/
def tagNames (ls : List (List Char)) : List String := (after ls).comment.tags.map (·.name)

/-- Among tags, one `default` tag has all lines of a block, from its opening to its closing line. The tags
before it are those of the lines before the block, and the tags after it are opened by the lines after
the block. -/
def OneTagFor (tags : List Tag) (before : List (List Char)) (b : Block) (closing : List Char) (later : List (List Char)) : Prop :=
  ∃ tagsBefore tag tagsAfter rest,
    tags = tagsBefore ++ tag :: tagsAfter ∧
      tagsBefore = (after before).comment.tags ∧ tagsAfter.map (·.name) = tagNames later ∧ tag.name = "default" ∧
      tag.text.toList = unlines (trimStart b.opening :: b.body ++ [trimEnd (unlines (closing :: rest))])

theorem tags_around_block {ls : List (List Char)} (h : BlockScan.HasBlock ls before b closing later) :
    OneTagFor (after ls).comment.tags before b closing later := by
  obtain rfl := h.split
  have hclosed := after_closing h
  have hcontinues : Continues (after (before ++ b.lines ++ [closing])) {}
      ("default".toList, closing :: b.body.reverse ++ b.opening :: b.blanks.reverse) (after before).tags := by
    rw [hclosed]
    exact ⟨rfl, [], [], rfl, rfl⟩
  obtain ⟨-, newer, more, htags, hnames⟩ := hcontinues.foldl later
  have hafter : after (before ++ b.lines ++ closing :: later) = later.foldl step (after (before ++ b.lines ++ [closing])) := by
    rw [after, List.append_cons, List.foldl_append]
    rfl
  rw [← hafter] at htags
  have hopening : trim b.opening ≠ [] := fun hnil => by
    have hopens := b.opens
    rw [hnil] at hopens
    cases hopens
  have hlines : (more ++ (closing :: b.body.reverse ++ b.opening :: b.blanks.reverse)).reverse =
      b.blanks ++ b.opening :: b.body ++ closing :: more.reverse := by simp
  refine ⟨_, _, _, more.reverse, comment_tags_append htags, rfl, ?_, String.ofList_toList, ?_⟩
  · rw [names_joined, hnames, ← names_joined]
    rfl
  · rw [joined, joinLines, String.toList_ofList, hlines]
    exact trim_unlines b.blank hopening (BlockScan.ne_nil_of_marker (fenceMarker?_isFence b.opens).1 h.closes) more.reverse

end Reading

/-! ## The two scans -/

/-- The scan for tags has a fence open exactly when the scan for default blocks has one of its own, or
is between the opening and the closing line of a block. -/
theorem fence_open_iff (ls : List (List Char)) :
    (Reading.after ls).fence.isSome ↔ (BlockScan.after ls).fence.isSome ∨ BlockScan.InBlock ls := by
  have hfence : (Reading.after ls).fence = fenceAfter ls := Reading.foldl_fence ls {}
  have hagrees : (BlockScan.after ls).Agrees (fenceAfter ls) := BlockScan.scan_agrees ls
  rw [hfence]
  refine ⟨fun hopen => ?_, fun h => ?_⟩
  · cases hmode : (BlockScan.after ls).mode with
    | text =>
      simp only [BlockScan.Agrees, hmode] at hagrees
      exact .inl (hagrees.1 ▸ hopen)
    | awaiting =>
      simp only [BlockScan.Agrees, hmode] at hagrees
      rw [hagrees.2] at hopen
      cases hopen
    | body marker body =>
      have hinside := (BlockScan.traced ls).mode
      rw [hmode] at hinside
      exact .inr hinside.inBlock
  · rcases h with hopen | ⟨before, b, rfl, hfree⟩
    · simp only [BlockScan.Agrees] at hagrees
      split at hagrees
      · exact hagrees.1 ▸ hopen
      · rw [hagrees.1] at hopen
        cases hopen
      · rw [hagrees.1] at hopen
        cases hopen
    · rw [← hfence, Reading.after_block hfree b]
      rfl

/-- Before each line the two scans agree on what is inside a fence; and all lines of the default block
that is found go to one `default` tag, with the tags of the lines before it and after it around. -/
theorem fence_scanners_agree (raw : String) :
    (∀ before, before <+: commentLines raw →
      ((Reading.after before).fence.isSome ↔ (BlockScan.after before).fence.isSome ∨ BlockScan.InBlock before)) ∧
    ∀ text, defaultBlock? raw = some text →
      ∃ before b closing later, BlockScan.HasBlock (commentLines raw) before b closing later ∧
        text = String.ofList (unlines b.body) ∧ Reading.OneTagFor (parse raw).tags before b closing later := by
  refine ⟨fun before _ => fence_open_iff before, fun text htext => ?_⟩
  obtain ⟨body, hfound, rfl⟩ := Option.map_eq_some_iff.mp htext
  obtain ⟨before, b, closing, later, hblock, rfl⟩ := (BlockScan.traced (commentLines raw)).found body hfound
  exact ⟨before, b, closing, later, hblock, rfl, Reading.tags_around_block hblock⟩

/-- The block has a longer fence than the ones in it, a blank line before it, words after its markers, and
lines that would open tags and a block of their own elsewhere. -/
theorem nested_fences_agree :
    let raw := "*\n * Shown.\n *\n * @default\n *\n * ~~~~ tsx\n * @media\n * ~~~\n *\n * @default\n * \x60\x60\x60\n * ~~~~~ end\n * @deprecated\n"
    let before := (commentLines raw).take 8
    let text := "@media\n~~~\n\n@default\n\x60\x60\x60"
    before <+: commentLines raw ∧
      ((Reading.after before).fence.isSome ↔ (BlockScan.after before).fence.isSome ∨ BlockScan.InBlock before) ∧
      defaultBlock? raw = some text ∧
      ∃ before b closing later, BlockScan.HasBlock (commentLines raw) before b closing later ∧
        text = String.ofList (unlines b.body) ∧ Reading.OneTagFor (parse raw).tags before b closing later :=
  have hbegins := List.take_prefix _ _
  have hfound := by decide +kernel
  ⟨hbegins, (fence_scanners_agree _).1 _ hbegins, hfound, (fence_scanners_agree _).2 _ hfound⟩

end PatternCatalog.Doc
