/-
  PatternCatalog.Proofs.Doc.Examples — what a comment says besides its default content.

  The lines inside a default block are read inside a fence, where no line opens a tag, so they
  all go to the text of the tag `default` (`Reading.foldl_inside`). Comments that differ in such
  lines alone have the same description and the same tags, and the same texts of all other tags
  (`parse_of_exchanged`). Neither what marks a member as a slot nor what is said about the slot
  is read from there (`Comment.withoutExamples_eq`).
-/

import Mathlib.Logic.Relation
import PatternCatalog.Proofs.Doc.DefaultBlock

namespace PatternCatalog.Doc

open Text

/-! ## Comments without their examples -/

/-- A comment without the texts of its `@default` tags. -/
def Comment.withoutExamples (c : Comment) : Comment :=
  { c with tags := c.tags.map fun t => if t.name = "default" then ⟨t.name, ""⟩ else t }

namespace Comment

variable {c c' : Comment} {name : String}

theorem hasTag_withoutExamples (c : Comment) (name : String) : c.withoutExamples.hasTag name = c.hasTag name := by
  rw [hasTag, withoutExamples, List.any_map, hasTag]
  refine congrArg (List.any c.tags) (funext fun t => ?_)
  dsimp only [Function.comp_apply]
  split <;> rfl

theorem tag?_withoutExamples (c : Comment) (hname : name ≠ "default") : c.withoutExamples.tag? name = c.tag? name := by
  rw [tag?, withoutExamples, List.find?_map, Option.map_map, tag?]
  have hfind : ((fun t : Tag => t.name == name) ∘ fun t => if t.name = "default" then ⟨t.name, ""⟩ else t) =
      fun t => t.name == name := funext fun t => by
    dsimp only [Function.comp_apply]
    split <;> rfl
  rw [hfind]
  refine Option.map_congr fun t ht => ?_
  have hother : t.name ≠ "default" := by
    obtain rfl : t.name = name := by simpa using List.find?_some ht
    exact hname
  rw [Function.comp_apply, if_neg hother]

/-- Comments that are the same without their examples have the same tags, and say the same in all
but `@default`. -/
theorem withoutExamples_eq (h : c.withoutExamples = c'.withoutExamples) :
    c.hasTag = c'.hasTag ∧ c.resolvedDescription = c'.resolvedDescription ∧
      ∀ name ≠ "default", c.tagText? name = c'.tagText? name := by
  have htext : ∀ name ≠ "default", c.tagText? name = c'.tagText? name := fun name hname => by
    rw [tagText?, tagText?, ← tag?_withoutExamples c hname, ← tag?_withoutExamples c' hname, h]
  refine ⟨funext fun name => ?_, ?_, htext⟩
  · rw [← hasTag_withoutExamples, h, hasTag_withoutExamples]
  · have hdescription : c.withoutExamples.description = c'.withoutExamples.description := by rw [h]
    rw [resolvedDescription, resolvedDescription, htext _ (by decide)]
    exact congrArg _ hdescription

end Comment

/-! ## Reading lines inside a default block -/

namespace Reading

/-- A tag without its lines, if it is `@default`. -/
def dropExample (t : List Char × List (List Char)) : List Char × List (List Char) :=
  if t.1 = "default".toList then (t.1, []) else t

/-- What has been read, without the lines of `@default` tags. -/
def withoutExamples (r : Reading) : Reading := { r with tags := r.tags.map dropExample }

theorem dropExample_dropExample (t : List Char × List (List Char)) : dropExample (dropExample t) = dropExample t := by
  by_cases h : t.1 = "default".toList
  · simp only [dropExample, if_pos h]
  · simp only [dropExample, if_neg h]

/-- A line changes what has been read besides the examples in one way, whatever they are. -/
theorem step_withoutExamples (r : Reading) (line : List Char) :
    (r.step line).withoutExamples = (r.withoutExamples.step line).withoutExamples := by
  obtain ⟨fence, description, tags⟩ := r
  unfold step withoutExamples
  dsimp only
  have hrest : ∀ ts : List (List Char × List (List Char)), (ts.map dropExample).map dropExample = ts.map dropExample := fun ts => by
    rw [List.map_map]
    exact List.map_congr_left fun t _ => dropExample_dropExample t
  cases (if fence.isSome = true then none else tagLine? (trim line)) with
  | some tag => simp only [List.map_cons, hrest]
  | none =>
    cases tags with
    | nil => rfl
    | cons t tags =>
      obtain ⟨name, ls⟩ := t
      simp only [List.map_cons]
      by_cases hname : name = "default".toList
      · simp only [dropExample, if_pos hname, hrest]
      · simp only [dropExample, if_neg hname, hrest]

theorem foldl_withoutExamples {r r' : Reading} (h : r.withoutExamples = r'.withoutExamples) (ls : List (List Char)) :
    (ls.foldl step r).withoutExamples = (ls.foldl step r').withoutExamples := by
  induction ls generalizing r r' with
  | nil => exact h
  | cons l ls ih => exact ih (by rw [step_withoutExamples, h, ← step_withoutExamples])

theorem comment_withoutExamples (r : Reading) : r.withoutExamples.comment.withoutExamples = r.comment.withoutExamples := by
  have htag : ∀ t : List Char × List (List Char),
      (if String.ofList (dropExample t).1 = "default" then (⟨String.ofList (dropExample t).1, ""⟩ : Tag)
        else ⟨String.ofList (dropExample t).1, joinLines (dropExample t).2⟩) =
      if String.ofList t.1 = "default" then ⟨String.ofList t.1, ""⟩ else ⟨String.ofList t.1, joinLines t.2⟩ := by
    intro t
    by_cases h : t.1 = "default".toList
    · have hname : String.ofList t.1 = "default" := by rw [h, String.ofList_toList]
      simp only [dropExample, if_pos h, if_pos hname]
    · simp only [dropExample, if_neg h]
  simp only [comment, withoutExamples, Comment.withoutExamples, ← List.map_reverse, List.map_map]
  refine congrArg _ (List.map_congr_left fun t _ => ?_)
  exact htag t

theorem fenceMarker?_of_tagLine? {s : List Char} {tag : List Char × List (List Char)} (h : tagLine? s = some tag) :
    fenceMarker? s = none := by
  unfold tagLine? at h
  split at h
  · simp [fenceMarker?]
  · cases h

theorem tagLine?_of_fenceMarker? {s marker : List Char} (h : fenceMarker? s = some marker) : tagLine? s = none := by
  cases htag : tagLine? s with
  | none => rfl
  | some tag =>
    rw [fenceMarker?_of_tagLine? htag] at h
    cases h

theorem step_fence (r : Reading) (line : List Char) : (r.step line).fence = feedFence r.fence (trim line) := by
  unfold step
  dsimp only
  split
  · next tag htag =>
    split at htag
    · cases htag
    · simp [feedFence, fenceMarker?_of_tagLine? htag]
  · split <;> rfl

theorem foldl_fence (ls : List (List Char)) (r : Reading) :
    (ls.foldl step r).fence = ls.foldl (fun fence l => feedFence fence (trim l)) r.fence := by
  induction ls generalizing r with
  | nil => rfl
  | cons l ls ih => rw [List.foldl_cons, ih, step_fence, List.foldl_cons]

/-- Inside a fence all lines go to the last tag. -/
theorem foldl_inside {r : Reading} {marker : List Char} {name : List Char} {before : List (List Char)}
    {tags : List (List Char × List (List Char))} (hmarker : IsFence marker) (hfence : r.fence = some marker)
    (htags : r.tags = (name, before) :: tags) {ls : List (List Char)} (hls : ∀ l ∈ ls, ¬ marker <+: trim l) :
    ls.foldl step r = { r with tags := (name, ls.reverse ++ before) :: tags } := by
  induction ls generalizing r before with
  | nil => 
    obtain ⟨fence, description, _⟩ := r
    cases htags
    rfl
  | cons l ls ih =>
    have hl : ¬ marker.isPrefixOf (trim l) = true := fun h => hls l List.mem_cons_self (List.isPrefixOf_iff_prefix.mp h)
    have hstep : r.step l = { r with tags := (name, l :: before) :: tags } := by
      obtain ⟨fence, description, _⟩ := r
      cases htags
      cases hfence
      simp only [step, Option.isSome_some, if_true, feedFence_opened hmarker, if_neg hl]
    rw [List.foldl_cons, hstep]
    refine Eq.trans (ih hfence rfl fun x hx => hls x (List.mem_cons_of_mem _ hx)) ?_
    simp

end Reading

/-! ## Comments that differ in an example -/

/-- Lines of a comment, before and after some lines inside a default block are exchanged. -/
inductive Exchanged : List (List Char) → List (List Char) → Prop
  | mk {before blanks body body' after : List (List Char)} {default opening marker : List Char}
      (houtside : fenceAfter before = none) (hdefault : trim default = "@default".toList) (hblanks : ∀ l ∈ blanks, trim l = [])
      (hopening : fenceMarker? (trim opening) = some marker) (hbody : ∀ l ∈ body, ¬ marker <+: trim l)
      (hbody' : ∀ l ∈ body', ¬ marker <+: trim l) :
      Exchanged (before ++ default :: blanks ++ opening :: body ++ after) (before ++ default :: blanks ++ opening :: body' ++ after)

/-- Comments that differ only inside default blocks. -/
def SameButExamples (raw raw' : String) : Prop := Relation.ReflTransGen Exchanged (commentLines raw) (commentLines raw')

namespace Reading

/-- The lines that open a default block leave a fence open and the tag `default` last. -/
theorem foldl_opening {r : Reading} (houtside : r.fence = none) {default opening marker : List Char} {blanks : List (List Char)}
    (hdefault : trim default = "@default".toList) (hblanks : ∀ l ∈ blanks, trim l = [])
    (hopening : fenceMarker? (trim opening) = some marker) :
    ((default :: blanks ++ [opening]).foldl step r) =
      { r with fence := some marker, tags := ("default".toList, opening :: blanks.reverse) :: r.tags } := by
  have hstart : r.step default = { r with tags := ("default".toList, []) :: r.tags } := by
    have htag : tagLine? "@default".toList = some ("default".toList, []) := by decide
    simp only [step, houtside, hdefault, htag, Option.isSome_none, Bool.false_eq_true, if_false]
  have hblank : ∀ (ls before : List (List Char)), (∀ l ∈ ls, trim l = []) →
      ls.foldl step { r with tags := ("default".toList, before) :: r.tags } =
        { r with tags := ("default".toList, ls.reverse ++ before) :: r.tags } := by
    intro ls
    induction ls with
    | nil => exact fun _ _ => rfl
    | cons l ls ih =>
      intro before hls
      have hstep : step { r with tags := ("default".toList, before) :: r.tags } l =
          { r with tags := ("default".toList, l :: before) :: r.tags } := by
        simp only [step, houtside, hls l List.mem_cons_self]
        rfl
      rw [List.foldl_cons, hstep, ih _ fun x hx => hls x (List.mem_cons_of_mem _ hx)]
      simp
  rw [List.cons_append, List.foldl_cons, hstart, List.foldl_append, hblank blanks [] hblanks, List.foldl_cons, List.foldl_nil]
  simp only [step, houtside, tagLine?_of_fenceMarker? hopening, feedFence, hopening, ite_self, List.append_nil]

theorem withoutExamples_of_exchanged {ls ls' : List (List Char)} (h : Exchanged ls ls') :
    (ls.foldl step {}).withoutExamples = (ls'.foldl step {}).withoutExamples := by
  obtain ⟨houtside, hdefault, hblanks, hopening, hbody, hbody'⟩ := h
  next before blanks body body' after default opening marker =>
  have hfence : (before.foldl step {}).fence = none := (foldl_fence before {}).trans houtside
  -- Whatever stands inside the block, the tag has no lines once its example is dropped.
  have hinside : ∀ inner : List (List Char), (∀ l ∈ inner, ¬ marker <+: trim l) →
      ((before ++ default :: blanks ++ opening :: inner).foldl step {}).withoutExamples =
        { before.foldl step {} with
          fence := some marker
          tags := ("default".toList, []) :: (before.foldl step {}).tags.map dropExample } := by
    intro inner hinner
    have hlines : before ++ default :: blanks ++ opening :: inner = before ++ ((default :: blanks ++ [opening]) ++ inner) := by
      simp
    rw [hlines, List.foldl_append, List.foldl_append, foldl_opening hfence hdefault hblanks hopening,
      foldl_inside (fenceMarker?_isFence hopening).1 rfl rfl hinner]
    rfl
  simpa only [List.foldl_append] using foldl_withoutExamples ((hinside body hbody).trans (hinside body' hbody').symm) after

end Reading

/-- Comments that differ only inside default blocks say the same besides their examples. -/
theorem parse_of_sameButExamples {raw raw' : String} (h : SameButExamples raw raw') :
    (parse raw).withoutExamples = (parse raw').withoutExamples := by
  have hread : ((commentLines raw).foldl Reading.step {}).withoutExamples =
      ((commentLines raw').foldl Reading.step {}).withoutExamples := by
    unfold SameButExamples at h
    generalize commentLines raw' = ls' at h ⊢
    induction h with
    | refl => rfl
    | tail _ hlast ih => exact ih.trans (Reading.withoutExamples_of_exchanged hlast)
  rw [parse, parse, ← Reading.comment_withoutExamples, hread, Reading.comment_withoutExamples]

end PatternCatalog.Doc
