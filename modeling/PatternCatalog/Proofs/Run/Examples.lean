/-
  PatternCatalog.Proofs.Run.Examples — an example reaches the content of its slot and nothing else.

  Two documentations of a library may differ in the examples of slots only
  (`Setting.SameButExamples`). The runs from there on that are completed under them fail alike,
  or give the same analysis but for default content (`complete_documented`).

  But a run need not be completed. The tags of an example are asked for their patterns one after
  another, as long as they have some (`Scope.AsksFor`). A component that is not registered is
  built for that alone, and the walks that this takes may go on at any depth: the example asks
  in vain (`Registry.TurnsOut`, `Run.AsksInVain`). So the two runs have the same outcome exactly
  when the registration ends and neither documentation has an example that asks in vain
  (`same_outcome_iff`). The example of one slot can take down the whole run
  (`an_example_stops_the_run`).
-/

import PatternCatalog.Proofs.Documented.Patterns
import PatternCatalog.Proofs.Identity.Fixpoint
import PatternCatalog.Proofs.Property.Classification

namespace PatternCatalog

/-! ## The tags of an example -/

namespace Markup

mutual

/-- The tags of a node, its own first. -/
def Node.tags : Node → List (List String)
  | ⟨tag, _, children⟩ => tag :: Node.tagsOf children

def Node.tagsOf : List Node → List (List String)
  | [] => []
  | n :: ns => n.tags ++ Node.tagsOf ns

end

end Markup

/-- Tags ask for the pattern of a declaration when one of them names it and all before it have patterns. -/
def Scope.AsksFor (s : Scope) (pattern? : DeclarationKey → Option PatternIdentity) (tags : List (List String))
    (key : DeclarationKey) : Prop :=
  ∃ before tag after, tags = before ++ tag :: after ∧ s.tag? tag = some key ∧ ∀ t ∈ before, ((s.tag? t).bind pattern?).isSome

namespace ContentSetting

variable (c : ContentSetting) (ends : DeclarationKey → Bool)

/-- Whether all tags have patterns; none when that does not turn out for one of them. -/
def scan? : List (List String) → Option Bool
  | [] => some true
  | tag :: tags =>
    match c.scope.tag? tag with
    | none => some false
    | some key => if !ends key then none else if (c.pattern? key).isNone then some false else scan? tags

theorem scan?_append (ts us : List (List String)) :
    c.scan? ends (ts ++ us) = (c.scan? ends ts).bind fun b => if b then c.scan? ends us else some false := by
  induction ts with
  | nil => rfl
  | cons t ts ih =>
    rw [List.cons_append, scan?, scan?]
    split
    · rfl
    · split
      · rfl
      · split
        · rfl
        · exact ih

mutual

/-- An element is gone through as its tags are. -/
theorem shows?_eq : (n : Markup.Node) → c.shows? ends n = c.scan? ends n.tags
  | ⟨tag, attributes, children⟩ => by
    have hchildren := allShow?_eq children
    cases htag : c.scope.tag? tag with
    | none => simp only [shows?, Markup.Node.tags, scan?, htag]
    | some key => simp only [shows?, Markup.Node.tags, scan?, htag, hchildren]

theorem allShow?_eq : (ns : List Markup.Node) → c.allShow? ends ns = c.scan? ends (Markup.Node.tagsOf ns)
  | [] => rfl
  | n :: ns => by
    rw [allShow?, Markup.Node.tagsOf, scan?_append, shows?_eq n, allShow?_eq ns]
    rfl

end

/-- It does not turn out exactly when the tags ask for a pattern that does not turn out. -/
theorem scan?_eq_none_iff (tags : List (List String)) :
    c.scan? ends tags = none ↔ ∃ key, c.scope.AsksFor c.pattern? tags key ∧ ends key = false := by
  induction tags with
  | nil =>
    constructor
    · exact fun h => nomatch h
    · rintro ⟨_, ⟨before, tag, after, htags, -⟩, -⟩
      cases List.append_eq_nil_iff.mp htags.symm |>.2
  | cons tag tags ih =>
    -- a tag asks first, or the others ask after it has a pattern
    have hcons : (∃ key, c.scope.AsksFor c.pattern? (tag :: tags) key ∧ ends key = false) ↔
        (∃ key, c.scope.tag? tag = some key ∧ ends key = false) ∨
          ((c.scope.tag? tag).bind c.pattern?).isSome ∧ ∃ key, c.scope.AsksFor c.pattern? tags key ∧ ends key = false := by
      constructor
      · rintro ⟨key, ⟨_ | ⟨first, before⟩, t, after, htags, htag, hbefore⟩, hends⟩
        · obtain ⟨rfl, rfl⟩ := List.cons.inj htags
          exact .inl ⟨key, htag, hends⟩
        · obtain ⟨rfl, rfl⟩ := List.cons.inj htags
          exact .inr ⟨hbefore _ List.mem_cons_self, key,
            ⟨before, t, after, rfl, htag, fun u hu => hbefore u (List.mem_cons_of_mem _ hu)⟩, hends⟩
      · rintro (⟨key, htag, hends⟩ | ⟨hfirst, key, ⟨before, t, after, rfl, htag, hbefore⟩, hends⟩)
        · exact ⟨key, ⟨[], tag, tags, rfl, htag, fun _ h => nomatch h⟩, hends⟩
        · exact ⟨key, ⟨tag :: before, t, after, rfl, htag, List.forall_mem_cons.mpr ⟨hfirst, hbefore⟩⟩, hends⟩
    rw [hcons, ← ih, scan?]
    cases c.scope.tag? tag with
    | none => simp
    | some key =>
      cases hends : ends key with
      | false => simp [hends]
      | true => cases hpattern : c.pattern? key <;> simp [hends, hpattern]

end ContentSetting

/-! ## Runs that do not end -/

/-- The example of a slot asks for the pattern of a declaration. -/
def SlotSource.AsksFor (source : SlotSource) (l : Library) (pattern? : DeclarationKey → Option PatternIdentity)
    (maxDepth : Nat) (key : DeclarationKey) : Prop :=
  ∃ block m, source.doc >>= Doc.defaultBlock? = some block ∧ Markup.parse block maxDepth = .ok m ∧
    Scope.AsksFor ⟨l, source.file, m.imports⟩ pattern? m.root.tags key

theorem Slot.contentEnds_eq_false_iff (digest : Digest) (l : Library) (pattern? : DeclarationKey → Option PatternIdentity)
    (ends : DeclarationKey → Bool) (libraryId : String) (maxDepth : Nat) (source : SlotSource) :
    contentEnds digest l pattern? ends libraryId maxDepth source = false ↔
      ∃ key, source.AsksFor l pattern? maxDepth key ∧ ends key = false := by
  unfold contentEnds SlotSource.AsksFor
  cases source.doc >>= Doc.defaultBlock? with
  | none => simp
  | some block =>
    cases hparse : Markup.parse block maxDepth with
    | error e => simp [hparse, Except.toOption]
    | ok m =>
      have hscan := ContentSetting.scan?_eq_none_iff ⟨digest, ⟨l, source.file, m.imports⟩, pattern?, libraryId⟩ ends m.root.tags
      rw [← ContentSetting.shows?_eq] at hscan
      simpa [hparse, Except.toOption] using hscan

namespace Registry

/-- A registration that ends gives the registry. -/
theorem foldlM_eq_foldl {α : Type} {step? : Registry → α → Option Registry} {step : Registry → α → Registry}
    (hstep : ∀ rs a rs', step? rs a = some rs' → rs' = step rs a) (as : List α) (rs rs' : Registry)
    (h : as.foldlM step? rs = some rs') : rs' = as.foldl step rs := by
  induction as generalizing rs with
  | nil => exact (Option.some.inj h).symm
  | cons a as ih =>
    rw [List.foldlM_cons] at h
    obtain ⟨next, hnext, h⟩ := Option.bind_eq_some_iff.mp h
    rw [List.foldl_cons, ← hstep rs a next hnext]
    exact ih next h

theorem ofSetting?_eq {s : Setting} {rs : Registry} (h : ofSetting? s = some rs) : rs = ofSetting s := by
  refine foldlM_eq_foldl (fun rs file rs' hfile => ?_) _ [] rs h
  unfold addFile? at hfile
  split at hfile
  · refine foldlM_eq_foldl (fun rs c rs' hadd => ?_) _ rs rs' hfile
    unfold add? at hadd
    split at hadd
    · exact (Option.some.inj hadd).symm
    · cases hadd
  · cases hfile

/-- It turns out which pattern a declaration has: it is registered, or the walks end that tell
whether it is a component and of which kinds its properties are, at whatever depth. -/
def TurnsOut (s : Setting) (rs : Registry) (key : DeclarationKey) : Prop :=
  (rs.identity? key).isSome ∨
    (∀ kind, s.library.kind? key = some kind → ∀ p ∈ Component.results s.library s.options key.file kind,
      ∃ depth, (Component.returnsElement? s.library s.options depth none p).isSome) ∧
    ∀ c, Component.ofDeclaration? s.library s.options (s.library.exportName key) key = some c → c.ignored = false →
      ∀ m ∈ s.members c, s.isProperty m = true →
        ∃ depth, (PropertyKind.ofMemberWithin? s.library s.ids (s.mintedId c m) m (Doc.parse? m.member.doc) depth).isSome

theorem buildEnds_iff (s : Setting) (c : Component) : s.buildEnds (fun _ => none) c = true ↔
    ∀ m ∈ s.members c, s.isProperty m = true →
      ∃ depth, (PropertyKind.ofMemberWithin? s.library s.ids (s.mintedId c m) m (Doc.parse? m.member.doc) depth).isSome := by
  rw [Setting.buildEnds, List.all_eq_true]
  refine forall₂_congr fun m _ => ?_
  rw [Setting.partEnds_eq, ← PropertyKind.ofMember?_isSome_iff, Setting.isProperty]
  cases Setting.isIgnored m <;> cases s.slotQuantity? m <;> simp [Setting.mintedId, Setting.patternId, Setting.componentContextId]

theorem patternEnds_iff (s : Setting) (rs : Registry) (key : DeclarationKey) :
    patternEnds s rs key = true ↔ TurnsOut s rs key := by
  rw [patternEnds, TurnsOut, Bool.or_eq_true, Bool.and_eq_true, Component.isDecided_iff, Option.all_eq_true]
  refine or_congr_right (and_congr_right fun _ => forall₂_congr fun c _ => ?_)
  rw [Bool.or_eq_true, buildEnds_iff]
  cases c.ignored <;> simp

end Registry

namespace Run

variable (r : Run) (root : Path) (package : Json)

/-- Some example of a slot asks for a pattern that never turns out. -/
def AsksInVain (s : Setting) : Prop :=
  ∃ e ∈ Registry.ofSetting s, ∃ source ∈ e.build.slotSources, ∃ key,
    source.AsksFor s.library (Registry.pattern? s (Registry.ofSetting s)) r.options.maxDefaultDepth key ∧
      ¬ Registry.TurnsOut s (Registry.ofSetting s) key

theorem ends_iff (libraryId : String) (s : Setting) :
    r.ends libraryId s = true ↔ (Registry.ofSetting? s).isSome ∧ ¬ r.AsksInVain s := by
  unfold ends
  cases hrs : Registry.ofSetting? s with
  | none => simp
  | some rs =>
    obtain rfl := Registry.ofSetting?_eq hrs
    have hexamples : (Registry.ofSetting s).all (fun e => e.build.slotSources.all (Slot.contentEnds r.digest s.library
        (Registry.pattern? s (Registry.ofSetting s)) (Registry.patternEnds s (Registry.ofSetting s)) libraryId
        r.options.maxDefaultDepth)) = false ↔ r.AsksInVain s := by
      simp only [List.all_eq_false, Bool.not_eq_true, Slot.contentEnds_eq_false_iff, AsksInVain, ← Registry.patternEnds_iff]
    rw [Option.any_some, ← hexamples, Bool.not_eq_false]
    simp

/-! ## Two documentations -/

variable {s : Setting} {g g' : Documentation}

/-- What is registered without its content depends on no source. -/
theorem complete_withoutContent (s : Setting) :
    (r.complete root package s).map Analysis.withoutContent =
      let libraryId := r.libraryId (packageTitle root package)
      let entries := ((Registry.ofSetting s).map Registration.unread).map fun e => e.entry.withoutContent
      if entries.isEmpty then .error (.noComponents root)
      else ((r.bundler r.fs (entries.map bundleEntry)).mapError Failure.ofBundler).map
        fun bundle => ⟨libraryId, root, package, entries, bundle⟩ := by
  have hentries (libraryId : String) : ((Registry.ofSetting s).map (r.entryWithContent s (Registry.ofSetting s) libraryId)).map
        PatternEntry.withoutContent =
      ((Registry.ofSetting s).map Registration.unread).map fun e => e.entry.withoutContent := by
    rw [entries_withoutContent, List.map_map]
    rfl
  have hbundled (libraryId : String) : (((Registry.ofSetting s).map (r.entryWithContent s (Registry.ofSetting s) libraryId)).map
      fun e => (⟨e.pattern.id, e.path⟩ : BundleEntry)) =
      (((Registry.ofSetting s).map Registration.unread).map fun e => e.entry.withoutContent).map bundleEntry := by
    rw [← hentries libraryId, ← map_bundleEntry]
    rfl
  unfold complete
  dsimp only
  rw [hbundled, ← hentries (r.libraryId (packageTitle root package)), List.isEmpty_map, List.isEmpty_map]
  cases (Registry.ofSetting s).isEmpty with
  | true => rfl
  | false =>
    generalize r.bundler r.fs _ = bundled
    cases bundled <;> rfl

/-- Runs that are completed with other examples fail alike, or give the same analysis but for default content. -/
theorem complete_documented (h : s.SameButExamples g g') :
    (r.complete root package (s.documented g)).map Analysis.withoutContent =
      (r.complete root package (s.documented g')).map Analysis.withoutContent := by
  rw [complete_withoutContent, complete_withoutContent, Registry.ofSetting_documented h]

/-- The runs under two documentations that differ in examples only have the same outcome, and the
same analysis but for default content, exactly when the registration ends and no example of
either asks for a pattern that never turns out. -/
theorem same_outcome_iff (h : s.SameButExamples g g') :
    (r.complete root package (s.documented g)).map Analysis.withoutContent =
        (r.complete root package (s.documented g')).map Analysis.withoutContent ∧
      ((∃ o o', r.outcome? root package (s.documented g) = some o ∧ r.outcome? root package (s.documented g') = some o' ∧
          o.map Analysis.withoutContent = o'.map Analysis.withoutContent) ↔
        (Registry.ofSetting? (s.documented g)).isSome ∧
          ¬ r.AsksInVain (s.documented g) ∧ ¬ r.AsksInVain (s.documented g')) := by
  have hcomplete := complete_documented r root package h
  have hregistration : (Registry.ofSetting? (s.documented g)).isSome = (Registry.ofSetting? (s.documented g')).isSome := by
    rw [← Option.isSome_map, Registry.ofSetting?_documented h, Option.isSome_map]
  have houtcome (s : Setting) (o : Except Failure Analysis) : r.outcome? root package s = some o ↔
      ((Registry.ofSetting? s).isSome ∧ ¬ r.AsksInVain s) ∧ r.complete root package s = o := by
    rw [← ends_iff r (r.libraryId (packageTitle root package)), outcome?]
    split <;> simp_all
  refine ⟨hcomplete, ?_⟩
  simp only [houtcome]
  constructor
  · rintro ⟨o, o', ⟨⟨hends, hasks⟩, -⟩, ⟨⟨-, hasks'⟩, -⟩, -⟩
    exact ⟨hends, hasks, hasks'⟩
  · rintro ⟨hends, hasks, hasks'⟩
    exact ⟨_, _, ⟨⟨hends, hasks⟩, rfl⟩, ⟨⟨hregistration ▸ hends, hasks'⟩, rfl⟩, hcomplete⟩

/-! ## An example that shows a component of its own file -/

/-- The comment of a slot with a one-line example. -/
def slotComment (example_ : String) : String :=
  "*\n   * @default\n   * ```tsx\n   * " ++ example_ ++ "\n   * ```\n   * @slot\n   "

/-- A text that makes one line of the block. -/
structure FitsBlock (example_ : String) : Prop where
  lines : Doc.commentLines (slotComment example_) =
    ["".toList] ++ "@default".toList :: [] ++ "```tsx".toList :: [example_.toList] ++ ["```".toList, "@slot".toList, "".toList]
  inside : ¬ "```".toList <+: Text.trim example_.toList
  slot : (Doc.parse (slotComment example_)).hasTag "slot" = true

/-- The documentation of the member at an offset, with an example. -/
def showing (example_ : String) : Documentation := fun _ m => if m.start = 259 then some (slotComment example_) else m.doc

theorem sameButExamples_showing (s : Setting) {example_ example' : String} (h : FitsBlock example_) (h' : FitsBlock example') :
    s.SameButExamples (showing example_) (showing example') := by
  intro m
  by_cases hm : m.member.start = 259
  · have hdoc (e : String) : showing e m.file m.member = some (slotComment e) := if_pos hm
    refine .inr ⟨?_, _, _, hdoc example_, hdoc example', .single ?_⟩
    · rw [Setting.slotQuantity?_documented, hdoc]
      simp [Slot.detect?, Doc.parse?, h.slot]
    · have hmarker : Doc.fenceMarker? (Text.trim "```tsx".toList) = some "```".toList := by decide +kernel
      rw [h.lines, h'.lines]
      exact .mk (by decide +kernel) (by decide +kernel) (by decide +kernel) hmarker
        (List.forall_mem_singleton.mpr h.inside) (List.forall_mem_singleton.mpr h'.inside)
  · exact .inl ((if_neg hm).trans (if_neg hm).symm)

/-- `type A = A | string`, a component `Hidden` with a property of that type that is not
exported, and a component `Button` with one slot that is. -/
def hiddenFile : SourceFile :=
  let component (props : String) : DeclarationKind :=
    .variable (some (.reference none ["React", "FC"] [.reference none [props] []]))
  let member : Member := ⟨"a", false, some (.reference none ["A"] []), "A", none, 77⟩
  let slot : Member := ⟨"icon", false, some (.reference none ["React", "ReactNode"] []), "React.ReactNode", none, 259⟩
  ⟨⟨"/lib/index.d.ts"⟩,
    { imports := [⟨"React", "react", .namespace_⟩]
      exports := [⟨"ButtonProps", .here "ButtonProps"⟩, ⟨"Button", .here "Button"⟩]
      declarations := [⟨"A", 32, none, .alias (.union [.reference none ["A"] [], .keyword .string])⟩,
        ⟨"HiddenProps", 53, none, .interface [] [member]⟩, ⟨"Hidden", 99, none, component "HiddenProps"⟩,
        ⟨"ButtonProps", 137, none, .interface [] [slot]⟩, ⟨"Button", 305, none, component "ButtonProps"⟩]
      dependencies := ["react"] }⟩

def hiddenRun : Run where
  digest := .sha256
  fs := .memory [(⟨"/lib/index.js"⟩, "")]

def acmePackage : Json := .object [("name", .string "acme")]

/-- The library with an example for the slot of `Button`. -/
def hiddenSetting (example_ : String) : Setting :=
  (hiddenRun.setting ⟨"/lib"⟩ acmePackage [hiddenFile]).documented (showing example_)

def hiddenExample : String := "export default () => <Hidden />;"

def buttonExample : String := "export default () => <Button />;"

def unclosedExample : String := "export default () => <Button  >;"

theorem buttonExample_fits : FitsBlock buttonExample where
  lines := by decide +kernel
  inside := by decide +kernel
  slot := by decide +kernel

theorem button_outcome : hiddenRun.ends "" (hiddenSetting buttonExample) = true ∧
    ∃ a, hiddenRun.outcome? ⟨"/lib"⟩ acmePackage (hiddenSetting buttonExample) = some (.ok a) := by
  have hends (libraryId : String) : hiddenRun.ends libraryId (hiddenSetting buttonExample) = true := by
    rw [ends_iff, ← ends_iff _ ""]
    decide +kernel
  refine ⟨hends "", ?_⟩
  rw [outcome?, if_pos (hends _)]
  obtain ⟨a, ha, -⟩ : ∃ a, hiddenRun.complete ⟨"/lib"⟩ acmePackage (hiddenSetting buttonExample) = .ok a ∧ True :=
    Except.exists_ok (by decide +kernel)
  exact ⟨a, congrArg some ha⟩

/-- An example that is no markup, in the place of one that shows a component. -/
theorem an_unclosed_example_is_harmless :
    ∃ o o', hiddenRun.outcome? ⟨"/lib"⟩ acmePackage (hiddenSetting buttonExample) = some o ∧
      hiddenRun.outcome? ⟨"/lib"⟩ acmePackage (hiddenSetting unclosedExample) = some o' ∧
      o.map Analysis.withoutContent = o'.map Analysis.withoutContent := by
  have hunclosed : FitsBlock unclosedExample := ⟨by decide +kernel, by decide +kernel, by decide +kernel⟩
  have hends : hiddenRun.ends "" (hiddenSetting unclosedExample) = true := by decide +kernel
  have hboth := same_outcome_iff hiddenRun ⟨"/lib"⟩ acmePackage (sameButExamples_showing (hiddenRun.setting ⟨"/lib"⟩ acmePackage
    [hiddenFile]) buttonExample_fits hunclosed)
  have hbutton := (ends_iff _ _ _).mp button_outcome.1
  exact hboth.2.mpr ⟨hbutton.1, hbutton.2, ((ends_iff _ _ _).mp hends).2⟩

/-- An example that shows `Hidden` has it built, which asks again and again whether `A` is boolean. -/
theorem an_example_stops_the_run :
    (hiddenRun.setting ⟨"/lib"⟩ acmePackage [hiddenFile]).SameButExamples (showing hiddenExample) (showing buttonExample) ∧
      hiddenRun.outcome? ⟨"/lib"⟩ acmePackage (hiddenSetting hiddenExample) = none ∧
      ∃ a, hiddenRun.outcome? ⟨"/lib"⟩ acmePackage (hiddenSetting buttonExample) = some (.ok a) := by
  have hhidden : FitsBlock hiddenExample := ⟨by decide +kernel, by decide +kernel, by decide +kernel⟩
  have hends : hiddenRun.ends (hiddenRun.libraryId (packageTitle ⟨"/lib"⟩ acmePackage)) (hiddenSetting hiddenExample) = false := by
    decide +kernel
  refine ⟨sameButExamples_showing _ hhidden buttonExample_fits, ?_, button_outcome.2⟩
  rw [outcome?, hends]
  rfl

end Run

end PatternCatalog
