/-
  PatternCatalog.Proofs.Identity.Fixpoint — analyzing a library again with the ids of its analysis.

  A run asks its strategy about each pattern, about the slots of each pattern, and about a
  property and its options for the pattern that lists the property as new. A strategy that
  answers these questions as another one does (`AnswersAlike`) gives the same registry
  (`ofSetting_withIds`). The tables of an analysis answer them all, when no two patterns and no
  two properties have one id (`Analyzed.answersAlike`), so with them the same is registered
  (`Analyzed.ofSetting_tables`), and a run that is given another strategy with the same registry
  gives the analysis again (`analyze_withIds`).

  Default content is left out of this: it may show a component that has no pattern, and no table
  has an entry for that.
-/

import PatternCatalog.Proofs.Identity.Shared

namespace PatternCatalog

open Identity (Previous Strategy Table)
open Library (MemberRef)

/-! ## Analyses up to default content -/

def Slot.withoutContent (t : Slot) : Slot := { t with defaultValue := none }

def Pattern.withoutContent (p : Pattern) : Pattern := { p with slots := p.slots.map Slot.withoutContent }

def PatternEntry.withoutContent (e : PatternEntry) : PatternEntry := { e with pattern := e.pattern.withoutContent }

def Analysis.withoutContent (a : Analysis) : Analysis := { a with patterns := a.patterns.map PatternEntry.withoutContent }

namespace Setting

def withIds (s : Setting) (ids : Strategy) : Setting := { s with ids }

@[simp] theorem withIds_library (s : Setting) (ids : Strategy) : (s.withIds ids).library = s.library := rfl

@[simp] theorem withIds_options (s : Setting) (ids : Strategy) : (s.withIds ids).options = s.options := rfl

@[simp] theorem withIds_members (s : Setting) (ids : Strategy) : (s.withIds ids).members = s.members := rfl

@[simp] theorem withIds_slotQuantity? (s : Setting) (ids : Strategy) : (s.withIds ids).slotQuantity? = s.slotQuantity? := rfl

variable {s : Setting} {ids : Strategy} {before : List Listing} {x : Listing}

/-- Another strategy answers what a component asks the strategy of a setting. -/
structure AnswersAlike (s : Setting) (ids : Strategy) (before : List Listing) (x : Listing) : Prop where
  pattern : ids.pattern (s.componentContextId x.2) = s.patternId x.2
  slot : ∀ name ∈ s.slotNames x.2, ids.slot (s.patternId x.2) name = s.ids.slot (s.patternId x.2) name
  property : ∀ m ∈ s.propertyMembers x.2, s.ownerId? before m.key = none →
    Property.ofMember s.library ids (s.patternId x.2) m = Property.ofMember s.library s.ids (s.patternId x.2) m

namespace AnswersAlike

theorem addMember (h : AnswersAlike s ids before x) (b : PatternBuild) {m : MemberRef} (hm : m ∈ s.members x.2) :
    (s.withIds ids).addMember (s.patternId x.2) (s.ownerId? before) b m =
      s.addMember (s.patternId x.2) (s.ownerId? before) b m := by
  rw [addMember_eq, addMember_eq, withIds_slotQuantity?]
  cases hignored : isIgnored m with
  | true => rfl
  | false =>
    cases hslot : s.slotQuantity? m with
    | some q =>
      have hname : m.name ∈ s.slotNames x.2 := by
        refine List.mem_append_left _ (List.mem_map_of_mem (List.mem_filter.mpr ⟨hm, ?_⟩))
        rw [isSlot, hignored, hslot]
        rfl
      have hid := h.slot m.name hname
      simp only [Slot.ofMember, withIds, hid]
    | none =>
      cases howner : s.ownerId? before m.key with
      | some id => rfl
      | none =>
        have hmember : m ∈ s.propertyMembers x.2 := by
          refine List.mem_filter.mpr ⟨hm, ?_⟩
          rw [isProperty, hignored, hslot]
          rfl
        have hproperty := h.property m hmember howner
        have hid : ids.property (s.patternId x.2) m.name = s.ids.property (s.patternId x.2) m.name :=
          congrArg Property.id hproperty
        simp only [withIds, hproperty, hid]

theorem addImplied (h : AnswersAlike s ids before x) {b : PatternBuild}
    (hkinds : b.pattern.slots.map (·.kind) = ((s.slotMembers x.2).map (·.name)).map SlotKind.ofName) :
    (s.withIds ids).addImplied (s.patternId x.2) x.2 b = s.addImplied (s.patternId x.2) x.2 b := by
  have hsame : (s.withIds ids).impliesChildren x.2 = s.impliesChildren x.2 := rfl
  rw [s.addImplied_eq x.2 hkinds, (s.withIds ids).addImplied_eq x.2 hkinds, hsame]
  by_cases himplies : s.impliesChildren x.2 ((s.slotMembers x.2).map (·.name)) = true
  · have hid := h.slot _ (s.children_mem_slotNames himplies)
    rw [if_pos himplies, if_pos himplies, Slot.implied, Slot.implied, show (s.withIds ids).ids = ids from rfl, hid]
  · rw [if_neg himplies, if_neg himplies]

theorem build (h : AnswersAlike s ids before x) :
    (s.withIds ids).build (s.ownerId? before) x.2 = s.build (s.ownerId? before) x.2 := by
  have hpattern : (s.withIds ids).patternId x.2 = s.patternId x.2 := h.pattern
  have hblank : (s.withIds ids).blank x.2 = s.blank x.2 := by
    have hid : (s.withIds ids).ids.pattern ((s.withIds ids).contextId x.2.shape.key.file x.2.exportName) =
        s.ids.pattern (s.contextId x.2.shape.key.file x.2.exportName) := h.pattern
    rw [blank, hid]
    rfl
  have hloop : (s.members x.2).foldl ((s.withIds ids).addMember (s.patternId x.2) (s.ownerId? before)) (s.blank x.2) =
      s.gathered (s.ownerId? before) x.2 (s.members x.2) :=
    (List.foldl_ext _ _ _ fun b m hm => h.addMember b hm).trans (s.foldl_addMember _ x.2 (s.members_nodup x.2))
  calc (s.withIds ids).build (s.ownerId? before) x.2
      = (s.withIds ids).addImplied (s.patternId x.2) x.2
          ((s.members x.2).foldl ((s.withIds ids).addMember (s.patternId x.2) (s.ownerId? before)) (s.blank x.2)) := by
        rw [← hpattern, ← hblank]
        rfl
    _ = s.addImplied (s.patternId x.2) x.2 (s.gathered (s.ownerId? before) x.2 (s.members x.2)) := by
        rw [hloop, h.addImplied (s.gathered_kinds _ x.2)]
    _ = s.build (s.ownerId? before) x.2 := by
        rw [← s.foldl_addMember _ x.2 (s.members_nodup x.2)]
        rfl

theorem mintedId (h : AnswersAlike s ids before x) {m : MemberRef} (hm : m ∈ s.propertyMembers x.2)
    (hnew : s.ownerId? before m.key = none) : (s.withIds ids).mintedId x.2 m = s.mintedId x.2 m := by
  have hpattern : (s.withIds ids).patternId x.2 = s.patternId x.2 := h.pattern
  rw [Setting.mintedId, hpattern]
  exact congrArg Property.id (h.property m hm hnew)

/-- Members have the same owners with one more component. -/
theorem ownerId? (h : AnswersAlike s ids before x) (hbefore : (s.withIds ids).ownerId? before = s.ownerId? before) :
    (s.withIds ids).ownerId? (before ++ [x]) = s.ownerId? (before ++ [x]) := by
  funext key
  rw [ownerId?_append, ownerId?_append, hbefore]
  cases howner : s.ownerId? before key with
  | some id => rfl
  | none =>
    have hfound : (s.withIds ids).memberAt? x.2 key = s.memberAt? x.2 key := rfl
    rw [Setting.ownerId?, Setting.ownerId?, List.findSome?_singleton, List.findSome?_singleton, hfound]
    cases hm : s.memberAt? x.2 key with
    | none => rfl
    | some m =>
      obtain ⟨hmember, rfl⟩ := s.memberAt?_some hm
      rw [Option.map_some, Option.map_some, h.mintedId hmember howner]

end AnswersAlike

/-- Components are registered as they were by a strategy that answers what each of them asks. -/
theorem registrations_withIds {xs : List Listing} (hbefore : (s.withIds ids).ownerId? before = s.ownerId? before)
    (h : ∀ earlier x later, xs = earlier ++ x :: later → AnswersAlike s ids (before ++ earlier) x) :
    (s.withIds ids).registrations before xs = s.registrations before xs := by
  induction xs generalizing before with
  | nil => rfl
  | cons x xs ih =>
    have hx := h [] x xs rfl
    rw [List.append_nil] at hx
    have hlater := ih (hx.ownerId? hbefore) fun earlier y later hxs => by
      have hy := h (x :: earlier) y later (by rw [hxs]; rfl)
      rwa [List.append_cons] at hy
    rw [registrations, registrations, hlater, registration, registration, hbefore, hx.build]

theorem ofSetting_withIds (h : ∀ before x after, s.registered = before ++ x :: after → AnswersAlike s ids before x) :
    Registry.ofSetting (s.withIds ids) = Registry.ofSetting s := by
  have hregistered : (s.withIds ids).registered = s.registered := rfl
  rw [Registry.ofSetting_eq, Registry.ofSetting_eq, hregistered]
  exact registrations_withIds rfl fun earlier x later hxs => h earlier x later hxs

end Setting

/-! ## The tables of an analysis -/

namespace Run

variable {r : Run} {root : Path} {s : Setting} {a : Analysis} {d : Digest}

namespace Analyzed

variable (h : r.Analyzed root s a)

include h

theorem tables_pattern {e : PatternEntry} (he : e ∈ a.patterns) :
    ((Previous.ofAnalysis a).strategy d).pattern e.pattern.contextId = e.pattern.id := by
  have hrow : (Previous.ofAnalysis a).patterns.last? e.pattern.contextId = some e.pattern.id := by
    refine Table.last?_of_mem (List.mem_map.mpr ⟨e, he, rfl⟩) fun id' hid' => ?_
    rw [h.assigned.pattern e he]
    exact patterns_row h.assigned _ hid'
  exact congrArg (Option.getD · _) hrow

theorem tables_slot {e : PatternEntry} (he : e ∈ a.patterns) {t : Slot} (ht : t ∈ e.pattern.slots) :
    ((Previous.ofAnalysis a).strategy d).slot e.pattern.id t.contextId = t.id := by
  have hrow : (Previous.ofAnalysis a).slots.last? (e.pattern.id, t.contextId) = some t.id := by
    refine Table.last?_of_mem (List.mem_flatMap.mpr ⟨e, he, List.mem_map.mpr ⟨t, ht, rfl⟩⟩) fun id' hid' => ?_
    rw [h.assigned.slot e he t ht]
    exact slots_row h.assigned _ hid'
  exact congrArg (Option.getD · _) hrow

theorem tables_enumOption {e : PatternEntry} (he : e ∈ a.patterns) {p : Property} (hp : p ∈ a.propertiesOf e.pattern)
    {o : EnumOption} (ho : o ∈ p.kind.options) :
    ((Previous.ofAnalysis a).strategy d).enumOption p.id o.contextId = o.id := by
  obtain ⟨f, hf, hpf⟩ := Analysis.exists_entry_of_mem hp
  have hrow : (Previous.ofAnalysis a).enumOptions.last? (p.id, o.contextId) = some o.id := by
    refine Table.last?_of_mem (List.mem_flatMap.mpr ⟨e, he, List.mem_flatMap.mpr ⟨p, hp, ?_⟩⟩) fun id' hid' => ?_
    · rw [optionRows_eq]
      exact List.mem_map_of_mem ho
    · rw [h.assigned.option f hf p hpf o ho]
      exact enumOptions_row h.assigned _ hid'
  exact congrArg (Option.getD · _) hrow

/-- A pattern refers to properties of different names. -/
theorem names_nodup (hproperties : (a.properties.map (·.id)).Nodup) {e : PatternEntry} (he : e ∈ a.patterns) :
    ((a.propertiesOf e.pattern).map (·.contextId)).Nodup := by
  obtain ⟨x, hlists⟩ := h.exists_lists h.membersApart he
  have hnames : ∀ p ∈ a.properties, ∀ q ∈ a.properties, p.id = q.id → p.contextId = q.contextId := by
    intro p hp q hq hid
    rw [List.inj_on_of_nodup_map hproperties hp hq hid]
  have hpairs := congrArg (List.map (·.1)) (h.propertiesOf_pairs h.membersApart hnames hlists)
  rw [List.map_map, List.map_map] at hpairs
  exact (congrArg List.Nodup hpairs).mpr (s.propertyMembers_nodup x.2)

/-- A row for a property is under the id of its pattern, and no other pattern has that id. -/
theorem tables_property (hpatterns : (a.patterns.map (·.pattern.id)).Nodup) (hproperties : (a.properties.map (·.id)).Nodup)
    {e : PatternEntry} (he : e ∈ a.patterns) {p : Property} (hp : p ∈ a.propertiesOf e.pattern) :
    ((Previous.ofAnalysis a).strategy d).property e.pattern.id p.contextId = p.id := by
  have hrow : (Previous.ofAnalysis a).properties.last? (e.pattern.id, p.contextId) = some p.id := by
    refine Table.last?_of_mem (List.mem_flatMap.mpr ⟨e, he, List.mem_map.mpr ⟨p, hp, rfl⟩⟩) fun id' hid' => ?_
    obtain ⟨f, hf, hrow⟩ := List.mem_flatMap.mp hid'
    obtain ⟨q, hq, hrow⟩ := List.mem_map.mp hrow
    obtain ⟨hkey, rfl⟩ := Prod.mk.inj hrow
    obtain ⟨hid, hname⟩ := Prod.mk.inj hkey
    obtain rfl := List.inj_on_of_nodup_map hpatterns hf he hid
    rw [List.inj_on_of_nodup_map (h.names_nodup hproperties he) hq hp hname]
  exact congrArg (Option.getD · _) hrow

/-- The tables answer what the components of the run ask. -/
theorem answersAlike (hpatterns : (a.patterns.map (·.pattern.id)).Nodup) (hproperties : (a.properties.map (·.id)).Nodup)
    {before after : List Listing} {x : Listing} (hxs : s.registered = before ++ x :: after) :
    s.AnswersAlike ((Previous.ofAnalysis a).strategy d) before x := by
  obtain ⟨e, he, hdesc⟩ := h.exists_entry hxs
  constructor
  case pattern =>
    rw [← hdesc.contextId, h.tables_pattern he, hdesc.id]
  case slot =>
    intro name hname
    have hpair := List.mem_map_of_mem (f := fun name => (name, s.ids.slot (s.patternId x.2) name)) hname
    rw [← hdesc.slots] at hpair
    obtain ⟨t, ht, hpair⟩ := List.mem_map.mp hpair
    obtain ⟨rfl, hid⟩ := Prod.mk.inj hpair
    rw [← hid, ← hdesc.id, h.tables_slot he ht]
  case property =>
    intro m hm hnew
    have hp : Property.ofMember s.library s.ids (s.patternId x.2) m ∈ e.properties := by
      rw [hdesc.properties]
      exact List.mem_map_of_mem (List.mem_filter.mpr ⟨hm, by rw [hnew]; rfl⟩)
    have hof : Property.ofMember s.library s.ids (s.patternId x.2) m ∈ a.propertiesOf e.pattern :=
      Analysis.mem_propertiesOf.mpr ⟨_, h.assigned.own e he _ hp,
        Analysis.property?_of_nodup hproperties (List.mem_flatMap.mpr ⟨e, he, hp⟩)⟩
    have hid := h.tables_property (d := d) hpatterns hproperties he hof
    rw [hdesc.id] at hid
    exact Property.ofMember_congr hid fun o ho => h.tables_enumOption he hof ho

end Analyzed

/-! ## The second run -/

def withIds (r : Run) (ids : Strategy) : Run := { r with ids }

/-- The entries with content are, but for the content, what was registered. -/
theorem entries_withoutContent (r : Run) (s' : Setting) (rs : Registry) (libraryId : String) :
    ((Registry.ofSetting s).map (r.entryWithContent s' rs libraryId)).map PatternEntry.withoutContent =
      (Registry.ofSetting s).map fun g => g.entry.withoutContent := by
  rw [List.map_map]
  refine List.map_congr_left fun g hg => ?_
  rw [Registry.ofSetting_eq] at hg
  obtain ⟨before, x, after, -, rfl⟩ := s.mem_registrations.mp hg
  generalize hg : s.registration ([] ++ before) x = g
  have hslots : (r.entryWithContent s' rs libraryId g).pattern.slots.map Slot.withoutContent =
      g.entry.pattern.slots.map Slot.withoutContent := by
    rw [← hg]
    refine map_zipWith_fill ?_ _ _ ?_
    · exact fun _ _ => rfl
    · exact (s.length_slotSources _ x.2).symm
  exact congrArg (fun ts => { g.entry with pattern := { g.entry.pattern with slots := ts } }) hslots

theorem map_bundleEntry (es : List PatternEntry) :
    es.map bundleEntry = (es.map PatternEntry.withoutContent).map bundleEntry := by
  rw [List.map_map]
  rfl

/-- A run with another strategy that gives the same registry. -/
theorem analyze_withIds {ids : Strategy} (h : r.analyze root = .ok a) (hs : r.Analyzed root s a)
    (hsame : Registry.ofSetting (s.withIds ids) = Registry.ofSetting s) :
    ∃ b, (r.withIds ids).analyze root = .ok b ∧ b.withoutContent = a.withoutContent := by
  obtain ⟨package, entry, files, hpackage, hentry, hfiles, hcomplete⟩ := analyze_steps h
  obtain rfl : s = r.setting root.normalize package files :=
    Except.ok.inj (hs.setting.symm.trans (settingAt_of_steps hpackage hentry hfiles))
  generalize hset : r.setting root.normalize package files = s at hs hsame hcomplete
  obtain ⟨-, bundle, -, rfl⟩ := complete_ok hcomplete
  let patterns := (Registry.ofSetting s).map ((r.withIds ids).entryWithContent (s.withIds ids) (Registry.ofSetting s)
    (r.libraryId (packageTitle root.normalize package)))
  have hpatterns : (Registry.ofSetting (s.withIds ids)).map ((r.withIds ids).entryWithContent (s.withIds ids)
      (Registry.ofSetting (s.withIds ids)) ((r.withIds ids).libraryId (packageTitle root.normalize package))) = patterns := by
    rw [hsame]
    rfl
  have hentries : patterns.map PatternEntry.withoutContent = ((Registry.ofSetting s).map (r.entryWithContent s
      (Registry.ofSetting s) (r.libraryId (packageTitle root.normalize package)))).map PatternEntry.withoutContent := by
    rw [entries_withoutContent, entries_withoutContent]
  have hbundle : (r.withIds ids).bundler (r.withIds ids).fs (patterns.map bundleEntry) = .ok bundle := by
    rw [map_bundleEntry, hentries, ← map_bundleEntry]
    exact hs.bundle
  exact ⟨_, analyze_of_steps hpackage hentry hfiles (congrArg (·.withIds ids) hset) (hsame ▸ hs.registered) hpatterns hbundle,
    congrArg (Analysis.mk _ root.normalize package · bundle) hentries⟩

/-- The tables of an analysis give its run the same registry again. -/
theorem Analyzed.ofSetting_tables (h : r.Analyzed root s a) (hpatterns : (a.patterns.map (·.pattern.id)).Nodup)
    (hproperties : (a.properties.map (·.id)).Nodup) :
    Registry.ofSetting (s.withIds ((Previous.ofAnalysis a).strategy d)) = Registry.ofSetting s :=
  Setting.ofSetting_withIds fun _ _ _ hxs => h.answersAlike hpatterns hproperties hxs

end Run

end PatternCatalog
