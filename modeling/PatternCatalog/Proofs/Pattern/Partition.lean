/-
  PatternCatalog.Proofs.Pattern.Partition — each member of the props type is one slot or one property.

  The apparent members that are not ignored fall into two lists, the slots and the properties,
  each in the order of the members. A pattern has a slot for each of the first, and refers to a
  property for each of the second, by the id that an earlier pattern gave it or by its own
  (`Partitions`, `build_partitions`). The loop fills five lists; two of them go with two others,
  entry by entry: the places where slots are declared with the slots, and the keys of members
  with the new properties. One more slot comes last when the implementation implies it, and only
  where none of the slots is called `children`, so there is at most one slot of that kind
  (`children_once`).
  - `entryWithContent_slots`: slots and sources go side by side, so the content of a slot is
    taken from the documentation of the member that declares it.
-/

import Mathlib.Data.List.Nodup
import PatternCatalog.Proofs.Registry
import PatternCatalog.Run

namespace PatternCatalog

open Library (MemberRef NamesDiffer)

namespace Setting

variable (s : Setting) (sharedId? : MemberKey → Option String) (c : Component)

/-- A pattern made of the given members of a component, one slot or one property for each. -/
structure Partitions (ms : List MemberRef) (b : PatternBuild) : Prop where
  names_differ : NamesDiffer ms
  members : (ms.filter fun m => !isIgnored m).partition s.isSlot = (ms.filter s.isSlot, ms.filter s.isProperty)
  slotSources_parallel : b.slotSources.length = b.pattern.slots.length
  /-- Each slot with its source: those of the members, then perhaps the implied one. -/
  slots : b.pattern.slots.zip b.slotSources = (ms.filter s.isSlot).map (s.slotOf (s.patternId c)) ++
    if s.impliesChildren c ((ms.filter s.isSlot).map (·.name)) then
      [(.implied s.ids (s.patternId c), ⟨c.shape.key.file, none⟩)]
    else []
  /-- What a slot and its source take from the member: name, id, file and documentation. -/
  slots_named : (b.pattern.slots.zip b.slotSources).map (fun t => (t.1.propertyName, t.1.id, t.2.file, t.2.doc)) =
    ((ms.filter s.isSlot).map fun m => (m.member.name, s.ids.slot (s.patternId c) m.member.name, m.file, m.member.doc)) ++
      if s.impliesChildren c ((ms.filter s.isSlot).map (·.name)) then
        [("children", s.ids.slot (s.patternId c) "children", c.shape.key.file, none)]
      else []
  kinds : ∀ slot ∈ b.pattern.slots, slot.kind = .children ↔ slot.propertyName = "children"
  implied : s.impliesChildren c ((ms.filter s.isSlot).map (·.name)) = true →
    ∀ m ∈ ms, s.isSlot m = true → m.name ≠ Implementation.children
  children_once : (b.pattern.slots.filter (·.kind == .children)).length ≤ 1
  propertyIds : b.pattern.propertyIds = (ms.filter s.isProperty).map (s.listedId sharedId? c)
  minted_parallel : b.minted.length = b.properties.length
  /-- Each new property with the key of its member. -/
  minted : b.minted.zip b.properties = ((ms.filter s.isProperty).filter fun m => (sharedId? m.key).isNone).map
    fun m => (m.key, Property.ofMember s.library s.ids (s.patternId c) m)
  minted_named : (b.minted.zip b.properties).map (fun t => (t.1.file, t.1.start, t.2.propertyName, t.2.id)) =
    ((ms.filter s.isProperty).filter fun m => (sharedId? m.key).isNone).map
      fun m => (m.file, m.member.start, m.member.name, s.ids.property (s.patternId c) m.member.name)
  listed : ∀ p ∈ b.properties, (p.contextId, p.id) ∈ b.identity.propertyIds
  identity_names : b.identity.propertyIds.map (·.1) = (ms.filter s.isProperty).map (·.name)
  identity : ∀ m ∈ ms, s.isProperty m = true → b.identity.propertyIds.lookup m.name = some (s.listedId sharedId? c m)

variable {c}

theorem not_children_of_implies {names : List String} (h : s.impliesChildren c names = true) :
    Implementation.children ∉ names := by
  unfold impliesChildren at h
  split at h
  · cases h
  · simp only [Bool.and_eq_true, Bool.not_eq_true', List.contains_eq_mem, decide_eq_false_iff_not] at h
    exact h.1.1

variable (c)

theorem partition_members :
    ((s.members c).filter fun m => !isIgnored m).partition s.isSlot = (s.slotMembers c, s.propertyMembers c) := by
  rw [List.partition_eq_filter_filter, List.filter_filter, List.filter_filter]
  refine Prod.ext (List.filter_congr fun m _ => ?_) (List.filter_congr fun m _ => ?_)
  · rw [isSlot]
    cases isIgnored m <;> simp
  · rw [Function.comp_apply, isSlot, isProperty]
    cases isIgnored m <;> simp

theorem slotNames_nodup : (s.slotNames c).Nodup := by
  have hdeclared : ((s.slotMembers c).map (·.name)).Nodup := (s.members_nodup c).sublist (List.filter_sublist.map _)
  rw [slotNames, ← slotMembers]
  split
  · next himplied =>
    have hnew := List.disjoint_singleton.mpr (s.not_children_of_implies himplied)
    exact hdeclared.append (List.nodup_singleton _) hnew
  · rwa [List.append_nil]

theorem children_once :
    (((s.slotsWithSources c).map (·.1)).filter (·.kind == .children)).length ≤ 1 := by
  have hkinds : (s.slotsWithSources c).map (·.1.kind) = (s.slotNames c).map SlotKind.ofName := by
    simpa [Function.comp_def] using congrArg (List.map (·.2.2)) (s.slotsWithSources_names c)
  calc (((s.slotsWithSources c).map (·.1)).filter (·.kind == .children)).length
      = ((s.slotsWithSources c).map (·.1.kind)).countP (· == .children) := by
        rw [← List.countP_eq_length_filter, List.countP_map, List.countP_map]; rfl
    _ = (s.slotNames c).countP (Implementation.children == ·) := by
        rw [hkinds, List.countP_map]
        exact List.countP_congr fun name _ => by rw [Function.comp_apply, ofName_eq_children]
    _ ≤ 1 := by
        simpa only [List.count, BEq.comm] using List.nodup_iff_count_le_one.mp (s.slotNames_nodup c) Implementation.children

theorem zip_slots_sources :
    (s.build sharedId? c).pattern.slots.zip (s.build sharedId? c).slotSources = s.slotsWithSources c := by
  rw [build_pattern_slots, build_slotSources]
  exact (List.zip_of_prod rfl rfl).symm

theorem slotsWithSources_named :
    (s.slotsWithSources c).map (fun t => (t.1.propertyName, t.1.id, t.2.file, t.2.doc)) =
      ((s.slotMembers c).map fun m => (m.member.name, s.ids.slot (s.patternId c) m.member.name, m.file, m.member.doc)) ++
        if s.impliesChildren c ((s.slotMembers c).map (·.name)) then
          [("children", s.ids.slot (s.patternId c) "children", c.shape.key.file, none)]
        else [] := by
  rw [slotsWithSources, List.map_append, List.map_map, apply_ite (List.map _)]
  rfl

theorem kind_eq_children {t : Slot × SlotSource} (ht : t ∈ s.slotsWithSources c) :
    t.1.kind = .children ↔ t.1.propertyName = "children" := by
  rcases List.mem_append.mp ht with ht | ht
  · obtain ⟨m, -, rfl⟩ := List.mem_map.mp ht
    have hkind := ofName_eq_children m.name
    rw [Bool.eq_iff_iff, beq_iff_eq, beq_iff_eq] at hkind
    exact hkind.trans eq_comm
  · split at ht
    · obtain rfl := List.mem_singleton.mp ht
      exact iff_of_true rfl rfl
    · cases ht

theorem lookup_propertyIds {m : MemberRef} (hm : m ∈ s.propertyMembers c) :
    (s.build sharedId? c).propertyIds.lookup m.name = some (s.listedId sharedId? c m) := by
  have hfind : (s.propertyMembers c).find? (·.name == m.name) = some m := find?_key _ (s.propertyMembers_nodup c) hm
  rw [build_propertyIds, lookup_map_key, hfind]
  rfl

theorem build_partitions_members : s.Partitions sharedId? c (s.members c) (s.build sharedId? c) where
  names_differ := s.members_nodup c
  members := s.partition_members c
  slotSources_parallel := s.length_slotSources sharedId? c
  slots := s.zip_slots_sources sharedId? c
  slots_named := by rw [zip_slots_sources]; exact s.slotsWithSources_named c
  kinds slot hslot := by
    rw [build_pattern_slots] at hslot
    obtain ⟨t, ht, rfl⟩ := List.mem_map.mp hslot
    exact s.kind_eq_children c ht
  implied h m hm hslot hname :=
    s.not_children_of_implies h (List.mem_map.mpr ⟨m, List.mem_filter.mpr ⟨hm, hslot⟩, hname⟩)
  children_once := by rw [build_pattern_slots]; exact s.children_once c
  propertyIds := s.build_pattern_propertyIds sharedId? c
  minted_parallel := s.length_minted sharedId? c
  minted := s.build_newProperties sharedId? c
  minted_named := by
    have hzip := s.build_newProperties sharedId? c
    rw [PatternBuild.newProperties] at hzip
    rw [hzip, List.map_map]
    rfl
  listed _ hp := s.mem_propertyIds_of_new sharedId? c hp
  identity_names := by
    change (s.build sharedId? c).propertyIds.map (·.1) = _
    rw [build_propertyIds, List.map_map]
    rfl
  identity _ hm hproperty := s.lookup_propertyIds sharedId? c (List.mem_filter.mpr ⟨hm, hproperty⟩)

/-- Slots and properties partition the apparent members of the props type. -/
theorem build_partitions :
    s.Partitions sharedId? c
      (match c.shape.props with
        | some props => s.library.apparentMembers props
        | none => [])
      (s.build sharedId? c) := by
  have hpartitions := s.build_partitions_members sharedId? c
  rw [members] at hpartitions
  cases hprops : c.shape.props <;> rwa [hprops] at hpartitions

/-! ## A panel with members of every kind -/

/-- `interface Props extends Base` with the slot `header`, the ignored `secret` and the property `label`,
where `Base` has `size`; no member is called `children`, and the implementation uses it. -/
def panelSetting : Setting where
  library :=
    let member (name : String) (type : TypeExpr) (doc : Option String) (start : Nat) : Member :=
      ⟨name, false, some type, "", doc, start⟩
    let node : TypeExpr := .reference none ["React", "ReactNode"] []
    let declarations := [⟨"Base", 0, none, .interface [] [member "size" (.keyword .number) none 17]⟩,
      ⟨"Props", 33, none, .interface [.reference none ["Base"] []]
        [member "header" node (some "* The head. ") 63, member "secret" (.keyword .string) (some "* @ignore ") 98,
          member "label" (.keyword .string) none 131]⟩]
    .ofFiles ⟨"/lib"⟩ none [".d.ts"] [⟨⟨"/lib/index.d.ts"⟩, { declarations }⟩]
  options := {}
  ids := ⟨id, (· ++ "." ++ ·), (· ++ "/" ++ ·), (· ++ "." ++ ·)⟩
  fs := .memory [(⟨"/lib/index.js"⟩, "export const Panel = (p) => p.children;")]
  candidates := [⟨"lib", ⟨"/lib/index.js"⟩, ⟨"/lib/index.d.ts"⟩, ⟨"/lib/index.js"⟩, "", "Lib"⟩]

def panelProps : Library.Place := ⟨0, .reference none ["Props"] []⟩

def panel : Component := ⟨"Panel", ⟨⟨0, 2⟩, some panelProps⟩, false, "", none, none, none⟩

/-- An earlier pattern has the property of `size`. -/
def panelShared (key : MemberKey) : Option String := if key = ⟨0, 17⟩ then some "lib:Button.size" else none

/-- A slot, a new property, a shared one and an implied slot, each with what goes with it. -/
theorem panel_partitions : let b := panelSetting.build panelShared panel
    panelSetting.Partitions panelShared panel (panelSetting.library.apparentMembers panelProps) b ∧
      (panelSetting.library.apparentMembers panelProps).map (·.name) = ["header", "secret", "label", "size"] ∧
      b.pattern.slots.map (·.id) = ["lib:Panel/header", "lib:Panel/children"] ∧
      b.slotSources = [⟨0, some "* The head. "⟩, ⟨0, none⟩] ∧
      b.pattern.propertyIds = ["lib:Panel.label", "lib:Button.size"] ∧
      b.properties.map (·.id) = ["lib:Panel.label"] ∧ b.minted = [⟨0, 131⟩] ∧
      b.identity.propertyIds = [("label", "lib:Panel.label"), ("size", "lib:Button.size")] :=
  ⟨build_partitions panelSetting panelShared panel, by decide +kernel⟩

end Setting

namespace Run

/-- The content of each slot is taken from the documentation that the slot is declared with. -/
theorem entryWithContent_slots (r : Run) (s : Setting) (rs : Registry) (libraryId : String)
    (sharedId? : MemberKey → Option String) (c : Component) (key : DeclarationKey) (candidate : Candidate) :
    (r.entryWithContent s rs libraryId ⟨key, candidate, s.build sharedId? c⟩).pattern.slots =
      (s.slotsWithSources c).map fun (slot, source) => { slot with
        defaultValue :=
          Slot.content? r.digest s.library (rs.pattern? s) libraryId r.options.maxDefaultDepth slot.id source } := by
  rw [← s.zip_slots_sources sharedId? c, List.map_zip_eq_zipWith]
  rfl

end Run

end PatternCatalog
