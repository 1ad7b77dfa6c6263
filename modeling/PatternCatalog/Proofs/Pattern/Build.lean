/-
  PatternCatalog.Proofs.Pattern.Build — what a pattern says of the members of its props type.

  The members that become properties (`Setting.propertyMembers`) do not depend on what earlier
  patterns have: those decide only whether such a member is a new property (`newMembers`) and
  which id the pattern refers to it by (`listedId`).

  The loop over the members keeps its lists side by side: after some members each list has what
  it takes from these, in their order (`gathered`), one more member keeps it so
  (`addMember_gathered`), and so does the whole loop (`foldl_addMember`). That the members have
  different names is what lets each of them keep its entry among the ids by name. With the slot
  that the implementation implies, this is all there is in a pattern (`build_eq`).
-/

import Mathlib.Data.List.Induction
import PatternCatalog.Pattern.Build
import PatternCatalog.Proofs.Library.Members

namespace PatternCatalog

/-- A name that is new takes no id away. -/
theorem PatternBuild.refer_fresh {b : PatternBuild} {name : String} (h : name ∉ b.propertyIds.map (·.1)) (id : String) :
    b.refer name id = { b with
      propertyIds := b.propertyIds ++ [(name, id)]
      pattern := { b.pattern with propertyIds := b.pattern.propertyIds ++ [id] } } := by
  have hkept : b.propertyIds.filter (fun p => decide (p.1 ≠ name)) = b.propertyIds :=
    List.filter_eq_self.mpr fun p hp => decide_eq_true fun hname => h (hname ▸ List.mem_map_of_mem hp)
  rw [refer, hkept]

namespace Setting

open Library (MemberRef NamesDiffer apparentMembers_nodup)

variable (s : Setting)

/-! ## Kinds of members -/

def isIgnored (m : MemberRef) : Bool := (Doc.parse? m.member.doc).hasTag "ignore"

def slotQuantity? (m : MemberRef) : Option SlotQuantity :=
  Slot.detect? s.library s.options m (Doc.parse? m.member.doc)

def isProperty (m : MemberRef) : Bool := !isIgnored m && (s.slotQuantity? m).isNone

/-- The members of a component that are properties, new ones or shared ones. -/
def propertyMembers (c : Component) : List MemberRef := (s.members c).filter s.isProperty

def isSlot (m : MemberRef) : Bool := !isIgnored m && (s.slotQuantity? m).isSome

/-- The members of a component that are slots. -/
def slotMembers (c : Component) : List MemberRef := (s.members c).filter s.isSlot

/-- Whether the implementation of a component shows a slot that none of the given ones is. -/
def impliesChildren (c : Component) (declared : List String) : Bool :=
  match s.candidates[c.shape.key.file]? with
  | none => false
  | some candidate =>
    !declared.contains Implementation.children && s.options.scanImplementationForChildren &&
      Implementation.usesChildren s.fs candidate.artifactPath c.exportName

/-- The names of the slots of a component. -/
def slotNames (c : Component) : List String :=
  let declared := ((s.members c).filter s.isSlot).map (·.name)
  declared ++ if s.impliesChildren c declared then [Implementation.children] else []

theorem children_mem_slotNames {c : Component} (h : s.impliesChildren c ((s.slotMembers c).map (·.name)) = true) :
    Implementation.children ∈ s.slotNames c := by
  rw [slotMembers] at h
  exact List.mem_append_right _ (by rw [if_pos h]; exact List.mem_cons_self)

theorem members_nodup (c : Component) : NamesDiffer (s.members c) := by
  unfold members
  cases c.shape.props with
  | none => exact List.nodup_nil
  | some p => exact apparentMembers_nodup s.library p

theorem propertyMembers_nodup (c : Component) : NamesDiffer (s.propertyMembers c) :=
  (s.members_nodup c).sublist (List.filter_sublist.map _)

/-! ## Identities -/

def componentContextId (c : Component) : String := s.contextId c.shape.key.file c.exportName

def patternId (c : Component) : String := s.ids.pattern (s.componentContextId c)

/-- The id that a property gets from a pattern that is the first to list it. -/
def mintedId (c : Component) (m : MemberRef) : String := s.ids.property (s.patternId c) m.name

/-- The id by which a pattern refers to the property of a member. -/
def listedId (sharedId? : MemberKey → Option String) (c : Component) (m : MemberRef) : String :=
  (sharedId? m.key).getD (s.mintedId c m)

/-- The slot that a member declares, with its source. -/
def slotOf (patternId : String) (m : MemberRef) : Slot × SlotSource :=
  (.ofMember s.ids patternId m (Doc.parse? m.member.doc) ((s.slotQuantity? m).getD .single), .ofMember m)

/-! ## The loop over the members -/

theorem partEnds_eq (patternId : String) (sharedId? : MemberKey → Option String) (m : MemberRef) :
    s.partEnds patternId sharedId? m = (isIgnored m || (s.slotQuantity? m).isSome || (sharedId? m.key).isSome ||
      (PropertyKind.ofMember? s.library s.ids (s.ids.property patternId m.name) m (Doc.parse? m.member.doc)).isSome) := rfl

theorem addMember_eq (patternId : String) (sharedId? : MemberKey → Option String) (b : PatternBuild) (m : MemberRef) :
    s.addMember patternId sharedId? b m =
      if isIgnored m then b
      else
        match s.slotQuantity? m with
        | some q => b.addSlot (.ofMember s.ids patternId m (Doc.parse? m.member.doc) q) (.ofMember m)
        | none =>
          match sharedId? m.key with
          | some id => b.refer m.name id
          | none => (b.mint m.key (.ofMember s.library s.ids patternId m)).refer m.name (s.ids.property patternId m.name) := rfl

section Loop

variable (sharedId? : MemberKey → Option String) (c : Component)

/-- The members among the given ones that are new properties. -/
def newMembers (ms : List MemberRef) : List MemberRef := (ms.filter s.isProperty).filter fun m => (sharedId? m.key).isNone

/-- The build of a pattern when the loop has gone over some members. -/
def gathered (ms : List MemberRef) : PatternBuild where
  pattern := { (s.blank c).pattern with
    propertyIds := (ms.filter s.isProperty).map (s.listedId sharedId? c)
    slots := (ms.filter s.isSlot).map fun m => (s.slotOf (s.patternId c) m).1 }
  properties := (s.newMembers sharedId? ms).map (Property.ofMember s.library s.ids (s.patternId c))
  minted := (s.newMembers sharedId? ms).map (·.key)
  slotSources := (ms.filter s.isSlot).map .ofMember
  propertyIds := (ms.filter s.isProperty).map fun m => (m.name, s.listedId sharedId? c m)

theorem gathered_fresh {ms : List MemberRef} {m : MemberRef} (h : NamesDiffer (ms ++ [m])) :
    m.name ∉ (s.gathered sharedId? c ms).propertyIds.map (·.1) := by
  rw [NamesDiffer, List.map_append] at h
  have hlast := (List.nodup_append.mp h).2.2
  intro hname
  obtain ⟨p, hp, hname⟩ := List.mem_map.mp hname
  obtain ⟨n, hn, rfl⟩ := List.mem_map.mp hp
  exact hlast _ (List.mem_map_of_mem (List.mem_filter.mp hn).1) _ List.mem_cons_self hname

/-- One more member goes into the lists that are kept for it. -/
theorem addMember_gathered {ms : List MemberRef} {m : MemberRef} (h : NamesDiffer (ms ++ [m])) :
    s.addMember (s.patternId c) sharedId? (s.gathered sharedId? c ms) m = s.gathered sharedId? c (ms ++ [m]) := by
  have hfresh := s.gathered_fresh sharedId? c h
  have hslot : s.isSlot m = (!isIgnored m && (s.slotQuantity? m).isSome) := rfl
  have hproperty : s.isProperty m = (!isIgnored m && (s.slotQuantity? m).isNone) := rfl
  rw [addMember_eq]
  cases hignored : isIgnored m with
  | true =>
    rw [hignored] at hslot hproperty
    simp [gathered, newMembers, hslot, hproperty]
  | false =>
    rw [hignored] at hslot hproperty
    cases hquantity : s.slotQuantity? m with
    | some quantity =>
      rw [hquantity] at hslot hproperty
      simp [gathered, newMembers, hslot, hproperty, hquantity, PatternBuild.addSlot, slotOf]
    | none =>
      rw [hquantity] at hslot hproperty
      cases hshared : sharedId? m.key with
      | some id =>
        dsimp only
        rw [if_neg Bool.false_ne_true, PatternBuild.refer_fresh hfresh]
        simp [gathered, newMembers, hslot, hproperty, hshared, listedId]
      | none =>
        dsimp only
        rw [if_neg Bool.false_ne_true, PatternBuild.refer_fresh (b := PatternBuild.mint _ _ _) hfresh]
        simp [gathered, newMembers, hslot, hproperty, hshared, listedId, mintedId, PatternBuild.mint]

/-- The loop over members of different names. -/
theorem foldl_addMember {ms : List MemberRef} (h : NamesDiffer ms) :
    ms.foldl (s.addMember (s.patternId c) sharedId?) (s.blank c) = s.gathered sharedId? c ms := by
  induction ms using List.reverseRecOn with
  | nil => rfl
  | append_singleton ms m ih =>
    have hbefore : NamesDiffer ms := h.sublist ((List.sublist_append_left ms [m]).map _)
    rw [List.foldl_append, ih hbefore]
    exact s.addMember_gathered sharedId? c h

end Loop

/-! ## Patterns -/

section Patterns

variable (sharedId? : MemberKey → Option String) (c : Component)

theorem ofName_eq_children (name : String) : (SlotKind.ofName name == .children) = (Implementation.children == name) := by
  unfold SlotKind.ofName
  split
  · next h => rw [h]; rfl
  · next h => rw [beq_eq_false_iff_ne.mpr (Ne.symm h)]; rfl

/-- The implied slot asks only for the names of the slots that are there. -/
theorem addImplied_eq {b : PatternBuild} {names : List String} (hkinds : b.pattern.slots.map (·.kind) = names.map SlotKind.ofName)
    (patternId : String) : s.addImplied patternId c b =
      if s.impliesChildren c names then b.addSlot (.implied s.ids patternId) ⟨c.shape.key.file, none⟩ else b := by
  have hany : b.pattern.slots.any (·.kind == .children) = names.contains Implementation.children := by
    have h := congrArg (fun ks : List SlotKind => ks.any (· == .children)) hkinds
    simp only [List.any_map, Function.comp_def, ofName_eq_children] at h
    rw [h, List.contains_eq_any_beq]
  dsimp only [addImplied, impliesChildren]
  rw [hany]
  rcases Option.eq_none_or_eq_some s.candidates[c.shape.key.file]? with hfile | ⟨candidate, hfile⟩
  · simp only [hfile, Option.any_none, Bool.and_false]
  · simp only [hfile, Option.any_some]

/-- The slots of a component with their sources: those of the members, then the implied one. -/
def slotsWithSources : List (Slot × SlotSource) :=
  (s.slotMembers c).map (s.slotOf (s.patternId c)) ++
    if s.impliesChildren c ((s.slotMembers c).map (·.name)) then
      [(.implied s.ids (s.patternId c), ⟨c.shape.key.file, none⟩)]
    else []

theorem gathered_kinds : (s.gathered sharedId? c (s.members c)).pattern.slots.map (·.kind) =
    ((s.slotMembers c).map (·.name)).map SlotKind.ofName := by
  rw [gathered, List.map_map, List.map_map]
  rfl

/-- What goes into a pattern: what the members come to, and the implied slot. -/
theorem build_eq : s.build sharedId? c =
    { s.gathered sharedId? c (s.members c) with
      pattern := { (s.gathered sharedId? c (s.members c)).pattern with slots := (s.slotsWithSources c).map (·.1) }
      slotSources := (s.slotsWithSources c).map (·.2) } := by
  have hloop : (s.members c).foldl (s.addMember (s.patternId c) sharedId?) (s.blank c) =
      s.gathered sharedId? c (s.members c) := s.foldl_addMember sharedId? c (s.members_nodup c)
  have hbuild : s.build sharedId? c =
      s.addImplied (s.patternId c) c ((s.members c).foldl (s.addMember (s.patternId c) sharedId?) (s.blank c)) := rfl
  rw [hbuild, hloop, s.addImplied_eq c (s.gathered_kinds sharedId? c), slotsWithSources]
  split
  · simp only [PatternBuild.addSlot, gathered, slotMembers, List.map_append, List.map_map, List.map_singleton]
    rfl
  · simp only [gathered, slotMembers, List.append_nil, List.map_map]
    rfl

theorem build_contextId : (s.build sharedId? c).pattern.contextId = s.componentContextId c := by
  rw [build_eq]
  rfl

theorem build_id : (s.build sharedId? c).pattern.id = s.patternId c := by
  rw [build_eq]
  rfl

theorem build_pattern_propertyIds :
    (s.build sharedId? c).pattern.propertyIds = (s.propertyMembers c).map (s.listedId sharedId? c) := by
  rw [build_eq]
  rfl

theorem build_properties : (s.build sharedId? c).properties =
    (s.newMembers sharedId? (s.members c)).map (Property.ofMember s.library s.ids (s.patternId c)) := by
  rw [build_eq]
  rfl

theorem build_minted : (s.build sharedId? c).minted = (s.newMembers sharedId? (s.members c)).map (·.key) := by
  rw [build_eq]
  rfl

theorem build_propertyIds :
    (s.build sharedId? c).propertyIds = (s.propertyMembers c).map fun m => (m.name, s.listedId sharedId? c m) := by
  rw [build_eq]
  rfl

theorem build_pattern_slots : (s.build sharedId? c).pattern.slots = (s.slotsWithSources c).map (·.1) := by
  rw [build_eq]

theorem build_slotSources : (s.build sharedId? c).slotSources = (s.slotsWithSources c).map (·.2) := by
  rw [build_eq]

/-- Slots and their sources go side by side. -/
theorem length_slotSources : (s.build sharedId? c).slotSources.length = (s.build sharedId? c).pattern.slots.length := by
  rw [build_pattern_slots, build_slotSources, List.length_map, List.length_map]

/-- New properties and the keys of their members go side by side. -/
theorem length_minted : (s.build sharedId? c).minted.length = (s.build sharedId? c).properties.length := by
  rw [build_minted, build_properties, List.length_map, List.length_map]

theorem build_newProperties :
    (s.build sharedId? c).newProperties = ((s.propertyMembers c).filter fun m => (sharedId? m.key).isNone).map
      fun m => (m.key, Property.ofMember s.library s.ids (s.patternId c) m) := by
  rw [PatternBuild.newProperties, build_minted, build_properties, List.zip_map']
  rfl

/-- What a slot takes from its name is the same for all slots of a component. -/
theorem slotsWithSources_names : (s.slotsWithSources c).map (fun t => (t.1.contextId, t.1.id, t.1.kind)) =
    (s.slotNames c).map fun name => (name, s.ids.slot (s.patternId c) name, .ofName name) := by
  rw [slotsWithSources, slotNames, List.map_append, List.map_append, List.map_map, List.map_map, ← slotMembers]
  refine congrArg _ ?_
  cases s.impliesChildren c ((s.slotMembers c).map (·.name)) <;> rfl

theorem build_slots :
    (s.build sharedId? c).pattern.slots.map (fun t => (t.contextId, t.id)) =
      (s.slotNames c).map fun name => (name, s.ids.slot (s.patternId c) name) := by
  rw [build_pattern_slots, List.map_map]
  simpa [Function.comp_def] using congrArg (List.map fun t => (t.1, t.2.1)) (s.slotsWithSources_names c)

/-- A new property is among those that the pattern refers to. -/
theorem mem_propertyIds_of_new {p : Property} (h : p ∈ (s.build sharedId? c).properties) :
    (p.contextId, p.id) ∈ (s.build sharedId? c).propertyIds := by
  rw [build_properties] at h
  obtain ⟨m, hm, rfl⟩ := List.mem_map.mp h
  obtain ⟨hm, hnew⟩ := List.mem_filter.mp hm
  rw [build_propertyIds]
  refine List.mem_map.mpr ⟨m, hm, ?_⟩
  rw [listedId, Option.isNone_iff_eq_none.mp hnew]
  rfl

end Patterns

end Setting

end PatternCatalog
