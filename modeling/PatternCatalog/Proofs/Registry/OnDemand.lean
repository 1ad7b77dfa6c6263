/-
  PatternCatalog.Proofs.Registry.OnDemand — a pattern that is built on demand is the registered one.

  A component is registered under the first export of its declaration that its file has, and
  built on demand under the first export that is found when the exports are gone through again:
  under one name. On demand nothing is shared, so the pattern mints the ids of all its properties
  itself; the registered pattern has the same ids for those that it was the first to list, and the
  same names throughout (`AgreesOnDemand`). Nor can the classification of a property go on without
  end that a registered pattern only refers to: the pattern that listed it has classified the same
  member (`Classified`, `Classified.add`).
  - `on_demand_agrees`: so every registered declaration has a pattern on demand, which agrees.
  - `sharing_on_demand_agrees`: the second of two components that share a props type.
-/

import PatternCatalog.Proofs.Identity.Shared
import PatternCatalog.Proofs.Pattern.Partition
import PatternCatalog.Proofs.Run.Examples

namespace PatternCatalog

open Library (MemberRef)

/-! ## Members that are classified -/

namespace Setting

variable {s : Setting}

/-- Whether the classification of a member ends, whatever the id of the property. -/
def Classifies (s : Setting) (m : MemberRef) : Prop :=
  ∀ propertyId, (PropertyKind.ofMember? s.library s.ids propertyId m (Doc.parse? m.member.doc)).isSome

/-- What wrappers make of a member does not matter to its classification. -/
theorem classifies_of_same {m n : MemberRef} (hfile : m.file = n.file) (hmember : m.member = n.member) {propertyId : String}
    (h : (PropertyKind.ofMember? s.library s.ids propertyId m (Doc.parse? m.member.doc)).isSome) : s.Classifies n := by
  intro propertyId'
  unfold PropertyKind.ofMember? PropertyKind.ofMemberWithin? at h ⊢
  rw [hfile, hmember] at h
  cases htype : n.member.type with
  | none => rfl
  | some type =>
    rw [htype] at h
    exact Option.isSome_iff_exists.mpr (PropertyKind.exists_ofType? .. |>.mpr
      (PropertyKind.exists_ofType? .. |>.mp (Option.isSome_iff_exists.mp h)))

theorem members_declared_of_component {name : String} {key : DeclarationKey} {c : Component}
    (hc : Component.ofDeclaration? s.library s.options name key = some c) : ∀ m ∈ s.members c, s.library.Declares m := by
  unfold members
  cases hprops : c.shape.props with
  | none => exact fun m hm => nomatch hm
  | some p => exact Library.apparentMembers_declared (Component.ofDeclaration?_mentioned hc hprops)

theorem buildEnds_of_classifies {c : Component} (h : ∀ m ∈ s.propertyMembers c, s.Classifies m) (sharedId? : MemberKey → Option String) :
    s.buildEnds sharedId? c = true := by
  rw [buildEnds, List.all_eq_true]
  intro m hm
  rw [partEnds_eq]
  by_cases hproperty : s.isProperty m = true
  · rw [h m (List.mem_filter.mpr ⟨hm, hproperty⟩), Bool.or_true]
  · cases hignored : isIgnored m <;> cases hslot : s.slotQuantity? m <;> simp_all [isProperty]

end Setting

namespace Registry

variable {s : Setting} {rs rs' : Registry}

/-- A registry in which every component was decided, and every property of it classified. -/
structure Classified (s : Setting) (rs : Registry) : Prop where
  decided : ∀ g ∈ rs, Component.isDecided s.library s.options g.key = true
  members : ∀ g ∈ rs, ∀ name c, Component.ofDeclaration? s.library s.options name g.key = some c →
    ∀ m ∈ s.propertyMembers c, s.Classifies m
  /-- A property that is there to be shared comes from a member that is classified. -/
  shared : ∀ key id, rs.propertyId? key = some id → ∃ m, s.library.Declares m ∧ m.key = key ∧ s.Classifies m

theorem Classified.nil : Classified s [] := ⟨(fun _ h => nomatch h), (fun _ h => nomatch h), (fun _ _ h => nomatch h)⟩

/-- A component that gets built has its properties classified, here or where they were listed. -/
theorem Classified.classifies (h : Classified s rs) (hapart : s.library.MembersApart) {name : String} {key : DeclarationKey}
    {c : Component} (hc : Component.ofDeclaration? s.library s.options name key = some c)
    (hends : s.buildEnds rs.propertyId? c = true) : ∀ m ∈ s.propertyMembers c, s.Classifies m := by
  intro m hm
  obtain ⟨hmem, hproperty⟩ := List.mem_filter.mp hm
  have hpart := List.all_eq_true.mp hends m hmem
  rw [Setting.isProperty, Bool.and_eq_true, Bool.not_eq_true', Option.isNone_iff_eq_none] at hproperty
  rw [Setting.partEnds_eq, hproperty.1, hproperty.2, Option.isSome_none, Bool.or_false, Bool.false_or, Bool.or_eq_true] at hpart
  rcases hpart with hshared | hclassified
  · obtain ⟨id, hid⟩ := Option.isSome_iff_exists.mp hshared
    obtain ⟨n, hn, hkey, hclassifies⟩ := h.shared m.key id hid
    have hmember := hapart n m hn (Setting.members_declared_of_component hc m hmem) hkey
    exact Setting.classifies_of_same (congrArg MemberKey.file hkey) hmember (hclassifies "")
  · exact Setting.classifies_of_same rfl rfl hclassified

theorem Classified.add (h : Classified s rs) (hapart : s.library.MembersApart) {candidate : Candidate} {name : String}
    {key : DeclarationKey} {c : Component} (hc : Component.ofDeclaration? s.library s.options name key = some c)
    (hdecided : Component.isDecided s.library s.options key = true) (hadd : add? s candidate rs c = some rs') : Classified s rs' := by
  obtain ⟨hkey, -⟩ := Component.key_of_ofDeclaration? hc
  rw [add?] at hadd
  split at hadd
  case isFalse => cases hadd
  case isTrue hends =>
    rw [← Option.some.inj hadd, Registry.add]
    split
    case isTrue => exact h
    case isFalse hnew =>
      rw [Bool.eq_false_iff.mpr hnew, Bool.false_or] at hends
      have hclassifies := h.classifies hapart hc hends
      constructor
      case decided =>
        intro g hg
        rcases List.mem_append.mp hg with hg | hg
        · exact h.decided g hg
        · obtain rfl := List.mem_singleton.mp hg
          rwa [hkey]
      case members =>
        intro g hg name' c' hc'
        rcases List.mem_append.mp hg with hg | hg
        · exact h.members g hg name' c' hc'
        · obtain rfl := List.mem_singleton.mp hg
          rw [hkey, Component.ofDeclaration?_name hc name'] at hc'
          rw [← Option.some.inj hc']
          exact hclassifies
      case shared =>
        intro k id hid
        have howner := (propertyId?_register rs (candidate, c) k).symm.trans hid
        rcases Option.or_eq_some_iff.mp howner with hid | ⟨-, hid⟩
        · exact h.shared k id hid
        · obtain ⟨m, hm, -⟩ := Option.map_eq_some_iff.mp hid
          obtain ⟨hm, hmkey⟩ := s.memberAt?_some hm
          have hdeclared := Setting.members_declared_of_component hc m (List.mem_filter.mp hm).1
          exact ⟨m, hdeclared, hmkey, hclassifies m hm⟩

/-- What each step keeps, a registration that ends has kept. -/
theorem foldlM_keeps {α : Type} {P : Registry → Prop} {step? : Registry → α → Option Registry} {as : List α}
    (hstep : ∀ a ∈ as, ∀ rs rs', P rs → step? rs a = some rs' → P rs') (hrs : P rs) (h : as.foldlM step? rs = some rs') : P rs' := by
  induction as generalizing rs with
  | nil => rwa [← Option.some.inj h]
  | cons a as ih =>
    rw [List.foldlM_cons] at h
    obtain ⟨next, hnext, h⟩ := Option.bind_eq_some_iff.mp h
    have hkept := hstep a List.mem_cons_self rs next hrs hnext
    exact ih (fun b hb => hstep b (List.mem_cons_of_mem _ hb)) hkept h

theorem classified_of_ofSetting? (hapart : s.library.MembersApart) (h : ofSetting? s = some rs) : Classified s rs := by
  refine foldlM_keeps (fun file _ rs rs' hrs hfile => ?_) Classified.nil h
  unfold addFile? at hfile
  split at hfile
  case isFalse => cases hfile
  case isTrue hdecided =>
    refine foldlM_keeps (fun c hc rs rs' hrs hadd => ?_) hrs hfile
    obtain ⟨⟨name, key⟩, hexport, hc⟩ := List.mem_filterMap.mp hc
    have hkey : Component.isDecided s.library s.options key = true := List.all_eq_true.mp hdecided (name, key) hexport
    exact hrs.add hapart hc hkey hadd

/-! ## On demand -/

/-- The identity of a pattern that is built on demand, against that of the registered one. -/
structure AgreesOnDemand (g : Registration) (identity : PatternIdentity) : Prop where
  contextId : identity.contextId = g.build.identity.contextId
  id : identity.id = g.build.identity.id
  names : identity.propertyIds.map (·.1) = g.build.identity.propertyIds.map (·.1)
  /-- The properties that are new with the registered pattern have one id in both. -/
  minted : ∀ p ∈ g.build.properties, identity.propertyIds.lookup p.propertyName = some p.id ∧
    g.build.identity.propertyIds.lookup p.propertyName = some p.id

theorem agreesOnDemand (s : Setting) (key : DeclarationKey) (candidate : Candidate) (sharedId? : MemberKey → Option String)
    (c : Component) : AgreesOnDemand ⟨key, candidate, s.build sharedId? c⟩ (s.build (fun _ => none) c).identity where
  contextId := (s.build_contextId (fun _ => none) c).trans (s.build_contextId sharedId? c).symm
  id := (s.build_id (fun _ => none) c).trans (s.build_id sharedId? c).symm
  names := by
    change (s.build (fun _ => none) c).propertyIds.map (·.1) = (s.build sharedId? c).propertyIds.map (·.1)
    rw [Setting.build_propertyIds, Setting.build_propertyIds, List.map_map, List.map_map]
    rfl
  minted := by
    intro p hp
    change p ∈ (s.build sharedId? c).properties at hp
    rw [Setting.build_properties] at hp
    obtain ⟨m, hm, rfl⟩ := List.mem_map.mp hp
    obtain ⟨hm, hnew⟩ := List.mem_filter.mp hm
    have hregistered := s.lookup_propertyIds sharedId? c hm
    rw [Setting.listedId, Option.isNone_iff_eq_none.mp hnew] at hregistered
    exact ⟨s.lookup_propertyIds (fun _ => none) c hm, hregistered⟩

/-- A component is registered under the name by which its declaration is asked for on demand. -/
theorem ofDeclaration?_of_registered {x : Listing} (hx : x ∈ s.registered) :
    Component.ofDeclaration? s.library s.options (s.library.exportName x.key) x.key = some x.2 ∧ x.2.ignored = false := by
  obtain ⟨-, hfirst, hc, hkept⟩ := s.mem_registered_iff.mp hx
  have hname : s.library.exportName x.key = x.2.exportName := by rw [Library.exportName, hfirst]
  rw [hname]
  exact ⟨hc, hkept⟩

end Registry

namespace Run

open Registry (AgreesOnDemand)

/-- Every registered declaration has a pattern on demand, under the name of its export and with
nothing shared, and the two agree. -/
theorem on_demand_agrees {r : Run} {root : Path} {s : Setting} {rs : Registry} (hs : r.settingAt root = .ok s)
    (hrs : Registry.ofSetting? s = some rs) {g : Registration} (hg : g ∈ rs) :
    Registry.patternEnds s [] g.key = true ∧
      ∃ c, Component.ofDeclaration? s.library s.options (s.library.exportName g.key) g.key = some c ∧ c.ignored = false ∧
        Registry.pattern? s [] g.key = some (s.build (fun _ => none) c).identity ∧
        AgreesOnDemand g (s.build (fun _ => none) c).identity := by
  have hregistration := hg
  rw [Registry.ofSetting?_eq hrs, Registry.ofSetting_eq] at hregistration
  obtain ⟨before, x, after, hxs, hbuilt⟩ := s.mem_registrations.mp hregistration
  have hx : x ∈ s.registered := hxs ▸ List.mem_append_right _ List.mem_cons_self
  obtain ⟨hc, hkept⟩ := Registry.ofDeclaration?_of_registered hx
  have hclassified := Registry.classified_of_ofSetting? (membersApart_of_settingAt hs) hrs
  have hkey : g.key = x.key := congrArg Registration.key hbuilt
  have hdecided := hclassified.decided g hg
  have hclassifies := hclassified.members g hg
  rw [hkey] at hdecided hclassifies ⊢
  refine ⟨?_, x.2, hc, hkept, ?_, ?_⟩
  · have hends := Setting.buildEnds_of_classifies (hclassifies _ _ hc) fun _ => none
    rw [Registry.patternEnds, hdecided, hc, Option.all_some, hends, Bool.or_true, Bool.true_and, Bool.or_true]
  · rw [Registry.pattern?, hc]
    simp [Registry.identity?, hkept]
  · rw [hbuilt]
    exact Registry.agreesOnDemand s _ _ _ x.2

/-- The library of two components that share a props type, with ids that are the texts themselves. -/
def sharingNamed : Run := { sharing with ids := .fresh fun text => text }

set_option maxRecDepth 100000 in
theorem sharingNamed_registry : ∃ s, sharingNamed.settingAt ⟨"/lib"⟩ = .ok s ∧ (Registry.ofSetting? s).isSome ∧
    (Registry.ofSetting s).map (fun g => (g.build.identity.propertyIds, (Registry.pattern? s [] g.key).map (·.propertyIds))) =
      [([("label", ":Button:label")], some [("label", ":Button:label")]),
        ([("label", ":Button:label")], some [("label", ":Badge:label")])] := by
  rw [sharingNamed, sharing, FileSystem.memory_eq sharing_store]
  refine Except.exists_ok ?_
  decide +kernel

/-- The second component refers to the property of the first, and would list one of its own on demand. -/
theorem sharing_on_demand_agrees : ∃ s rs, sharingNamed.settingAt ⟨"/lib"⟩ = .ok s ∧ Registry.ofSetting? s = some rs ∧
    rs.map (fun g => (g.build.identity.propertyIds, (Registry.pattern? s [] g.key).map (·.propertyIds))) =
      [([("label", ":Button:label")], some [("label", ":Button:label")]),
        ([("label", ":Button:label")], some [("label", ":Badge:label")])] ∧
    ∀ g ∈ rs, Registry.patternEnds s [] g.key = true ∧
      ∃ identity, Registry.pattern? s [] g.key = some identity ∧ AgreesOnDemand g identity := by
  obtain ⟨s, hs, hends, hids⟩ := sharingNamed_registry
  obtain ⟨rs, hrs⟩ := Option.isSome_iff_exists.mp hends
  rw [← Registry.ofSetting?_eq hrs] at hids
  refine ⟨s, rs, hs, hrs, hids, fun g hg => ?_⟩
  obtain ⟨hends, c, -, -, hpattern, hagrees⟩ := on_demand_agrees hs hrs hg
  exact ⟨hends, _, hpattern, hagrees⟩

end Run

end PatternCatalog
