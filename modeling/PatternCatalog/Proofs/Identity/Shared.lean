/-
  PatternCatalog.Proofs.Identity.Shared — a member becomes a property once.

  Members of one file start at different places, so the key of a member stands for one member
  (`Run.setting_membersApart`). Over a whole run each key is listed as a new property at most once,
  by the first component that has the member as a property; every other pattern that has the
  member refers to it by the id it got there (`SharesProperties`). So no id of a pattern dangles:
  the analysis has a property for each (`properties_shared`).
-/

import PatternCatalog.Proofs.Identity.Reanalyzed
import PatternCatalog.Proofs.Identity.Referred
import PatternCatalog.Proofs.Module

namespace PatternCatalog

open Library (MemberRef)

/-! ## Keys of members -/

/-- The modules of discovered files tell their members apart by where they start. -/
theorem Run.setting_membersApart {r : Run} {found : List SourceFile} (root : Path) (package : Json)
    (hparsed : ∀ f ∈ found, Discovery.Parsed r.fs f) : (r.setting root package found).library.MembersApart := by
  intro m n hm hn hkey
  obtain ⟨hfile, hstart⟩ := MemberKey.mk.inj hkey
  unfold Library.Declares Library.moduleAt at hm hn
  rw [← hfile] at hn
  split at hm
  · next f hf =>
    obtain ⟨text, -, hmodule⟩ := hparsed f (List.mem_of_getElem? hf)
    rw [hf] at hn
    dsimp only at hn
    rw [hmodule] at hm hn
    exact Module.members_apart text _ hm _ hn hstart
  · cases hm

theorem Run.membersApart_of_settingAt {r : Run} {root : Path} {s : Setting} (h : r.settingAt root = .ok s) :
    s.library.MembersApart := by
  obtain ⟨package, -, h⟩ := Except.bind_ok h
  obtain ⟨entry, -, h⟩ := Except.bind_ok h
  obtain ⟨found, hfound, h⟩ := Except.bind_ok h
  obtain rfl := Except.ok.inj h
  exact setting_membersApart _ _ (Discovery.files_parsed (Except.mapError_ok hfound))

theorem Run.Analyzed.membersApart {r : Run} {root : Path} {s : Setting} {a : Analysis} (h : r.Analyzed root s a) :
    s.library.MembersApart := membersApart_of_settingAt h.setting

namespace Setting

variable {s : Setting} (hapart : s.library.MembersApart) {x : Listing}

include hapart

/-- The properties of one component come from different places. -/
theorem eq_of_key (hx : x ∈ s.registered) {m n : MemberRef} (hm : m ∈ s.propertyMembers x.2)
    (hn : n ∈ s.propertyMembers x.2) (hkey : m.key = n.key) : m = n := by
  have hfound := memberAt?_of_mem hapart hx hm
  rw [hkey, memberAt?_of_mem hapart hx hn] at hfound
  exact (Option.some.inj hfound).symm

theorem keys_nodup (hx : x ∈ s.registered) : ((s.propertyMembers x.2).map (·.key)).Nodup := by
  have hnodup := List.Nodup.of_map _ (s.propertyMembers_nodup x.2)
  exact hnodup.map_on fun m hm n hn => eq_of_key hapart hx hm hn

omit hapart in
/-- What a component lists as new are its properties that no component before it has. -/
theorem mem_new_iff {before : List Listing} {key : MemberKey} {p : Property} :
    (key, p) ∈ (s.registration before x).build.newProperties ↔ ∃ m ∈ s.propertyMembers x.2, m.key = key ∧
      p = Property.ofMember s.library s.ids (s.patternId x.2) m ∧ ∀ y ∈ before, ∀ n ∈ s.propertyMembers y.2, n.key ≠ key := by
  have hproperties := s.build_newProperties (s.ownerId? before) x.2
  rw [registration, hproperties, List.mem_map]
  constructor
  · rintro ⟨m, hm, he⟩
    obtain ⟨rfl, rfl⟩ := Prod.mk.inj he
    obtain ⟨hm, hnew⟩ := List.mem_filter.mp hm
    exact ⟨m, hm, rfl, rfl, s.ownerId?_eq_none_iff.mp (Option.isNone_iff_eq_none.mp hnew)⟩
  · rintro ⟨m, hm, rfl, rfl, hnew⟩
    refine ⟨m, List.mem_filter.mpr ⟨hm, ?_⟩, rfl⟩
    exact Option.isNone_iff_eq_none.mpr (s.ownerId?_eq_none_iff.mpr hnew)

/-- No key is new twice, and none is new that a component before has. -/
theorem newKeys_nodup {before xs : List Listing} (hxs : ∀ x ∈ xs, x ∈ s.registered) :
    ((s.registrations before xs).flatMap (·.build.minted)).Nodup ∧
      ∀ key ∈ (s.registrations before xs).flatMap (·.build.minted), ∀ y ∈ before, ∀ n ∈ s.propertyMembers y.2, n.key ≠ key := by
  induction xs generalizing before with
  | nil => exact ⟨List.nodup_nil, fun _ h => nomatch h⟩
  | cons x xs ih =>
    have hlater := @ih (before ++ [x]) fun y hy => hxs y (List.mem_cons_of_mem _ hy)
    obtain ⟨hnodup, hnew⟩ := hlater
    have hminted := s.build_minted (s.ownerId? before) x.2
    have hhere : ∀ key ∈ (s.registration before x).build.minted,
        (∃ m ∈ s.propertyMembers x.2, m.key = key) ∧ ∀ y ∈ before, ∀ n ∈ s.propertyMembers y.2, n.key ≠ key := by
      intro key hkey
      rw [registration, hminted] at hkey
      obtain ⟨m, hm, rfl⟩ := List.mem_map.mp hkey
      obtain ⟨hm, hnew⟩ := List.mem_filter.mp hm
      exact ⟨⟨m, hm, rfl⟩, s.ownerId?_eq_none_iff.mp (Option.isNone_iff_eq_none.mp hnew)⟩
    rw [registrations, List.flatMap_cons]
    constructor
    · refine List.Nodup.append ?_ hnodup fun key hkey hlater => ?_
      · rw [registration, hminted]
        exact (keys_nodup hapart (hxs x List.mem_cons_self)).sublist (List.filter_sublist.map _)
      · obtain ⟨⟨m, hm, hmkey⟩, -⟩ := hhere key hkey
        exact hnew key hlater x (List.mem_append_right _ List.mem_cons_self) m hm hmkey
    · intro key hkey y hy
      rcases List.mem_append.mp hkey with hkey | hkey
      · exact (hhere key hkey).2 y hy
      · exact hnew key hkey y (List.mem_append_left _ hy)

end Setting

namespace Run

variable {r : Run} {root : Path} {s : Setting} {a : Analysis}

/-! ## Places -/

/-- What stands at one place of a run: the component, its registration and its entry in the analysis. -/
structure StandsAt (s : Setting) (a : Analysis) (i : Nat) (x : Listing) (g : Registration) (e : PatternEntry) : Prop where
  component : s.registered[i]? = some x
  registration : (Registry.ofSetting s)[i]? = some g
  entry : a.patterns[i]? = some e

theorem StandsAt.registration_eq {i : Nat} {x : Listing} {g : Registration} {e : PatternEntry} (h : StandsAt s a i x g e) :
    g = s.registration (s.registered.take i) x := by
  have hg := h.registration
  rw [Registry.ofSetting_eq, Setting.getElem?_registrations, h.component] at hg
  exact (Option.some.inj hg).symm

theorem StandsAt.describes (ha : r.Analyzed root s a) {i : Nat} {x : Listing} {g : Registration} {e : PatternEntry}
    (h : StandsAt s a i x g e) : Describes s (s.registered.take i) x e := by
  have he := h.entry
  rw [ha.patterns, List.getElem?_map, h.registration, Option.map_some, h.registration_eq] at he
  rw [← Option.some.inj he]
  exact describes_registration r s _ _ _ x

theorem Analyzed.exists_standsAt (ha : r.Analyzed root s a) {i : Nat} {e : PatternEntry} (he : a.patterns[i]? = some e) :
    ∃ x g, StandsAt s a i x g e := by
  have hg := he
  rw [ha.patterns, List.getElem?_map, Option.map_eq_some_iff] at hg
  obtain ⟨g, hg, -⟩ := hg
  have hx := hg
  rw [Registry.ofSetting_eq, Setting.getElem?_registrations, Option.map_eq_some_iff] at hx
  obtain ⟨x, hx, -⟩ := hx
  exact ⟨x, g, hx, hg, he⟩

theorem Analyzed.exists_standsAt_of_registered (ha : r.Analyzed root s a) {i : Nat} {x : Listing}
    (hx : s.registered[i]? = some x) : ∃ g e, StandsAt s a i x g e := by
  have hg : (Registry.ofSetting s)[i]? = some (s.registration (s.registered.take i) x) := by
    rw [Registry.ofSetting_eq, Setting.getElem?_registrations, hx]
    rfl
  exact ⟨_, _, hx, hg, by rw [ha.patterns, List.getElem?_map, hg]; rfl⟩

theorem registered_split {i : Nat} {x : Listing} (hx : s.registered[i]? = some x) :
    s.registered = s.registered.take i ++ x :: s.registered.drop (i + 1) := by
  obtain ⟨hi, rfl⟩ := List.getElem?_eq_some_iff.mp hx
  rw [← List.drop_eq_getElem_cons hi, List.take_append_drop]

namespace StandsAt

variable {i : Nat} {x : Listing} {g : Registration} {e : PatternEntry}

theorem entry_mem (hat : StandsAt s a i x g e) : e ∈ a.patterns := List.mem_of_getElem? hat.entry

theorem listing_mem (hat : StandsAt s a i x g e) : x ∈ s.registered := List.mem_of_getElem? hat.component

theorem lists (hat : StandsAt s a i x g e) (ha : r.Analyzed root s a) : Lists s x e :=
  (hat.describes ha).lists ha.membersApart (registered_split hat.component)

end StandsAt

/-! ## Shared properties -/

/-- The property that a pattern refers to is listed by the first pattern that has the member. -/
theorem Analyzed.exists_first (ha : r.Analyzed root s a) {i : Nat} {x : Listing} (hx : s.registered[i]? = some x)
    {m : MemberRef} (hm : m ∈ s.propertyMembers x.2) :
    ∃ j y g f n, j ≤ i ∧ StandsAt s a j y g f ∧ n ∈ s.propertyMembers y.2 ∧ n.key = m.key ∧
      Property.ofMember s.library s.ids (s.patternId y.2) n ∈ f.properties ∧ s.mintedId y.2 n = s.memberId m.key := by
  have hapart := ha.membersApart
  have hxs := registered_split hx
  -- The owner among the components up to this one; this one has the member itself.
  have howner : s.ownerId? (s.registered.take i ++ [x]) m.key = some (s.memberId m.key) := by
    rw [s.ownerId?_append, ← Setting.memberId_eq hapart hxs hm, Setting.ownerId?, Setting.ownerId?, List.findSome?_cons,
      Setting.memberAt?_of_mem hapart (hxs ▸ List.mem_append_right _ List.mem_cons_self) hm]
    cases (s.registered.take i).findSome? _ <;> rfl
  obtain ⟨before, y, after, n, hsplit, hnone, hn, hid⟩ := s.ownerId?_eq_some howner
  obtain ⟨hn, hkey⟩ := s.memberAt?_some hn
  have hlength := congrArg List.length hsplit
  simp only [List.length_append, List.length_cons, List.length_nil] at hlength
  have hregistered : s.registered = before ++ y :: (after ++ s.registered.drop (i + 1)) := by
    conv_lhs => rw [hxs]
    rw [List.append_cons, hsplit, List.append_assoc, List.cons_append]
  have hy : s.registered[before.length]? = some y := by
    rw [hregistered, List.getElem?_append_right (Nat.le_refl _), Nat.sub_self]
    rfl
  have htake : s.registered.take before.length = before := by
    rw [hregistered, List.take_left']
    rfl
  obtain ⟨g, f, hat⟩ := ha.exists_standsAt_of_registered hy
  refine ⟨before.length, y, g, f, n, ?_, hat, hn, hkey, ?_, hid⟩
  · have hle := List.length_take_le i s.registered
    omega
  · rw [(hat.describes ha).properties, htake]
    exact List.mem_map_of_mem (List.mem_filter.mpr ⟨hn, by rw [hkey, hnone]; rfl⟩)

/-- Whether the members of a run become properties once each, and every pattern refers to them so. -/
structure SharesProperties (s : Setting) (a : Analysis) : Prop where
  /-- Every pattern of the analysis is that of a registered component. -/
  stands : ∀ (i : Nat) (e : PatternEntry), a.patterns[i]? = some e → ∃ x g, StandsAt s a i x g e
  properties : ∀ i x g e, StandsAt s a i x g e → e.properties = g.build.properties
  /-- Each new property goes with a key, and over the whole run none of these is there twice. -/
  parallel : ∀ g ∈ Registry.ofSetting s, g.build.minted.length = g.build.properties.length
  once : ((Registry.ofSetting s).flatMap (·.build.minted)).Nodup
  /-- A member is a new property of the first component that has it as a property. -/
  first : ∀ i x g e, StandsAt s a i x g e → ∀ key p, (key, p) ∈ g.build.minted.zip g.build.properties ↔
    ∃ m ∈ s.propertyMembers x.2, m.key = key ∧ p = Property.ofMember s.library s.ids (s.patternId x.2) m ∧
      ∀ j y, j < i → s.registered[j]? = some y → ∀ n ∈ s.propertyMembers y.2, n.key ≠ key
  /-- What a pattern refers to is listed by it or by a pattern before it. -/
  listed : ∀ (i : Nat) (e : PatternEntry), a.patterns[i]? = some e → ∀ id ∈ e.pattern.propertyIds,
    ∃ (j : Nat) (f : PatternEntry), j ≤ i ∧ a.patterns[j]? = some f ∧ ∃ p ∈ f.properties, p.id = id
  /-- Patterns that have a member refer to it by one id. -/
  oneId : ∃ idOf : MemberKey → String, ∀ i x g e, StandsAt s a i x g e →
    e.pattern.propertyIds = (s.propertyMembers x.2).map fun m => idOf m.key
  /-- Every id of a pattern is found. -/
  found : ∀ e ∈ a.patterns, (a.propertiesOf e.pattern).length = e.pattern.propertyIds.length

theorem properties_shared (h : r.analyze root = .ok a) : ∃ s, r.settingAt root = .ok s ∧ SharesProperties s a := by
  obtain ⟨s, hs⟩ := analyze_ok h
  have hapart := hs.membersApart
  refine ⟨s, hs.setting, ?_⟩
  constructor
  case stands => exact fun i e he => hs.exists_standsAt he
  case properties =>
    intro i x g e hat
    have he := hat.entry
    rw [hs.patterns, List.getElem?_map, hat.registration, Option.map_some] at he
    rw [← Option.some.inj he]
    rfl
  case parallel =>
    intro g hg
    rw [Registry.ofSetting_eq] at hg
    obtain ⟨before, x, -, -, rfl⟩ := s.mem_registrations.mp hg
    exact s.length_minted _ x.2
  case once =>
    rw [Registry.ofSetting_eq]
    exact (Setting.newKeys_nodup hapart fun x hx => hx).1
  case first =>
    intro i x g e hat key p
    have htake : (∀ y ∈ s.registered.take i, ∀ n ∈ s.propertyMembers y.2, n.key ≠ key) ↔
        ∀ j y, j < i → s.registered[j]? = some y → ∀ n ∈ s.propertyMembers y.2, n.key ≠ key := by
      constructor
      · intro hbefore j y hj hy
        obtain ⟨hlength, rfl⟩ := List.getElem?_eq_some_iff.mp hy
        exact hbefore _ (List.mem_take_iff_getElem.mpr ⟨j, Nat.lt_min.mpr ⟨hj, hlength⟩, rfl⟩)
      · intro hbefore y hy
        obtain ⟨j, hj, rfl⟩ := List.mem_take_iff_getElem.mp hy
        exact hbefore j _ (Nat.lt_min.mp hj).1 (List.getElem?_eq_getElem _)
    have hnew : (key, p) ∈ (s.registration (s.registered.take i) x).build.newProperties ↔ _ := Setting.mem_new_iff
    rw [← hat.registration_eq, htake] at hnew
    exact hnew
  case listed =>
    intro i e he id hid
    obtain ⟨x, g, hat⟩ := hs.exists_standsAt he
    have hlists := (hat.describes hs).lists hapart (registered_split hat.component)
    rw [hlists.propertyIds] at hid
    obtain ⟨m, hm, rfl⟩ := List.mem_map.mp hid
    obtain ⟨j, y, _, f, n, hj, hfirst, -, -, hp, hminted⟩ := hs.exists_first hat.component hm
    exact ⟨j, f, hj, hfirst.entry, _, hp, hminted⟩
  case oneId =>
    refine ⟨s.memberId, fun i x g e hat => ?_⟩
    exact ((hat.describes hs).lists hapart (registered_split hat.component)).propertyIds
  case found =>
    intro e he
    rw [Analysis.propertiesOf, List.filterMap_length_eq_length]
    intro id hid
    obtain ⟨p, hp, rfl⟩ := hs.assigned.listed e he id hid
    obtain ⟨q, hq⟩ := Analysis.exists_property? hp
    rw [hq]
    rfl

/-- Two components share a props type; the first lists its one member, and both refer to it. -/
theorem sharing_properties_shared : ∃ a s, sharing.analyze ⟨"/lib"⟩ = .ok a ∧ sharing.settingAt ⟨"/lib"⟩ = .ok s ∧
    Identity.Previous.ofAnalysis a = sharingIds ∧ SharesProperties s a := by
  obtain ⟨a, ha, hids, -⟩ := sharing_analysis
  obtain ⟨s, hs, hshares⟩ := properties_shared ha
  exact ⟨a, s, ha, hs, hids, hshares⟩

end Run

end PatternCatalog
