/-
  PatternCatalog.Proofs.Growth.Ids — which ids survive the growth of a library.

  The earlier version is analyzed with fresh ids and the later one, which keeps it and adds
  components, with the ids of the first. Every pattern is found again with its id and the ids of
  its slots (`keepsPattern`). A property, however, is given its id by the first pattern that has
  the member, and in the later version that may be a new component, which the tables of the
  earlier one know nothing of:
  - `keepsIds_iff`: all ids of properties and enum options are kept exactly when no new
    component is the first to list a property that a pattern of the earlier version refers to.
-/

import PatternCatalog.Proofs.Declaration
import PatternCatalog.Proofs.Growth.Components
import PatternCatalog.Proofs.Growth.Kinds
import PatternCatalog.Proofs.Identity.Shared

namespace PatternCatalog

open Identity (Previous Strategy join nested)
open Library (MemberRef)

/-! ## What is kept -/

/-- A pattern of `a` that is found again with its id and the ids of its slots. -/
structure KeepsPattern (e e' : PatternEntry) : Prop where
  contextId : e'.pattern.contextId = e.pattern.contextId
  id : e'.pattern.id = e.pattern.id
  slots : ∀ t ∈ e.pattern.slots, ∃ t' ∈ e'.pattern.slots, t'.contextId = t.contextId ∧ t'.id = t.id

/-- A property with its options that is found again with their ids. -/
structure KeepsProperty (p p' : Property) : Prop where
  contextId : p'.contextId = p.contextId
  id : p'.id = p.id
  options : ∀ o ∈ p.kind.options, ∃ o' ∈ p'.kind.options, o'.contextId = o.contextId ∧ o'.id = o.id

/-- Each pattern of `a` is one of `b` and refers there to its properties by the ids it had. -/
def KeepsIds (a b : Analysis) : Prop :=
  ∀ e ∈ a.patterns, ∃ e' ∈ b.patterns, KeepsPattern e e' ∧
    ∀ p ∈ a.propertiesOf e.pattern, ∃ p' ∈ b.propertiesOf e'.pattern, KeepsProperty p p'

/-- A pattern that is new in `b` lists as new a property that a pattern of `a` refers to. -/
def NewOwner (a b : Analysis) : Prop :=
  ∃ f ∈ b.patterns, f.pattern.contextId ∉ a.patterns.map (·.pattern.contextId) ∧
    ∃ e ∈ b.patterns, e.pattern.contextId ∈ a.patterns.map (·.pattern.contextId) ∧
      ∃ p ∈ f.properties, p.id ∈ e.pattern.propertyIds

namespace Run

/-- A run with fresh ids, and one with its ids on a library that has grown. -/
structure Grown (P : Placement) (d : Digest) (r r' : Run) (root root' : Path) (s s' : Setting) (a b : Analysis) : Prop where
  before : r.Analyzed root s a
  after : r'.Analyzed root' s' b
  ids : s.ids = .fresh d
  ids' : s'.ids = (Previous.ofAnalysis a).strategy d
  reanalyzed : Reanalyzed d a b
  grows : s.Grows P s'

namespace Grown

variable {P : Placement} {d : Digest} {r r' : Run} {root root' : Path} {s s' : Setting} {a b : Analysis}
variable (h : Grown P d r r' root root' s s' a b)

include h

theorem apart : s.library.MembersApart := h.before.membersApart

theorem apart' : s'.library.MembersApart := h.after.membersApart

/-! ## Patterns -/

theorem names_before : ∀ p ∈ a.properties, ∀ q ∈ a.properties, p.id = q.id → p.contextId = q.contextId := by
  intro p hp q hq hid
  obtain ⟨e, he, hp⟩ := List.mem_flatMap.mp hp
  obtain ⟨f, hf, hq⟩ := List.mem_flatMap.mp hq
  exact (h.reanalyzed.of_id_eq_before he hp hf hq hid).2

theorem names_after : ∀ p ∈ b.properties, ∀ q ∈ b.properties, p.id = q.id → p.contextId = q.contextId := by
  intro p hp q hq hid
  obtain ⟨e, he, hp⟩ := List.mem_flatMap.mp hp
  obtain ⟨f, hf, hq⟩ := List.mem_flatMap.mp hq
  exact (h.reanalyzed.of_id_eq he hp hf hq hid).1

omit h in
/-- Registered components of one context id are one where context ids differ. -/
theorem eq_of_contextId {r : Run} {s : Setting} {a : Analysis} (h : r.Analyzed root s a)
    (hn : (a.patterns.map (·.pattern.contextId)).Nodup) {x y : Listing} (hx : x ∈ s.registered) (hy : y ∈ s.registered)
    (hcontext : s.componentContextId x.2 = s.componentContextId y.2) : x = y := by
  rw [h.contextIds] at hn
  exact List.inj_on_of_nodup_map hn hx hy hcontext

/-- The entry of a kept component in the later version. -/
theorem exists_kept {x : Listing} {e : PatternEntry} (hlists : Lists s x e) :
    ∃ c' e', e' ∈ b.patterns ∧ Lists s' (c', P.component x.2) e' ∧ e'.pattern.contextId = e.pattern.contextId := by
  obtain ⟨c', hx', -⟩ := h.grows.exists_registered hlists.registered
  obtain ⟨e', he', hlists'⟩ := h.after.exists_lists_of_registered h.apart' hx'
  refine ⟨c', e', he', hlists', ?_⟩
  rw [hlists'.contextId, hlists.contextId, ← h.grows.componentContextId_place hlists.registered]

/-- A component of the later version whose context id is not new is a kept one. -/
theorem kept_of_contextId {y' : Listing} {f' : PatternEntry} (hlists' : Lists s' y' f')
    (hold : f'.pattern.contextId ∈ a.patterns.map (·.pattern.contextId)) :
    ∃ y f, f ∈ a.patterns ∧ Lists s y f ∧ f.pattern.contextId = f'.pattern.contextId ∧ y'.2 = P.component y.2 := by
  obtain ⟨f, hf, hcontext⟩ := List.mem_map.mp hold
  obtain ⟨y, hlists⟩ := h.before.exists_lists h.apart hf
  obtain ⟨c', f'', -, hlists'', hcontext'⟩ := h.exists_kept hlists
  have hsame : s'.componentContextId y'.2 = s'.componentContextId (P.component y.2) := by
    rw [← hlists'.contextId, ← hcontext, ← hcontext', hlists''.contextId]
  have hy' := eq_of_contextId h.after h.reanalyzed.distinct' hlists'.registered hlists''.registered hsame
  exact ⟨y, f, hf, hlists, hcontext, by rw [hy']⟩

variable {x x' : Listing} {e e' : PatternEntry}

theorem id_place (he : e ∈ a.patterns) (he' : e' ∈ b.patterns) (hlists : Lists s x e) (hlists' : Lists s' x' e')
    (hx' : x'.2 = P.component x.2) : e'.pattern.id = e.pattern.id := by
  rw [h.reanalyzed.id_after he', h.reanalyzed.id_before he, hlists'.contextId, hlists.contextId, hx',
    h.grows.componentContextId_place hlists.registered]

theorem slots_place (he : e ∈ a.patterns) (he' : e' ∈ b.patterns) (hlists : Lists s x e) (hlists' : Lists s' x' e')
    (hx' : x'.2 = P.component x.2) :
    e'.pattern.slots.map (fun t => (t.contextId, t.id)) = e.pattern.slots.map fun t => (t.contextId, t.id) := by
  have hnames : s'.slotNames x'.2 = s.slotNames x.2 := by rw [hx', h.grows.slotNames_place hlists.registered]
  have hid := h.id_place he he' hlists hlists' hx'
  rw [hlists'.slots, hlists.slots, hnames, ← hlists'.id, ← hlists.id, hid, h.ids, h.ids']
  refine List.map_congr_left fun name _ => ?_
  rw [strategy_slot h.reanalyzed.before]
  rfl

theorem keepsPattern (he : e ∈ a.patterns) (he' : e' ∈ b.patterns) (hlists : Lists s x e) (hlists' : Lists s' x' e')
    (hx' : x'.2 = P.component x.2) : KeepsPattern e e' where
  contextId := by rw [hlists'.contextId, hlists.contextId, hx', h.grows.componentContextId_place hlists.registered]
  id := h.id_place he he' hlists hlists' hx'
  slots := by
    intro t ht
    have hpair := List.mem_map_of_mem (f := fun t : Slot => (t.contextId, t.id)) ht
    rw [← h.slots_place he he' hlists hlists' hx'] at hpair
    obtain ⟨t', ht', heq⟩ := List.mem_map.mp hpair
    obtain ⟨hcontext, hid⟩ := Prod.mk.inj heq
    exact ⟨t', ht', hcontext, hid⟩

/-! ## Members -/

/-- Properties of one id come from one member. -/
theorem key_of_id_before {y z : Listing} {f g : PatternEntry} (hf : f ∈ a.patterns) (hg : g ∈ a.patterns)
    (hy : Lists s y f) (hz : Lists s z g) {m n : MemberRef} (hm : m ∈ s.propertyMembers y.2)
    (hn : n ∈ s.propertyMembers z.2) (hp : Property.ofMember s.library s.ids (s.patternId y.2) m ∈ f.properties)
    (hq : Property.ofMember s.library s.ids (s.patternId z.2) n ∈ g.properties)
    (hid : s.mintedId y.2 m = s.mintedId z.2 n) : y = z ∧ m = n := by
  obtain ⟨hcontext, hname⟩ := h.reanalyzed.of_id_eq_before hf hp hg hq hid
  rw [hy.contextId, hz.contextId] at hcontext
  obtain rfl := eq_of_contextId h.before h.reanalyzed.distinct hy.registered hz.registered hcontext
  exact ⟨rfl, List.inj_on_of_nodup_map (s.propertyMembers_nodup y.2) hm hn hname⟩

theorem memberId_inj {y : Listing} (hx : x ∈ s.registered) (hy : y ∈ s.registered) {m n : MemberRef}
    (hm : m ∈ s.propertyMembers x.2) (hn : n ∈ s.propertyMembers y.2) (hid : s.memberId m.key = s.memberId n.key) :
    m.key = n.key := by
  obtain ⟨u, f, hf, hu, k, hk, hkey, hp, hminted⟩ := h.before.exists_owner h.apart hx hm
  obtain ⟨v, g, hg, hv, j, hj, hkey', hq, hminted'⟩ := h.before.exists_owner h.apart hy hn
  obtain ⟨-, rfl⟩ := h.key_of_id_before hf hg hu hv hk hj hp hq (hminted.trans (hid.trans hminted'.symm))
  rw [← hkey, hkey']

/-- A listed property of the earlier version comes from the member that has its id. -/
theorem property_before (hx : x ∈ s.registered) {m : MemberRef} (hm : m ∈ s.propertyMembers x.2) {q : Property}
    (hq : q ∈ a.properties) (hid : q.id = s.memberId m.key) :
    ∃ y ∈ s.registered, ∃ n ∈ s.propertyMembers y.2, n.key = m.key ∧
      q = Property.ofMember s.library s.ids (s.patternId y.2) n := by
  obtain ⟨g, hg, hqg⟩ := List.mem_flatMap.mp hq
  obtain ⟨z, hz⟩ := h.before.exists_lists h.apart hg
  obtain ⟨j, hj, rfl⟩ := hz.properties q hqg
  obtain ⟨u, f, hf, hu, k, hk, hkey, hp, hminted⟩ := h.before.exists_owner h.apart hx hm
  obtain ⟨-, rfl⟩ := h.key_of_id_before hf hg hu hz hk hj hp hqg (hminted.trans hid.symm)
  exact ⟨z, hz.registered, k, hj, hkey, rfl⟩

/-- A member of a component that is not new was a member of it, and its id is in the tables. -/
theorem kept_member {f' : PatternEntry} (hlists' : Lists s' x' f')
    (hold : f'.pattern.contextId ∈ a.patterns.map (·.pattern.contextId)) {m' : MemberRef}
    (hm' : m' ∈ s'.propertyMembers x'.2) : ∃ y ∈ s.registered, ∃ m ∈ s.propertyMembers y.2, m' = P.memberRef m ∧
      a.propertyId? f'.pattern.contextId m'.name = some (s.memberId m.key) := by
  obtain ⟨y, f, hf, hlists, hcontext, hy⟩ := h.kept_of_contextId hlists' hold
  rw [hy, h.grows.propertyMembers_place hlists.registered] at hm'
  obtain ⟨m, hm, rfl⟩ := List.mem_map.mp hm'
  refine ⟨y, hlists.registered, m, hm, rfl, ?_⟩
  rw [← hcontext, Placement.memberRef_name]
  exact h.before.propertyId?_of_lists h.apart h.names_before h.reanalyzed.distinct hf hlists hm

/-- So does a listed property of the later version, for a member that is kept. -/
theorem property_after (hx : x ∈ s.registered) {m : MemberRef} (hm : m ∈ s.propertyMembers x.2) {q : Property}
    (hq : q ∈ b.properties) (hid : q.id = s'.memberId (P.memberKey m.key)) :
    ∃ y' ∈ s'.registered, ∃ n' ∈ s'.propertyMembers y'.2, n'.key = P.memberKey m.key ∧
      q = Property.ofMember s'.library s'.ids (s'.patternId y'.2) n' := by
  obtain ⟨c', hx', -⟩ := h.grows.exists_registered hx
  have hm' : P.memberRef m ∈ s'.propertyMembers (P.component x.2) := by
    rw [h.grows.propertyMembers_place hx]
    exact List.mem_map_of_mem hm
  obtain ⟨g, hg, hqg⟩ := List.mem_flatMap.mp hq
  obtain ⟨z', hz'⟩ := h.after.exists_lists h.apart' hg
  obtain ⟨j', hj', rfl⟩ := hz'.properties q hqg
  obtain ⟨u', f, hf, hu', k', hk', hkey, hp, hminted⟩ := h.after.exists_owner h.apart' hx' hm'
  refine ⟨z', hz'.registered, j', hj', ?_, rfl⟩
  obtain ⟨hname, hcontext | ⟨id, hkid, hjid⟩⟩ := h.reanalyzed.of_id_eq hf hp hg hqg (hminted.trans hid.symm)
  · rw [hu'.contextId, hz'.contextId] at hcontext
    obtain rfl := eq_of_contextId h.after h.reanalyzed.distinct' hu'.registered hz'.registered hcontext
    obtain rfl : k' = j' := List.inj_on_of_nodup_map (s'.propertyMembers_nodup u'.2) hk' hj' hname
    exact hkey
  · obtain ⟨y, hy, k, hk, rfl, hkid'⟩ := h.kept_member hu' (Analysis.contextId_mem_of_propertyId? hkid) hk'
    obtain ⟨z, hz, j, hj, rfl, hjid'⟩ := h.kept_member hz' (Analysis.contextId_mem_of_propertyId? hjid) hj'
    have hshared : s.memberId k.key = s.memberId j.key :=
      Option.some.inj (hkid'.symm.trans (hkid.trans (hjid.symm.trans hjid')))
    calc (P.memberRef j).key = P.memberKey k.key := congrArg P.memberKey (h.memberId_inj hy hz hk hj hshared).symm
      _ = P.memberKey m.key := hkey

/-! ## Ids of properties -/

/-- The id of a kept member is kept, unless the pattern that gives it is new. -/
theorem memberId_place (hnew : ¬ NewOwner a b) (he : e ∈ a.patterns) (hlists : Lists s x e) {m : MemberRef}
    (hm : m ∈ s.propertyMembers x.2) : s'.memberId (P.memberKey m.key) = s.memberId m.key := by
  obtain ⟨c', e', he', hlists', hcontext⟩ := h.exists_kept hlists
  have hm' : P.memberRef m ∈ s'.propertyMembers (P.component x.2) := by
    rw [h.grows.propertyMembers_place hlists.registered]
    exact List.mem_map_of_mem hm
  obtain ⟨u', f, hf, hu', k', hk', hkey, hp, hminted⟩ := h.after.exists_owner h.apart' hlists'.registered hm'
  have hold : f.pattern.contextId ∈ a.patterns.map (·.pattern.contextId) := by
    by_contra hnot
    refine hnew ⟨f, hf, hnot, e', he', hcontext ▸ List.mem_map_of_mem he, _, hp, ?_⟩
    rw [hlists'.propertyIds]
    exact List.mem_map.mpr ⟨P.memberRef m, hm', hminted.symm⟩
  obtain ⟨y, -, k, -, rfl, hkid⟩ := h.kept_member hu' hold hk'
  have hafter : s'.mintedId u'.2 (P.memberRef k) = (a.propertyId? f.pattern.contextId (P.memberRef k).name).getD _ :=
    h.reanalyzed.property_after hf hp
  rw [hkid, Option.getD_some] at hafter
  have hkm : k.key = m.key := Placement.memberKey_inj hkey
  calc s'.memberId (P.memberKey m.key) = s'.mintedId u'.2 (P.memberRef k) := hminted.symm
    _ = s.memberId k.key := hafter
    _ = s.memberId m.key := by rw [hkm]

/-- The names and ids of the properties of a kept pattern. -/
theorem propertiesOf_place (hlists : Lists s x e) (hlists' : Lists s' x' e') (hx' : x'.2 = P.component x.2) :
    (b.propertiesOf e'.pattern).map (fun p => (p.contextId, p.id)) =
      (s.propertyMembers x.2).map fun m => (m.name, s'.memberId (P.memberKey m.key)) := by
  rw [h.after.propertiesOf_pairs h.apart' h.names_after hlists', hx', h.grows.propertyMembers_place hlists.registered,
    List.map_map]
  rfl

/-- A property of the earlier version is an enum of the same options in the later one. -/
theorem keepsProperty (hx : x ∈ s.registered) {m : MemberRef} (hm : m ∈ s.propertyMembers x.2) {p p' : Property}
    (hp : p ∈ a.properties) (hid : p.id = s.memberId m.key) (hp' : p' ∈ b.properties)
    (hid' : p'.id = s'.memberId (P.memberKey m.key)) (hsame : p'.id = p.id) : KeepsProperty p p' := by
  obtain ⟨y, hy, n, hn, hkey, rfl⟩ := h.property_before hx hm hp hid
  obtain ⟨y', hy', n', hn', hkey', rfl⟩ := h.property_after hx hm hp' hid'
  obtain ⟨c', hkept, -⟩ := h.grows.exists_registered hy
  have hn'' : P.memberRef n ∈ s'.propertyMembers (P.component y.2) := by
    rw [h.grows.propertyMembers_place hy]
    exact List.mem_map_of_mem hn
  have hplace : n'.key = (P.memberRef n).key := hkey'.trans (congrArg P.memberKey hkey.symm)
  have hmember : n'.member = n.member.moved (P.start n.file) :=
    h.apart' n' (P.memberRef n) (Setting.declared_of_property hy' hn') (Setting.declared_of_property hkept hn'') hplace
  have hfile : n'.file = (P.memberRef n).file := congrArg MemberKey.file hplace
  have hname : n'.member.name = n.member.name := by rw [hmember]; rfl
  have hdoc : n'.member.doc = n.member.doc := by rw [hmember]; rfl
  refine ⟨hname, hsame, fun o ho => ⟨o, ?_, rfl, rfl⟩⟩
  have hid : s'.mintedId y'.2 n' = s.mintedId y.2 n := hsame
  change o ∈ (PropertyKind.ofMember s.library s.ids (s.mintedId y.2 n) n (Doc.parse? n.member.doc)).options at ho
  change o ∈ (PropertyKind.ofMember s'.library s'.ids (s'.mintedId y'.2 n') n' (Doc.parse? n'.member.doc)).options
  rw [PropertyKind.ofMember_congr hfile hmember, hid, hdoc]
  cases hkind : PropertyKind.ofMember s.library s.ids (s.mintedId y.2 n) n (Doc.parse? n.member.doc) with
  | enum options =>
    rw [hkind] at ho
    obtain ⟨members, rfl, hall⟩ :=
      PropertyKind.ofMember_enum h.grows.library (Setting.declared_of_property hy hn) _ hkind
    have hoptions : EnumOption.ofMembers ((Previous.ofAnalysis a).strategy d) (s.mintedId y.2 n) members =
        EnumOption.ofMembers (.fresh d) (s.mintedId y.2 n) members :=
      EnumOption.ofMembers_congr fun o ho =>
        (strategy_enumOption h.reanalyzed.before _ o.contextId).trans (EnumOption.id_of_mem ho).symm
    rw [hall s'.ids (s.mintedId y.2 n), h.ids', hoptions, ← h.ids]
    exact ho
  | _ => rw [hkind] at ho; cases ho

/-- Everything a pattern refers to is kept, unless a pattern that gives an id is new. -/
theorem keepsIds_of_no_newOwner (hnew : ¬ NewOwner a b) : KeepsIds a b := by
  intro e he
  obtain ⟨x, hlists⟩ := h.before.exists_lists h.apart he
  obtain ⟨c', e', he', hlists', -⟩ := h.exists_kept hlists
  refine ⟨e', he', h.keepsPattern he he' hlists hlists' rfl, fun p hp => ?_⟩
  have hpair := List.mem_map_of_mem (f := fun p : Property => (p.contextId, p.id)) hp
  rw [h.before.propertiesOf_pairs h.apart h.names_before hlists] at hpair
  obtain ⟨m, hm, heq⟩ := List.mem_map.mp hpair
  obtain ⟨-, hid⟩ := Prod.mk.inj heq
  have hpair' : (m.name, s'.memberId (P.memberKey m.key)) ∈
      (b.propertiesOf e'.pattern).map fun p => (p.contextId, p.id) := by
    rw [h.propertiesOf_place hlists hlists' rfl]
    exact List.mem_map.mpr ⟨m, hm, rfl⟩
  obtain ⟨p', hp', heq'⟩ := List.mem_map.mp hpair'
  obtain ⟨-, hid'⟩ := Prod.mk.inj heq'
  have hsame : p'.id = p.id := by rw [hid', ← hid, h.memberId_place hnew he hlists hm]
  obtain ⟨_, -, hfound⟩ := Analysis.mem_propertiesOf.mp hp
  obtain ⟨_, -, hfound'⟩ := Analysis.mem_propertiesOf.mp hp'
  exact ⟨p', hp', h.keepsProperty hlists.registered hm (Analysis.property?_some hfound).1 hid.symm
    (Analysis.property?_some hfound').1 hid' hsame⟩

/-- A new owner gives a shared property an id that it did not have. -/
theorem no_newOwner_of_keepsIds (hkeeps : KeepsIds a b) : ¬ NewOwner a b := by
  rintro ⟨f, hf, hnew, e', he', hold, p, hp, hrefers⟩
  obtain ⟨e, he, hcontext⟩ := List.mem_map.mp hold
  obtain ⟨e'', he'', hpattern, hproperties⟩ := hkeeps e he
  obtain ⟨x, hlists⟩ := h.before.exists_lists h.apart he
  obtain ⟨c', e₀, he₀, hlists', hcontext'⟩ := h.exists_kept hlists
  have hinj := List.inj_on_of_nodup_map h.reanalyzed.distinct'
  obtain rfl : e'' = e' := hinj he'' he' (hpattern.contextId.trans hcontext)
  obtain rfl : e₀ = e'' := hinj he₀ he'' (hcontext'.trans hpattern.contextId.symm)
  -- The member that the new pattern lists, and the property that it was.
  rw [hlists'.propertyIds, h.grows.propertyMembers_place hlists.registered, List.map_map] at hrefers
  obtain ⟨m, hm, hid⟩ := List.mem_map.mp hrefers
  have hpair : (m.name, s.memberId m.key) ∈ (a.propertiesOf e.pattern).map fun p => (p.contextId, p.id) := by
    rw [h.before.propertiesOf_pairs h.apart h.names_before hlists]
    exact List.mem_map.mpr ⟨m, hm, rfl⟩
  obtain ⟨q, hq, heq⟩ := List.mem_map.mp hpair
  obtain ⟨q', hq', hkept⟩ := hproperties q hq
  have hpair' := List.mem_map_of_mem (f := fun p : Property => (p.contextId, p.id)) hq'
  rw [h.propertiesOf_place hlists hlists' rfl] at hpair'
  obtain ⟨n, hn, heq'⟩ := List.mem_map.mp hpair'
  have hname : n.name = m.name := by
    rw [(Prod.mk.inj heq').1, hkept.contextId, (Prod.mk.inj heq).1]
  obtain rfl := List.inj_on_of_nodup_map (s.propertyMembers_nodup x.2) hn hm hname
  have hsame : p.id = q.id := by
    rw [← hkept.id, ← (Prod.mk.inj heq').2]
    exact hid.symm
  have hnone : a.propertyId? f.pattern.contextId p.contextId = none := by
    cases hsome : a.propertyId? f.pattern.contextId p.contextId with
    | none => rfl
    | some id => exact absurd (Analysis.contextId_mem_of_propertyId? hsome) hnew
  have hfresh := h.reanalyzed.property_after hf hp
  rw [hnone, Option.getD_none, hsame] at hfresh
  obtain ⟨_, -, hfound⟩ := Analysis.mem_propertiesOf.mp hq
  exact h.reanalyzed.not_fresh hf hp hnone (Analysis.property?_some hfound).1 hfresh.symm

theorem keepsIds_iff : KeepsIds a b ↔ ¬ NewOwner a b :=
  ⟨h.no_newOwner_of_keepsIds, h.keepsIds_of_no_newOwner⟩

/-- Patterns and slots keep their ids in any case. -/
theorem exists_keepsPattern (he : e ∈ a.patterns) : ∃ e' ∈ b.patterns, KeepsPattern e e' := by
  obtain ⟨x, hlists⟩ := h.before.exists_lists h.apart he
  obtain ⟨c', e', he', hlists', -⟩ := h.exists_kept hlists
  exact ⟨e', he', h.keepsPattern he he' hlists hlists' rfl⟩

end Grown

/-! ## Runs -/

section Runs

variable {P : Placement} {r r' : Run} {root root' : Path} {s s' : Setting} {a b : Analysis}

theorem grown (hids : r.ids = .fresh .sha256) (h : r.analyze root = .ok a)
    (hids' : r'.ids = (Previous.ofAnalysis a).strategy .sha256) (h' : r'.analyze root' = .ok b)
    (hs : r.settingAt root = .ok s) (hs' : r'.settingAt root' = .ok s') (hgrows : s.Grows P s')
    (hn : (a.patterns.map (·.pattern.contextId)).Nodup) (hn' : (b.patterns.map (·.pattern.contextId)).Nodup)
    (hd : Digest.sha256.Separates (a.digested ++ b.digested)) : Grown P .sha256 r r' root root' s s' a b := by
  obtain ⟨t, ht⟩ := analyze_ok h
  obtain ⟨t', ht'⟩ := analyze_ok h'
  obtain rfl := Except.ok.inj (hs.symm.trans ht.setting)
  obtain rfl := Except.ok.inj (hs'.symm.trans ht'.setting)
  exact ⟨ht, ht', ht.ids_eq.trans hids, ht'.ids_eq.trans hids', reanalyzed hids h hids' h' hn hn' hd, hgrows⟩

/-- When a library grows, all ids survive exactly when no new component is the first to list a
property of a kept one; those of patterns and slots survive in any case. -/
theorem grown_keepsIds_iff (hids : r.ids = .fresh .sha256) (h : r.analyze root = .ok a)
    (hids' : r'.ids = (Previous.ofAnalysis a).strategy .sha256) (h' : r'.analyze root' = .ok b)
    (hs : r.settingAt root = .ok s) (hs' : r'.settingAt root' = .ok s') (hgrows : s.Grows P s')
    (hn : (a.patterns.map (·.pattern.contextId)).Nodup) (hn' : (b.patterns.map (·.pattern.contextId)).Nodup)
    (hd : Digest.sha256.Separates (a.digested ++ b.digested)) :
    (∀ e ∈ a.patterns, ∃ e' ∈ b.patterns, KeepsPattern e e') ∧ (KeepsIds a b ↔ ¬ NewOwner a b) := by
  have hgrown := grown hids h hids' h' hs hs' hgrows hn hn' hd
  exact ⟨fun e he => hgrown.exists_keepsPattern he, hgrown.keepsIds_iff⟩

end Runs

/-! ## A component that comes first -/

/-- The library of two components after a third with the same props type was put before them. -/
def cardedFiles : List (Path × String) :=
  [(⟨"/lib/package.json"⟩, "\x7b\x7d"),
   (⟨"/lib/index.d.ts"⟩, "export interface Props \x7b label: string; \x7d\n" ++
      "export declare const Card: React.FC<Props>;\nexport declare const Button: React.FC<Props>;\n" ++
      "export declare const Badge: React.FC<Props>;\n"),
   (⟨"/lib/index.js"⟩, "")]

def carded (ids : Previous) : Run where
  digest := .sha256
  ids := ids.strategy .sha256
  fs := .memory cardedFiles

/-- A component with the shared props type, by its name and where it starts. -/
def propsComponent (c : String × Nat) : Declaration :=
  ⟨c.1, c.2, none, .variable (some (.reference none ["React", "FC"] [.reference none ["Props"] []]))⟩

/-- The library of some components with the shared props type. -/
def propsLibrary (components : List (String × Nat)) : Library where
  root := ⟨"/lib"⟩
  packageName := none
  extensions := [".d.ts"]
  files := [⟨⟨"/lib/index.d.ts"⟩, {
    exports := ("Props" :: components.map (·.1)).map fun name => Module.exportHere name name
    declarations := ⟨"Props", 7, none, .interface [] [⟨"label", false, some (.keyword .string), "string", none, 25⟩]⟩ ::
      components.map propsComponent }⟩]

def propsCandidate : Candidate where
  id := ""
  artifactPath := ⟨"/lib/index.js"⟩
  declarationPath := ⟨"/lib/index.d.ts"⟩
  sourcePath := ⟨"/lib/index.js"⟩
  description := ""
  displayName := "lib"

def sharingLibrary : Library := propsLibrary [("Button", 63), ("Badge", 109)]

def cardedLibrary : Library := propsLibrary [("Card", 63), ("Button", 107), ("Badge", 153)]

/-- The new component stands after the props type and before the others. -/
def cardedPlacement : Placement where
  file := id
  index _ i := if i = 0 then 0 else i + 1
  start _ := id
  file_inj h := h
  index_inj h := by grind
  start_inj h := h

set_option maxRecDepth 100000 in
theorem sharing_grows : sharingLibrary.Grows cardedPlacement cardedLibrary := by
  refine Library.Grows.of_files ?_ ?_
  · decide +kernel
  · decide +kernel

set_option maxRecDepth 100000 in
theorem sharing_setting : ∃ s, sharing.settingAt ⟨"/lib"⟩ = .ok s ∧ s.library = sharingLibrary ∧
    s.candidates = [propsCandidate] ∧
    ∀ name ∈ ["Props", "Button", "Badge"], Implementation.usesChildren s.fs ⟨"/lib/index.js"⟩ name = false := by
  rw [sharing, FileSystem.memory_eq sharing_store]
  refine Except.exists_ok ?_
  decide +kernel

def cardLabelId : String := "abb244f571600212f3df67d897e8fcf630d4baf82c4937419dbfd582507feaf7"

def cardId : String := "921e11dedd8067cc1291486ed7342ceae74c9c0727421566c32182f9cbd0d09e"

set_option maxRecDepth 100000 in
theorem carded_analysis : (∃ s, (carded sharingIds).settingAt ⟨"/lib"⟩ = .ok s ∧ s.library = cardedLibrary ∧
    s.candidates = [propsCandidate] ∧
    ∀ name ∈ ["Props", "Button", "Badge"], Implementation.usesChildren s.fs ⟨"/lib/index.js"⟩ name = false) ∧
    (∃ b, (carded sharingIds).analyze ⟨"/lib"⟩ = .ok b ∧
      b.patterns.map (·.pattern.contextId) = [":Card", ":Button", ":Badge"] ∧
      b.digested = [":Card", ":Button", ":Badge", join cardId "label"] ∧
      b.patterns.map (·.pattern.propertyIds) = [[cardLabelId], [cardLabelId], [cardLabelId]]) ∧
    Digest.sha256.Separates [":Card", ":Button", ":Badge", join cardId "label", join buttonId "label"] := by
  have hstore : FileSystem.storeOf cardedFiles =
      [([.root, .name "lib", .name "package.json"], "\x7b\x7d"),
       ([.root, .name "lib", .name "index.d.ts"], "export interface Props \x7b label: string; \x7d\n" ++
          "export declare const Card: React.FC<Props>;\nexport declare const Button: React.FC<Props>;\n" ++
          "export declare const Badge: React.FC<Props>;\n"),
       ([.root, .name "lib", .name "index.js"], "")] := by decide +kernel
  rw [carded, FileSystem.memory_eq hstore]
  refine And.imp Except.exists_ok (And.imp Except.exists_ok Digest.Separates.of_nodup) ?_
  decide +kernel

set_option maxRecDepth 100000 in
theorem kept_exports : ∀ e ∈ sharingLibrary.localExports 0,
    (cardedLibrary.localExports 0).find? (·.2 == cardedPlacement.key e.2) = some (e.1, cardedPlacement.key e.2) := by
  decide

/-- The later library keeps everything of the earlier one. -/
theorem sharing_setting_grows {s s' : Setting} (hs : sharing.settingAt ⟨"/lib"⟩ = .ok s)
    (hs' : (carded sharingIds).settingAt ⟨"/lib"⟩ = .ok s') (hoptions : s'.options = s.options) :
    s.Grows cardedPlacement s' := by
  obtain ⟨t, ht, hlibrary, hcandidates, huses⟩ := sharing_setting
  obtain ⟨⟨t', ht', hlibrary', hcandidates', huses'⟩, -⟩ := carded_analysis
  obtain rfl := Except.ok.inj (hs.symm.trans ht)
  obtain rfl := Except.ok.inj (hs'.symm.trans ht')
  constructor
  case library => rw [hlibrary, hlibrary']; exact sharing_grows
  case options => exact hoptions
  case exports =>
    intro key name hfirst
    rw [hlibrary] at hfirst
    rw [hlibrary']
    obtain ⟨_ | file, index⟩ := key
    · exact kept_exports _ (List.mem_of_find?_eq_some hfirst)
    · cases hfirst
  case candidates =>
    intro file c hc
    rw [hcandidates] at hc
    cases file with
    | zero =>
      cases hc
      refine ⟨propsCandidate, by rw [hcandidates']; rfl, rfl, fun e he => ?_⟩
      rw [hlibrary] at he
      have hname : e.1 ∈ ["Props", "Button", "Badge"] := by
        revert e
        decide
      exact (huses' _ hname).trans (huses _ hname).symm
    | succ file => cases hc

/-- The two runs, with everything that is asked of them. -/
theorem sharing_then_carded : ∃ a b s s', sharing.analyze ⟨"/lib"⟩ = .ok a ∧
    (carded (Previous.ofAnalysis a)).analyze ⟨"/lib"⟩ = .ok b ∧ sharing.settingAt ⟨"/lib"⟩ = .ok s ∧
    (carded (Previous.ofAnalysis a)).settingAt ⟨"/lib"⟩ = .ok s' ∧ s.Grows cardedPlacement s' ∧
    (a.patterns.map (·.pattern.contextId)).Nodup ∧ (b.patterns.map (·.pattern.contextId)).Nodup ∧
    Digest.sha256.Separates (a.digested ++ b.digested) ∧ Previous.ofAnalysis a = sharingIds ∧
    b.patterns.map (·.pattern.propertyIds) = [[cardLabelId], [cardLabelId], [cardLabelId]] := by
  obtain ⟨a, ha, hids, -, hca, hda⟩ := sharing_analysis
  obtain ⟨-, ⟨b, hb, hcb, hdb, hreferred⟩, hseparates⟩ := carded_analysis
  obtain ⟨s, hs⟩ := analyze_ok ha
  obtain ⟨s', hs'⟩ := analyze_ok hb
  have hgrows := sharing_setting_grows hs.setting hs'.setting (hs'.options_eq.trans hs.options_eq.symm)
  refine ⟨a, b, s, s', ha, hids ▸ hb, hs.setting, hids ▸ hs'.setting, hgrows, ?_, ?_, ?_, hids, hreferred⟩
  · rw [hca]
    decide
  · rw [hcb]
    decide
  · rw [hda, hdb]
    refine hseparates.mono fun t ht => ?_
    simp only [List.cons_append, List.nil_append, List.mem_cons, List.not_mem_nil, or_false] at ht ⊢
    grind

/-- The later version refers to the label by the id that the new component gave it. -/
theorem a_component_before_others_takes_their_ids : ∃ a b s s', sharing.ids = .fresh .sha256 ∧
    sharing.analyze ⟨"/lib"⟩ = .ok a ∧ (carded (Previous.ofAnalysis a)).analyze ⟨"/lib"⟩ = .ok b ∧
    sharing.settingAt ⟨"/lib"⟩ = .ok s ∧ (carded (Previous.ofAnalysis a)).settingAt ⟨"/lib"⟩ = .ok s' ∧
    s.Grows cardedPlacement s' ∧
    (a.patterns.map (·.pattern.contextId)).Nodup ∧ (b.patterns.map (·.pattern.contextId)).Nodup ∧
    Digest.sha256.Separates (a.digested ++ b.digested) ∧ ¬ KeepsIds a b := by
  obtain ⟨a, b, s, s', ha, hb, hs, hs', hgrows, hn, hn', hd, hids, hreferred⟩ := sharing_then_carded
  refine ⟨a, b, s, s', rfl, ha, hb, hs, hs', hgrows, hn, hn', hd, fun hkeeps => ?_⟩
  have hrow : ((buttonId, "label"), labelId) ∈ (Previous.ofAnalysis a).properties := by
    rw [hids]
    exact List.mem_cons_self
  obtain ⟨e, he, hrow⟩ := List.mem_flatMap.mp hrow
  obtain ⟨p, hp, heq⟩ := List.mem_map.mp hrow
  obtain ⟨e', he', -, hproperties⟩ := hkeeps e he
  obtain ⟨p', hp', hkept⟩ := hproperties p hp
  obtain ⟨id, hid, hfound⟩ := Analysis.mem_propertiesOf.mp hp'
  have hold : id = labelId := by
    rw [← (Analysis.property?_some hfound).2, hkept.id]
    exact congrArg Prod.snd heq
  have hnew : e'.pattern.propertyIds ∈ [[cardLabelId], [cardLabelId], [cardLabelId]] :=
    hreferred ▸ List.mem_map_of_mem he'
  have hids' : e'.pattern.propertyIds = [cardLabelId] := by simpa using hnew
  rw [hids', hold, List.mem_singleton] at hid
  exact absurd hid (by decide)

theorem sharing_then_carded_keepsIds_iff : ∃ a b, sharing.analyze ⟨"/lib"⟩ = .ok a ∧
    (carded (Previous.ofAnalysis a)).analyze ⟨"/lib"⟩ = .ok b ∧ (KeepsIds a b ↔ ¬ NewOwner a b) := by
  obtain ⟨a, b, s, s', ha, hb, hs, hs', hgrows, hn, hn', hd, -, -⟩ := sharing_then_carded
  exact ⟨a, b, ha, hb, (grown_keepsIds_iff rfl ha rfl hb hs hs' hgrows hn hn' hd).2⟩

end Run

end PatternCatalog
