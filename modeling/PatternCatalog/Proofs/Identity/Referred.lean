/-
  PatternCatalog.Proofs.Identity.Referred — the ids by which patterns refer to properties.

  The id of a property belongs to the member it comes from, not to the pattern that refers to
  it: every pattern that has the member among its properties refers to it by one id
  (`Setting.memberId`, `propertyIds_eq`), the one that it got from the first of them. Where
  members are told apart by where they start (`MembersApart`) and ids by names, looking up
  those ids gives the properties of a pattern back under the names of its members
  (`propertiesOf_pairs`).
-/

import Mathlib.Data.List.Nodup
import PatternCatalog.Proofs.Identity.Previous

namespace PatternCatalog

open Library (MemberRef)

/-- Members that a file declares at one offset are one member. -/
def Library.MembersApart (l : Library) : Prop :=
  ∀ m n, l.Declares m → l.Declares n → m.key = n.key → m.member = n.member

namespace Setting

variable {s : Setting} {x : Listing} {m : MemberRef}

theorem declared_of_property (hx : x ∈ s.registered) (hm : m ∈ s.propertyMembers x.2) : s.library.Declares m :=
  members_declared hx m (List.mem_filter.mp hm).1

theorem memberAt?_of_mem (hapart : s.library.MembersApart) (hx : x ∈ s.registered) (hm : m ∈ s.propertyMembers x.2) :
    s.memberAt? x.2 m.key = some m := by
  cases hfound : s.memberAt? x.2 m.key with
  | none => exact absurd (beq_self_eq_true _) (List.find?_eq_none.mp hfound m (List.mem_reverse.mpr hm))
  | some n =>
    obtain ⟨hn, hkey⟩ := s.memberAt?_some hfound
    have hmember := hapart n m (declared_of_property hx hn) (declared_of_property hx hm) hkey
    have hname : n.name = m.name := congrArg MemberOf.name hmember
    exact congrArg some (List.inj_on_of_nodup_map (s.propertyMembers_nodup x.2) hn hm hname)

/-- The id of the property that a member has become. -/
def memberId (s : Setting) (key : MemberKey) : String := (s.ownerId? s.registered key).getD ""

/-- A pattern refers to a member by the id of the member, whoever gave it. -/
theorem memberId_eq (hapart : s.library.MembersApart) {before after : List Listing}
    (hxs : s.registered = before ++ x :: after) (hm : m ∈ s.propertyMembers x.2) :
    (s.ownerId? before m.key).getD (s.mintedId x.2 m) = s.memberId m.key := by
  have hx : x ∈ s.registered := hxs ▸ List.mem_append_right _ List.mem_cons_self
  have hhere : s.ownerId? (x :: after) m.key = some (s.mintedId x.2 m) := by
    rw [ownerId?, List.findSome?_cons, memberAt?_of_mem hapart hx hm]
    rfl
  rw [memberId, hxs, s.ownerId?_append, hhere]
  cases s.ownerId? before m.key <;> rfl

end Setting

namespace Run

variable {r : Run} {root : Path} {s : Setting} {a : Analysis} {x : Listing} {e : PatternEntry}

/-- An entry of an analysis is that of a registered component. -/
structure Lists (s : Setting) (x : Listing) (e : PatternEntry) : Prop where
  registered : x ∈ s.registered
  contextId : e.pattern.contextId = s.componentContextId x.2
  id : e.pattern.id = s.patternId x.2
  propertyIds : e.pattern.propertyIds = (s.propertyMembers x.2).map fun m => s.memberId m.key
  slots : e.pattern.slots.map (fun t => (t.contextId, t.id)) =
    (s.slotNames x.2).map fun name => (name, s.ids.slot (s.patternId x.2) name)
  properties : ∀ p ∈ e.properties, ∃ m ∈ s.propertyMembers x.2,
    p = Property.ofMember s.library s.ids (s.patternId x.2) m

theorem Describes.lists (hapart : s.library.MembersApart) {before after : List Listing}
    (hxs : s.registered = before ++ x :: after) (h : Describes s before x e) : Lists s x e where
  registered := hxs ▸ List.mem_append_right _ List.mem_cons_self
  contextId := h.contextId
  id := h.id
  propertyIds := by
    rw [h.propertyIds]
    exact List.map_congr_left fun m hm => Setting.memberId_eq hapart hxs hm
  slots := h.slots
  properties := by
    intro p hp
    rw [h.properties] at hp
    obtain ⟨m, hm, rfl⟩ := List.mem_map.mp hp
    exact ⟨m, (List.mem_filter.mp hm).1, rfl⟩

namespace Analyzed

variable (h : r.Analyzed root s a) (hapart : s.library.MembersApart)

include h hapart

theorem exists_lists (he : e ∈ a.patterns) : ∃ x, Lists s x e := by
  obtain ⟨before, x, after, hxs, hdesc⟩ := h.exists_listing he
  exact ⟨x, hdesc.lists hapart hxs⟩

theorem exists_lists_of_registered (hx : x ∈ s.registered) : ∃ e ∈ a.patterns, Lists s x e := by
  obtain ⟨before, after, hxs⟩ := List.append_of_mem hx
  obtain ⟨e, he, hdesc⟩ := h.exists_entry hxs
  exact ⟨e, he, hdesc.lists hapart hxs⟩

/-- The pattern that lists the property of a member as new. -/
theorem exists_owner (hx : x ∈ s.registered) {m : MemberRef} (hm : m ∈ s.propertyMembers x.2) :
    ∃ y f, f ∈ a.patterns ∧ Lists s y f ∧ ∃ n ∈ s.propertyMembers y.2, n.key = m.key ∧
      Property.ofMember s.library s.ids (s.patternId y.2) n ∈ f.properties ∧ s.mintedId y.2 n = s.memberId m.key := by
  obtain ⟨before, after, hxs⟩ := List.append_of_mem hx
  obtain ⟨earlier, y, later, hys, n, hn, hkey, hminted, f, hf, hdesc, hp⟩ := h.exists_property hxs hm
  rw [Setting.memberId_eq hapart hxs hm] at hminted
  exact ⟨y, f, hf, hdesc.lists hapart hys, n, hn, hkey, hp, hminted.symm⟩

/-- The names and ids of the properties of a pattern, when an id belongs to one name. -/
theorem propertiesOf_pairs (hnames : ∀ p ∈ a.properties, ∀ q ∈ a.properties, p.id = q.id → p.contextId = q.contextId)
    (hlists : Lists s x e) : (a.propertiesOf e.pattern).map (fun p => (p.contextId, p.id)) =
      (s.propertyMembers x.2).map fun m => (m.name, s.memberId m.key) := by
  have hfind : ∀ m ∈ s.propertyMembers x.2, (a.property? (s.memberId m.key)).map (fun p => (p.contextId, p.id)) =
      some (m.name, s.memberId m.key) := by
    intro m hm
    obtain ⟨y, f, hf, hy, n, hn, hkey, hp, hid⟩ := h.exists_owner hapart hlists.registered hm
    have hmem := List.mem_flatMap.mpr ⟨f, hf, hp⟩
    obtain ⟨q, hq⟩ := Analysis.exists_property? hmem
    obtain ⟨hqmem, hqid⟩ := Analysis.property?_some hq
    have hmember := hapart n m (Setting.declared_of_property hy.registered hn)
      (Setting.declared_of_property hlists.registered hm) hkey
    have hname : q.contextId = m.name := (hnames q hqmem _ hmem hqid).trans (congrArg MemberOf.name hmember)
    have hid' : (Property.ofMember s.library s.ids (s.patternId y.2) n).id = s.memberId m.key := hid
    rw [hid'] at hq hqid
    rw [hq, Option.map_some, hname, hqid]
  rw [Analysis.propertiesOf, hlists.propertyIds, List.filterMap_map, List.map_filterMap]
  refine List.filterMap_eq_map_iff_forall_eq_some.mpr fun m hm => ?_
  exact hfind m hm

/-- The id under which a pattern refers to the property of a name. -/
theorem propertyId?_of_lists (hnames : ∀ p ∈ a.properties, ∀ q ∈ a.properties, p.id = q.id → p.contextId = q.contextId)
    (hn : (a.patterns.map (·.pattern.contextId)).Nodup) (he : e ∈ a.patterns) (hlists : Lists s x e) {m : MemberRef}
    (hm : m ∈ s.propertyMembers x.2) : a.propertyId? e.pattern.contextId m.name = some (s.memberId m.key) := by
  have hfind : a.patterns.find? (·.pattern.contextId == e.pattern.contextId) = some e :=
    find?_key (·.pattern.contextId) hn he
  have hpairs := h.propertiesOf_pairs hapart hnames hlists
  have hrows : ((a.propertiesOf e.pattern).reverse.find? (·.contextId == m.name)).map (·.id) =
      (((a.propertiesOf e.pattern).map fun p => (p.contextId, p.id)).reverse.find? (·.1 == m.name)).map (·.2) := by
    rw [← List.map_reverse, List.find?_map, Option.map_map]
    rfl
  have hdiffer : ((s.propertyMembers x.2).reverse.map (·.name)).Nodup := by
    rw [List.map_reverse, List.nodup_reverse]
    exact s.propertyMembers_nodup x.2
  have hkey := find?_key MemberRef.name hdiffer (List.mem_reverse.mpr hm)
  rw [Analysis.propertyId?, hfind, Option.bind_some, hrows, hpairs, ← List.map_reverse, List.find?_map]
  simp only [Function.comp_def, hkey, Option.map_some]

end Analyzed

end Run

end PatternCatalog
