/-
  PatternCatalog.Proofs.Identity.Clash — the ids within one pattern.

  The ids of properties and of slots are digests of one form: the id of a pattern and a name. A
  member becomes a property or a slot, and the members of a component differ by name, so names
  keep the ids of a pattern apart, those of other patterns that it shares included. One slot
  stands for no member: the implementation may imply a slot `children` while the props type has
  a property of that name. The two have one id when the property is new with the pattern.
  - `part_ids_nodup_iff`: in a pattern whose context id no other pattern has, that is the one
    case in which two ids coincide (`IdsWithin`).
  - `a_slot_has_the_id_of_a_property`: a component with a text as its `children`.
-/

import PatternCatalog.Proofs.Identity.Shared
import PatternCatalog.Proofs.Pattern.Partition

namespace PatternCatalog

open Identity (join nested)
open Library (MemberRef)

/-- The ids of the properties that a pattern refers to, then those of its slots. -/
def Pattern.partIds (p : Pattern) : List String := p.propertyIds ++ p.slots.map (·.id)

/-- The texts that the ids of patterns, properties and slots are digests of. -/
def Analysis.digestedWithSlots (a : Analysis) : List String :=
  a.digested ++ a.patterns.flatMap fun e => e.pattern.slots.map fun t => join e.pattern.id t.contextId

theorem Analysis.digested_subset (a : Analysis) : a.digested ⊆ a.digestedWithSlots := List.subset_append_left _ _

theorem Analysis.contextId_mem (a : Analysis) {i : Nat} {e : PatternEntry} (he : a.patterns[i]? = some e) :
    e.pattern.contextId ∈ a.digestedWithSlots :=
  a.digested_subset (contextId_mem_digested (List.mem_of_getElem? he))

namespace Setting

variable (s : Setting)

/-- A component has a property called `children` that no component before it has, and a slot of
that name which only its implementation shows. -/
def NamesChildrenTwice (before : List Listing) (c : Component) : Prop :=
  (∃ m ∈ s.propertyMembers c, m.name = Implementation.children ∧ s.ownerId? before m.key = none) ∧
    s.impliesChildren c ((s.slotMembers c).map (·.name)) = true

variable {s}

/-- A slot that is called as a property is none of a member. -/
theorem implied_of_slotName {c : Component} {m : MemberRef} (hm : m ∈ s.propertyMembers c) (hname : m.name ∈ s.slotNames c) :
    m.name = Implementation.children ∧ s.impliesChildren c ((s.slotMembers c).map (·.name)) = true := by
  rw [slotNames, ← slotMembers] at hname
  rcases List.mem_append.mp hname with hdeclared | himplied
  · obtain ⟨n, hn, hsame⟩ := List.mem_map.mp hdeclared
    obtain ⟨hnmem, hslot⟩ := List.mem_filter.mp hn
    obtain ⟨hmmem, hproperty⟩ := List.mem_filter.mp hm
    obtain rfl := List.inj_on_of_nodup_map (s.members_nodup c) hnmem hmmem hsame
    rw [isSlot, Bool.and_eq_true] at hslot
    rw [isProperty, Bool.and_eq_true, Option.isNone_iff_eq_none] at hproperty
    rw [hproperty.2] at hslot
    cases hslot.2
  · split at himplied
    · next h => exact ⟨List.mem_singleton.mp himplied, h⟩
    · cases himplied

end Setting

namespace Run

/-- Which of the ids of a pattern coincide: at most that of a new property and the implied slot. -/
structure IdsWithin (d : Digest) (s : Setting) (before : List Listing) (x : Listing) (e : PatternEntry) : Prop where
  properties : e.pattern.propertyIds.Nodup
  slots : (e.pattern.slots.map (·.id)).Nodup
  common : ∀ id ∈ e.pattern.propertyIds, id ∈ e.pattern.slots.map (·.id) →
    s.NamesChildrenTwice before x.2 ∧ id = nested d e.pattern.id Implementation.children
  nodup_iff : e.pattern.partIds.Nodup ↔ ¬ s.NamesChildrenTwice before x.2

variable {r : Run} {root : Path} {s : Setting} {a : Analysis}

namespace Analyzed

variable (hs : r.Analyzed root s a)

include hs

/-- A property is new with its pattern, or an earlier pattern listed it under its own id. -/
theorem new_or_earlier {i : Nat} {x : Listing} {g : Registration} {e : PatternEntry} (hat : StandsAt s a i x g e)
    {m : MemberRef} (hm : m ∈ s.propertyMembers x.2) :
    (s.ownerId? (s.registered.take i) m.key = none ∧ s.memberId m.key = s.mintedId x.2 m) ∨
      ∃ j y g f, j < i ∧ StandsAt s a j y g f ∧ s.memberId m.key = s.ids.property f.pattern.id m.name ∧
        ∃ p ∈ f.properties, p.contextId = m.name := by
  have hapart := hs.membersApart
  have hxs := registered_split hat.component
  cases howner : s.ownerId? (s.registered.take i) m.key with
  | none =>
    rw [← Setting.memberId_eq hapart hxs hm, howner]
    exact .inl ⟨rfl, rfl⟩
  | some id =>
    obtain ⟨j, y, g', f, n, hj, hfirst, hn, hkey, hp, hid⟩ := hs.exists_first hat.component hm
    have hname : n.name = m.name := by
      have hdeclared := Setting.declared_of_property hfirst.listing_mem hn
      exact congrArg MemberOf.name (hapart n m hdeclared (Setting.declared_of_property hat.listing_mem hm) hkey)
    have hminted : s.memberId m.key = s.ids.property f.pattern.id m.name := by
      rw [← hid, ← hname, (hfirst.describes hs).id]
      rfl
    refine .inr ⟨j, y, g', f, Nat.lt_of_le_of_ne hj ?_, hfirst, hminted, _, hp, hname⟩
    -- Were it the pattern itself, the property would be new with it.
    rintro rfl
    rw [(hfirst.describes hs).properties] at hp
    obtain ⟨k, hk, he⟩ := List.mem_map.mp hp
    obtain ⟨hk, hnew⟩ := List.mem_filter.mp hk
    obtain rfl := List.inj_on_of_nodup_map (s.propertyMembers_nodup y.2) hk hn (congrArg Property.contextId he)
    rw [hkey, howner] at hnew
    cases hnew

variable (hids : r.ids = .fresh .sha256)

include hids

theorem id_fresh {e : PatternEntry} (he : e ∈ a.patterns) : e.pattern.id = Digest.sha256 e.pattern.contextId := by
  rw [hs.assigned.pattern e he, hids]
  exact Identity.freshPattern_eq _ _

/-- The id of a property is made of the context id of the pattern that lists it as new, and of its name. -/
theorem exists_lister {i : Nat} {x : Listing} {g : Registration} {e : PatternEntry} (hat : StandsAt s a i x g e)
    {m : MemberRef} (hm : m ∈ s.propertyMembers x.2) :
    ∃ j f, a.patterns[j]? = some f ∧ (j = i → s.ownerId? (s.registered.take i) m.key = none) ∧
      join (Digest.sha256 f.pattern.contextId) m.name ∈ a.digestedWithSlots ∧
      s.memberId m.key = nested .sha256 (Digest.sha256 f.pattern.contextId) m.name := by
  have hfresh : ∀ parent name, s.ids.property parent name = nested .sha256 parent name := by
    intro parent name
    rw [hs.ids_eq, hids]
    rfl
  rcases hs.new_or_earlier hat hm with ⟨hnew, hid⟩ | ⟨j, y, g', f, hj, hfirst, hid, p, hp, hname⟩
  · have hproperty : Property.ofMember s.library s.ids (s.patternId x.2) m ∈ e.properties := by
      rw [(hat.describes hs).properties]
      exact List.mem_map_of_mem (List.mem_filter.mpr ⟨hm, Option.isNone_iff_eq_none.mpr hnew⟩)
    have hjoin := a.digested_subset (Analysis.join_mem_digested hat.entry_mem hproperty)
    rw [Setting.mintedId, hfresh, ← (hat.describes hs).id, hs.id_fresh hids hat.entry_mem] at hid
    rw [hs.id_fresh hids hat.entry_mem] at hjoin
    exact ⟨i, e, hat.entry, fun _ => hnew, hjoin, hid⟩
  · have hjoin := a.digested_subset (Analysis.join_mem_digested hfirst.entry_mem hp)
    rw [hs.id_fresh hids hfirst.entry_mem] at hjoin hid
    rw [hname] at hjoin
    exact ⟨j, f, hfirst.entry, fun h => absurd h (Nat.ne_of_lt hj), hjoin, hid.trans (hfresh _ _)⟩

/-- The ids of the slots of a pattern, by their names. -/
theorem slotIds_eq {i : Nat} {x : Listing} {g : Registration} {e : PatternEntry} (hat : StandsAt s a i x g e) :
    e.pattern.slots.map (·.id) = (s.slotNames x.2).map (nested .sha256 (Digest.sha256 e.pattern.contextId)) ∧
      ∀ name ∈ s.slotNames x.2, join (Digest.sha256 e.pattern.contextId) name ∈ a.digestedWithSlots := by
  have hpairs := (hat.describes hs).slots
  have hnames : e.pattern.slots.map (·.contextId) = s.slotNames x.2 := by
    simpa [Function.comp_def] using congrArg (List.map (·.1)) hpairs
  have hslots : e.pattern.slots.map (·.id) = (s.slotNames x.2).map (s.ids.slot (s.patternId x.2)) := by
    simpa [Function.comp_def] using congrArg (List.map (·.2)) hpairs
  rw [← (hat.describes hs).id, hs.id_fresh hids hat.entry_mem, hs.ids_eq, hids] at hslots
  refine ⟨hslots, fun name hname => ?_⟩
  rw [← hnames] at hname
  obtain ⟨t, ht, rfl⟩ := List.mem_map.mp hname
  rw [← hs.id_fresh hids hat.entry_mem]
  exact List.mem_append_right _ (List.mem_flatMap.mpr ⟨e, hat.entry_mem, List.mem_map_of_mem ht⟩)

section Separated

variable (hd : Digest.sha256.Separates a.digestedWithSlots) {i : Nat} {x : Listing} {g : Registration} {e : PatternEntry}
  (hat : StandsAt s a i x g e)

include hd hat

/-- Properties of one pattern differ by name, and so by id, whoever listed them. -/
theorem propertyIds_nodup : e.pattern.propertyIds.Nodup := by
  rw [(hat.lists hs).propertyIds]
  refine (List.Nodup.of_map _ (s.propertyMembers_nodup x.2)).map_on fun m hm n hn hsame => ?_
  obtain ⟨j, f, hf, -, htext, hid⟩ := hs.exists_lister hids hat hm
  obtain ⟨j', f', hf', -, htext', hid'⟩ := hs.exists_lister hids hat hn
  rw [hid, hid'] at hsame
  have hname := (Identity.nested_inj hd Digest.sha256_colonFree (a.contextId_mem hf) (a.contextId_mem hf') htext htext' hsame).2
  exact List.inj_on_of_nodup_map (s.propertyMembers_nodup x.2) hm hn hname

theorem slotIds_nodup : (e.pattern.slots.map (·.id)).Nodup := by
  obtain ⟨hslotIds, htexts⟩ := hs.slotIds_eq hids hat
  have hcontext := a.contextId_mem hat.entry
  rw [hslotIds]
  refine (s.slotNames_nodup x.2).map_on fun name hname name' hname' hsame => ?_
  exact (Identity.nested_inj hd Digest.sha256_colonFree hcontext hcontext (htexts name hname) (htexts name' hname') hsame).2

variable (halone : ∀ j f, a.patterns[j]? = some f → f.pattern.contextId = e.pattern.contextId → j = i)

include halone

/-- A property with the id of a slot is called as the slot and is new with the pattern. -/
theorem common_id {id : String} (hproperty : id ∈ e.pattern.propertyIds) (hslot : id ∈ e.pattern.slots.map (·.id)) :
    s.NamesChildrenTwice (s.registered.take i) x.2 ∧ id = nested .sha256 e.pattern.id Implementation.children := by
  obtain ⟨hslotIds, htexts⟩ := hs.slotIds_eq hids hat
  rw [(hat.lists hs).propertyIds] at hproperty
  obtain ⟨m, hm, rfl⟩ := List.mem_map.mp hproperty
  rw [hslotIds] at hslot
  obtain ⟨name, hname, hsame⟩ := List.mem_map.mp hslot
  obtain ⟨j, f, hf, hnew, htext, hid⟩ := hs.exists_lister hids hat hm
  rw [hid] at hsame
  obtain ⟨hc, rfl⟩ := Identity.nested_inj hd Digest.sha256_colonFree (a.contextId_mem hat.entry) (a.contextId_mem hf)
    (htexts name hname) htext hsame
  obtain ⟨hchildren, himplied⟩ := Setting.implied_of_slotName hm hname
  have hown := hnew (halone j f hf hc.symm)
  refine ⟨⟨⟨m, hm, hchildren, hown⟩, himplied⟩, ?_⟩
  rw [hid, ← hc, ← hs.id_fresh hids hat.entry_mem, hchildren]

omit hd halone in
/-- A new property `children` and the implied slot have one id. -/
theorem not_disjoint_of_twice (h : s.NamesChildrenTwice (s.registered.take i) x.2) :
    ¬ e.pattern.propertyIds.Disjoint (e.pattern.slots.map (·.id)) := by
  obtain ⟨⟨m, hm, hchildren, hown⟩, himplied⟩ := h
  have hlists := hat.lists hs
  have hid := Setting.memberId_eq hs.membersApart (registered_split hat.component) hm
  rw [hown, Option.getD_none, Setting.mintedId, ← hlists.id, hs.id_fresh hids hat.entry_mem, hchildren, hs.ids_eq,
    hids] at hid
  refine fun hapart => hapart (a := s.memberId m.key) ?_ ?_
  · rw [hlists.propertyIds]
    exact List.mem_map_of_mem hm
  · rw [(hs.slotIds_eq hids hat).1, ← hid]
    exact List.mem_map_of_mem (s.children_mem_slotNames himplied)

theorem idsWithin : IdsWithin .sha256 s (s.registered.take i) x e where
  properties := hs.propertyIds_nodup hids hd hat
  slots := hs.slotIds_nodup hids hd hat
  common _ hproperty hslot := hs.common_id hids hd hat halone hproperty hslot
  nodup_iff := by
    rw [Pattern.partIds, List.nodup_append']
    constructor
    · exact fun h htwice => hs.not_disjoint_of_twice hids hat htwice h.2.2
    · intro h
      refine ⟨hs.propertyIds_nodup hids hd hat, hs.slotIds_nodup hids hd hat, fun id hproperty hslot => ?_⟩
      exact h (hs.common_id hids hd hat halone hproperty hslot).1

end Separated

end Analyzed

/-- Only a new property `children` and an implied slot clash, in a pattern with a context id of its own. -/
theorem part_ids_nodup_iff (hids : r.ids = .fresh .sha256) (h : r.analyze root = .ok a)
    (hd : Digest.sha256.Separates a.digestedWithSlots) :
    ∃ s, r.settingAt root = .ok s ∧ ∀ i e, a.patterns[i]? = some e →
      (∀ j f, a.patterns[j]? = some f → f.pattern.contextId = e.pattern.contextId → j = i) →
      ∃ x g, StandsAt s a i x g e ∧ IdsWithin .sha256 s (s.registered.take i) x e := by
  obtain ⟨s, hs⟩ := analyze_ok h
  refine ⟨s, hs.setting, fun i e he halone => ?_⟩
  obtain ⟨x, g, hat⟩ := hs.exists_standsAt he
  exact ⟨x, g, hat, hs.idsWithin hids hd hat halone⟩

/-! ## A text as the children -/

/-- A component whose implementation uses `children`, which its props type has as a text. -/
def boxFiles : List (Path × String) :=
  [(⟨"/lib/package.json"⟩, "\x7b\x7d"),
   (⟨"/lib/index.d.ts"⟩, "interface Props \x7b children: string \x7d\nexport declare const Box: FC<Props>;\n"),
   (⟨"/lib/index.js"⟩, "export const Box = (\x7b children \x7d) => children;\n")]

def box : Run where
  digest := .sha256
  fs := .memory boxFiles

def boxId : String := "059e1f73e5bc8ea507ed9465777be1d7391bcbc2b0329c468f64e7c34db741dd"

def childrenId : String := "8a86bffd7774152bee90c25c8a1313ab3901c9fb8d0d3587fbe797932c3dfbc3"

set_option maxRecDepth 100000 in
theorem box_analysis : (∃ a, box.analyze ⟨"/lib"⟩ = .ok a ∧ a.patterns.map (·.pattern.partIds) = [[childrenId, childrenId]] ∧
    a.digestedWithSlots = [":Box", join boxId "children", join boxId "children"]) ∧
    Digest.sha256.Separates [":Box", join boxId "children"] := by
  have hstore : FileSystem.storeOf boxFiles =
      [([.root, .name "lib", .name "package.json"], "\x7b\x7d"),
       ([.root, .name "lib", .name "index.d.ts"],
          "interface Props \x7b children: string \x7d\nexport declare const Box: FC<Props>;\n"),
       ([.root, .name "lib", .name "index.js"], "export const Box = (\x7b children \x7d) => children;\n")] := by
    decide +kernel
  rw [box, FileSystem.memory_eq hstore]
  refine And.imp Except.exists_ok Digest.Separates.of_nodup ?_
  decide +kernel

/-- The one pattern of the run, with everything that is asked of it. -/
theorem box_pattern : ∃ a e, box.analyze ⟨"/lib"⟩ = .ok a ∧ a.patterns = [e] ∧ e.pattern.partIds = [childrenId, childrenId] ∧
    Digest.sha256.Separates a.digestedWithSlots ∧
    ∀ j f, a.patterns[j]? = some f → f.pattern.contextId = e.pattern.contextId → j = 0 := by
  obtain ⟨⟨a, ha, hids, htexts⟩, hseparates⟩ := box_analysis
  obtain ⟨e, rest, hpatterns, hide, hrest⟩ := List.map_eq_cons_iff.mp hids
  obtain rfl := List.map_eq_nil_iff.mp hrest
  refine ⟨a, e, ha, hpatterns, hide, ?_, fun j f hf _ => ?_⟩
  · rw [htexts]
    exact hseparates.mono (by simp)
  · rw [hpatterns] at hf
    have hj := (List.getElem?_eq_some_iff.mp hf).1
    simpa using hj

theorem a_slot_has_the_id_of_a_property : ∃ a e, box.ids = .fresh .sha256 ∧ box.analyze ⟨"/lib"⟩ = .ok a ∧
    Digest.sha256.Separates a.digestedWithSlots ∧ a.patterns[0]? = some e ∧
    (∀ j f, a.patterns[j]? = some f → f.pattern.contextId = e.pattern.contextId → j = 0) ∧ ¬ e.pattern.partIds.Nodup := by
  obtain ⟨a, e, ha, hpatterns, hids, hseparates, halone⟩ := box_pattern
  refine ⟨a, e, rfl, ha, hseparates, by rw [hpatterns]; rfl, halone, ?_⟩
  rw [hids]
  decide

theorem box_part_ids_nodup_iff : ∃ a s e x g, box.analyze ⟨"/lib"⟩ = .ok a ∧ box.settingAt ⟨"/lib"⟩ = .ok s ∧
    StandsAt s a 0 x g e ∧ e.pattern.partIds = [childrenId, childrenId] ∧ IdsWithin .sha256 s [] x e ∧
    s.NamesChildrenTwice [] x.2 := by
  obtain ⟨a, e, ha, hpatterns, hids, hseparates, halone⟩ := box_pattern
  obtain ⟨s, hs, hwithin⟩ := part_ids_nodup_iff rfl ha hseparates
  obtain ⟨x, g, hat, hx⟩ := hwithin 0 e (by rw [hpatterns]; rfl) halone
  refine ⟨a, s, e, x, g, ha, hs, hat, hids, hx, ?_⟩
  by_contra honce
  have hnodup := hx.nodup_iff.mpr honce
  rw [hids] at hnodup
  exact absurd hnodup (by decide)

end Run

end PatternCatalog
