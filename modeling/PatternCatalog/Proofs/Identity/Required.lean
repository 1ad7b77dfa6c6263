/-
  PatternCatalog.Proofs.Identity.Required — whether a property is required, for every pattern.

  A member may be reached as it stands or through wrappers such as `Partial`, which change
  whether it is optional. A property is made from the member as the first pattern reaches it, and
  a later pattern refers to that property however it reaches the member itself. So the catalog
  says of every pattern's properties whether they are required exactly when all patterns that
  reach a member agree on it (`required_right_iff`); a component whose props are `Partial` of
  those of a component before it is the case where it does not
  (`a_partial_member_stays_required`).
-/

import PatternCatalog.Proofs.Identity.Shared

namespace PatternCatalog

open Library (MemberRef)

/-- Whether all components that have a member as a property agree on its being optional. -/
def Setting.AgreeOnOptional (s : Setting) : Prop :=
  ∀ x ∈ s.registered, ∀ y ∈ s.registered, ∀ m ∈ s.propertyMembers x.2, ∀ n ∈ s.propertyMembers y.2,
    m.key = n.key → m.optional = n.optional

namespace Run

variable {r : Run} {root : Path} {s : Setting} {a : Analysis}

/-- Whether each pattern refers, for each of its members, to a property that is required just when
the pattern reaches the member as one that is not optional. -/
def RequiredRight (s : Setting) (a : Analysis) : Prop :=
  ∀ i x g e, StandsAt s a i x g e → ∀ (k : Nat) (m : MemberRef), (s.propertyMembers x.2)[k]? = some m →
    ∃ id p, e.pattern.propertyIds[k]? = some id ∧ a.property? id = some p ∧ p.required = !m.optional

namespace Analyzed

variable (h : r.Analyzed root s a)

include h

/-- What a pattern refers to for a member is the property that the first pattern made of it. -/
theorem property?_of_member (hids : (a.properties.map (·.id)).Nodup) {x : Listing} (hx : x ∈ s.registered) {m : MemberRef}
    (hm : m ∈ s.propertyMembers x.2) : ∃ y ∈ s.registered, ∃ n ∈ s.propertyMembers y.2, n.key = m.key ∧
      a.property? (s.memberId m.key) = some (.ofMember s.library s.ids (s.patternId y.2) n) := by
  obtain ⟨y, f, hf, hlists, n, hn, hkey, hp, hid⟩ := h.exists_owner h.membersApart hx hm
  refine ⟨y, hlists.registered, n, hn, hkey, ?_⟩
  rw [← hid]
  exact Analysis.property?_of_nodup hids (List.mem_flatMap.mpr ⟨f, hf, hp⟩)

theorem requiredRight_iff (hids : (a.properties.map (·.id)).Nodup) : RequiredRight s a ↔ s.AgreeOnOptional := by
  have hlisted : ∀ {i x g e}, StandsAt s a i x g e → ∀ {k : Nat} {m : MemberRef}, (s.propertyMembers x.2)[k]? = some m →
      e.pattern.propertyIds[k]? = some (s.memberId m.key) := by
    intro i x g e hat k m hm
    rw [((hat.describes h).lists h.membersApart (registered_split hat.component)).propertyIds, List.getElem?_map, hm]
    rfl
  constructor
  · intro hright x hx y hy m hm n hn hkey
    have hrequired : ∀ {z}, z ∈ s.registered → ∀ {k}, k ∈ s.propertyMembers z.2 →
        ∃ p, a.property? (s.memberId k.key) = some p ∧ p.required = !k.optional := by
      intro z hz k hk
      obtain ⟨i, hi⟩ := List.mem_iff_getElem?.mp hz
      obtain ⟨j, hj⟩ := List.mem_iff_getElem?.mp hk
      obtain ⟨g, e, hat⟩ := h.exists_standsAt_of_registered hi
      obtain ⟨id, p, hid, hp, hreq⟩ := hright i z g e hat j k hj
      obtain rfl := Option.some.inj ((hlisted hat hj).symm.trans hid)
      exact ⟨p, hp, hreq⟩
    obtain ⟨p, hp, hpm⟩ := hrequired hx hm
    obtain ⟨q, hq, hqn⟩ := hrequired hy hn
    rw [← hkey, hp] at hq
    obtain rfl := Option.some.inj hq
    rw [hpm] at hqn
    exact Bool.not_inj hqn
  · intro hagree i x g e hat k m hk
    have hx := List.mem_of_getElem? hat.component
    have hm := List.mem_of_getElem? hk
    obtain ⟨y, hy, n, hn, hkey, hp⟩ := h.property?_of_member hids hx hm
    refine ⟨_, _, hlisted hat hk, hp, ?_⟩
    rw [← hagree y hy x hx n hn m hm hkey]
    rfl

end Analyzed

/-- The properties of all patterns are required as the patterns reach them exactly when all
patterns that reach a member agree on its being optional. -/
theorem required_right_iff (h : r.analyze root = .ok a) (hids : (a.properties.map (·.id)).Nodup) :
    ∃ s, r.settingAt root = .ok s ∧ (RequiredRight s a ↔ s.AgreeOnOptional) := by
  obtain ⟨s, hs⟩ := analyze_ok h
  exact ⟨s, hs.setting, hs.requiredRight_iff hids⟩

/-! ## A component with optional props after one with the same props -/

def partialFiles : List (Path × String) :=
  [(⟨"/lib/package.json"⟩, "\x7b\x7d"),
   (⟨"/lib/index.d.ts"⟩, "export interface Props \x7b label: string; \x7d\n" ++
      "export declare const Button: React.FC<Props>;\nexport declare const Badge: React.FC<Partial<Props>>;\n"),
   (⟨"/lib/index.js"⟩, "")]

def partialProps : Run where
  digest := .sha256
  fs := .memory partialFiles

set_option maxRecDepth 100000 in
/-- The one member is reached twice: as it is declared, and as an optional one. -/
theorem partialProps_analysis : (∃ a, partialProps.analyze ⟨"/lib"⟩ = .ok a ∧ a.properties.map (·.id) = [labelId]) ∧
    ∃ s, partialProps.settingAt ⟨"/lib"⟩ = .ok s ∧
      s.registered.map (fun x => (s.propertyMembers x.2).map fun m => (m.key, m.optional)) =
        [[(⟨0, 25⟩, false)], [(⟨0, 25⟩, true)]] := by
  have hstore : FileSystem.storeOf partialFiles =
      [([.root, .name "lib", .name "package.json"], "\x7b\x7d"),
       ([.root, .name "lib", .name "index.d.ts"], "export interface Props \x7b label: string; \x7d\n" ++
          "export declare const Button: React.FC<Props>;\nexport declare const Badge: React.FC<Partial<Props>>;\n"),
       ([.root, .name "lib", .name "index.js"], "")] := by decide +kernel
  rw [partialProps, FileSystem.memory_eq hstore]
  refine And.imp Except.exists_ok Except.exists_ok ?_
  decide +kernel

/-- The second component refers to a property that is required, but takes none of its props as required. -/
theorem a_partial_member_stays_required : ∃ a s, partialProps.analyze ⟨"/lib"⟩ = .ok a ∧
    partialProps.settingAt ⟨"/lib"⟩ = .ok s ∧ (a.properties.map (·.id)).Nodup ∧ ¬ RequiredRight s a := by
  obtain ⟨⟨a, ha, hids⟩, s', hs', hmembers⟩ := partialProps_analysis
  have hnodup : (a.properties.map (·.id)).Nodup := by
    rw [hids]
    exact List.nodup_singleton _
  obtain ⟨s, hs⟩ := analyze_ok ha
  obtain rfl : s = s' := Except.ok.inj (hs.setting.symm.trans hs')
  refine ⟨a, s, ha, hs.setting, hnodup, fun hright => ?_⟩
  have hagree := (hs.requiredRight_iff hnodup).mp hright
  obtain ⟨x, xs, hregistered, hx, hxs⟩ := List.map_eq_cons_iff.mp hmembers
  obtain ⟨y, ys, rfl, hy, -⟩ := List.map_eq_cons_iff.mp hxs
  obtain ⟨m, ms, hxm, hm, -⟩ := List.map_eq_cons_iff.mp hx
  obtain ⟨n, ns, hyn, hn, -⟩ := List.map_eq_cons_iff.mp hy
  obtain ⟨hmkey, hmoptional⟩ := Prod.mk.inj hm
  obtain ⟨hnkey, hnoptional⟩ := Prod.mk.inj hn
  have hsame := hagree x (hregistered ▸ List.mem_cons_self) y (hregistered ▸ List.mem_cons_of_mem _ List.mem_cons_self)
    m (hxm ▸ List.mem_cons_self) n (hyn ▸ List.mem_cons_self) (hmkey.trans hnkey.symm)
  rw [hmoptional, hnoptional] at hsame
  cases hsame

theorem partialProps_required_iff : ∃ a s, partialProps.analyze ⟨"/lib"⟩ = .ok a ∧
    partialProps.settingAt ⟨"/lib"⟩ = .ok s ∧ (RequiredRight s a ↔ s.AgreeOnOptional) := by
  obtain ⟨⟨a, ha, hids⟩, -⟩ := partialProps_analysis
  obtain ⟨s, hs, hiff⟩ := required_right_iff ha (by rw [hids]; exact List.nodup_singleton _)
  exact ⟨a, s, ha, hs, hiff⟩

end Run

end PatternCatalog
