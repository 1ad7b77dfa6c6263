/-
  PatternCatalog.Proofs.Run.Linked — default content refers to the patterns of its analysis.

  A tag that resolves to a registered component gets the identity under which the component was
  registered, in whatever slot of the run it stands. So the element of the tag has the ids of
  that component's pattern, and gives an attribute the id of the pattern's property of that name,
  also where another pattern was the first to list the property (`PointsTo`).
  - `content_linked`: in every run, under any strategy that gives no two properties one id, all
    elements of registered components point to their patterns.
  - `shown_content_linked`: a slot shows a component whose property another one was the first to list.
-/

import PatternCatalog.Proofs.Identity.Shared
import PatternCatalog.Proofs.Pattern.Partition
import PatternCatalog.Proofs.Slot.Mirror
import PatternCatalog.Proofs.Slot.Tag

namespace PatternCatalog

open Library (MemberRef)

namespace Run

/-- An element has the ids of a pattern, and the ids of that pattern's properties by their names. -/
structure PointsTo (a : Analysis) (e : PatternEntry) (f : Element) : Prop where
  patternId : f.patternId = e.pattern.id
  patternContextId : f.patternContextId = e.pattern.contextId
  property : ∀ p ∈ f.props, ∀ id, p.propertyId = some id →
    id ∈ e.pattern.propertyIds ∧ ∃ q, a.property? id = some q ∧ q.propertyName = p.propertyName
  no_property_iff : ∀ p ∈ f.props, p.propertyId = none ↔
    ∀ q ∈ a.propertiesOf e.pattern, q.propertyName ≠ p.propertyName

variable {r : Run} {root : Path} {s : Setting} {a : Analysis}

namespace Analyzed

variable (hs : r.Analyzed root s a) {k : Nat} {y : Listing} {g : Registration} {e : PatternEntry} (hat : StandsAt s a k y g e)

include hs hat

/-- A registered component is known under its names of properties, each with the id of the member. -/
theorem lookup_propertyIds (name : String) : g.build.propertyIds.lookup name =
    ((s.propertyMembers y.2).find? (·.name == name)).map fun m => s.memberId m.key := by
  have hlisted : (s.propertyMembers y.2).map (fun m => (m.name, s.listedId (s.ownerId? (s.registered.take k)) y.2 m)) =
      (s.propertyMembers y.2).map fun m => (m.name, s.memberId m.key) :=
    List.map_congr_left fun m hm => by
      rw [Setting.listedId, Setting.memberId_eq hs.membersApart (registered_split hat.component) hm]
  have hregistration := hat.registration_eq
  rw [hregistration, Setting.registration, Setting.build_propertyIds, hlisted, lookup_map_key]

/-- The property that a member has become has the name of the member. -/
theorem exists_property?_of_member (hids : (a.properties.map (·.id)).Nodup) {m : MemberRef} (hm : m ∈ s.propertyMembers y.2) :
    ∃ q, a.property? (s.memberId m.key) = some q ∧ q.propertyName = m.name := by
  have hapart := hs.membersApart
  obtain ⟨z, f, hf, hz, n, hn, hkey, hp, hid⟩ := hs.exists_owner hapart hat.listing_mem hm
  have hfound := Analysis.property?_of_nodup hids (List.mem_flatMap.mpr ⟨f, hf, hp⟩)
  have hminted : (Property.ofMember s.library s.ids (s.patternId z.2) n).id = s.memberId m.key := hid
  rw [hminted] at hfound
  have hdeclared := Setting.declared_of_property hat.listing_mem hm
  have hmember := hapart n m (Setting.declared_of_property hz.registered hn) hdeclared hkey
  exact ⟨_, hfound, congrArg MemberOf.name hmember⟩

theorem propertyNames_eq (hids : (a.properties.map (·.id)).Nodup) :
    (a.propertiesOf e.pattern).map (·.propertyName) = (s.propertyMembers y.2).map (·.name) := by
  rw [Analysis.propertiesOf, (hat.lists hs).propertyIds, List.filterMap_map, List.map_filterMap]
  refine List.filterMap_eq_map_iff_forall_eq_some.mpr fun m hm => ?_
  obtain ⟨q, hq, hname⟩ := hs.exists_property?_of_member hat hids hm
  rw [Function.comp_apply, hq, Option.map_some, hname]

/-- An element that shows a registered component points to its pattern. -/
theorem pointsTo (hids : (a.properties.map (·.id)).Nodup) {c : ContentSetting}
    (hpattern : c.pattern? = Registry.pattern? s (Registry.ofSetting s)) {n : Markup.Node} {f : Element} (hshows : c.Shows n f)
    (htag : c.scope.tag? n.tag = some y.key) : PointsTo a e f := by
  obtain ⟨identity, hidentity, hcontextId, hid, hprops⟩ := hshows.pattern
  have hkey : y.key = g.key := by rw [hat.registration_eq]; rfl
  rw [htag, hpattern, hkey, Option.bind_eq_bind, Option.bind_some,
    Registry.pattern?_of_registered (List.mem_of_getElem? hat.registration)] at hidentity
  obtain rfl := Option.some.inj hidentity
  have hlists := hat.lists hs
  have hlookup : ∀ p ∈ f.props, p.propertyId =
      ((s.propertyMembers y.2).find? (·.name == p.propertyName)).map fun m => s.memberId m.key := fun p hp =>
    (hprops p hp).trans (hs.lookup_propertyIds hat p.propertyName)
  constructor
  case patternId =>
    rw [hid, hlists.id, hat.registration_eq]
    exact s.build_id _ y.2
  case patternContextId =>
    rw [hcontextId, hlists.contextId, hat.registration_eq]
    exact s.build_contextId _ y.2
  case property =>
    intro p hp id hpid
    rw [hlookup p hp] at hpid
    obtain ⟨m, hfind, rfl⟩ := Option.map_eq_some_iff.mp hpid
    have hm := List.mem_of_find?_eq_some hfind
    have hname : m.name = p.propertyName := by simpa using List.find?_some hfind
    rw [hlists.propertyIds, ← hname]
    exact ⟨List.mem_map_of_mem hm, hs.exists_property?_of_member hat hids hm⟩
  case no_property_iff =>
    intro p hp
    have hnames : (∀ q ∈ a.propertiesOf e.pattern, q.propertyName ≠ p.propertyName) ↔
        p.propertyName ∉ (s.propertyMembers y.2).map (·.name) := by
      rw [← hs.propertyNames_eq hat hids]
      simp
    rw [hnames, hlookup p hp, Option.map_eq_none_iff, List.find?_eq_none]
    simp

end Analyzed

/-- Whether the content of every slot points to the patterns of the components that it shows. -/
structure LinksContent (r : Run) (s : Setting) (a : Analysis) : Prop where
  /-- Every pattern of the analysis is that of a registered component. -/
  stands : ∀ (i : Nat) (e : PatternEntry), a.patterns[i]? = some e → ∃ x g, StandsAt s a i x g e
  /-- The content of a slot has the shape of its example, and what it has at the address of a tag of
  a registered component points to the pattern of that component. -/
  links : ∀ i x g e, StandsAt s a i x g e → ∀ (j : Nat) (t : Slot) (content : Element), e.pattern.slots[j]? = some t →
    t.defaultValue = some content → ∃ source m, g.build.slotSources[j]? = some source ∧
      source.ReadsAs r.options.maxDefaultDepth m ∧ (∀ p, (content.at? p).isSome = (m.root.at? p).isSome) ∧
      ∀ p n f, m.root.at? p = some n → content.at? p = some f →
        ∀ k y gy ey, StandsAt s a k y gy ey → Scope.tag? ⟨s.library, source.file, m.imports⟩ n.tag = some y.key → PointsTo a ey f

/-- The content of a slot is made of the example that the slot is declared with. -/
theorem Analyzed.exists_example (hs : r.Analyzed root s a) {i : Nat} {x : Listing} {g : Registration} {e : PatternEntry}
    (hat : StandsAt s a i x g e) {j : Nat} {t : Slot} {content : Element} (ht : e.pattern.slots[j]? = some t)
    (hcontent : t.defaultValue = some content) : ∃ source m, g.build.slotSources[j]? = some source ∧
      source.ReadsAs r.options.maxDefaultDepth m ∧
      (Slot.contentSetting r.digest s.library (Registry.pattern? s (Registry.ofSetting s)) a.id source m).Mirrors t.id
        m.root content := by
  have he := hat.entry
  rw [hs.patterns, List.getElem?_map, hat.registration, Option.map_some, hat.registration_eq, Setting.registration] at he
  rw [← Option.some.inj he, entryWithContent_slots, List.getElem?_map, Option.map_eq_some_iff] at ht
  obtain ⟨⟨slot, source⟩, hslot, rfl⟩ := ht
  obtain ⟨m, hm, hmade⟩ := (Slot.content?_eq_some_iff ..).mp hcontent
  refine ⟨source, m, ?_, hm, ContentSetting.mirrors_of_element? _ hmade⟩
  rw [hat.registration_eq, Setting.registration, Setting.build_slotSources, List.getElem?_map, hslot]
  rfl

theorem content_linked (h : r.analyze root = .ok a) (hids : (a.properties.map (·.id)).Nodup) :
    ∃ s, r.settingAt root = .ok s ∧ LinksContent r s a := by
  obtain ⟨s, hs⟩ := analyze_ok h
  refine ⟨s, hs.setting, fun i e he => hs.exists_standsAt he, fun i x g e hat j t content ht hcontent => ?_⟩
  obtain ⟨source, m, hsource, hm, hmirrors⟩ := hs.exists_example hat ht hcontent
  refine ⟨source, m, hsource, hm, hmirrors.shape, fun p n f hn hf k y gy ey hy htag => ?_⟩
  exact hs.pointsTo hy hids rfl (hmirrors.shows p n f hn hf) htag

/-! ## A button that shows a badge -/

/-- Two components share a props type, the example of which shows the second. -/
def shownFiles : List (Path × String) :=
  [(⟨"/lib/package.json"⟩, "\x7b\x7d"),
   (⟨"/lib/index.d.ts"⟩, "interface Props \x7b\n  label: string;\n  /**\n   * @default\n   * \x60\x60\x60\n" ++
      "   * export default () => <Badge label='new' tone='dark' />;\n   * \x60\x60\x60\n   */\n  icon: ReactNode;\n\x7d\n" ++
      "export declare const Button: FC<Props>;\nexport declare const Badge: FC<Props>;\n"),
   (⟨"/lib/index.js"⟩, "")]

/-- Its ids are the texts that a digest is taken of. -/
def shown : Run where
  digest := fun text => text
  ids := .fresh fun text => text
  fs := .memory shownFiles

/-- The badge as both slots show it, with an id for the property of that name and none for `tone`. -/
def shownBadge : String × List ElementProp :=
  (":Badge", [⟨"label", some ":Button:label", .string "new"⟩, ⟨"tone", none, .string "dark"⟩])

set_option maxRecDepth 100000 in
theorem shown_analysis : ∃ a, shown.analyze ⟨"/lib"⟩ = .ok a ∧ a.properties.map (·.id) = [":Button:label"] ∧
    (a.patterns.flatMap fun e => (e.pattern.slots.filterMap (·.defaultValue)).map fun f => (f.patternId, f.props)) =
      [shownBadge, shownBadge] := by
  have hstore : FileSystem.storeOf shownFiles =
      [([.root, .name "lib", .name "package.json"], "\x7b\x7d"),
       ([.root, .name "lib", .name "index.d.ts"],
          "interface Props \x7b\n  label: string;\n  /**\n   * @default\n   * \x60\x60\x60\n" ++
          "   * export default () => <Badge label='new' tone='dark' />;\n   * \x60\x60\x60\n   */\n  icon: ReactNode;\n\x7d\n" ++
          "export declare const Button: FC<Props>;\nexport declare const Badge: FC<Props>;\n"),
       ([.root, .name "lib", .name "index.js"], "")] := by decide +kernel
  rw [shown, FileSystem.memory_eq hstore]
  refine Except.exists_ok ?_
  decide +kernel

/-- The badge refers to its property by the id that the button gave it. -/
theorem shown_content_linked : ∃ a s, shown.analyze ⟨"/lib"⟩ = .ok a ∧ shown.settingAt ⟨"/lib"⟩ = .ok s ∧
    LinksContent shown s a ∧
    (a.patterns.flatMap fun e => (e.pattern.slots.filterMap (·.defaultValue)).map fun f => (f.patternId, f.props)) =
      [shownBadge, shownBadge] := by
  obtain ⟨a, ha, hids, hcontent⟩ := shown_analysis
  obtain ⟨s, hs, hlinks⟩ := content_linked ha (by rw [hids]; decide)
  exact ⟨a, s, ha, hs, hlinks, hcontent⟩

end Run

end PatternCatalog
