/-
  PatternCatalog.Proofs.Identity.Reanalyzed — property ids over two versions of a library.

  The first version is analyzed with fresh ids and the second, whatever has become of the
  library, with the ids of the first (`Reanalyzed`). A pattern of the second version keeps the
  id that the first listed under its name for a property, also where the property belonged to
  another pattern then:
  - `property_ids_nodup_iff`: the ids of the second version's properties are pairwise different
    exactly when no two of its patterns list as new a property of one name that they shared in
    the first version (`Unshares`); in that case every property is found by its id.
  - `two_patterns_that_part_keep_one_id`: two components share a props type, then one of them
    declares its own; both patterns mint the id that they shared.
-/

import PatternCatalog.Proofs.Identity.Previous

namespace PatternCatalog

open Identity (Previous Strategy join nested freshPattern)

/-- Two patterns of `b` list as new a property of one name that they shared in `a`. -/
def Unshares (a b : Analysis) : Prop :=
  ∃ e ∈ b.patterns, ∃ f ∈ b.patterns, e.pattern.contextId ≠ f.pattern.contextId ∧
    ∃ p ∈ e.properties, ∃ q ∈ f.properties, p.contextId = q.contextId ∧
      ∃ id, a.propertyId? e.pattern.contextId p.contextId = some id ∧
        a.propertyId? f.pattern.contextId q.contextId = some id

/-- An analysis with fresh ids, and one with its ids. -/
structure Reanalyzed (d : Digest) (a b : Analysis) : Prop where
  before : Assigned (.fresh d) a
  after : Assigned ((Previous.ofAnalysis a).strategy d) b
  distinct : (a.patterns.map (·.pattern.contextId)).Nodup
  distinct' : (b.patterns.map (·.pattern.contextId)).Nodup
  separates : d.Separates (a.digested ++ b.digested)
  colonFree : d.ColonFree

namespace Reanalyzed

variable {d : Digest} {a b : Analysis} {e f : PatternEntry} {p q : Property}

theorem mem_before (he : e ∈ a.patterns) : e.pattern.contextId ∈ a.digested ++ b.digested :=
  List.mem_append_left _ (Analysis.contextId_mem_digested he)

theorem mem_after (he : e ∈ b.patterns) : e.pattern.contextId ∈ a.digested ++ b.digested :=
  List.mem_append_right _ (Analysis.contextId_mem_digested he)

variable (h : Reanalyzed d a b)

include h

/-! ## Patterns -/

theorem id_before (he : e ∈ a.patterns) : e.pattern.id = d e.pattern.contextId := by
  rw [h.before.pattern e he]
  exact Identity.freshPattern_eq d _

theorem id_after (he : e ∈ b.patterns) : e.pattern.id = d e.pattern.contextId := by
  rw [h.after.pattern e he, strategy_pattern h.before]
  exact Identity.freshPattern_eq d _

/-! ## Properties of the first version -/

theorem property_before (he : e ∈ a.patterns) (hp : p ∈ e.properties) :
    p.id = d (join (d e.pattern.contextId) p.contextId) := by
  rw [h.before.property e he p hp, ← h.id_before he]
  rfl

theorem join_mem_before (he : e ∈ a.patterns) (hp : p ∈ e.properties) :
    join (d e.pattern.contextId) p.contextId ∈ a.digested ++ b.digested := by
  rw [← h.id_before he]
  exact List.mem_append_left _ (Analysis.join_mem_digested he hp)

/-- The id of a property determines its pattern and its name. -/
theorem minted_eq {c n c' n' : String} (ht : join (d c) n ∈ a.digested ++ b.digested)
    (ht' : join (d c') n' ∈ a.digested ++ b.digested) (hc : c ∈ a.digested ++ b.digested)
    (hc' : c' ∈ a.digested ++ b.digested) (hid : d (join (d c) n) = d (join (d c') n')) : c = c' ∧ n = n' :=
  Identity.nested_inj h.separates h.colonFree hc hc' ht ht' hid

/-- Properties of one id have one name and belong to one pattern. -/
theorem of_id_eq_before (he : e ∈ a.patterns) (hp : p ∈ e.properties) (hf : f ∈ a.patterns) (hq : q ∈ f.properties)
    (hid : p.id = q.id) : e.pattern.contextId = f.pattern.contextId ∧ p.contextId = q.contextId := by
  rw [h.property_before he hp, h.property_before hf hq] at hid
  exact h.minted_eq (h.join_mem_before he hp) (h.join_mem_before hf hq) (mem_before he) (mem_before hf) hid

/-- A listed property is found, under the name it was minted with. -/
theorem property?_before (he : e ∈ a.patterns) (hp : p ∈ e.properties) :
    ∃ q, a.property? p.id = some q ∧ q.contextId = p.contextId := by
  obtain ⟨q, hq⟩ := Analysis.exists_property? (List.mem_flatMap.mpr ⟨e, he, hp⟩)
  obtain ⟨hmem, hid⟩ := Analysis.property?_some hq
  obtain ⟨f, hf, hqf⟩ := List.mem_flatMap.mp hmem
  exact ⟨q, hq, (h.of_id_eq_before hf hqf he hp hid).2⟩

/-- A pattern that listed a property as new refers to some property of that name. -/
theorem propertyId?_isSome (he : e ∈ a.patterns) (hp : p ∈ e.properties) :
    (a.propertyId? e.pattern.contextId p.contextId).isSome := by
  have hfind : a.patterns.find? (·.pattern.contextId == e.pattern.contextId) = some e :=
    find?_key (·.pattern.contextId) h.distinct he
  obtain ⟨q, hq, hname⟩ := h.property?_before he hp
  have hmem : q ∈ a.propertiesOf e.pattern := Analysis.mem_propertiesOf.mpr ⟨p.id, h.before.own e he p hp, hq⟩
  rw [Analysis.propertyId?, hfind, Option.bind_some, Option.isSome_map, List.find?_isSome]
  exact ⟨q, List.mem_reverse.mpr hmem, by simpa using hname⟩

/-! ## Properties of the second version -/

/-- A property keeps the id that the first version listed under the name; else it gets a fresh one. -/
theorem property_after (he : e ∈ b.patterns) (hp : p ∈ e.properties) :
    p.id = (a.propertyId? e.pattern.contextId p.contextId).getD (d (join (d e.pattern.contextId) p.contextId)) := by
  have hsep : d.Separates (e.pattern.contextId :: a.patterns.map (·.pattern.contextId)) := by
    refine h.separates.mono fun c hc => ?_
    rcases List.mem_cons.mp hc with rfl | hc
    · exact mem_after he
    · obtain ⟨f, hf, rfl⟩ := List.mem_map.mp hc
      exact mem_before hf
  rw [h.after.property e he p hp, h.id_after he, ← last?_properties h.before h.distinct hsep]
  rfl

theorem join_mem_after (he : e ∈ b.patterns) (hp : p ∈ e.properties) :
    join (d e.pattern.contextId) p.contextId ∈ a.digested ++ b.digested := by
  rw [← h.id_after he]
  exact List.mem_append_right _ (Analysis.join_mem_digested he hp)

/-- An id of the first version is fresh in the second only where it was listed before. -/
theorem not_fresh (he : e ∈ b.patterns) (hp : p ∈ e.properties)
    (hnone : a.propertyId? e.pattern.contextId p.contextId = none) (hq : q ∈ a.properties) :
    d (join (d e.pattern.contextId) p.contextId) ≠ q.id := by
  intro hid
  obtain ⟨f, hf, hqf⟩ := List.mem_flatMap.mp hq
  rw [h.property_before hf hqf] at hid
  obtain ⟨hc, hn⟩ := h.minted_eq (h.join_mem_after he hp) (h.join_mem_before hf hqf) (mem_after he)
    (mem_before hf) hid
  have hsome := h.propertyId?_isSome hf hqf
  rw [← hc, ← hn, hnone] at hsome
  cases hsome

/-- Properties of one id have one name, and belong to one pattern or to two that shared the id. -/
theorem of_id_eq (he : e ∈ b.patterns) (hp : p ∈ e.properties) (hf : f ∈ b.patterns) (hq : q ∈ f.properties)
    (hid : p.id = q.id) : p.contextId = q.contextId ∧ (e.pattern.contextId = f.pattern.contextId ∨
      ∃ id, a.propertyId? e.pattern.contextId p.contextId = some id ∧
        a.propertyId? f.pattern.contextId q.contextId = some id) := by
  rw [h.property_after he hp, h.property_after hf hq] at hid
  cases hpe : a.propertyId? e.pattern.contextId p.contextId with
  | none =>
    cases hqf : a.propertyId? f.pattern.contextId q.contextId with
    | none =>
      rw [hpe, hqf] at hid
      obtain ⟨hc, hn⟩ := h.minted_eq (h.join_mem_after he hp) (h.join_mem_after hf hq) (mem_after he)
        (mem_after hf) hid
      exact ⟨hn, .inl hc⟩
    | some id =>
      rw [hpe, hqf] at hid
      obtain ⟨k, hk, -⟩ := Analysis.property?_of_propertyId? hqf
      obtain ⟨hk, hkid⟩ := Analysis.property?_some hk
      exact absurd (Eq.trans hid hkid.symm) (h.not_fresh he hp hpe hk)
  | some id =>
    cases hqf : a.propertyId? f.pattern.contextId q.contextId with
    | none =>
      rw [hpe, hqf] at hid
      obtain ⟨k, hk, -⟩ := Analysis.property?_of_propertyId? hpe
      obtain ⟨hk, hkid⟩ := Analysis.property?_some hk
      exact absurd (Eq.trans hid.symm hkid.symm) (h.not_fresh hf hq hqf hk)
    | some id' =>
      rw [hpe, hqf] at hid
      obtain rfl : id = id' := hid
      obtain ⟨k, hk, hkp⟩ := Analysis.property?_of_propertyId? hpe
      obtain ⟨k', hk', hkq⟩ := Analysis.property?_of_propertyId? hqf
      obtain rfl := Option.some.inj (hk.symm.trans hk')
      exact ⟨hkp.symm.trans hkq, .inr ⟨id, rfl, rfl⟩⟩

/-! ## Distinct ids -/

theorem property_ids_nodup_iff : (b.properties.map (·.id)).Nodup ↔ ¬ Unshares a b := by
  rw [Analysis.properties, List.map_flatMap]
  constructor
  · rintro hnodup ⟨e, he, f, hf, hne, p, hp, q, hq, -, id, hpid, hqid⟩
    have hid : p.id = q.id := by rw [h.property_after he hp, h.property_after hf hq, hpid, hqid, Option.getD_some,
      Option.getD_some]
    have hpe : p.id ∈ e.properties.map (·.id) := List.mem_map_of_mem hp
    have hqf : p.id ∈ f.properties.map (·.id) := hid ▸ List.mem_map_of_mem hq
    exact hne (by rw [eq_of_mem_flatMap hnodup he hf hpe hqf])
  · intro hkept
    rw [List.Nodup, List.pairwise_flatMap]
    constructor
    · intro e he
      have hnames := h.after.names e he
      rw [List.Nodup, List.pairwise_map] at hnames
      rw [List.pairwise_map]
      exact hnames.imp_of_mem fun hp hq hne hid => hne (h.of_id_eq he hp he hq hid).1
    · have hcontexts := h.distinct'
      rw [List.Nodup, List.pairwise_map] at hcontexts
      refine hcontexts.imp_of_mem fun {e f} he hf hne x hx y hy hxy => ?_
      obtain ⟨p, hp, rfl⟩ := List.mem_map.mp hx
      obtain ⟨q, hq, rfl⟩ := List.mem_map.mp hy
      obtain ⟨hname, hcontext | hshared⟩ := h.of_id_eq he hp hf hq hxy
      · exact hne hcontext
      · exact hkept ⟨e, he, f, hf, hne, p, hp, q, hq, hname, hshared⟩

end Reanalyzed

/-- An analysis in which no id comes twice finds each property by its id. -/
theorem Analysis.property?_of_nodup {a : Analysis} (h : (a.properties.map (·.id)).Nodup) {p : Property}
    (hp : p ∈ a.properties) : a.property? p.id = some p := find?_key Property.id h hp

namespace Run

/-! ## Runs -/

theorem reanalyzed {r r' : Run} {root root' : Path} {a b : Analysis} (hids : r.ids = .fresh .sha256)
    (h : r.analyze root = .ok a) (hids' : r'.ids = (Previous.ofAnalysis a).strategy .sha256)
    (h' : r'.analyze root' = .ok b) (hn : (a.patterns.map (·.pattern.contextId)).Nodup)
    (hn' : (b.patterns.map (·.pattern.contextId)).Nodup) (hd : Digest.sha256.Separates (a.digested ++ b.digested)) :
    Reanalyzed .sha256 a b := by
  obtain ⟨s, hs⟩ := analyze_ok h
  obtain ⟨s', hs'⟩ := analyze_ok h'
  exact ⟨hids ▸ hs.assigned, hids' ▸ hs'.assigned, hn, hn', hd, Digest.sha256_colonFree⟩

/-- Over two versions an id comes twice exactly where two patterns part with a property they shared. -/
theorem reanalyzed_property_ids_nodup_iff {r r' : Run} {root root' : Path} {a b : Analysis}
    (hids : r.ids = .fresh .sha256) (h : r.analyze root = .ok a)
    (hids' : r'.ids = (Previous.ofAnalysis a).strategy .sha256) (h' : r'.analyze root' = .ok b)
    (hn : (a.patterns.map (·.pattern.contextId)).Nodup) (hn' : (b.patterns.map (·.pattern.contextId)).Nodup)
    (hd : Digest.sha256.Separates (a.digested ++ b.digested)) :
    ((b.properties.map (·.id)).Nodup ↔ ¬ Unshares a b) ∧
      (¬ Unshares a b → ∀ p ∈ b.properties, b.property? p.id = some p) := by
  have hiff := (reanalyzed hids h hids' h' hn hn' hd).property_ids_nodup_iff
  exact ⟨hiff, fun hkept p hp => Analysis.property?_of_nodup (hiff.mpr hkept) hp⟩

/-! ## Two components that part -/

/-- A library in which two components have one props type. -/
def sharingFiles : List (Path × String) :=
  [(⟨"/lib/package.json"⟩, "\x7b\x7d"),
   (⟨"/lib/index.d.ts"⟩, "export interface Props \x7b label: string; \x7d\n" ++
      "export declare const Button: React.FC<Props>;\nexport declare const Badge: React.FC<Props>;\n"),
   (⟨"/lib/index.js"⟩, "")]

/-- The library after one of them was given a props type of its own. -/
def partedFiles : List (Path × String) :=
  [(⟨"/lib/package.json"⟩, "\x7b\x7d"),
   (⟨"/lib/index.d.ts"⟩, "export interface Props \x7b label: string; \x7d\n" ++
      "export interface BadgeProps \x7b label: string; \x7d\n" ++
      "export declare const Button: React.FC<Props>;\nexport declare const Badge: React.FC<BadgeProps>;\n"),
   (⟨"/lib/index.js"⟩, "")]

def sharing : Run where
  digest := .sha256
  fs := .memory sharingFiles

def parted (ids : Previous) : Run where
  digest := .sha256
  ids := ids.strategy .sha256
  fs := .memory partedFiles

def buttonId : String := "3d870910a42c7a34069490bd645f8c9c0c101ae8162e0c548bd80aaf06bd6cc1"

def badgeId : String := "3759120bdfe60123fb094cbd93de5d514ad2eb47bde200a271620bb6d30fd3b4"

def labelId : String := "6d2049a901d962afd7c3e1baa3b3967560833bb5322bfa78e1633f20e0760d45"

/-- Both patterns are entered with the one property. -/
def sharingIds : Previous where
  patterns := [(":Button", buttonId), (":Badge", badgeId)]
  properties := [((buttonId, "label"), labelId), ((badgeId, "label"), labelId)]
  slots := []
  enumOptions := []

theorem sharing_store : FileSystem.storeOf sharingFiles =
    [([.root, .name "lib", .name "package.json"], "\x7b\x7d"),
     ([.root, .name "lib", .name "index.d.ts"], "export interface Props \x7b label: string; \x7d\n" ++
        "export declare const Button: React.FC<Props>;\nexport declare const Badge: React.FC<Props>;\n"),
     ([.root, .name "lib", .name "index.js"], "")] := by decide +kernel

set_option maxRecDepth 100000 in
theorem sharing_analysis : ∃ a, sharing.analyze ⟨"/lib"⟩ = .ok a ∧ Previous.ofAnalysis a = sharingIds ∧
    a.properties.map (·.id) = [labelId] ∧ a.patterns.map (·.pattern.contextId) = [":Button", ":Badge"] ∧
    a.digested = [":Button", ":Badge", join buttonId "label"] := by
  rw [sharing, FileSystem.memory_eq sharing_store]
  refine Except.exists_ok ?_
  decide +kernel

set_option maxRecDepth 100000 in
theorem parted_analysis : (∃ b, (parted sharingIds).analyze ⟨"/lib"⟩ = .ok b ∧
    b.patterns.map (·.pattern.contextId) = [":Button", ":Badge"] ∧
    b.digested = [":Button", ":Badge", join buttonId "label", join badgeId "label"] ∧
    b.properties.map (·.id) = [labelId, labelId]) ∧
    Digest.sha256.Separates [":Button", ":Badge", join buttonId "label", join badgeId "label"] := by
  have hstore : FileSystem.storeOf partedFiles =
      [([.root, .name "lib", .name "package.json"], "\x7b\x7d"),
       ([.root, .name "lib", .name "index.d.ts"], "export interface Props \x7b label: string; \x7d\n" ++
          "export interface BadgeProps \x7b label: string; \x7d\n" ++
          "export declare const Button: React.FC<Props>;\nexport declare const Badge: React.FC<BadgeProps>;\n"),
       ([.root, .name "lib", .name "index.js"], "")] := by decide +kernel
  rw [parted, FileSystem.memory_eq hstore]
  refine And.imp Except.exists_ok Digest.Separates.of_nodup ?_
  decide +kernel

/-- The two runs, with everything that is asked of them. -/
theorem sharing_then_parted : ∃ a b, sharing.analyze ⟨"/lib"⟩ = .ok a ∧
    (parted (Previous.ofAnalysis a)).analyze ⟨"/lib"⟩ = .ok b ∧
    (a.patterns.map (·.pattern.contextId)).Nodup ∧ (b.patterns.map (·.pattern.contextId)).Nodup ∧
    Digest.sha256.Separates (a.digested ++ b.digested) ∧ b.properties.map (·.id) = [labelId, labelId] := by
  obtain ⟨a, ha, hids, -, hca, hda⟩ := sharing_analysis
  obtain ⟨⟨b, hb, hcb, hdb, hproperties⟩, hseparates⟩ := parted_analysis
  rw [← hids] at hb
  refine ⟨a, b, ha, hb, ?_, ?_, ?_, hproperties⟩
  · rw [hca]
    decide
  · rw [hcb]
    decide
  · rw [hda, hdb]
    refine hseparates.mono fun t ht => ?_
    simp only [List.cons_append, List.nil_append, List.mem_cons, List.not_mem_nil, or_false] at ht ⊢
    grind

theorem two_patterns_that_part_keep_one_id : ∃ a b, sharing.ids = .fresh .sha256 ∧
    sharing.analyze ⟨"/lib"⟩ = .ok a ∧ (parted (Previous.ofAnalysis a)).analyze ⟨"/lib"⟩ = .ok b ∧
    (a.patterns.map (·.pattern.contextId)).Nodup ∧ (b.patterns.map (·.pattern.contextId)).Nodup ∧
    Digest.sha256.Separates (a.digested ++ b.digested) ∧ ¬ (b.properties.map (·.id)).Nodup := by
  obtain ⟨a, b, ha, hb, hca, hcb, hd, hproperties⟩ := sharing_then_parted
  refine ⟨a, b, rfl, ha, hb, hca, hcb, hd, ?_⟩
  rw [hproperties]
  simp

theorem sharing_then_parted_nodup_iff : ∃ a b, sharing.analyze ⟨"/lib"⟩ = .ok a ∧
    (parted (Previous.ofAnalysis a)).analyze ⟨"/lib"⟩ = .ok b ∧ ((b.properties.map (·.id)).Nodup ↔ ¬ Unshares a b) := by
  obtain ⟨a, b, ha, hb, hca, hcb, hd, -⟩ := sharing_then_parted
  exact ⟨a, b, ha, hb, (reanalyzed_property_ids_nodup_iff rfl ha rfl hb hca hcb hd).1⟩

end Run

end PatternCatalog
