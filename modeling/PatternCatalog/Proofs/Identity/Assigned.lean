/-
  PatternCatalog.Proofs.Identity.Assigned — where the ids of an analysis come from.

  Every id in an analysis is what the strategy of the run answered when it was asked about the
  context id of a pattern, or about the id of a parent and a name (`Assigned`). A property is
  asked about once, for the pattern that lists it as new; every id that a pattern refers to is
  that of a listed property. `Analyzed.assigned` reads this off the registry.
-/

import PatternCatalog.Identity.Previous
import PatternCatalog.Proofs.Property.EnumOption
import PatternCatalog.Proofs.Run

namespace PatternCatalog

namespace PropertyKind

variable {l : Library} {ids : Identity.Strategy} {propertyId : String}

/-- The kind of a member does not depend on what wrappers make of it. -/
theorem ofMember_congr {m n : Library.MemberRef} (hfile : m.file = n.file) (hmember : m.member = n.member)
    (doc : Doc.Comment) : ofMember l ids propertyId m doc = ofMember l ids propertyId n doc := by
  simp only [ofMember, ofMember?, ofMemberWithin?, hfile, hmember]

theorem ofControl?_ne_enum {doc : Doc.Comment} {options : List EnumOption} : ofControl? doc ≠ some (.enum options) := by
  intro h
  obtain ⟨text, -, h⟩ := Option.bind_eq_some_iff.mp h
  dsimp only at h
  repeat' split at h
  all_goals cases h

/-- A type is of an enum kind exactly when it normalizes to a reference to an enum and is not boolean. -/
theorem ofType?_eq_enum_iff {control : Option PropertyKind} {typeText : String} {depth : Nat} {raw : Library.Place}
    {options : List EnumOption} (hcontrol : control ≠ some (.enum options)) :
    ofType? l ids propertyId control typeText depth raw = some (.enum options) ↔
      ∃ p members, l.normalize? depth raw = some p ∧ l.consistsOf? TypeExpr.isBoolean depth p = some false ∧
        EnumOption.members? l p = some members ∧ EnumOption.ofMembers ids propertyId members = options := by
  unfold ofType?
  cases hnormal : l.normalize? depth raw with
  | none => simp
  | some p =>
    cases hboolean : l.consistsOf? TypeExpr.isBoolean depth p with
    | none => simp [hboolean]
    | some b =>
      cases b with
      | true => simp [hboolean]
      | false =>
        cases hmembers : EnumOption.members? l p with
        | some members => simp [hboolean, hmembers]
        | none =>
          simp only [Option.bind_eq_bind, Option.bind_some, hboolean, hmembers]
          constructor
          · intro h
            rw [if_neg Bool.false_ne_true] at h
            split at h
            · cases h
            · obtain ⟨isString, -, h⟩ := Option.bind_eq_some_iff.mp h
              split at h
              · cases h
              · obtain ⟨isNumber, -, h⟩ := Option.bind_eq_some_iff.mp h
                split at h
                · cases h
                · split at h
                  · cases control with
                    | none => cases h
                    | some k => exact absurd h hcontrol
                  · cases h
          · rintro ⟨p', members, hp, -, hm, -⟩
            obtain rfl := Option.some.inj hp
            rw [hmembers] at hm
            cases hm

/-- The members of the enum that the type of a member leads to. -/
theorem ofMember_eq_enum_iff (m : Library.MemberRef) (doc : Doc.Comment) {options : List EnumOption} :
    ofMember l ids propertyId m doc = .enum options ↔ ∃ type, m.member.type = some type ∧
      ofType? l ids propertyId (ofControl? doc) m.member.typeText (walkDepth l type) ⟨m.file, type⟩ =
        some (.enum options) := by
  unfold ofMember ofMember? ofMemberWithin?
  cases m.member.type with
  | none => simp
  | some type =>
    simp only [Option.some.injEq, exists_eq_left', Option.map_some, Option.getD_some]
    cases ofType? l ids propertyId (ofControl? doc) m.member.typeText (walkDepth l type) ⟨m.file, type⟩ <;> simp

/-- The kind of a type depends on a strategy by the ids it gives to the options of an enum. -/
theorem ofType?_ids_congr {ids' : Identity.Strategy} {control : Option PropertyKind} {typeText : String} {depth : Nat}
    {raw : Library.Place} (h : ∀ options, ofType? l ids propertyId control typeText depth raw = some (.enum options) →
      ∀ o ∈ options, ids'.enumOption propertyId o.contextId = o.id) :
    ofType? l ids' propertyId control typeText depth raw = ofType? l ids propertyId control typeText depth raw := by
  unfold ofType? at h ⊢
  cases hnormal : l.normalize? depth raw with
  | none => rfl
  | some p =>
    simp only [hnormal, Option.bind_eq_bind, Option.bind_some] at h ⊢
    cases hboolean : l.consistsOf? TypeExpr.isBoolean depth p with
    | none => rfl
    | some b =>
      cases b with
      | true => rfl
      | false =>
        cases hmembers : EnumOption.members? l p with
        | none => rfl
        | some members =>
          simp only [hboolean, hmembers, Option.bind_some, Bool.false_eq_true, if_false] at h ⊢
          rw [EnumOption.ofMembers_congr (h _ rfl)]

theorem ofMember_ids_congr {ids' : Identity.Strategy} (m : Library.MemberRef) (doc : Doc.Comment)
    (h : ∀ o ∈ (ofMember l ids propertyId m doc).options, ids'.enumOption propertyId o.contextId = o.id) :
    ofMember l ids' propertyId m doc = ofMember l ids propertyId m doc := by
  unfold ofMember ofMember? ofMemberWithin? at h ⊢
  cases htype : m.member.type with
  | none => rfl
  | some type =>
    simp only [htype, Option.map_some, Option.getD_some] at h ⊢
    rw [ofType?_ids_congr fun options henum => by rwa [henum] at h]

theorem ofMember_options (m : Library.MemberRef) (doc : Doc.Comment) {o : EnumOption}
    (h : o ∈ (ofMember l ids propertyId m doc).options) : o.id = ids.enumOption propertyId o.contextId := by
  cases hkind : ofMember l ids propertyId m doc with
  | enum options =>
    rw [hkind] at h
    obtain ⟨type, -, htype⟩ := (ofMember_eq_enum_iff m doc).mp hkind
    obtain ⟨p, members, -, -, -, rfl⟩ := (ofType?_eq_enum_iff ofControl?_ne_enum).mp htype
    exact EnumOption.id_of_mem h
  | _ => rw [hkind] at h; cases h

end PropertyKind

/-- A property depends on a strategy by its id and the ids of its options. -/
theorem Property.ofMember_congr {l : Library} {ids ids' : Identity.Strategy} {patternId : String} {m : Library.MemberRef}
    (hid : ids'.property patternId m.name = ids.property patternId m.name)
    (hoptions : ∀ o ∈ (ofMember l ids patternId m).kind.options,
      ids'.enumOption (ofMember l ids patternId m).id o.contextId = o.id) :
    ofMember l ids' patternId m = ofMember l ids patternId m := by
  have hkind := PropertyKind.ofMember_ids_congr m (Doc.parse? m.member.doc) hoptions
  unfold ofMember at hkind ⊢
  dsimp only at hkind ⊢
  rw [hid, hkind]

/-! ## The ids of an analysis -/

/-- All ids of an analysis come from a strategy. -/
structure Assigned (ids : Identity.Strategy) (a : Analysis) : Prop where
  pattern : ∀ e ∈ a.patterns, e.pattern.id = ids.pattern e.pattern.contextId
  property : ∀ e ∈ a.patterns, ∀ p ∈ e.properties, p.id = ids.property e.pattern.id p.contextId
  names : ∀ e ∈ a.patterns, (e.properties.map (·.contextId)).Nodup
  own : ∀ e ∈ a.patterns, ∀ p ∈ e.properties, p.id ∈ e.pattern.propertyIds
  listed : ∀ e ∈ a.patterns, ∀ id ∈ e.pattern.propertyIds, ∃ p ∈ a.properties, p.id = id
  slot : ∀ e ∈ a.patterns, ∀ t ∈ e.pattern.slots, t.id = ids.slot e.pattern.id t.contextId
  option : ∀ e ∈ a.patterns, ∀ p ∈ e.properties, ∀ o ∈ p.kind.options, o.id = ids.enumOption p.id o.contextId

namespace Run

variable {r : Run} {root : Path} {s : Setting} {a : Analysis}

/-- A property that a pattern refers to was listed by the pattern itself or by one before it. -/
theorem Analyzed.exists_property (h : r.Analyzed root s a) {before after : List Listing} {x : Listing}
    (hxs : s.registered = before ++ x :: after) {m : Library.MemberRef} (hm : m ∈ s.propertyMembers x.2) :
    ∃ earlier y later, s.registered = earlier ++ y :: later ∧ ∃ n ∈ s.propertyMembers y.2, n.key = m.key ∧
      (s.ownerId? before m.key).getD (s.mintedId x.2 m) = s.mintedId y.2 n ∧
      ∃ e ∈ a.patterns, Describes s earlier y e ∧
        Property.ofMember s.library s.ids (s.patternId y.2) n ∈ e.properties := by
  cases howner : s.ownerId? before m.key with
  | none =>
    obtain ⟨e, he, hdesc⟩ := h.exists_entry hxs
    refine ⟨before, x, after, hxs, m, hm, rfl, rfl, e, he, hdesc, ?_⟩
    rw [hdesc.properties]
    exact List.mem_map_of_mem (List.mem_filter.mpr ⟨hm, by rw [howner]; rfl⟩)
  | some id =>
    obtain ⟨earlier, y, between, n, rfl, hnone, hn, rfl⟩ := s.ownerId?_eq_some howner
    obtain ⟨hn, hkey⟩ := s.memberAt?_some hn
    rw [List.append_assoc, List.cons_append] at hxs
    obtain ⟨e, he, hdesc⟩ := h.exists_entry hxs
    refine ⟨earlier, y, _, hxs, n, hn, hkey, rfl, e, he, hdesc, ?_⟩
    rw [hdesc.properties]
    exact List.mem_map_of_mem (List.mem_filter.mpr ⟨hn, by rw [hkey, hnone]; rfl⟩)

theorem Analyzed.assigned (h : r.Analyzed root s a) : Assigned r.ids a := by
  have hids := h.ids_eq
  constructor
  case pattern =>
    intro e he
    obtain ⟨before, x, after, -, hdesc⟩ := h.exists_listing he
    rw [hdesc.id, hdesc.contextId, ← hids]
    rfl
  case property =>
    intro e he p hp
    obtain ⟨m, rfl⟩ := h.exists_member he hp
    rw [← hids]
    rfl
  case names =>
    intro e he
    obtain ⟨before, x, after, -, hdesc⟩ := h.exists_listing he
    rw [hdesc.properties, List.map_map]
    exact (s.propertyMembers_nodup x.2).sublist (List.filter_sublist.map _)
  case own =>
    intro e he p hp
    obtain ⟨before, x, after, -, hdesc⟩ := h.exists_listing he
    rw [hdesc.properties] at hp
    obtain ⟨m, hm, rfl⟩ := List.mem_map.mp hp
    obtain ⟨hm, hnew⟩ := List.mem_filter.mp hm
    rw [hdesc.propertyIds]
    refine List.mem_map.mpr ⟨m, hm, ?_⟩
    rw [Option.isNone_iff_eq_none.mp hnew]
    rfl
  case listed =>
    intro e he id hid
    obtain ⟨before, x, after, hxs, hdesc⟩ := h.exists_listing he
    rw [hdesc.propertyIds] at hid
    obtain ⟨m, hm, rfl⟩ := List.mem_map.mp hid
    obtain ⟨earlier, y, later, -, n, -, -, hminted, f, hf, -, hp⟩ := h.exists_property hxs hm
    exact ⟨_, List.mem_flatMap.mpr ⟨f, hf, hp⟩, hminted.symm⟩
  case slot =>
    intro e he t ht
    obtain ⟨before, x, after, -, hdesc⟩ := h.exists_listing he
    have hpair := List.mem_map_of_mem (f := fun t : Slot => (t.contextId, t.id)) ht
    rw [hdesc.slots] at hpair
    obtain ⟨name, -, hname⟩ := List.mem_map.mp hpair
    obtain ⟨rfl, hid⟩ := Prod.mk.inj hname
    rw [← hid, hdesc.id, ← hids]
  case option =>
    intro e he p hp o ho
    obtain ⟨m, rfl⟩ := h.exists_member he hp
    rw [← hids]
    exact PropertyKind.ofMember_options m _ ho

end Run

end PatternCatalog
