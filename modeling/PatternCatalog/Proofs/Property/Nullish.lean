/-
  PatternCatalog.Proofs.Property.Nullish — `null` and `undefined` beside the type of a property.

  A classification decides by the normal form of a type, in a fixed order of tests
  (`PropertyKind.HasKind`, `PropertyKind.ofType?_eq_some_iff`). Nullish types around a type are
  dropped on the way to the normal form, so they change nothing there (`WithNullish.normal`).
  Only the test for event handlers also asks the type as it is written: an alias with the name
  of a handler type is a handler by its name, and no longer when it stands beside `null`. So
  nullish types are invisible to the classification exactly where no such alias hides what it
  stands for (`PropertyKind.nullish_types_are_invisible_iff`,
  `PropertyKind.a_named_handler_or_null_is_no_handler`).
-/

import PatternCatalog.Proofs.Property.Classification

namespace PatternCatalog

open Library (MemberRef Place)

/-! ## Nullish types around a type -/

/-- A type with nullish types put around it in a union, or around the parts of a union. -/
inductive TypeExpr.WithNullish : TypeExpr → TypeExpr → Prop
  | same {t} : WithNullish t t
  | beside {before t after} (hbefore : ∀ u ∈ before, u.isNullish = true) (ht : t.isNullish = false)
      (hafter : ∀ u ∈ after, u.isNullish = true) : WithNullish t (.union (before ++ t :: after))
  | among {before parts after} (hbefore : ∀ u ∈ before, u.isNullish = true) (hafter : ∀ u ∈ after, u.isNullish = true) :
      WithNullish (.union parts) (.union (before ++ parts ++ after))

namespace Library

theorem properParts_append (parts parts' : List TypeExpr) :
    properParts (parts ++ parts') = properParts parts ++ properParts parts' := List.filter_append parts parts'

theorem properParts_nullish {parts : List TypeExpr} (h : ∀ u ∈ parts, u.isNullish = true) : properParts parts = [] :=
  List.filter_eq_nil_iff.mpr fun u hu => by simp [h u hu]

theorem properParts_beside {before after : List TypeExpr} {t : TypeExpr} (hbefore : ∀ u ∈ before, u.isNullish = true)
    (ht : t.isNullish = false) (hafter : ∀ u ∈ after, u.isNullish = true) : properParts (before ++ t :: after) = [t] := by
  rw [properParts_append, properParts_nullish hbefore, List.nil_append, properParts, List.filter_cons_of_pos (by simp [ht])]
  exact congrArg (t :: ·) (properParts_nullish hafter)

theorem properParts_among {before parts after : List TypeExpr} (hbefore : ∀ u ∈ before, u.isNullish = true)
    (hafter : ∀ u ∈ after, u.isNullish = true) : properParts (before ++ parts ++ after) = properParts parts := by
  rw [properParts_append, properParts_append, properParts_nullish hbefore, properParts_nullish hafter, List.nil_append,
    List.append_nil]

variable {l : Library} {p q : Place} {parts parts' : List TypeExpr} {file : Nat}

theorem resolveAlias_union (hunion : p.type = .union parts) : l.resolveAlias p = p :=
  resolveAlias_of_no_target (aliasTarget?_union hunion)

/-- A union with one part that is not nullish has the normal form of the part. -/
theorem normal_only {only : TypeExpr} (honly : properParts parts = [only]) :
    l.Normal ⟨file, .union parts⟩ q ↔ l.Normal ⟨file, only⟩ q := by
  have hstep : ∀ n, l.normalize? (n + 1) ⟨file, .union parts⟩ = l.normalize? n ⟨file, only⟩ := fun n => by
    simp only [normalize?, resolveAlias_union (p := ⟨file, .union parts⟩) rfl, honly]
  constructor
  · rintro ⟨n, hn⟩
    cases n with
    | zero => cases hn
    | succ n => exact ⟨n, hstep n ▸ hn⟩
  · rintro ⟨n, hn⟩
    exact ⟨n + 1, (hstep n).trans hn⟩

/-- Any other union is its own normal form. -/
theorem normal_several (hseveral : ∀ only, properParts parts ≠ [only]) :
    l.Normal ⟨file, .union parts⟩ q ↔ q = ⟨file, .union parts⟩ := by
  have hnormal : l.Normal ⟨file, .union parts⟩ ⟨file, .union parts⟩ := by
    refine ⟨1, ?_⟩
    simp only [normalize?, resolveAlias_union (p := ⟨file, .union parts⟩) rfl]
  refine ⟨fun hq => hq.unique hnormal, ?_⟩
  rintro rfl
  exact hnormal

/-- Types between which the tests of a classification make no difference. -/
structure Alike (l : Library) (p q : Place) : Prop where
  consists : ∀ test b, l.Consists test p b ↔ l.Consists test q b
  members : EnumOption.members? l p = EnumOption.members? l q
  event : EventKind.ofType? l p = EventKind.ofType? l q

theorem Alike.refl (l : Library) (p : Place) : l.Alike p p := ⟨fun _ _ => .rfl, rfl, rfl⟩

theorem Alike.trans {r : Place} (hp : l.Alike p q) (hq : l.Alike q r) : l.Alike p r :=
  ⟨fun test b => (hp.consists test b).trans (hq.consists test b), hp.members.trans hq.members, hp.event.trans hq.event⟩

theorem Alike.symm (h : l.Alike p q) : l.Alike q p := ⟨fun test b => (h.consists test b).symm, h.members.symm, h.event.symm⟩

/-- Unions are told apart by their parts that are not nullish. -/
theorem alike_union (hparts : properParts parts = properParts parts') :
    l.Alike ⟨file, .union parts⟩ ⟨file, .union parts'⟩ where
  consists test b := by
    refine exists_congr fun n => ?_
    cases n with
    | zero => rfl
    | succ n => simp only [consistsOf?, hparts]
  members := rfl
  event := rfl

theorem exists_alike_normal (hparts : properParts parts = properParts parts') (hp : l.Normal ⟨file, .union parts⟩ p) :
    ∃ q, l.Normal ⟨file, .union parts'⟩ q ∧ l.Alike p q := by
  by_cases honly : ∃ only, properParts parts = [only]
  · obtain ⟨only, honly⟩ := honly
    exact ⟨p, (normal_only (hparts ▸ honly)).mpr ((normal_only honly).mp hp), .refl l p⟩
  · obtain rfl := (normal_several (not_exists.mp honly)).mp hp
    exact ⟨_, (normal_several (hparts ▸ not_exists.mp honly)).mpr rfl, alike_union hparts⟩

/-- Nullish types around a type make no difference to its normal form. -/
theorem normal_withNullish {t u : TypeExpr} (h : t.WithNullish u) (file : Nat) :
    (∀ p, l.Normal ⟨file, t⟩ p → ∃ q, l.Normal ⟨file, u⟩ q ∧ l.Alike p q) ∧
    ∀ q, l.Normal ⟨file, u⟩ q → ∃ p, l.Normal ⟨file, t⟩ p ∧ l.Alike p q := by
  cases h with
  | same => exact ⟨fun p hp => ⟨p, hp, .refl l p⟩, fun q hq => ⟨q, hq, .refl l q⟩⟩
  | beside hbefore ht hafter =>
    have hnormal : ∀ p, l.Normal ⟨file, .union _⟩ p ↔ l.Normal ⟨file, t⟩ p := fun p =>
      normal_only (properParts_beside hbefore ht hafter)
    exact ⟨fun p hp => ⟨p, (hnormal p).mpr hp, .refl l p⟩, fun q hq => ⟨q, (hnormal q).mp hq, .refl l q⟩⟩
  | @among before parts after hbefore hafter =>
    have hparts : properParts (before ++ parts ++ after) = properParts parts := properParts_among hbefore hafter
    refine ⟨fun p hp => exists_alike_normal hparts.symm hp, fun q hq => ?_⟩
    obtain ⟨p, hp, halike⟩ := exists_alike_normal hparts hq
    exact ⟨p, hp, halike.symm⟩

end Library

namespace PropertyKind

open Library (Alike)

/-! ## The order of the tests -/

/-- The kind of a type with a normal form, given the event that it handles. -/
inductive HasKind (l : Library) (ids : Identity.Strategy) (propertyId : String) (control : Option PropertyKind)
    (typeText : String) (event : Option EventKind) (p : Place) : PropertyKind → Prop
  | boolean (h : l.Consists TypeExpr.isBoolean p true) : HasKind l ids propertyId control typeText event p .boolean
  | enum {members} (hboolean : l.Consists TypeExpr.isBoolean p false) (h : EnumOption.members? l p = some members) :
      HasKind l ids propertyId control typeText event p (.enum (EnumOption.ofMembers ids propertyId members))
  | event {e} (hboolean : l.Consists TypeExpr.isBoolean p false) (hmembers : EnumOption.members? l p = none)
      (h : event = some e) : HasKind l ids propertyId control typeText event p (.eventHandler e)
  | string (hboolean : l.Consists TypeExpr.isBoolean p false) (hmembers : EnumOption.members? l p = none)
      (hevent : event = none) (h : l.Consists TypeExpr.isString p true) (hcontrol : control = none) :
      HasKind l ids propertyId control typeText event p .string
  | number {isString} (hboolean : l.Consists TypeExpr.isBoolean p false) (hmembers : EnumOption.members? l p = none)
      (hevent : event = none) (hstring : l.Consists TypeExpr.isString p isString)
      (hcontrol : (isString && control.isNone) = false) (h : l.Consists TypeExpr.isNumber p true) :
      HasKind l ids propertyId control typeText event p .number
  | refined {kind} (hboolean : l.Consists TypeExpr.isBoolean p false) (hmembers : EnumOption.members? l p = none)
      (hevent : event = none) (h : l.Consists TypeExpr.isString p true) (hcontrol : control = some kind)
      (hnumber : l.Consists TypeExpr.isNumber p false) : HasKind l ids propertyId control typeText event p kind
  | unknown (hboolean : l.Consists TypeExpr.isBoolean p false) (hmembers : EnumOption.members? l p = none)
      (hevent : event = none) (hstring : l.Consists TypeExpr.isString p false)
      (hnumber : l.Consists TypeExpr.isNumber p false) :
      HasKind l ids propertyId control typeText event p (.unknown typeText)

variable {l : Library} {ids : Identity.Strategy} {propertyId : String} {control : Option PropertyKind}
  {typeText : String} {raw p q : Place} {kind : PropertyKind}

theorem normalize?_walkDepth_iff : l.normalize? (walkDepth l raw.type) raw = some p ↔ l.Normal raw p := by
  refine ⟨fun h => ⟨_, h⟩, fun ⟨n, hn⟩ => ?_⟩
  have hmem : Library.Query.normalize raw ∈ l.walkQueries TypeExpr.isBoolean raw :=
    Library.normalize_mem_walkQueries.mpr Library.self_mem_walkPlaces
  exact Library.answer?_normalize.mp (Library.answer?_walkDepth hmem (Library.answer?_normalize.mpr hn))

theorem consistsOf?_walkDepth_iff (hp : l.Normal raw p) {test : TypeExpr → Bool} {b : Bool} :
    l.consistsOf? test (walkDepth l raw.type) p = some b ↔ l.Consists test p b := by
  refine ⟨fun h => ⟨_, h⟩, fun ⟨n, hn⟩ => ?_⟩
  have hmem : Library.Query.consists test p ∈ l.walkQueries test raw :=
    Library.consists_mem_walkQueries.mpr (Library.normal_mem_walkPlaces Library.self_mem_walkPlaces hp)
  exact Library.answer?_consists.mp (Library.answer?_walkDepth hmem (Library.answer?_consists.mpr hn))

/-- A classification gives the kind that its normal form has. -/
theorem ofType?_eq_some_iff : ofType? l ids propertyId control typeText (walkDepth l raw.type) raw = some kind ↔
    ∃ p, l.Normal raw p ∧
      HasKind l ids propertyId control typeText (EventKind.ofType? l raw <|> EventKind.ofType? l p) p kind := by
  unfold ofType?
  simp only [Option.bind_eq_bind, Option.bind_eq_some_iff, normalize?_walkDepth_iff]
  refine exists_congr fun p => and_congr_right fun hp => ?_
  simp only [consistsOf?_walkDepth_iff hp]
  constructor
  · rintro ⟨b, hboolean, h⟩
    cases b with
    | true =>
      obtain rfl : .boolean = kind := by simpa using h
      exact .boolean hboolean
    | false =>
      simp only [Bool.false_eq_true, if_false] at h
      cases hmembers : EnumOption.members? l p with
      | some members =>
        obtain rfl : .enum (EnumOption.ofMembers ids propertyId members) = kind := by simpa [hmembers] using h
        exact .enum hboolean hmembers
      | none =>
        cases hevent : (EventKind.ofType? l raw <|> EventKind.ofType? l p) with
        | some event =>
          obtain rfl : .eventHandler event = kind := by simpa [hmembers, hevent] using h
          exact .event hboolean hmembers rfl
        | none =>
          simp only [hmembers, hevent, Option.bind_eq_some_iff, consistsOf?_walkDepth_iff hp] at h
          obtain ⟨s, hstring, h⟩ := h
          cases hcontrol : s && control.isNone with
          | true =>
            obtain ⟨rfl, hnone⟩ := (Bool.and_eq_true _ _).mp hcontrol
            obtain rfl : .string = kind := by simpa [hcontrol] using h
            exact .string hboolean hmembers rfl hstring (Option.isNone_iff_eq_none.mp hnone)
          | false =>
            simp only [hcontrol, Bool.false_eq_true, if_false, Option.bind_eq_some_iff, consistsOf?_walkDepth_iff hp] at h
            obtain ⟨k, hnumber, h⟩ := h
            cases k with
            | true =>
              obtain rfl : .number = kind := by simpa using h
              exact .number hboolean hmembers rfl hstring hcontrol hnumber
            | false =>
              cases s with
              | false =>
                obtain rfl : .unknown typeText = kind := by simpa using h
                exact .unknown hboolean hmembers rfl hstring hnumber
              | true =>
                cases control with
                | none => cases hcontrol
                | some refinement =>
                  obtain rfl : refinement = kind := by simpa using h
                  exact .refined hboolean hmembers rfl hstring rfl hnumber
  · intro h
    cases h with
    | boolean h => exact ⟨true, h, rfl⟩
    | enum hboolean h => exact ⟨false, hboolean, by simp [h]⟩
    | event hboolean hmembers h => exact ⟨false, hboolean, by simp [hmembers, h]⟩
    | string hboolean hmembers hevent h hcontrol =>
      refine ⟨false, hboolean, ?_⟩
      simp [hmembers, hevent, (consistsOf?_walkDepth_iff hp).mpr h, hcontrol]
    | number hboolean hmembers hevent hstring hcontrol h =>
      refine ⟨false, hboolean, ?_⟩
      simp only [Bool.false_eq_true, if_false, hmembers, hevent, (consistsOf?_walkDepth_iff hp).mpr hstring, Option.bind_some,
        hcontrol, (consistsOf?_walkDepth_iff hp).mpr h, if_true]
      rfl
    | refined hboolean hmembers hevent h hcontrol hnumber =>
      refine ⟨false, hboolean, ?_⟩
      simp [hmembers, hevent, (consistsOf?_walkDepth_iff hp).mpr h, hcontrol, (consistsOf?_walkDepth_iff hp).mpr hnumber]
    | unknown hboolean hmembers hevent hstring hnumber =>
      refine ⟨false, hboolean, ?_⟩
      simp [hmembers, hevent, (consistsOf?_walkDepth_iff hp).mpr hstring, (consistsOf?_walkDepth_iff hp).mpr hnumber]

/-! ## Nullish types around the type of a member -/

/-- A kind up to the text of an unknown type. -/
def forgetText : PropertyKind → PropertyKind
  | .unknown _ => .unknown ""
  | kind => kind

theorem literalDefault?_forgetText (kind : PropertyKind) (text : String) :
    kind.forgetText.literalDefault? text = kind.literalDefault? text := by
  cases kind <;> rfl

/-- A type that is known as a handler by the name of an alias, and is not what it stands for. -/
structure HandlerHidden (l : Library) (raw : Place) (e : EventKind) (p : Place) : Prop where
  isAlias : l.aliasTarget? raw ≠ none
  handles : EventKind.ofType? l raw = some e
  normal : l.Normal raw p
  notBoolean : l.Consists TypeExpr.isBoolean p false
  notEnum : EnumOption.members? l p = none
  hidden : EventKind.ofType? l p ≠ some e

theorem ofType?_union {parts : List TypeExpr} (hunion : raw.type = .union parts) : EventKind.ofType? l raw = none := by
  simp [EventKind.ofType?, hunion]

/-- A handler that is no alias is its own normal form. -/
theorem normal_handler {e : EventKind} (he : EventKind.ofType? l raw = some e) (hnone : l.aliasTarget? raw = none)
    (hp : l.Normal raw p) : p = raw := by
  have hresolved := Library.resolveAlias_of_no_target hnone
  rcases l.normalize?_cases raw with ⟨parts, only, hunion, -, -⟩ | ⟨hend, -⟩
  · rw [ofType?_union (hresolved ▸ hunion)] at he
    cases he
  · exact hp.unique ⟨1, (hend 0).trans (congrArg some hresolved)⟩

/-- Unless it hides what it stands for, a type is of the kind that its normal form is of by itself. -/
theorem hasKind_written (hvisible : ∀ e p, ¬ HandlerHidden l raw e p) (hp : l.Normal raw p) :
    HasKind l ids propertyId control typeText (EventKind.ofType? l raw <|> EventKind.ofType? l p) p kind ↔
      HasKind l ids propertyId control typeText (EventKind.ofType? l p) p kind := by
  cases he : EventKind.ofType? l raw with
  | none => rfl
  | some e =>
    by_cases hsame : EventKind.ofType? l p = some e
    · rw [hsame]
      rfl
    · have halias : l.aliasTarget? raw ≠ none := by
        intro hnone
        obtain rfl := normal_handler he hnone hp
        exact hsame he
      have hdecided : l.Consists TypeExpr.isBoolean p false → EnumOption.members? l p = none → False :=
        fun hboolean hmembers => hvisible e p ⟨halias, he, hp, hboolean, hmembers, hsame⟩
      constructor
      all_goals
        intro h
        cases h with
        | boolean h => exact .boolean h
        | enum hboolean h => exact .enum hboolean h
        | _ hboolean hmembers => exact (hdecided hboolean hmembers).elim

/-- The kinds of types that are alike differ in the text of an unknown one. -/
theorem hasKind_alike (halike : l.Alike p q) (text : String)
    (h : HasKind l ids propertyId control typeText (EventKind.ofType? l p) p kind) :
    ∃ kind', HasKind l ids propertyId control text (EventKind.ofType? l q) q kind' ∧ kind'.forgetText = kind.forgetText := by
  have hmembers := halike.members
  rw [halike.event] at h
  cases h with
  | boolean h => exact ⟨_, .boolean ((halike.consists _ _).mp h), rfl⟩
  | enum hboolean h => exact ⟨_, .enum ((halike.consists _ _).mp hboolean) (hmembers ▸ h), rfl⟩
  | event hboolean hnone h => exact ⟨_, .event ((halike.consists _ _).mp hboolean) (hmembers ▸ hnone) h, rfl⟩
  | string hboolean hnone hevent h hcontrol =>
    exact ⟨_, .string ((halike.consists _ _).mp hboolean) (hmembers ▸ hnone) hevent ((halike.consists _ _).mp h) hcontrol, rfl⟩
  | number hboolean hnone hevent hstring hcontrol h =>
    exact ⟨_, .number ((halike.consists _ _).mp hboolean) (hmembers ▸ hnone) hevent ((halike.consists _ _).mp hstring) hcontrol
      ((halike.consists _ _).mp h), rfl⟩
  | refined hboolean hnone hevent h hcontrol hnumber =>
    exact ⟨_, .refined ((halike.consists _ _).mp hboolean) (hmembers ▸ hnone) hevent ((halike.consists _ _).mp h) hcontrol
      ((halike.consists _ _).mp hnumber), rfl⟩
  | unknown hboolean hnone hevent hstring hnumber =>
    exact ⟨_, .unknown ((halike.consists _ _).mp hboolean) (hmembers ▸ hnone) hevent ((halike.consists _ _).mp hstring)
      ((halike.consists _ _).mp hnumber), rfl⟩

variable {m : MemberRef} {t u u' : TypeExpr} {text text' : String} {doc : Doc.Comment}

/-- The same member with another type. -/
def withType (m : MemberRef) (t : TypeExpr) (text : String) : MemberRef :=
  { m with member := { m.member with type := some t, typeText := text } }

/-- The kind of a member as a property of a pattern; none when its classification does not end. -/
def ofProperty? (l : Library) (ids : Identity.Strategy) (patternId : String) (m : MemberRef) : Option PropertyKind :=
  ofMember? l ids (ids.property patternId m.name) m (Doc.parse? m.member.doc)

theorem withType_eq_some_iff : ofMember? l ids propertyId (withType m t text) doc = some kind ↔
    ∃ p, l.Normal ⟨m.file, t⟩ p ∧
      HasKind l ids propertyId (ofControl? doc) text (EventKind.ofType? l ⟨m.file, t⟩ <|> EventKind.ofType? l p) p kind :=
  ofType?_eq_some_iff

/-- A union hides nothing. -/
theorem visible_withNullish {file : Nat} (h : t.WithNullish u) (hvisible : ∀ e p, ¬ HandlerHidden l ⟨file, t⟩ e p) :
    ∀ e p, ¬ HandlerHidden l ⟨file, u⟩ e p := by
  cases h with
  | same => exact hvisible
  | beside | among => exact fun e p hhidden => hhidden.isAlias (Library.aliasTarget?_union rfl)

theorem alike_normal {file : Nat} (hu : t.WithNullish u) (hu' : t.WithNullish u') (hp : l.Normal ⟨file, u⟩ p) :
    ∃ q, l.Normal ⟨file, u'⟩ q ∧ l.Alike p q := by
  obtain ⟨r, hr, hrp⟩ := (Library.normal_withNullish hu file).2 p hp
  obtain ⟨q, hq, hrq⟩ := (Library.normal_withNullish hu' file).1 r hr
  exact ⟨q, hq, hrp.symm.trans hrq⟩

theorem exists_kind_withNullish (text' : String) (hu : t.WithNullish u) (hu' : t.WithNullish u')
    (hvisible : ∀ e p, ¬ HandlerHidden l ⟨m.file, t⟩ e p) (h : ofMember? l ids propertyId (withType m u text) doc = some kind) :
    ∃ kind', ofMember? l ids propertyId (withType m u' text') doc = some kind' ∧ kind'.forgetText = kind.forgetText := by
  obtain ⟨p, hp, hkind⟩ := withType_eq_some_iff.mp h
  obtain ⟨q, hq, halike⟩ := alike_normal hu hu' hp
  rw [hasKind_written (visible_withNullish hu hvisible) hp] at hkind
  obtain ⟨kind', hkind', hforget⟩ := hasKind_alike halike text' hkind
  exact ⟨kind', withType_eq_some_iff.mpr ⟨q, hq, (hasKind_written (visible_withNullish hu' hvisible) hq).mpr hkind'⟩, hforget⟩

theorem map_forgetText_withNullish (hu : t.WithNullish u) (hu' : t.WithNullish u')
    (hvisible : ∀ e p, ¬ HandlerHidden l ⟨m.file, t⟩ e p) :
    (ofMember? l ids propertyId (withType m u text) doc).map forgetText =
      (ofMember? l ids propertyId (withType m u' text') doc).map forgetText := by
  cases h : ofMember? l ids propertyId (withType m u text) doc with
  | some kind =>
    obtain ⟨kind', h', hforget⟩ := exists_kind_withNullish text' hu hu' hvisible h
    rw [h', Option.map_some, Option.map_some, hforget]
  | none =>
    cases h' : ofMember? l ids propertyId (withType m u' text') doc with
    | none => rfl
    | some kind' =>
      obtain ⟨kind, hsome, -⟩ := exists_kind_withNullish text hu' hu hvisible h'
      rw [h] at hsome
      cases hsome

/-- The default value of a property is read by its kind. -/
theorem defaultValue_ofMember (ids : Identity.Strategy) (patternId : String) (m : MemberRef) :
    (Property.ofMember l ids patternId m).defaultValue =
      ((Doc.parse? m.member.doc).tagText? "default").bind
        (((ofProperty? l ids patternId m).map forgetText).getD (.unknown "")).literalDefault? := by
  have hforget : ((ofProperty? l ids patternId m).map forgetText).getD (.unknown "") =
      (ofMember l ids (ids.property patternId m.name) m (Doc.parse? m.member.doc)).forgetText := by
    unfold ofMember ofProperty?
    cases ofMember? l ids (ids.property patternId m.name) m (Doc.parse? m.member.doc) <;> rfl
  rw [hforget, funext (literalDefault?_forgetText _)]
  rfl

theorem ofControl?_ne_eventHandler {e : EventKind} : ofControl? doc ≠ some (.eventHandler e) := by
  unfold ofControl?
  intro h
  obtain ⟨text, -, h⟩ := Option.bind_eq_some_iff.mp h
  dsimp only at h
  split at h
  · cases h
  · split at h
    · cases h
    · split at h <;> cases h

theorem HandlerHidden.isNullish {e : EventKind} (h : HandlerHidden l raw e p) : raw.type.isNullish = false := by
  have hhandles := h.handles
  rw [Bool.eq_false_iff]
  intro hnullish
  unfold TypeExpr.isNullish at hnullish
  split at hnullish
  · next htype => simp [EventKind.ofType?, htype] at hhandles
  · next htype => simp [EventKind.ofType?, htype] at hhandles
  · cases hnullish

/-- A hidden handler is one as the type is written, and none beside `null`. -/
theorem HandlerHidden.kinds {e : EventKind} (h : HandlerHidden l ⟨m.file, t⟩ e p) (ids : Identity.Strategy)
    (propertyId text text' : String) (doc : Doc.Comment) :
    ofMember? l ids propertyId (withType m t text) doc = some (.eventHandler e) ∧
      ofMember? l ids propertyId (withType m (.union ([] ++ t :: [.keyword .null])) text') doc ≠ some (.eventHandler e) := by
  constructor
  · refine withType_eq_some_iff.mpr ⟨p, h.normal, ?_⟩
    rw [h.handles]
    exact .event h.notBoolean h.notEnum rfl
  · intro hsome
    obtain ⟨q, hq, hkind⟩ := withType_eq_some_iff.mp hsome
    have honly : Library.properParts ([] ++ t :: [.keyword .null]) = [t] :=
      Library.properParts_beside (List.forall_mem_nil _) h.isNullish (by simp [TypeExpr.isNullish])
    obtain rfl := ((Library.normal_only honly).mp hq).unique h.normal
    rw [ofType?_union rfl] at hkind
    cases hkind with
    | event _ _ he => exact h.hidden he
    | refined _ _ _ _ hcontrol => exact ofControl?_ne_eventHandler hcontrol

theorem eq_eventHandler_of_forgetText {e : EventKind} (h : kind.forgetText = .eventHandler e) : kind = .eventHandler e := by
  cases kind <;> first | exact h | cases h

/-- Whatever nullish types stand around the type of a member, its kind is the same up to the text
of an unknown type, and so is its default value, exactly when the type is not known as a handler
by the name of an alias for something else. -/
theorem nullish_types_are_invisible_iff (l : Library) (ids : Identity.Strategy) (patternId : String) (m : MemberRef)
    (t : TypeExpr) :
    (∀ u u' text text', t.WithNullish u → t.WithNullish u' →
      (ofProperty? l ids patternId (withType m u text)).map forgetText =
          (ofProperty? l ids patternId (withType m u' text')).map forgetText ∧
        (Property.ofMember l ids patternId (withType m u text)).defaultValue =
          (Property.ofMember l ids patternId (withType m u' text')).defaultValue) ↔
      ∀ e p, ¬ HandlerHidden l ⟨m.file, t⟩ e p := by
  constructor
  · intro hsame e p hhidden
    have hbeside : t.WithNullish (.union ([] ++ t :: [.keyword .null])) :=
      .beside (List.forall_mem_nil _) hhidden.isNullish (by simp [TypeExpr.isNullish])
    obtain ⟨hhandler, hnone⟩ := hhidden.kinds ids (ids.property patternId m.name) "" "" (Doc.parse? m.member.doc)
    have hkinds := (hsame t _ "" "" .same hbeside).1
    have hkind : ofProperty? l ids patternId (withType m t "") = some (.eventHandler e) := hhandler
    rw [hkind] at hkinds
    obtain ⟨kind, hsome, hforget⟩ := Option.map_eq_some_iff.mp hkinds.symm
    obtain rfl := eq_eventHandler_of_forgetText hforget
    exact hnone hsome
  · intro hvisible u u' text text' hu hu'
    have hkinds : (ofProperty? l ids patternId (withType m u text)).map forgetText =
        (ofProperty? l ids patternId (withType m u' text')).map forgetText := map_forgetText_withNullish hu hu' hvisible
    refine ⟨hkinds, ?_⟩
    rw [defaultValue_ofMember, defaultValue_ofMember, hkinds]
    rfl

/-! ## A handler by its name -/

/-- `export type EventHandler = (value: string) => void`. -/
def handlerLibrary : Library :=
  let type := TypeExpr.function [⟨"value", some (.keyword .string), false⟩] (.keyword .void)
  .ofFiles ⟨"/lib"⟩ none [".d.ts"]
    [⟨⟨"/lib/index.d.ts"⟩, { declarations := [⟨"EventHandler", 7, none, .alias type⟩] }⟩]

/-- `a: EventHandler` -/
def handlerMember : MemberRef :=
  ⟨0, ⟨"a", false, some (.reference none ["EventHandler"] []), "EventHandler", none, 80⟩, false⟩

theorem a_named_handler_or_null_is_no_handler :
    ofProperty? handlerLibrary (.fresh .sha256) "props" handlerMember = some (.eventHandler .generic) ∧
      ofProperty? handlerLibrary (.fresh .sha256) "props"
          (withType handlerMember (.union [.reference none ["EventHandler"] [], .keyword .null]) "EventHandler | null") =
        some (.unknown "EventHandler | null") :=
  ⟨by rfl, by rfl⟩

end PropertyKind

end PatternCatalog
