/-
  PatternCatalog.Proofs.Labels.Kinds — classification under other labels.

  A type is classified without a look at the label of any member (`normalize?_labeled`,
  `consistsOf?_labeled`); only its own comment can refine the kind of a member. So a member is
  of the same kind, or classified without end, whatever the labels of the others are
  (`ofMember?_labeled`).
-/

import PatternCatalog.Proofs.Labels.Components
import PatternCatalog.Property.Classification

namespace PatternCatalog

/-! ## Walks -/

namespace Library

variable (g : Labeling) {l : Library}

theorem properParts_relabeled (f : Member → Label) (parts : List TypeExpr) :
    properParts (parts.map (TypeExpr.relabeled f)) = (properParts parts).map (TypeExpr.relabeled f) := by
  rw [properParts, TypeExpr.filter_nullish_relabeled, properParts]

theorem normalize?_labeled (d : Nat) (p : Place) :
    (l.labeled g).normalize? d (p.labeled g) = (l.normalize? d p).map (Place.labeled g) := by
  induction d generalizing p with
  | zero => rfl
  | succ d ih =>
    simp only [normalize?, resolveAlias_labeled]
    generalize l.resolveAlias p = r
    obtain ⟨file, type⟩ := r
    cases type with
    | union parts =>
      simp only [Place.labeled, TypeExpr.relabeled, TypeExpr.relabeledAll_eq, properParts_relabeled]
      rcases properParts parts with _ | ⟨only, _ | ⟨second, rest⟩⟩
      · simp [Place.labeled, TypeExpr.relabeled]
      · exact ih ⟨file, only⟩
      · simp [Place.labeled, TypeExpr.relabeled]
    | _ => rfl

theorem mapM_normalize?_labeled (d file : Nat) (ts : List TypeExpr) :
    ((ts.map (TypeExpr.relabeled (g.member file))).mapM fun t => (l.labeled g).normalize? d ⟨file, t⟩) =
      (ts.mapM fun t => l.normalize? d ⟨file, t⟩).map (List.map (Place.labeled g)) := by
  induction ts with
  | nil => rfl
  | cons t ts ih =>
    have hfirst := normalize?_labeled g (l := l) d ⟨file, t⟩
    simp only [Place.labeled] at hfirst
    rw [List.map_cons, List.mapM_cons, List.mapM_cons, ih, hfirst]
    cases l.normalize? d ⟨file, t⟩ with
    | none => rfl
    | some q => cases ts.mapM fun t => l.normalize? d ⟨file, t⟩ <;> rfl

theorem allM_map {α β : Type} {check : α → Option Bool} {check' : β → Option Bool} {f : α → β} {as : List α}
    (h : ∀ a ∈ as, check' (f a) = check a) : (as.map f).allM check' = as.allM check := by
  induction as with
  | nil => rfl
  | cons a as ih =>
    rw [List.map_cons, List.allM, List.allM, h a List.mem_cons_self, ih fun b hb => h b (List.mem_cons_of_mem _ hb)]

theorem consistsOf?_labeled {test : TypeExpr → Bool} (htest : ∀ f t, test (TypeExpr.relabeled f t) = test t) (d : Nat)
    (p : Place) : (l.labeled g).consistsOf? test d (p.labeled g) = l.consistsOf? test d p := by
  induction d generalizing p with
  | zero => rfl
  | succ d ih =>
    obtain ⟨file, type⟩ := p
    have hself := htest (g.member file) type
    cases type with
    | union parts =>
      simp only [consistsOf?, Place.labeled, TypeExpr.relabeled, TypeExpr.relabeledAll_eq, properParts_relabeled,
        mapM_normalize?_labeled]
      cases (properParts parts).mapM fun t => l.normalize? d ⟨file, t⟩ with
      | none => simp only [Option.map_none, Option.bind_eq_bind, Option.bind_none]
      | some qs => exact allM_map fun q _ => ih q
    | _ => exact congrArg some hself

end Library

/-! ## Tests -/

namespace TypeExpr

variable (f : Member → Label) (t : TypeExpr)

theorem isBoolean_relabeled : (t.relabeled f).isBoolean = t.isBoolean := by
  cases t with
  | keyword k => rfl
  | literal k => rfl
  | _ => rfl

theorem isString_relabeled : (t.relabeled f).isString = t.isString := by
  cases t with
  | keyword k => rfl
  | literal k => rfl
  | _ => rfl

theorem isNumber_relabeled : (t.relabeled f).isNumber = t.isNumber := by
  cases t with
  | keyword k => rfl
  | literal k => rfl
  | _ => rfl

end TypeExpr

variable (g : Labeling) {l : Library}

theorem EnumOption.members?_labeled (p : Library.Place) :
    members? (l.labeled g) (p.labeled g) = members? l p := by
  rw [members?, Library.Place.labeled, Library.reference?_labeled, members?]
  rcases l.reference? p.file p.type with _ | key | _ | _
  · rfl
  · simp only [Library.kind?_labeled]
    rcases l.kind? key with _ | _ | _ | _ | _ | _ | _ <;> rfl
  · rfl
  · rfl

theorem EventKind.ofParams?_relabeled (f : Member → Label) (params : List Param) :
    ofParams? (params.map (Param.relabeled f)) = ofParams? params := by
  rcases params with _ | ⟨⟨name, type, optional⟩, _ | ⟨second, rest⟩⟩
  · rfl
  · rcases type with _ | _ | _ | _ | _ | _ | _ | _ | _ | _ <;> rfl
  · rfl

theorem EventKind.ofType?_labeled (p : Library.Place) : ofType? (l.labeled g) (p.labeled g) = ofType? l p := by
  obtain ⟨file, type⟩ := p
  have href := Library.reference?_labeled g l file (g.member file) type
  cases type with
  | reference module name args =>
    simp only [TypeExpr.relabeled] at href
    simp only [ofType?, Library.Place.labeled, TypeExpr.relabeled, href]
  | function params returns =>
    have hresult : isHandlerResult (returns.relabeled (g.member file)) = isHandlerResult returns := by
      cases returns with
      | keyword k => rfl
      | _ => rfl
    simp only [ofType?, Library.Place.labeled, TypeExpr.relabeled, TypeExpr.relabeledParams_eq, hresult, ofParams?_relabeled]
  | _ => rfl

/-! ## Kinds -/

namespace PropertyKind

open Library (MemberRef Place)

theorem ofType?_labeled (ids : Identity.Strategy) (propertyId : String) (control : Option PropertyKind)
    (typeText : String) (depth : Nat) (p : Place) :
    ofType? (l.labeled g) ids propertyId control typeText depth (p.labeled g) =
      ofType? l ids propertyId control typeText depth p := by
  unfold ofType?
  rw [Library.normalize?_labeled]
  cases l.normalize? depth p with
  | none => simp only [Option.map_none, Option.bind_eq_bind, Option.bind_none]
  | some q =>
    simp only [Option.map_some, bind, Option.bind_some, Library.consistsOf?_labeled g TypeExpr.isBoolean_relabeled,
      Library.consistsOf?_labeled g TypeExpr.isString_relabeled, Library.consistsOf?_labeled g TypeExpr.isNumber_relabeled,
      EnumOption.members?_labeled, EventKind.ofType?_labeled]

/-- Besides its own comment, no label has a say in the kind of a member. -/
theorem ofMember?_labeled (ids : Identity.Strategy) (propertyId : String) (m : MemberRef) (doc : Doc.Comment) :
    ofMember? (l.labeled g) ids propertyId (m.labeled g) doc = ofMember? l ids propertyId m doc := by
  obtain ⟨file, ⟨name, optional, type, typeText, raw, start⟩, opt⟩ := m
  cases type with
  | none => rfl
  | some type =>
    have hdepth : walkDepth (l.labeled g) (type.relabeled (g.member file)) = walkDepth l type := by
      rw [walkDepth, Library.typeNodes_labeled, walkDepth]
    simp only [ofMember?, ofMemberWithin?, MemberRef.labeled, Member.relabeled, Option.map_some, Option.getD_some, hdepth]
    exact ofType?_labeled g ids propertyId _ typeText _ ⟨file, type⟩

theorem ofMember_labeled (ids : Identity.Strategy) (propertyId : String) (m : MemberRef) (doc : Doc.Comment) :
    ofMember (l.labeled g) ids propertyId (m.labeled g) doc = ofMember l ids propertyId m doc := by
  rw [ofMember, ofMember?_labeled, ofMember]
  rfl

end PropertyKind

end PatternCatalog
