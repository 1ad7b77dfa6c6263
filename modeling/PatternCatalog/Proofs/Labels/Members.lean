/-
  PatternCatalog.Proofs.Labels.Members — members and slots under other labels.

  A type has the same members in the same order, whatever their labels are
  (`apparentMembers_labeled`), and besides its own comment no label makes a member a slot or not
  (`Slot.detect?_labeled`).
-/

import PatternCatalog.Proofs.Labels.Library
import PatternCatalog.Proofs.Library.Members
import PatternCatalog.Slot.Detection

namespace PatternCatalog

namespace Library

variable (g : Labeling) {l : Library}

/-! ## Gathering -/

theorem keepsNames_labeled : KeepsNames (MemberRef.labeled g) := ⟨fun _ => rfl, fun _ _ => rfl⟩

theorem ownMembers_labeled (file : Nat) (ms : List Member) :
    ownMembers file (ms.map (Member.relabeled (g.member file))) = (ownMembers file ms).map (MemberRef.labeled g) := by
  simp only [ownMembers, List.map_map]
  rfl

/-! ## Wrappers -/

mutual

theorem stringLiterals_relabeled (f : Member → Label) : (t : TypeExpr) → stringLiterals (t.relabeled f) = stringLiterals t
  | .union parts => stringLiteralsOf_relabeled f parts
  | .literal l => rfl
  | .keyword _ | .reference _ _ _ | .intersection _ | .array _ | .function _ _ | .object _ | .other => by
    simp [TypeExpr.relabeled, stringLiterals]

theorem stringLiteralsOf_relabeled (f : Member → Label) :
    (ts : List TypeExpr) → stringLiteralsOf (TypeExpr.relabeledAll f ts) = stringLiteralsOf ts
  | [] => rfl
  | t :: ts => by
    rw [TypeExpr.relabeledAll, stringLiteralsOf, stringLiteralsOf, stringLiterals_relabeled f t, stringLiteralsOf_relabeled f ts]

end

theorem wrapped?_relabeled (f : Member → Label) (name : List String) (args : List TypeExpr) :
    wrapped? name (args.map (TypeExpr.relabeled f)) =
      (wrapped? name args).map fun (w, inner, names) => (w, inner.relabeled f, names) := by
  cases args with
  | nil => rfl
  | cons inner rest =>
    have hnames : (((rest.map (TypeExpr.relabeled f)).head?).map stringLiterals) = rest.head?.map stringLiterals := by
      cases rest with
      | nil => rfl
      | cons t rest => exact congrArg some (stringLiterals_relabeled f t)
    simp only [List.map_cons, wrapped?, hnames]
    cases Wrapper.ofName? (name.getLast?.getD "") <;> rfl

/-! ## Collection -/

theorem collectMembers_labeled (depth : Nat) (p : Place) (out : List MemberRef) :
    (l.labeled g).collectMembers depth (p.labeled g) (out.map (MemberRef.labeled g)) =
      (l.collectMembers depth p out).map (MemberRef.labeled g) := by
  induction depth generalizing p out with
  | zero => rfl
  | succ depth ih =>
    obtain ⟨file, type⟩ := p
    -- The types of a list, one after another, in the file they stand in.
    have hall : ∀ (file : Nat) (ts : List TypeExpr) (out : List MemberRef),
        (ts.map (TypeExpr.relabeled (g.member file))).foldl (fun out t => (l.labeled g).collectMembers depth ⟨file, t⟩ out)
          (out.map (MemberRef.labeled g)) =
        (ts.foldl (fun out t => l.collectMembers depth ⟨file, t⟩ out) out).map (MemberRef.labeled g) := by
      intro file ts out
      rw [List.foldl_map]
      exact List.foldl_hom (List.map (MemberRef.labeled g)) fun out t => ih ⟨file, t⟩ out
    cases type with
    | object members =>
      simp only [collectMembers, Place.labeled, TypeExpr.relabeled, TypeExpr.relabeledMembers_eq, ownMembers_labeled,
        addMembers_map (keepsNames_labeled g)]
    | intersection parts =>
      simp only [collectMembers, Place.labeled, TypeExpr.relabeled, TypeExpr.relabeledAll_eq]
      exact hall file parts out
    | reference module name args =>
      have href := reference?_labeled g l file (g.member file) (.reference module name args)
      simp only [TypeExpr.relabeled, TypeExpr.relabeledAll_eq] at href
      by_cases hsymbol : ∃ key, l.reference? file (.reference module name args) = some (.declaration key)
      · obtain ⟨key, hsymbol⟩ := hsymbol
        rw [hsymbol] at href
        simp only [collectMembers, Place.labeled, TypeExpr.relabeled, TypeExpr.relabeledAll_eq, href, hsymbol,
          kind?_labeled]
        rcases l.kind? key with _ | ⟨parents, members⟩ | type | _ | _ | _ | _
        · rfl
        · simp only [Option.map_some, DeclarationKind.relabeled, ownMembers_labeled, addMembers_map (keepsNames_labeled g)]
          exact hall key.file parents _
        · exact ih ⟨key.file, type⟩ out
        all_goals rfl
      · have hnone := not_exists.mp hsymbol
        have hnone' : ∀ key, (l.labeled g).reference? file
            (.reference module name (args.map (TypeExpr.relabeled (g.member file)))) ≠ some (.declaration key) := by
          rwa [href]
        simp only [Place.labeled, TypeExpr.relabeled, TypeExpr.relabeledAll_eq]
        rw [collectMembers_wrapped hnone, collectMembers_wrapped hnone', wrapped?_relabeled]
        cases wrapped? name args with
        | none => rfl
        | some found =>
          have hinner := ih ⟨file, found.2.1⟩ []
          simp only [Place.labeled, List.map_nil] at hinner
          simp only [Option.map_some, Option.elim_some, hinner, apply_map (keepsNames_labeled g), addMembers_map (keepsNames_labeled g)]
    | _ => rfl

theorem apparentMembers_labeled (p : Place) :
    (l.labeled g).apparentMembers (p.labeled g) = (l.apparentMembers p).map (MemberRef.labeled g) :=
  collectMembers_labeled g (typeDepth + 1) p []

end Library

/-! ## Slots -/

namespace Slot

open Library (MemberRef Place)

variable (g : Labeling) {l : Library} {onAlias onAlias' : Place → Option SlotQuantity}

mutual

theorem quantityOf_labeled (o : Options) (hon : ∀ p : Place, onAlias' (p.labeled g) = onAlias p) (file : Nat) :
    (t : TypeExpr) → quantityOf (l.labeled g) o onAlias' file (t.relabeled (g.member file)) = quantityOf l o onAlias file t
  | .array item => by
    rw [TypeExpr.relabeled, quantityOf, quantityOf, quantityOf_labeled o hon file item]
  | .union parts => by
    rw [TypeExpr.relabeled, quantityOf, quantityOf]
    exact quantityOfAny_labeled o hon file parts
  | .reference module name args => by
    have href := Library.reference?_labeled g l file (g.member file) (.reference module name args)
    have halias := hon ⟨file, .reference module name args⟩
    have hlength : (TypeExpr.relabeledAll (g.member file) args).length = args.length := by simp
    simp only [Place.labeled, TypeExpr.relabeled] at href halias ⊢
    rw [quantityOf, quantityOf, href, halias, quantityOfAny_labeled o hon file args, hlength]
  | .keyword _ | .literal _ | .intersection _ | .function _ _ | .object _ | .other => by
    simp only [TypeExpr.relabeled, quantityOf]

theorem quantityOfAny_labeled (o : Options) (hon : ∀ p : Place, onAlias' (p.labeled g) = onAlias p) (file : Nat) :
    (ts : List TypeExpr) →
      quantityOfAny (l.labeled g) o onAlias' file (TypeExpr.relabeledAll (g.member file) ts) = quantityOfAny l o onAlias file ts
  | [] => rfl
  | t :: ts => by
    rw [TypeExpr.relabeledAll, quantityOfAny, quantityOfAny, TypeExpr.isNullish_relabeled, quantityOf_labeled o hon file t,
      quantityOfAny_labeled o hon file ts]

end

theorem quantityWithin_labeled (o : Options) (n : Nat) (p : Place) :
    quantityWithin (l.labeled g) o n (p.labeled g) = quantityWithin l o n p := by
  induction n generalizing p with
  | zero =>
    rw [quantityWithin, quantityWithin]
    exact quantityOf_labeled g o (fun _ => rfl) p.file p.type
  | succ n ih =>
    rw [quantityWithin, quantityWithin]
    refine quantityOf_labeled g o (fun q => ?_) p.file p.type
    rw [Library.aliasTarget?_labeled]
    cases l.aliasTarget? q with
    | none => rw [Option.map_none, Option.bind_none, Option.bind_none]
    | some body =>
      rw [Option.map_some, Option.bind_some, Option.bind_some]
      exact ih body

theorem markedQuantity_relabeled (f : Member → Label) (q : Option SlotQuantity) (type : Option TypeExpr) :
    markedQuantity q (type.map (TypeExpr.relabeled f)) = markedQuantity q type := by
  cases q with
  | some q => rfl
  | none => rcases type with _ | _ | _ | _ | _ | _ | _ | _ | _ | _ <;> rfl

theorem isUnconstrained_relabeled (f : Member → Label) (type : Option TypeExpr) :
    isUnconstrained (type.map (TypeExpr.relabeled f)) = isUnconstrained type := by
  rcases type with _ | _ | _ | _ | _ | _ | _ | _ | _ | _ <;> rfl

/-- Besides its own comment, no label makes a member a slot or not. -/
theorem detect?_labeled (o : Options) (m : MemberRef) (doc : Doc.Comment) :
    detect? (l.labeled g) o (m.labeled g) doc = detect? l o m doc := by
  have htype : (m.labeled g).member.type = m.member.type.map (TypeExpr.relabeled (g.member m.file)) := rfl
  have hbyType : ((m.labeled g).member.type.bind fun type => quantityWithin (l.labeled g) o aliasDepth ⟨m.file, type⟩) =
      m.member.type.bind fun type => quantityWithin l o aliasDepth ⟨m.file, type⟩ := by
    rw [htype]
    cases m.member.type with
    | none => rw [Option.map_none, Option.bind_none, Option.bind_none]
    | some type =>
      rw [Option.map_some, Option.bind_some, Option.bind_some]
      exact quantityWithin_labeled g o aliasDepth ⟨m.file, type⟩
  have hfile : (m.labeled g).file = m.file := rfl
  have hname : (m.labeled g).name = m.name := rfl
  dsimp only [detect?]
  rw [hfile, hbyType, htype, markedQuantity_relabeled, isUnconstrained_relabeled, hname]

end Slot

end PatternCatalog
