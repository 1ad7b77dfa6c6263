/-
  PatternCatalog.Proofs.Labels.Library — a library with other labels.

  A labeling says of each member of a library where it starts and how it is documented, and of
  each declaration where it starts. Whatever it says, names mean what they mean
  (`sameNames_labeled`, `reference?_labeled`), and aliases lead where they lead
  (`resolveAlias_labeled`).
-/

import PatternCatalog.Library.Members
import PatternCatalog.Proofs.Library.SameNames
import PatternCatalog.Proofs.Library.Symbol

namespace PatternCatalog

/-! ## Labels -/

/-- What a member is told from: where it starts and how it is documented. -/
structure Label where
  start : Nat
  doc : Option String

namespace TypeExpr

mutual

/-- A type whose members have other labels. -/
def relabeled (f : Member → Label) : TypeExpr → TypeExpr
  | .reference module name args => .reference module name (relabeledAll f args)
  | .union parts => .union (relabeledAll f parts)
  | .intersection parts => .intersection (relabeledAll f parts)
  | .array item => .array (item.relabeled f)
  | .function params returns => .function (relabeledParams f params) (returns.relabeled f)
  | .object members => .object (relabeledMembers f members)
  | .keyword k => .keyword k
  | .literal l => .literal l
  | .other => .other

def relabeledAll (f : Member → Label) : List TypeExpr → List TypeExpr
  | [] => []
  | t :: ts => t.relabeled f :: relabeledAll f ts

def relabeledParams (f : Member → Label) : List (ParamOf TypeExpr) → List (ParamOf TypeExpr)
  | [] => []
  | ⟨name, some t, optional⟩ :: ps => ⟨name, some (t.relabeled f), optional⟩ :: relabeledParams f ps
  | ⟨name, none, optional⟩ :: ps => ⟨name, none, optional⟩ :: relabeledParams f ps

def relabeledMembers (f : Member → Label) : List (MemberOf TypeExpr) → List (MemberOf TypeExpr)
  | [] => []
  | ⟨name, optional, some t, typeText, doc, start⟩ :: ms =>
    let label := f ⟨name, optional, some t, typeText, doc, start⟩
    ⟨name, optional, some (t.relabeled f), typeText, label.doc, label.start⟩ :: relabeledMembers f ms
  | ⟨name, optional, none, typeText, doc, start⟩ :: ms =>
    let label := f ⟨name, optional, none, typeText, doc, start⟩
    ⟨name, optional, none, typeText, label.doc, label.start⟩ :: relabeledMembers f ms

end

end TypeExpr

def Param.relabeled (f : Member → Label) (p : Param) : Param := { p with type := p.type.map (TypeExpr.relabeled f) }

def Member.relabeled (f : Member → Label) (m : Member) : Member :=
  { m with type := m.type.map (TypeExpr.relabeled f), doc := (f m).doc, start := (f m).start }

namespace TypeExpr

variable (f : Member → Label)

@[simp]
theorem relabeledAll_eq (ts : List TypeExpr) : relabeledAll f ts = ts.map (relabeled f) := by
  induction ts with
  | nil => rfl
  | cons t ts ih => rw [relabeledAll, ih, List.map_cons]

@[simp]
theorem relabeledParams_eq (ps : List Param) : relabeledParams f ps = ps.map (Param.relabeled f) := by
  induction ps with
  | nil => rfl
  | cons p ps ih => obtain ⟨name, _ | t, optional⟩ := p <;> rw [relabeledParams, ih, List.map_cons] <;> rfl

@[simp]
theorem relabeledMembers_eq (ms : List Member) : relabeledMembers f ms = ms.map (Member.relabeled f) := by
  induction ms with
  | nil => rfl
  | cons m ms ih =>
    obtain ⟨name, optional, _ | t, typeText, doc, start⟩ := m <;> rw [relabeledMembers, ih, List.map_cons] <;> rfl

@[simp]
theorem isNullish_relabeled (t : TypeExpr) : (t.relabeled f).isNullish = t.isNullish := by
  cases t with
  | keyword k => rfl
  | _ => rfl

theorem filter_nullish_relabeled (parts : List TypeExpr) :
    (parts.map (relabeled f)).filter (!·.isNullish) = (parts.filter (!·.isNullish)).map (relabeled f) := by
  rw [List.filter_map]
  exact congrArg _ (List.filter_congr fun t _ => congrArg _ (isNullish_relabeled f t))

end TypeExpr

namespace DeclarationKind

def relabeled (f : Member → Label) : DeclarationKind → DeclarationKind
  | .interface parents members => .interface (parents.map (TypeExpr.relabeled f)) (members.map (Member.relabeled f))
  | .alias type => .alias (type.relabeled f)
  | .enum members => .enum members
  | .class parent => .class (parent.map (TypeExpr.relabeled f))
  | .function params returns => .function (params.map (Param.relabeled f)) (returns.map (TypeExpr.relabeled f))
  | .variable type => .variable (type.map (TypeExpr.relabeled f))

end DeclarationKind

/-! ## Labelings -/

/-- How the members of each file are labeled, and where its declarations start. -/
structure Labeling where
  member : Nat → Member → Label
  declaration : Nat → Declaration → Nat

def Declaration.labeled (g : Labeling) (file : Nat) (d : Declaration) : Declaration :=
  { d with start := g.declaration file d, kind := d.kind.relabeled (g.member file) }

theorem Declaration.outline_labeled (g : Labeling) (file : Nat) (d : Declaration) : (d.labeled g file).outline = d.outline := by
  obtain ⟨name, start, doc, kind⟩ := d
  cases kind <;> rfl

def Module.labeled (g : Labeling) (file : Nat) (m : Module) : Module :=
  { m with declarations := m.declarations.map (Declaration.labeled g file) }

namespace Library

variable (g : Labeling)

def Place.labeled (p : Place) : Place := ⟨p.file, p.type.relabeled (g.member p.file)⟩

def MemberRef.labeled (m : MemberRef) : MemberRef := { m with member := m.member.relabeled (g.member m.file) }

/-- A library with the labels of a labeling. -/
def labeled (l : Library) : Library :=
  { l with files := l.files.mapIdx fun i f => { f with module := f.module.labeled g i } }

variable (l : Library)

/-! ## Declarations -/

theorem moduleAt_labeled (file : Nat) :
    (l.labeled g).moduleAt file = (l.moduleAt file).labeled g file := by
  unfold moduleAt labeled
  rw [List.getElem?_mapIdx]
  cases l.files[file]? <;> rfl

theorem declaration?_labeled (key : DeclarationKey) :
    (l.labeled g).declaration? key = (l.declaration? key).map (Declaration.labeled g key.file) := by
  rw [declaration?, moduleAt_labeled]
  exact List.getElem?_map

theorem kind?_labeled (key : DeclarationKey) :
    (l.labeled g).kind? key = (l.kind? key).map (DeclarationKind.relabeled (g.member key.file)) := by
  rw [kind?, declaration?_labeled, kind?, Option.map_map, Option.map_map]
  rfl

/-! ## Names -/

theorem map_files_labeled {α : Type} {h : SourceFile → α}
    (hsame : ∀ (f : SourceFile) (file : Nat), h { f with module := f.module.labeled g file } = h f) :
    (l.labeled g).files.map h = l.files.map h := by
  refine List.ext_getElem? fun i => ?_
  rw [labeled, List.getElem?_map, List.getElem?_mapIdx, List.getElem?_map, Option.map_map]
  exact congrArg (Option.map · _) (funext fun f => hsame f _)

/-- Labels have no part in what names mean. -/
theorem sameNames_labeled : SameNames l (l.labeled g) where
  root := rfl
  packageName := rfl
  extensions := rfl
  files := map_files_labeled g l fun f file => by
    have hdeclared : f.module.declarations.map (fun d => (d.labeled g file).outline) =
        f.module.declarations.map Declaration.outline := List.map_congr_left fun d _ => d.outline_labeled g file
    simp only [SourceFile.outline, Module.outline, Module.labeled, List.map_map, Function.comp_def, hdeclared]

theorem declared?_labeled (file : Nat) (name : String) (space : Space) :
    (l.labeled g).declared? file name space = l.declared? file name space :=
  (sameNames_labeled g l).declared?_eq file name space

theorem reference?_labeled (file : Nat) (f : Member → Label) (t : TypeExpr) :
    (l.labeled g).reference? file (t.relabeled f) = l.reference? file t := by
  rw [(sameNames_labeled g l).reference?_eq]
  cases t with
  | reference module name args => exact l.reference?_arguments file module name _ args
  | _ => rfl

/-! ## Aliases -/

variable {l} {p : Place}

theorem aliasKey?_labeled : (l.labeled g).aliasKey? (p.labeled g) = l.aliasKey? p := by
  rw [aliasKey?, Place.labeled, reference?_labeled, aliasKey?]
  rcases l.reference? p.file p.type with _ | key | _ | _
  · rfl
  · simp only [kind?_labeled]
    rcases l.kind? key with _ | _ | _ | _ | _ | _ | _ <;> rfl
  · rfl
  · rfl

theorem aliasTarget?_labeled :
    (l.labeled g).aliasTarget? (p.labeled g) = (l.aliasTarget? p).map (Place.labeled g) := by
  rw [aliasTarget?, aliasKey?_labeled, aliasTarget?]
  cases l.aliasKey? p with
  | none => rfl
  | some key =>
    simp only [Option.bind_some, aliasBody?, kind?_labeled]
    rcases l.kind? key with _ | _ | _ | _ | _ | _ | _ <;> rfl

theorem followAliases_labeled (n : Nat) :
    (l.labeled g).followAliases n (p.labeled g) = (l.followAliases n p).labeled g := by
  induction n generalizing p with
  | zero => rfl
  | succ n ih =>
    rw [followAliases, aliasTarget?_labeled, followAliases]
    cases l.aliasTarget? p with
    | none => rfl
    | some q => exact ih

theorem resolveAlias_labeled : (l.labeled g).resolveAlias (p.labeled g) = (l.resolveAlias p).labeled g :=
  followAliases_labeled g typeDepth

theorem lastAliasWithin?_labeled (n : Nat) :
    (l.labeled g).lastAliasWithin? n (p.labeled g) = l.lastAliasWithin? n p := by
  induction n generalizing p with
  | zero => rfl
  | succ n ih =>
    rw [lastAliasWithin?, aliasTarget?_labeled, lastAliasWithin?]
    cases l.aliasTarget? p with
    | none => rfl
    | some q =>
      dsimp only [Option.map_some]
      rw [ih, aliasKey?_labeled]

theorem lastAlias?_labeled : (l.labeled g).lastAlias? (p.labeled g) = l.lastAlias? p :=
  lastAliasWithin?_labeled g typeDepth

end Library

end PatternCatalog
