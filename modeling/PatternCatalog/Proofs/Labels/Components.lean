/-
  PatternCatalog.Proofs.Labels.Components — components under other labels.

  Labels have no say in which declarations are components: a declaration is the same component
  with the same props type (`ofDeclaration?_labeled`), a file exports the same ones
  (`exported_labeled`), and the walks by which that is found out end where they ended
  (`isDecided_labeled`).
-/

import PatternCatalog.Proofs.Component
import PatternCatalog.Proofs.Labels.Library

namespace PatternCatalog

/-! ## Exports of a file -/

namespace Library

variable (g : Labeling) (l : Library)

theorem localExports_labeled (file : Nat) : (l.labeled g).localExports file = l.localExports file := by
  have hexports : ((l.labeled g).moduleAt file).exports = (l.moduleAt file).exports := by
    rw [moduleAt_labeled]
    rfl
  simp only [localExports, exportedDeclaration?, declared?_labeled, hexports]

theorem exportName_labeled : (l.labeled g).exportName = l.exportName := by
  funext key
  rw [exportName, localExports_labeled, declaration?_labeled, Option.map_map, exportName]
  rfl

end Library

/-! ## The bound of a walk -/

namespace TypeExpr

mutual

theorem nodes_relabeled (f : Member → Label) : (t : TypeExpr) → (t.relabeled f).nodes = t.nodes
  | .union parts => by rw [relabeled, nodes, nodes, nodesOf_relabeled f parts]
  | .keyword _ | .literal _ | .reference _ _ _ | .intersection _ | .array _ | .function _ _ | .object _ | .other => by
    simp only [relabeled, nodes]

theorem nodesOf_relabeled (f : Member → Label) : (ts : List TypeExpr) → nodesOf (relabeledAll f ts) = nodesOf ts
  | [] => rfl
  | t :: ts => by rw [relabeledAll, nodesOf, nodesOf, nodes_relabeled f t, nodesOf_relabeled f ts]

end

end TypeExpr

theorem Declaration.aliasNodes_labeled (g : Labeling) (file : Nat) (d : Declaration) :
    (d.labeled g file).aliasNodes = d.aliasNodes := by
  obtain ⟨name, start, doc, kind⟩ := d
  cases kind with
  | «alias» type => exact TypeExpr.nodes_relabeled (g.member file) type
  | _ => rfl

theorem Library.typeNodes_labeled (g : Labeling) (l : Library) (f : Member → Label) (t : TypeExpr) :
    (l.labeled g).typeNodes (t.relabeled f) = l.typeNodes t := by
  have hfiles := l.map_files_labeled g (h := fun f => total (f.module.declarations.map (·.aliasNodes))) fun f file => by
    simp only [Module.labeled, List.map_map]
    exact congrArg total (List.map_congr_left fun d _ => d.aliasNodes_labeled g file)
  rw [typeNodes, hfiles, TypeExpr.nodes_relabeled, typeNodes]

/-! ## Which declarations are components -/

def Component.Shape.labeled (g : Labeling) (s : Component.Shape) : Component.Shape :=
  { s with props := s.props.map (Library.Place.labeled g) }

def Component.labeled (g : Labeling) (c : Component) : Component := { c with shape := c.shape.labeled g }

namespace Component

open Library (Place)

variable (g : Labeling) {l : Library} (o : Options)

theorem returnsElement?_labeled (n : Nat) (origin : Option DeclarationKey) (p : Place) :
    returnsElement? (l.labeled g) o n origin (p.labeled g) = returnsElement? l o n origin p := by
  induction n generalizing origin p with
  | zero => rfl
  | succ n ih =>
    have hlast := Library.lastAlias?_labeled g (l := l) (p := p)
    have hresolve := Library.resolveAlias_labeled g (l := l) (p := p)
    obtain ⟨file, type⟩ := p
    cases type with
    | reference module name args =>
      simp only [Place.labeled, TypeExpr.relabeled] at hlast hresolve
      simp only [returnsElement?, Place.labeled, TypeExpr.relabeled, hlast, hresolve]
      split
      · rfl
      · cases l.lastAlias? ⟨file, .reference module name args⟩ with
        | none => rfl
        | some key =>
          dsimp only
          split
          · rfl
          · exact ih (some key) (l.resolveAlias ⟨file, .reference module name args⟩)
    | union parts =>
      simp only [returnsElement?, Place.labeled, TypeExpr.relabeled, TypeExpr.relabeledAll_eq, TypeExpr.filter_nullish_relabeled]
      exact anyM_map fun part _ => ih none ⟨file, part⟩
    | _ => rfl

/-- The walk of a result type has the bound that it had. -/
theorem boundedWalk_labeled (p : Place) :
    returnsElement? (l.labeled g) o ((l.labeled g).typeNodes (p.labeled g).type) none (p.labeled g) =
      returnsElement? l o (l.typeNodes p.type) none p := by
  rw [returnsElement?_labeled, Place.labeled, Library.typeNodes_labeled]

theorem functionProps?_labeled (file : Nat) (params : List Param) (returns : TypeExpr) :
    functionProps? (l.labeled g) o file (params.map (Param.relabeled (g.member file))) (returns.relabeled (g.member file)) =
      (functionProps? l o file params returns).map (Option.map (Place.labeled g)) := by
  have helement : returnsElement (l.labeled g) o ⟨file, returns.relabeled (g.member file)⟩ = returnsElement l o ⟨file, returns⟩ :=
    congrArg (Option.getD · false) (boundedWalk_labeled g o ⟨file, returns⟩)
  have hfirst : (((params.map (Param.relabeled (g.member file))).head?.bind (·.type)).map fun type => (⟨file, type⟩ : Place)) =
      ((params.head?.bind (·.type)).map fun type => (⟨file, type⟩ : Place)).map (Place.labeled g) := by
    cases params with
    | nil => rfl
    | cons p params =>
      obtain ⟨name, type, optional⟩ := p
      cases type <;> rfl
  unfold functionProps?
  rw [helement, hfirst, List.length_map]
  split <;> rfl

theorem typedProps?_labeled (depth : Nat) (p : Place) :
    typedProps? (l.labeled g) o depth (p.labeled g) = (typedProps? l o depth p).map (Option.map (Place.labeled g)) := by
  induction depth generalizing p with
  | zero => rfl
  | succ depth ih =>
    simp only [typedProps?, Library.resolveAlias_labeled]
    generalize l.resolveAlias p = r
    obtain ⟨file, type⟩ := r
    cases type with
    | reference module name args =>
      simp only [Place.labeled, TypeExpr.relabeled, TypeExpr.relabeledAll_eq]
      split
      · rfl
      · cases args with
        | nil => rfl
        | cons first rest =>
          have hinner := ih ⟨file, first⟩
          simp only [Place.labeled] at hinner
          simp only [List.map_cons, hinner]
          cases typedProps? l o depth ⟨file, first⟩ <;> rfl
    | function params returns =>
      simp only [Place.labeled, TypeExpr.relabeled, TypeExpr.relabeledParams_eq]
      exact functionProps?_labeled g o file params returns
    | _ => rfl

theorem props?_labeled (file : Nat) (k : DeclarationKind) :
    props? (l.labeled g) o file (k.relabeled (g.member file)) = (props? l o file k).map (Option.map (Place.labeled g)) := by
  rcases k with _ | _ | _ | parent | ⟨params, returns⟩ | type
  · rfl
  · rfl
  · rfl
  · rcases parent with _ | _ | _ | ⟨module, name, args⟩ | _ | _ | _ | _ | _ | _
    case some.reference =>
      simp only [DeclarationKind.relabeled, Option.map_some, TypeExpr.relabeled, TypeExpr.relabeledAll_eq, props?]
      split
      · cases args <;> rfl
      · rfl
    all_goals rfl
  · cases returns with
    | none => rfl
    | some returns => exact functionProps?_labeled g o file params returns
  · cases type with
    | none => rfl
    | some type => exact typedProps?_labeled g o (wrapperDepth + 1) ⟨file, type⟩

/-- A declaration is the same component under any labels. -/
theorem ofDeclaration?_labeled (name : String) (key : DeclarationKey) :
    ofDeclaration? (l.labeled g) o name key = (ofDeclaration? l o name key).map (Component.labeled g) := by
  unfold ofDeclaration? shape?
  rw [Library.declaration?_labeled]
  cases l.declaration? key with
  | none => rfl
  | some d =>
    have hprops := props?_labeled g (l := l) o key.file d.kind
    simp only [Option.map_some, Option.bind_some, Declaration.labeled, bind, hprops]
    cases props? l o key.file d.kind <;> rfl

theorem exported_labeled (file : Nat) :
    exported (l.labeled g) o file = (exported l o file).map (Component.labeled g) := by
  rw [exported, Library.localExports_labeled, exported, List.map_filterMap]
  exact List.filterMap_congr fun e _ => ofDeclaration?_labeled g o e.1 e.2

/-! ## Walks that end -/

theorem typedResults_labeled (depth : Nat) (p : Place) :
    typedResults (l.labeled g) o depth (p.labeled g) = (typedResults l o depth p).map (Place.labeled g) := by
  induction depth generalizing p with
  | zero => rfl
  | succ depth ih =>
    simp only [typedResults, Library.resolveAlias_labeled]
    generalize l.resolveAlias p = r
    obtain ⟨file, type⟩ := r
    cases type with
    | reference module name args =>
      simp only [Place.labeled, TypeExpr.relabeled, TypeExpr.relabeledAll_eq]
      split
      · rfl
      · cases args with
        | nil => rfl
        | cons first rest => exact ih ⟨file, first⟩
    | function params returns =>
      simp only [Place.labeled, TypeExpr.relabeled, TypeExpr.relabeledParams_eq, functionResults, List.length_map]
      split <;> rfl
    | _ => rfl

theorem results_labeled (file : Nat) (k : DeclarationKind) :
    results (l.labeled g) o file (k.relabeled (g.member file)) = (results l o file k).map (Place.labeled g) := by
  rcases k with _ | _ | _ | _ | ⟨params, returns⟩ | type
  · rfl
  · rfl
  · rfl
  · rfl
  · cases returns with
    | none => rfl
    | some returns =>
      simp only [DeclarationKind.relabeled, Option.map_some, results, functionResults, List.length_map]
      split <;> rfl
  · cases type with
    | none => rfl
    | some type => exact typedResults_labeled g o (wrapperDepth + 1) ⟨file, type⟩

theorem isDecided_labeled (key : DeclarationKey) : isDecided (l.labeled g) o key = isDecided l o key := by
  rw [isDecided, Library.kind?_labeled, Option.all_map, isDecided]
  refine congrArg (Option.all · (l.kind? key)) (funext fun k => ?_)
  rw [results_labeled, List.all_map]
  exact congrArg (List.all _) (funext fun p => congrArg Option.isSome (boundedWalk_labeled g o p))

end Component

end PatternCatalog
