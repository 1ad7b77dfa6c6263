/-
  PatternCatalog.Proofs.Growth.Components — the components of an earlier version, found again.

  A kept declaration is a component exactly when it was one, with the same props type and the
  same documentation (`ofDeclaration?_place`). When the file that exports it is kept with its
  exports (`Setting.Grows`), each registered component of the earlier version is registered in
  the later one under the same context id, with the same members as properties and slots
  (`exists_registered`); only its place among the others may be another.
-/

import PatternCatalog.Proofs.Component
import PatternCatalog.Proofs.Growth.Members
import PatternCatalog.Proofs.Registry

namespace PatternCatalog

namespace Placement

def shape (P : Placement) (s : Component.Shape) : Component.Shape := ⟨P.key s.key, s.props.map P.place⟩

def component (P : Placement) (c : Component) : Component := { c with shape := P.shape c.shape }

end Placement

/-! ## Which declarations are components -/

namespace Component

open Library (Place)

variable {P : Placement} {l l' : Library}

theorem filter_nullish_moved (g : Nat → Nat) (parts : List TypeExpr) :
    (parts.map (TypeExpr.moved g)).filter (!·.isNullish) = (parts.filter (!·.isNullish)).map (TypeExpr.moved g) := by
  rw [TypeExpr.moved_eq, TypeExpr.filter_nullish_relabeled]

theorem returnsElement?_place (h : l.Grows P l') (o : Options) (n : Nat) (origin : Option DeclarationKey) {p : Place}
    (hp : l.Mentions p) :
    returnsElement? l' o n (origin.map P.key) (P.place p) = returnsElement? l o n origin p := by
  induction n generalizing origin p with
  | zero => rfl
  | succ n ih =>
    have hlast := h.lastAlias?_place hp
    have hresolve := h.resolveAlias_place hp
    have hmention := Library.mentions_of_resolveAlias hp
    obtain ⟨file, type⟩ := p
    cases type with
    | reference module name args =>
      simp only [Placement.place, TypeExpr.moved] at hlast hresolve
      simp only [returnsElement?, Placement.place, TypeExpr.moved, hlast, hresolve]
      split
      · rfl
      · cases hkey : l.lastAlias? ⟨file, .reference module name args⟩ with
        | none => rfl
        | some key =>
          have hback : origin.map P.key = some (P.key key) ↔ origin = some key := by
            cases origin with
            | none => simp
            | some k => simpa using ⟨Placement.key_inj, congrArg P.key⟩
          simp only [Option.map_some, hback]
          split
          · rfl
          · exact ih (some key) hmention
    | union parts =>
      simp only [returnsElement?, Placement.place, TypeExpr.moved, TypeExpr.movedAll_eq, filter_nullish_moved]
      refine anyM_map fun part hpart => ih none (hp.subterm ?_)
      exact List.mem_cons_of_mem _ (TypeExpr.mem_subtermsOf (List.mem_filter.mp hpart).1)
    | _ => rfl

/-- The walk has another bound in the later version; the answer does not depend on it. -/
theorem returnsElement_place (h : l.Grows P l') (o : Options) {p : Place} (hp : l.Mentions p) :
    returnsElement l' o (P.place p) = returnsElement l o p := by
  rw [Bool.eq_iff_iff, returnsElement_eq_true_iff, returnsElement_eq_true_iff]
  exact exists_congr fun n => by rw [← returnsElement?_place h o n none hp]; rfl

theorem functionProps?_place (h : l.Grows P l') (o : Options) {file : Nat} (params : List Param) {returns : TypeExpr}
    (hreturns : l.Mentions ⟨file, returns⟩) :
    functionProps? l' o (P.file file) (params.map (Param.moved (P.start file))) (returns.moved (P.start file)) =
      (functionProps? l o file params returns).map (Option.map P.place) := by
  have helement : returnsElement l' o ⟨P.file file, returns.moved (P.start file)⟩ = returnsElement l o ⟨file, returns⟩ :=
    returnsElement_place h o hreturns
  have hfirst : (((params.map (Param.moved (P.start file))).head?.bind (·.type)).map fun type => (⟨P.file file, type⟩ : Place)) =
      ((params.head?.bind (·.type)).map fun type => (⟨file, type⟩ : Place)).map P.place := by
    cases params with
    | nil => rfl
    | cons p params =>
      obtain ⟨name, type, optional⟩ := p
      cases type <;> rfl
  unfold functionProps?
  rw [helement, hfirst, List.length_map]
  split <;> rfl

theorem typedProps?_place (h : l.Grows P l') (o : Options) (depth : Nat) {p : Place} (hp : l.Mentions p) :
    typedProps? l' o depth (P.place p) = (typedProps? l o depth p).map (Option.map P.place) := by
  induction depth generalizing p with
  | zero => rfl
  | succ depth ih =>
    have hr := Library.mentions_of_resolveAlias hp
    simp only [typedProps?, h.resolveAlias_place hp]
    generalize l.resolveAlias p = r at hr ⊢
    obtain ⟨file, type⟩ := r
    cases type with
    | reference module name args =>
      simp only [Placement.place, TypeExpr.moved, TypeExpr.movedAll_eq]
      split
      · rfl
      · cases args with
        | nil => rfl
        | cons first rest =>
          have hfirst : l.Mentions ⟨file, first⟩ :=
            hr.subterm (List.mem_cons_of_mem _ (TypeExpr.mem_subtermsOf List.mem_cons_self))
          have hinner := ih hfirst
          simp only [Placement.place] at hinner
          simp only [List.map_cons, hinner]
          cases typedProps? l o depth ⟨file, first⟩ <;> rfl
    | function params returns =>
      have hreturns : l.Mentions ⟨file, returns⟩ := by
        refine hr.subterm ?_
        rw [TypeExpr.subterms]
        exact List.mem_cons_of_mem _ (List.mem_append_right _ returns.self_mem_subterms)
      simp only [Placement.place, TypeExpr.moved, TypeExpr.movedParams_eq]
      exact functionProps?_place h o params hreturns
    | _ => rfl

theorem classProps?_place (o : Options) {file : Nat} (parent : Option TypeExpr) :
    props? l' o (P.file file) (.class (parent.map (TypeExpr.moved (P.start file)))) =
      (props? l o file (.class parent)).map (Option.map P.place) := by
  rcases parent with _ | _ | _ | ⟨module, name, args⟩ | _ | _ | _ | _ | _ | _
  case some.reference =>
    simp only [Option.map_some, TypeExpr.moved, TypeExpr.movedAll_eq, props?]
    split
    · cases args <;> rfl
    · rfl
  all_goals rfl

theorem props?_place (h : l.Grows P l') (o : Options) {key : DeclarationKey} {k : DeclarationKind}
    (hk : l.kind? key = some k) :
    props? l' o (P.file key.file) (k.moved (P.start key.file)) = (props? l o key.file k).map (Option.map P.place) := by
  rcases k with ⟨parents, ms⟩ | type | ms | parent | ⟨params, returns⟩ | type
  · rfl
  · rfl
  · rfl
  · exact classProps?_place o parent
  · cases returns with
    | none => rfl
    | some returns =>
      refine functionProps?_place h o params (Library.mentions_of_kind hk ?_)
      exact List.mem_append_right _ List.mem_cons_self
  · cases type with
    | none => rfl
    | some type =>
      have hmention : l.Mentions ⟨key.file, type⟩ := Library.mentions_of_kind hk List.mem_cons_self
      exact typedProps?_place h o (wrapperDepth + 1) hmention

/-- A kept declaration is the same component as before. -/
theorem ofDeclaration?_place (h : l.Grows P l') (o : Options) {name : String} {key : DeclarationKey} {c : Component}
    (hc : ofDeclaration? l o name key = some c) : ofDeclaration? l' o name (P.key key) = some (P.component c) := by
  simp only [ofDeclaration?, shape?, bind, Option.bind_eq_some_iff, pure, Option.some.injEq] at hc ⊢
  obtain ⟨shape, ⟨d, hd, props, hprops, rfl⟩, rfl⟩ := hc
  obtain ⟨d', hd', -, hdoc, hkind⟩ := h.declared key d hd
  have hk : l.kind? key = some d.kind := by rw [Library.kind?, hd, Option.map_some]
  refine ⟨P.shape ⟨key, props⟩, ⟨d', hd', props.map P.place, ?_, rfl⟩, ?_⟩
  · rw [hkind]
    exact (props?_place h o hk).trans (congrArg (Option.map _) hprops)
  · rw [hd, hd', Option.bind_some, Option.bind_some, hdoc]
    rfl

end Component

/-! ## Registered components -/

namespace Setting

/-- One setting inside another: the library has grown, and each file exports what it exported,
under the same name first, beside an implementation that takes nested content where it did. -/
structure Grows (P : Placement) (s s' : Setting) : Prop where
  library : s.library.Grows P s'.library
  options : s'.options = s.options
  exports : ∀ key name, (s.library.localExports key.file).find? (·.2 == key) = some (name, key) →
    (s'.library.localExports (P.file key.file)).find? (·.2 == P.key key) = some (name, P.key key)
  candidates : ∀ file c, s.candidates[file]? = some c → ∃ c', s'.candidates[P.file file]? = some c' ∧ c'.id = c.id ∧
    ∀ e ∈ s.library.localExports file,
      Implementation.usesChildren s'.fs c'.artifactPath e.1 = Implementation.usesChildren s.fs c.artifactPath e.1

variable {P : Placement} {s s' : Setting}

namespace Grows

variable (h : Grows P s s')

include h

theorem exists_registered {x : Listing} (hx : x ∈ s.registered) :
    ∃ c', (c', P.component x.2) ∈ s'.registered ∧ s'.candidates[P.file x.key.file]? = some c' ∧ c'.id = x.1.id ∧
      Implementation.usesChildren s'.fs c'.artifactPath x.2.exportName =
        Implementation.usesChildren s.fs x.1.artifactPath x.2.exportName := by
  obtain ⟨hfile, hfirst, hc, hkept⟩ := s.mem_registered_iff.mp hx
  obtain ⟨c', hfile', hid, huses⟩ := h.candidates _ _ hfile
  refine ⟨c', s'.mem_registered_iff.mpr ⟨hfile', h.exports _ _ hfirst, ?_, hkept⟩, hfile', hid, ?_⟩
  · rw [h.options]
    exact Component.ofDeclaration?_place h.library s.options hc
  · exact huses _ (List.mem_of_find?_eq_some hfirst)

theorem componentContextId_place {x : Listing} (hx : x ∈ s.registered) :
    s'.componentContextId (P.component x.2) = s.componentContextId x.2 := by
  obtain ⟨c', -, hfile', hid, -⟩ := h.exists_registered hx
  have hfile : s.candidates[x.2.shape.key.file]? = some x.1 := (s.mem_registered_iff.mp hx).1
  have hfile'' : s'.candidates[(P.component x.2).shape.key.file]? = some c' := hfile'
  rw [componentContextId, componentContextId, contextId, contextId, hfile, hfile'', Option.map_some, Option.map_some, hid]
  rfl

theorem members_place {x : Listing} (hx : x ∈ s.registered) :
    s'.members (P.component x.2) = (s.members x.2).map P.memberRef := by
  have hshape : (P.component x.2).shape.props = x.2.shape.props.map P.place := rfl
  unfold members
  rw [hshape]
  cases hprops : x.2.shape.props with
  | none => rfl
  | some p => exact h.library.apparentMembers_place (props_mentioned hx hprops)

theorem slotQuantity?_place {m : Library.MemberRef} (hm : s.library.Declares m) :
    s'.slotQuantity? (P.memberRef m) = s.slotQuantity? m := by
  rw [slotQuantity?, slotQuantity?, h.options]
  exact Slot.detect?_place h.library s.options hm _

theorem propertyMembers_place {x : Listing} (hx : x ∈ s.registered) :
    s'.propertyMembers (P.component x.2) = (s.propertyMembers x.2).map P.memberRef := by
  rw [propertyMembers, propertyMembers, h.members_place hx, List.filter_map]
  refine congrArg _ (List.filter_congr fun m hm => ?_)
  rw [Function.comp_apply, isProperty, isProperty, h.slotQuantity?_place (members_declared hx m hm)]
  rfl

theorem slotNames_place {x : Listing} (hx : x ∈ s.registered) : s'.slotNames (P.component x.2) = s.slotNames x.2 := by
  have hdeclared : ((s'.members (P.component x.2)).filter s'.isSlot).map (·.name) =
      ((s.members x.2).filter s.isSlot).map (·.name) := by
    rw [h.members_place hx, List.filter_map, List.map_map]
    refine congrArg _ (List.filter_congr fun m hm => ?_)
    rw [Function.comp_apply, isSlot, isSlot, h.slotQuantity?_place (members_declared hx m hm)]
    rfl
  have himplied : ∀ names, s'.impliesChildren (P.component x.2) names = s.impliesChildren x.2 names := by
    intro names
    obtain ⟨c', -, hfile', -, huses⟩ := h.exists_registered hx
    have hfile : s.candidates[x.2.shape.key.file]? = some x.1 := (s.mem_registered_iff.mp hx).1
    have hfile'' : s'.candidates[(P.component x.2).shape.key.file]? = some c' := hfile'
    have hname : (P.component x.2).exportName = x.2.exportName := rfl
    simp only [impliesChildren, hfile, hfile'', h.options, hname, huses]
  simp only [slotNames, hdeclared, himplied]

end Grows

end Setting

end PatternCatalog
