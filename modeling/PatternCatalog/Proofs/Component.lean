/-
  PatternCatalog.Proofs.Component — result types and props types of components.

  The walk that asks whether a type is an element type comes through states that are few: the
  type with the parts of its unions, and the same for the body of each alias. An answer is
  found on a way that meets no state twice (`Fueled.enough_fuel`), so a walk that has an answer at all
  has it within the bound (`returnsElement_eq_true_iff`). The props type of a component is one
  that occurs in the library (`ofDeclaration?_mentioned`).
-/

import PatternCatalog.Component
import PatternCatalog.Proofs.Fuel
import PatternCatalog.Proofs.Library.Mentions

namespace PatternCatalog

/-! ## The states of the walk -/

namespace TypeExpr

mutual

/-- A type and the parts of its unions, itself first. -/
def unionNodes : TypeExpr → List TypeExpr
  | .union parts => .union parts :: unionNodesOf parts
  | t => [t]

def unionNodesOf : List TypeExpr → List TypeExpr
  | [] => []
  | t :: ts => t.unionNodes ++ unionNodesOf ts

end

/-- The parts of the unions in a type. -/
def unionParts : TypeExpr → List TypeExpr
  | .union parts => unionNodesOf parts
  | _ => []

theorem unionNodes_eq (t : TypeExpr) : t.unionNodes = t :: t.unionParts := by
  cases t <;> simp only [unionNodes, unionParts]

mutual

theorem length_unionNodes : (t : TypeExpr) → t.unionNodes.length = t.nodes
  | .union parts => by rw [unionNodes, List.length_cons, length_unionNodesOf parts, nodes]
  | .keyword _ | .literal _ | .reference _ _ _ | .intersection _ | .array _ | .function _ _ | .object _ | .other => by
    simp only [unionNodes, nodes, List.length_singleton]

theorem length_unionNodesOf : (ts : List TypeExpr) → (unionNodesOf ts).length = nodesOf ts
  | [] => rfl
  | t :: ts => by
    rw [unionNodesOf, List.length_append, length_unionNodes t, length_unionNodesOf ts, nodesOf]

end

theorem mem_unionNodesOf {t : TypeExpr} {ts : List TypeExpr} (h : t ∈ ts) : t.unionNodes ⊆ unionNodesOf ts := by
  induction ts with
  | nil => cases h
  | cons u ts ih =>
    rcases List.mem_cons.mp h with rfl | hrest
    · exact List.subset_append_left _ _
    · exact List.subset_append_of_subset_right _ (ih hrest)

mutual

/-- The parts of a part are parts. -/
theorem unionParts_trans {parts : List TypeExpr} :
    (t : TypeExpr) → .union parts ∈ t.unionParts → unionNodesOf parts ⊆ t.unionParts
  | .union ps, h => unionNodesOf_trans ps h
  | .keyword _, h | .literal _, h | .reference _ _ _, h | .intersection _, h | .array _, h | .function _ _, h
  | .object _, h | .other, h => nomatch h

theorem unionNodesOf_trans {parts : List TypeExpr} :
    (ts : List TypeExpr) → .union parts ∈ unionNodesOf ts → unionNodesOf parts ⊆ unionNodesOf ts
  | [], h => nomatch h
  | t :: ts, h => by
    rcases List.mem_append.mp h with h | h
    · refine List.subset_append_of_subset_left _ ?_
      rw [unionNodes_eq] at h ⊢
      rcases List.mem_cons.mp h with rfl | h
      · exact List.subset_cons_self _ _
      · exact List.subset_cons_of_subset _ (unionParts_trans t h)
    · exact List.subset_append_of_subset_right _ (unionNodesOf_trans ts h)

end

end TypeExpr

namespace Component

open Library (Place)

/-- An alias whose body the walk stands at, and the place. -/
abbrev WalkState := Option DeclarationKey × Place

variable (l : Library)

def nextStates (s : WalkState) : List WalkState :=
  match s.2.type with
  | .reference _ _ _ => ((l.lastAlias? s.2).map fun key => (some key, l.resolveAlias s.2)).toList
  | .union parts => parts.map fun part => (none, ⟨s.2.file, part⟩)
  | _ => []

/-- A type that the walk comes to, with the parts of its unions. -/
def typeStates (origin : Option DeclarationKey) (file : Nat) (t : TypeExpr) : List WalkState :=
  (origin, ⟨file, t⟩) :: t.unionParts.map fun part => (none, ⟨file, part⟩)

def aliasStatesOf (file index : Nat) (d : Declaration) : List WalkState :=
  match d.kind with
  | .alias type => typeStates (some ⟨file, index⟩) file type
  | _ => []

/-- The states at the bodies of aliases. -/
def aliasStates : List WalkState :=
  l.files.zipIdx.flatMap fun f => f.1.module.declarations.zipIdx.flatMap fun d => aliasStatesOf f.2 d.2 d.1

/-- The states of the walk from a type. -/
def walkStates (p : Place) : List WalkState := typeStates none p.file p.type ++ aliasStates l

theorem length_typeStates (origin : Option DeclarationKey) (file : Nat) (t : TypeExpr) :
    (typeStates origin file t).length = t.nodes := by
  rw [typeStates, List.length_cons, List.length_map, ← t.length_unionNodes, t.unionNodes_eq, List.length_cons]

theorem length_aliasStatesOf (file index : Nat) (d : Declaration) : (aliasStatesOf file index d).length = d.aliasNodes := by
  unfold aliasStatesOf Declaration.aliasNodes
  rcases d.kind with _ | type | _ | _ | _ | _
  · rfl
  · exact length_typeStates _ _ type
  all_goals rfl

theorem length_aliasStates :
    (aliasStates l).length = total (l.files.map fun f => total (f.module.declarations.map (·.aliasNodes))) := by
  rw [aliasStates, length_flatMap_total]
  refine total_map_zipIdx (fun f i => ?_) l.files 0
  rw [length_flatMap_total]
  exact total_map_zipIdx (fun d j => length_aliasStatesOf i j d) f.module.declarations 0

theorem length_walkStates (p : Place) : (walkStates l p).length + 1 = l.typeNodes p.type := by
  rw [walkStates, List.length_append, length_typeStates, length_aliasStates, Library.typeNodes]
  omega

variable {l}

theorem typeStates_subset {key : DeclarationKey} {type : TypeExpr} (h : l.kind? key = some (.alias type)) :
    typeStates (some key) key.file type ⊆ aliasStates l := by
  obtain ⟨d, hd, hk⟩ := Option.map_eq_some_iff.mp h
  have hmodule : ∃ f, l.files[key.file]? = some f ∧ f.module.declarations[key.index]? = some d := by
    unfold Library.declaration? Library.moduleAt at hd
    split at hd
    · next f hf => exact ⟨f, hf, hd⟩
    · cases hd
  obtain ⟨f, hf, hd⟩ := hmodule
  intro s hs
  refine List.mem_flatMap.mpr ⟨(f, key.file), List.mem_zipIdx_iff_getElem?.mpr hf, ?_⟩
  refine List.mem_flatMap.mpr ⟨(d, key.index), List.mem_zipIdx_iff_getElem?.mpr hd, ?_⟩
  rw [aliasStatesOf, hk]
  exact hs

/-- The parts of a union among the states of a type are among them. -/
theorem parts_mem_typeStates {origin : Option DeclarationKey} {file : Nat} {t : TypeExpr} {s : WalkState}
    (hs : s ∈ typeStates origin file t) {parts : List TypeExpr} (htype : s.2.type = .union parts) {part : TypeExpr}
    (hpart : part ∈ parts) : (none, ⟨s.2.file, part⟩) ∈ typeStates origin file t := by
  have hself : part ∈ TypeExpr.unionNodesOf parts := by
    refine TypeExpr.mem_unionNodesOf hpart ?_
    rw [TypeExpr.unionNodes_eq]
    exact List.mem_cons_self
  rcases List.mem_cons.mp hs with rfl | hs
  · obtain rfl : t = .union parts := htype
    exact List.mem_cons_of_mem _ (List.mem_map.mpr ⟨part, hself, rfl⟩)
  · obtain ⟨u, hu, rfl⟩ := List.mem_map.mp hs
    obtain rfl : u = .union parts := htype
    exact List.mem_cons_of_mem _ (List.mem_map.mpr ⟨part, TypeExpr.unionParts_trans t hu hself, rfl⟩)

theorem followAliases_of_no_alias {n : Nat} {p : Place} (h : l.lastAliasWithin? n p = none) : l.followAliases n p = p := by
  cases n with
  | zero => rfl
  | succ n =>
    rw [Library.followAliases]
    rw [Library.lastAliasWithin?] at h
    cases htarget : l.aliasTarget? p with
    | none => rfl
    | some q =>
      obtain ⟨key, hkey, -⟩ := Option.bind_eq_some_iff.mp htarget
      rw [htarget, hkey] at h
      cases hq : l.lastAliasWithin? n q <;> simp [hq] at h

/-- The walk through aliases ends at the body of the last of them. -/
theorem followAliases_of_lastAlias {n : Nat} {p : Place} {key : DeclarationKey} (h : l.lastAliasWithin? n p = some key) :
    ∃ type, l.kind? key = some (.alias type) ∧ l.followAliases n p = ⟨key.file, type⟩ := by
  induction n generalizing p with
  | zero => cases h
  | succ n ih =>
    rw [Library.lastAliasWithin?] at h
    rw [Library.followAliases]
    cases htarget : l.aliasTarget? p with
    | none => rw [htarget] at h; cases h
    | some q =>
      rw [htarget] at h
      dsimp only at h ⊢
      cases hq : l.lastAliasWithin? n q with
      | some last =>
        obtain rfl : last = key := by simpa [hq] using h
        exact ih hq
      | none =>
        have hkey : l.aliasKey? p = some key := by simpa [hq] using h
        obtain ⟨type, hk⟩ := Library.kind?_of_aliasKey? hkey
        have hbody : l.aliasBody? key = some q := by
          rw [Library.aliasTarget?, hkey] at htarget
          exact htarget
        rw [Library.aliasBody?, hk] at hbody
        cases hbody
        exact ⟨type, hk, followAliases_of_no_alias hq⟩

theorem walkStates_closed (p : Place) : ∀ s ∈ walkStates l p, ∀ t ∈ nextStates l s, t ∈ walkStates l p := by
  intro s hs t ht
  unfold nextStates at ht
  split at ht
  · obtain ⟨key, hkey, rfl⟩ := Option.map_eq_some_iff.mp (Option.mem_toList.mp ht)
    obtain ⟨type, hk, hresolve⟩ := followAliases_of_lastAlias hkey
    refine List.mem_append_right _ (typeStates_subset hk ?_)
    rw [Library.resolveAlias, hresolve]
    exact List.mem_cons_self
  · next parts htype =>
    obtain ⟨part, hpart, rfl⟩ := List.mem_map.mp ht
    rcases List.mem_append.mp hs with hs | hs
    · exact List.mem_append_left _ (parts_mem_typeStates hs htype hpart)
    · refine List.mem_append_right _ ?_
      obtain ⟨f, hf, hs⟩ := List.mem_flatMap.mp hs
      obtain ⟨d, hd, hs⟩ := List.mem_flatMap.mp hs
      refine List.mem_flatMap.mpr ⟨f, hf, List.mem_flatMap.mpr ⟨d, hd, ?_⟩⟩
      unfold aliasStatesOf at hs ⊢
      split at hs
      · exact parts_mem_typeStates hs htype hpart
      · cases hs
  · cases ht

/-! ## The walk -/

theorem anyM_map {α β : Type} {check : α → Option Bool} {check' : β → Option Bool} {f : α → β} {as : List α}
    (h : ∀ a ∈ as, check' (f a) = check a) : (as.map f).anyM check' = as.anyM check := by
  induction as with
  | nil => rfl
  | cons a as ih =>
    rw [List.map_cons, List.anyM, List.anyM, h a List.mem_cons_self, ih fun b hb => h b (List.mem_cons_of_mem _ hb)]

/-- Checks that are made until one holds agree when those do that come after checks that fail. -/
theorem anyM_of_checks {α : Type} {check check' : α → Option Bool} {as : List α}
    (hcheck : ∀ before a after, as = before ++ a :: after → (∀ x ∈ before, check x = some false) →
      ∀ b, check a = some b → check' a = some b)
    {b : Bool} (h : as.anyM check = some b) : as.anyM check' = some b := by
  induction as with
  | nil => exact h
  | cons a as ih =>
    rw [List.anyM] at h ⊢
    obtain ⟨c, hc, h⟩ := Option.bind_eq_some_iff.mp h
    rw [hcheck [] a as rfl (fun _ hx => nomatch hx) c hc]
    cases c with
    | true => exact h
    | false =>
      refine ih (fun before x after has hbefore => ?_) h
      exact hcheck (a :: before) x after (congrArg (a :: ·) has) (List.forall_mem_cons.mpr ⟨hc, hbefore⟩)

/-- What a walk cannot be answered before: the body of the last alias on the way, unless it comes
from there, and the parts of a union in order, until one is an element type. -/
inductive Awaits (l : Library) (o : Options) : WalkState → WalkState → Prop
  | body {origin p module name args key} (htype : p.type = .reference module name args) (hname : ¬ o.isElementType name)
      (hkey : l.lastAlias? p = some key) (hnew : origin ≠ some key) : Awaits l o (origin, p) (some key, l.resolveAlias p)
  | part {origin p parts before part after} (hunion : p.type = .union parts)
      (hparts : parts.filter (!·.isNullish) = before ++ part :: after)
      (hbefore : ∀ t ∈ before, ∃ n, returnsElement? l o n none ⟨p.file, t⟩ = some false) :
      Awaits l o (origin, p) (none, ⟨p.file, part⟩)

theorem Awaits.next {o : Options} {s t : WalkState} (h : Awaits l o s t) : t ∈ nextStates l s := by
  cases h with
  | body htype _ hkey _ =>
    simp only [nextStates, htype, hkey]
    exact List.mem_singleton_self _
  | @part _ p parts before part after hunion hparts _ =>
    have hpart : part ∈ parts.filter (!·.isNullish) := hparts ▸ List.mem_append_right _ List.mem_cons_self
    simp only [nextStates, hunion]
    exact List.mem_map_of_mem (List.mem_filter.mp hpart).1

theorem returnsElement?_fueled (l : Library) (o : Options) :
    Fueled (fun n (s : WalkState) => returnsElement? l o n s.1 s.2) (Awaits l o) where
  zero _ := rfl
  step := by
    intro n m s b hb hnext
    obtain ⟨origin, file, type⟩ := s
    cases type with
    | reference module name args =>
      simp only [returnsElement?] at hb ⊢
      split at hb
      · next helement => rw [if_pos helement]; exact hb
      · next helement =>
        rw [if_neg helement]
        cases hlast : l.lastAlias? ⟨file, .reference module name args⟩ with
        | none => rw [hlast] at hb; exact hb
        | some key =>
          rw [hlast] at hb
          dsimp only at hb ⊢
          split at hb
          · next hback => rw [if_pos hback]; exact hb
          · next hback =>
            rw [if_neg hback]
            exact hnext (some key, _) (.body rfl helement hlast hback) b hb
    | union parts =>
      simp only [returnsElement?] at hb ⊢
      refine anyM_of_checks (fun before part after hparts hbefore c hc => ?_) hb
      exact hnext (none, ⟨file, part⟩) (.part rfl hparts fun t ht => ⟨n, hbefore t ht⟩) c hc
    | _ => exact hb

/-- A walk that ends at all ends within the bound. -/
theorem returnsElement?_typeNodes {l : Library} {o : Options} {p : Place} {n : Nat} {b : Bool}
    (h : returnsElement? l o n none p = some b) : returnsElement? l o (l.typeNodes p.type) none p = some b := by
  have hfueled := returnsElement?_fueled l o
  have hstart : ((none, p) : WalkState) ∈ walkStates l p := List.mem_append_left _ List.mem_cons_self
  have henough := hfueled.enough_fuel (fun s hs t ht => walkStates_closed p s hs t ht.next) hstart h
  have hlength := length_walkStates l p
  exact hfueled.mono (m := l.typeNodes p.type) (by omega) henough

/-- A type is an element type exactly when some walk from it, however long, finds that it is. -/
theorem returnsElement_eq_true_iff (l : Library) (o : Options) (p : Place) :
    returnsElement l o p = true ↔ ∃ n, returnsElement? l o n none p = some true := by
  unfold returnsElement
  constructor
  · intro h
    refine ⟨l.typeNodes p.type, ?_⟩
    cases hwalk : returnsElement? l o (l.typeNodes p.type) none p with
    | none => rw [hwalk] at h; cases h
    | some b => rw [hwalk] at h; exact congrArg some h
  · rintro ⟨n, hn⟩
    rw [returnsElement?_typeNodes hn]
    rfl

theorem isDecided_iff (l : Library) (o : Options) (key : DeclarationKey) : isDecided l o key = true ↔
    ∀ kind, l.kind? key = some kind → ∀ p ∈ results l o key.file kind, ∃ n, (returnsElement? l o n none p).isSome := by
  simp only [isDecided, Option.all_eq_true, List.all_eq_true]
  refine forall₂_congr fun kind _ => forall₂_congr fun p _ => ⟨fun h => ⟨_, h⟩, fun ⟨n, h⟩ => ?_⟩
  obtain ⟨b, hb⟩ := Option.isSome_iff_exists.mp h
  rw [returnsElement?_typeNodes hb]
  rfl

/-! ## Props types -/

variable {o : Options}

theorem functionProps?_mentioned {file : Nat} {params : List Param} {returns : TypeExpr} {q : Place}
    (hparams : ∀ t ∈ params.filterMap (·.type), l.Mentions ⟨file, t⟩)
    (hq : functionProps? l o file params returns = some (some q)) : l.Mentions q := by
  unfold functionProps? at hq
  split at hq
  · cases hq
  · obtain ⟨t, ht, rfl⟩ := Option.map_eq_some_iff.mp (Option.some.inj hq)
    obtain ⟨p, hp, htype⟩ := Option.bind_eq_some_iff.mp ht
    exact hparams t (List.mem_filterMap.mpr ⟨p, List.mem_of_head? hp, htype⟩)

theorem typedProps?_mentioned {depth : Nat} {p q : Place} (hp : l.Mentions p)
    (hq : typedProps? l o depth p = some (some q)) : l.Mentions q := by
  induction depth generalizing p with
  | zero => cases hq
  | succ depth ih =>
    have hr := Library.mentions_of_resolveAlias hp
    simp only [typedProps?] at hq
    generalize l.resolveAlias p = r at hr hq
    obtain ⟨file, type⟩ := r
    cases type with
    | reference module name args =>
      dsimp only at hq
      split at hq
      · cases hq
      · cases args with
        | nil => cases hq
        | cons first rest =>
          have hfirst : l.Mentions ⟨file, first⟩ :=
            hr.subterm (List.mem_cons_of_mem _ (TypeExpr.mem_subtermsOf List.mem_cons_self))
          cases hinner : typedProps? l o depth ⟨file, first⟩ with
          | none =>
            obtain rfl : (⟨file, first⟩ : Place) = q := by simpa [hinner] using hq
            exact hfirst
          | some inner =>
            obtain rfl : inner = some q := by simpa [hinner] using hq
            exact ih hfirst hinner
    | function params returns =>
      refine functionProps?_mentioned (fun t ht => hr.subterm ?_) hq
      obtain ⟨param, hparam, htype⟩ := List.mem_filterMap.mp ht
      rw [TypeExpr.subterms]
      exact List.mem_cons_of_mem _ (List.mem_append_left _ (TypeExpr.mem_subtermsOfParams hparam htype))
    | _ => cases hq

/-- The props type of a component occurs in the library. -/
theorem props?_mentioned {key : DeclarationKey} {k : DeclarationKind} (hk : l.kind? key = some k)
    {q : Place} (hq : props? l o key.file k = some (some q)) : l.Mentions q := by
  have hmention : ∀ t ∈ k.types, l.Mentions ⟨key.file, t⟩ := fun t ht => Library.mentions_of_kind hk ht
  unfold props? at hq
  split at hq
  · next type => exact typedProps?_mentioned (hmention type List.mem_cons_self) hq
  · next module name args =>
    split at hq
    · obtain ⟨t, ht, rfl⟩ := Option.map_eq_some_iff.mp (Option.some.inj hq)
      have hparent := hmention (.reference module name args) List.mem_cons_self
      exact hparent.subterm (List.mem_cons_of_mem _ (TypeExpr.mem_subtermsOf (List.mem_of_head? ht)))
    · cases hq
  · exact functionProps?_mentioned (fun t ht => hmention t (List.mem_append_left _ ht)) hq
  · cases hq

theorem ofDeclaration?_mentioned {name : String} {key : DeclarationKey} {c : Component}
    (hc : ofDeclaration? l o name key = some c) {q : Place} (hq : c.shape.props = some q) : l.Mentions q := by
  simp only [ofDeclaration?, shape?, bind, Option.bind_eq_some_iff, pure, Option.some.injEq] at hc
  obtain ⟨shape, ⟨d, hd, props, hprops, rfl⟩, rfl⟩ := hc
  have hk : l.kind? key = some d.kind := by rw [Library.kind?, hd, Option.map_some]
  obtain rfl : props = some q := hq
  exact props?_mentioned hk hprops

end Component

end PatternCatalog
