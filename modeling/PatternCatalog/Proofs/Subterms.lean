/-
  PatternCatalog.Proofs.Subterms — the types inside a type, and those of a module.

  `TypeExpr.subterms` lists a type and every type inside it, at any depth: type arguments,
  parts of unions and intersections, items of arrays, parameters and results, members.
  `Module.types` lists the types that the declarations of a module are written with, in the
  order of the text. Whoever reasons about everything a declaration mentions quantifies
  over these lists.
-/

import PatternCatalog.Declaration

namespace PatternCatalog

namespace TypeExpr

mutual

/-- A type and the types inside it, itself first. -/
def subterms : TypeExpr → List TypeExpr
  | .reference module name args => .reference module name args :: subtermsOf args
  | .union parts => .union parts :: subtermsOf parts
  | .intersection parts => .intersection parts :: subtermsOf parts
  | .array item => .array item :: item.subterms
  | .function params returns => .function params returns :: (subtermsOfParams params ++ returns.subterms)
  | .object members => .object members :: subtermsOfMembers members
  | .keyword k => [.keyword k]
  | .literal l => [.literal l]
  | .other => [.other]

def subtermsOf : List TypeExpr → List TypeExpr
  | [] => []
  | t :: ts => t.subterms ++ subtermsOf ts

def subtermsOfParams : List (ParamOf TypeExpr) → List TypeExpr
  | [] => []
  | ⟨_, some t, _⟩ :: ps => t.subterms ++ subtermsOfParams ps
  | ⟨_, none, _⟩ :: ps => subtermsOfParams ps

def subtermsOfMembers : List (MemberOf TypeExpr) → List TypeExpr
  | [] => []
  | ⟨_, _, some t, _, _, _⟩ :: ms => t.subterms ++ subtermsOfMembers ms
  | ⟨_, _, none, _, _, _⟩ :: ms => subtermsOfMembers ms

end

mutual

/-- What is inside a type inside a type is inside that type. -/
theorem subterms_trans {u v : TypeExpr} (h : v ∈ u.subterms) : (t : TypeExpr) → u ∈ t.subterms → v ∈ t.subterms
  | .reference _ _ args, hu => by
    rcases List.mem_cons.mp hu with rfl | hu
    · exact h
    · exact List.mem_cons_of_mem _ (subtermsOf_trans h args hu)
  | .union parts, hu => by
    rcases List.mem_cons.mp hu with rfl | hu
    · exact h
    · exact List.mem_cons_of_mem _ (subtermsOf_trans h parts hu)
  | .intersection parts, hu => by
    rcases List.mem_cons.mp hu with rfl | hu
    · exact h
    · exact List.mem_cons_of_mem _ (subtermsOf_trans h parts hu)
  | .array item, hu => by
    rcases List.mem_cons.mp hu with rfl | hu
    · exact h
    · exact List.mem_cons_of_mem _ (subterms_trans h item hu)
  | .function params returns, hu => by
    rcases List.mem_cons.mp hu with rfl | hu
    · exact h
    · rcases List.mem_append.mp hu with hu | hu
      · exact List.mem_cons_of_mem _ (List.mem_append_left _ (subtermsOfParams_trans h params hu))
      · exact List.mem_cons_of_mem _ (List.mem_append_right _ (subterms_trans h returns hu))
  | .object members, hu => by
    rcases List.mem_cons.mp hu with rfl | hu
    · exact h
    · exact List.mem_cons_of_mem _ (subtermsOfMembers_trans h members hu)
  | .keyword _, hu => List.mem_singleton.mp hu ▸ h
  | .literal _, hu => List.mem_singleton.mp hu ▸ h
  | .other, hu => List.mem_singleton.mp hu ▸ h

theorem subtermsOf_trans {u v : TypeExpr} (h : v ∈ u.subterms) :
    (ts : List TypeExpr) → u ∈ subtermsOf ts → v ∈ subtermsOf ts
  | [], hu => nomatch hu
  | t :: ts, hu => by
    rcases List.mem_append.mp hu with hu | hu
    · exact List.mem_append_left _ (subterms_trans h t hu)
    · exact List.mem_append_right _ (subtermsOf_trans h ts hu)

theorem subtermsOfParams_trans {u v : TypeExpr} (h : v ∈ u.subterms) :
    (ps : List (ParamOf TypeExpr)) → u ∈ subtermsOfParams ps → v ∈ subtermsOfParams ps
  | [], hu => nomatch hu
  | ⟨_, some t, _⟩ :: ps, hu => by
    rcases List.mem_append.mp hu with hu | hu
    · exact List.mem_append_left _ (subterms_trans h t hu)
    · exact List.mem_append_right _ (subtermsOfParams_trans h ps hu)
  | ⟨_, none, _⟩ :: ps, hu => subtermsOfParams_trans h ps hu

theorem subtermsOfMembers_trans {u v : TypeExpr} (h : v ∈ u.subterms) :
    (ms : List (MemberOf TypeExpr)) → u ∈ subtermsOfMembers ms → v ∈ subtermsOfMembers ms
  | [], hu => nomatch hu
  | ⟨_, _, some t, _, _, _⟩ :: ms, hu => by
    rcases List.mem_append.mp hu with hu | hu
    · exact List.mem_append_left _ (subterms_trans h t hu)
    · exact List.mem_append_right _ (subtermsOfMembers_trans h ms hu)
  | ⟨_, _, none, _, _, _⟩ :: ms, hu => subtermsOfMembers_trans h ms hu

end

theorem self_mem_subterms (t : TypeExpr) : t ∈ t.subterms := by
  cases t <;> exact List.mem_cons_self

theorem mem_subtermsOf {t : TypeExpr} {ts : List TypeExpr} (h : t ∈ ts) : t ∈ subtermsOf ts := by
  induction ts with
  | nil => cases h
  | cons u ts ih =>
    rcases List.mem_cons.mp h with rfl | hrest
    · exact List.mem_append_left _ t.self_mem_subterms
    · exact List.mem_append_right _ (ih hrest)

theorem mem_subtermsOfParams {p : ParamOf TypeExpr} {t : TypeExpr} {ps : List (ParamOf TypeExpr)} (h : p ∈ ps)
    (ht : p.type = some t) : t ∈ subtermsOfParams ps := by
  induction ps with
  | nil => cases h
  | cons q ps ih =>
    rcases List.mem_cons.mp h with rfl | hrest
    · obtain ⟨name, _, optional⟩ := p
      cases ht
      exact List.mem_append_left _ t.self_mem_subterms
    · obtain ⟨name, _ | u, optional⟩ := q
      · exact ih hrest
      · exact List.mem_append_right _ (ih hrest)

theorem mem_subtermsOfMembers {m : MemberOf TypeExpr} {t : TypeExpr} {ms : List (MemberOf TypeExpr)} (h : m ∈ ms)
    (ht : m.type = some t) : t ∈ subtermsOfMembers ms := by
  induction ms with
  | nil => cases h
  | cons n ms ih =>
    rcases List.mem_cons.mp h with rfl | hrest
    · obtain ⟨name, optional, _, typeText, doc, start⟩ := m
      cases ht
      exact List.mem_append_left _ t.self_mem_subterms
    · obtain ⟨name, optional, _ | u, typeText, doc, start⟩ := n
      · exact ih hrest
      · exact List.mem_append_right _ (ih hrest)

/-- The module that a type is imported from in place. -/
def module? : TypeExpr → Option String
  | .reference module _ _ => module
  | _ => none

end TypeExpr

/-- The types that a declaration is written with. -/
def DeclarationKind.types : DeclarationKind → List TypeExpr
  | .interface parents members => parents ++ members.filterMap (·.type)
  | .alias type => [type]
  | .enum _ => []
  | .class parent => parent.toList
  | .function params returns => params.filterMap (·.type) ++ returns.toList
  | .variable type => type.toList

/-- The members that an interface declares. -/
def DeclarationKind.members : DeclarationKind → List Member
  | .interface _ members => members
  | _ => []

/-- The members that an object type declares. -/
def TypeExpr.members : TypeExpr → List Member
  | .object members => members
  | _ => []

namespace Module

/-- The types of a module's declarations, at any depth. -/
def types (m : Module) : List TypeExpr :=
  m.declarations.flatMap fun d => d.kind.types.flatMap TypeExpr.subterms

/-- The members of a module's interfaces and object types, at any depth. -/
def members (m : Module) : List Member :=
  m.declarations.flatMap (·.kind.members) ++ m.types.flatMap (·.members)

variable {m : Module}

theorem mem_types_of_declaration {d : Declaration} {t : TypeExpr} (hd : d ∈ m.declarations) (ht : t ∈ d.kind.types) :
    t ∈ m.types :=
  List.mem_flatMap.mpr ⟨d, hd, List.mem_flatMap.mpr ⟨t, ht, t.self_mem_subterms⟩⟩

theorem mem_types_of_subterm {t u : TypeExpr} (ht : t ∈ m.types) (hu : u ∈ t.subterms) : u ∈ m.types := by
  obtain ⟨d, hd, ht⟩ := List.mem_flatMap.mp ht
  obtain ⟨v, hv, ht⟩ := List.mem_flatMap.mp ht
  exact List.mem_flatMap.mpr ⟨d, hd, List.mem_flatMap.mpr ⟨v, hv, TypeExpr.subterms_trans hu v ht⟩⟩

theorem mem_members_of_object {ms : List Member} {n : Member} (h : .object ms ∈ m.types) (hn : n ∈ ms) :
    n ∈ m.members := List.mem_append_right _ (List.mem_flatMap.mpr ⟨_, h, hn⟩)

theorem mem_members_of_declaration {d : Declaration} {n : Member} (hd : d ∈ m.declarations)
    (hn : n ∈ d.kind.members) : n ∈ m.members := List.mem_append_left _ (List.mem_flatMap.mpr ⟨d, hd, hn⟩)

theorem mem_types_of_member {n : Member} (h : n ∈ m.members) {t : TypeExpr} (ht : n.type = some t) : t ∈ m.types := by
  rcases List.mem_append.mp h with h | h
  · obtain ⟨d, hd, hn⟩ := List.mem_flatMap.mp h
    refine mem_types_of_declaration hd ?_
    unfold DeclarationKind.members at hn
    split at hn
    · next hk =>
      rw [hk]
      exact List.mem_append_right _ (List.mem_filterMap.mpr ⟨n, hn, ht⟩)
    · cases hn
  · obtain ⟨u, hu, hn⟩ := List.mem_flatMap.mp h
    refine mem_types_of_subterm hu ?_
    unfold TypeExpr.members at hn
    split at hn
    · exact List.mem_cons_of_mem _ (TypeExpr.mem_subtermsOfMembers hn ht)
    · cases hn

end Module

end PatternCatalog
