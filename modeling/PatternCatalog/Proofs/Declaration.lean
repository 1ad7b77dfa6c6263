/-
  PatternCatalog.Proofs.Declaration — types and declarations can be compared.

  Types are nested in lists of themselves, of parameters and of members, so their equality is
  decided by a walk over two types at once (`TypeExpr.same`); equality of modules and libraries
  follows. It serves to evaluate what a small library declares.
-/

import PatternCatalog.Library

namespace PatternCatalog

namespace TypeExpr

mutual

/-- Whether two types are written alike. -/
def same : TypeExpr → TypeExpr → Bool
  | .keyword k, .keyword k' => k == k'
  | .literal v, .literal v' => v == v'
  | .reference module name args, .reference module' name' args' =>
    module == module' && name == name' && sameAll args args'
  | .union parts, .union parts' => sameAll parts parts'
  | .intersection parts, .intersection parts' => sameAll parts parts'
  | .array item, .array item' => same item item'
  | .function params returns, .function params' returns' => sameParams params params' && same returns returns'
  | .object members, .object members' => sameMembers members members'
  | .other, .other => true
  | _, _ => false

def sameAll : List TypeExpr → List TypeExpr → Bool
  | [], [] => true
  | t :: ts, t' :: ts' => same t t' && sameAll ts ts'
  | _, _ => false

def sameParams : List (ParamOf TypeExpr) → List (ParamOf TypeExpr) → Bool
  | [], [] => true
  | ⟨name, some t, optional⟩ :: ps, ⟨name', some t', optional'⟩ :: ps' =>
    name == name' && same t t' && optional == optional' && sameParams ps ps'
  | ⟨name, none, optional⟩ :: ps, ⟨name', none, optional'⟩ :: ps' =>
    name == name' && optional == optional' && sameParams ps ps'
  | _, _ => false

def sameMembers : List (MemberOf TypeExpr) → List (MemberOf TypeExpr) → Bool
  | [], [] => true
  | ⟨name, optional, some t, text, doc, start⟩ :: ms, ⟨name', optional', some t', text', doc', start'⟩ :: ms' =>
    name == name' && optional == optional' && same t t' && text == text' && doc == doc' && start == start' &&
      sameMembers ms ms'
  | ⟨name, optional, none, text, doc, start⟩ :: ms, ⟨name', optional', none, text', doc', start'⟩ :: ms' =>
    name == name' && optional == optional' && text == text' && doc == doc' && start == start' && sameMembers ms ms'
  | _, _ => false

end

mutual

theorem same_iff : (t u : TypeExpr) → same t u = true ↔ t = u
  | .keyword k, u => by cases u <;> simp [same]
  | .literal v, u => by cases u <;> simp [same]
  | .reference module name args, u => by cases u <;> simp [same, sameAll_iff args, and_assoc]
  | .union parts, u => by cases u <;> simp [same, sameAll_iff parts]
  | .intersection parts, u => by cases u <;> simp [same, sameAll_iff parts]
  | .array item, u => by cases u <;> simp [same, same_iff item]
  | .function params returns, u => by cases u <;> simp [same, sameParams_iff params, same_iff returns]
  | .object members, u => by cases u <;> simp [same, sameMembers_iff members]
  | .other, u => by cases u <;> simp [same]

theorem sameAll_iff : (ts us : List TypeExpr) → sameAll ts us = true ↔ ts = us
  | [], us => by cases us <;> simp [sameAll]
  | t :: ts, us => by cases us <;> simp [sameAll, same_iff t, sameAll_iff ts]

theorem sameParams_iff : (ps qs : List (ParamOf TypeExpr)) → sameParams ps qs = true ↔ ps = qs
  | [], qs => by cases qs <;> simp [sameParams]
  | ⟨name, some t, optional⟩ :: ps, qs => by
    rcases qs with _ | ⟨⟨name', _ | t', optional'⟩, qs⟩ <;>
      simp [sameParams, same_iff t, sameParams_iff ps, and_assoc]
  | ⟨name, none, optional⟩ :: ps, qs => by
    rcases qs with _ | ⟨⟨name', _ | t', optional'⟩, qs⟩ <;>
      simp [sameParams, sameParams_iff ps, and_assoc]

theorem sameMembers_iff : (ms ns : List (MemberOf TypeExpr)) → sameMembers ms ns = true ↔ ms = ns
  | [], ns => by cases ns <;> simp [sameMembers]
  | ⟨name, optional, some t, text, doc, start⟩ :: ms, ns => by
    rcases ns with _ | ⟨⟨name', optional', _ | t', text', doc', start'⟩, ns⟩ <;>
      simp [sameMembers, same_iff t, sameMembers_iff ms, and_assoc]
  | ⟨name, optional, none, text, doc, start⟩ :: ms, ns => by
    rcases ns with _ | ⟨⟨name', optional', _ | t', text', doc', start'⟩, ns⟩ <;>
      simp [sameMembers, sameMembers_iff ms, and_assoc]

end

instance : DecidableEq TypeExpr := fun t u => decidable_of_iff _ (same_iff t u)

end TypeExpr

deriving instance DecidableEq for ParamOf, MemberOf, DeclarationKind, Declaration, Module, SourceFile, Library

end PatternCatalog
