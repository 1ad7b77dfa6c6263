/-
  PatternCatalog.Proofs.Library.Mentions — the types that occur in a library.

  A walk through types starts at a type of some declaration and goes on to its parts and to the
  bodies of aliases and interfaces, so it never leaves the types that declarations are written
  with (`Mentions`).
-/

import PatternCatalog.Library.Alias
import PatternCatalog.Proofs.Subterms

namespace PatternCatalog.Library

/-- A type that occurs in a declaration of a file. -/
def Mentions (l : Library) (p : Place) : Prop := p.type ∈ (l.moduleAt p.file).types

variable {l : Library}

theorem mentions_of_kind {key : DeclarationKey} {k : DeclarationKind} {t : TypeExpr} (h : l.kind? key = some k)
    (ht : t ∈ k.types) : l.Mentions ⟨key.file, t⟩ := by
  obtain ⟨d, hd, rfl⟩ := Option.map_eq_some_iff.mp h
  exact Module.mem_types_of_declaration (List.mem_of_getElem? hd) ht

theorem Mentions.subterm {p : Place} {t : TypeExpr} (h : l.Mentions p) (ht : t ∈ p.type.subterms) :
    l.Mentions ⟨p.file, t⟩ := Module.mem_types_of_subterm h ht

theorem kind?_of_aliasKey? {p : Place} {key : DeclarationKey} (h : l.aliasKey? p = some key) :
    ∃ type, l.kind? key = some (.alias type) := by
  unfold aliasKey? at h
  split at h
  · split at h
    · next type hk =>
      cases h
      exact ⟨type, hk⟩
    · cases h
  · cases h

theorem mentions_of_aliasTarget? {p q : Place} (h : l.aliasTarget? p = some q) : l.Mentions q := by
  obtain ⟨key, hkey, hbody⟩ := Option.bind_eq_some_iff.mp h
  obtain ⟨type, hk⟩ := kind?_of_aliasKey? hkey
  rw [aliasBody?, hk] at hbody
  cases hbody
  exact mentions_of_kind hk List.mem_cons_self

theorem mentions_of_followAliases (n : Nat) {p : Place} (hp : l.Mentions p) : l.Mentions (l.followAliases n p) := by
  induction n generalizing p with
  | zero => exact hp
  | succ n ih =>
    rw [followAliases]
    split
    · next q htarget => exact ih (mentions_of_aliasTarget? htarget)
    · exact hp

theorem mentions_of_resolveAlias {p : Place} (hp : l.Mentions p) : l.Mentions (l.resolveAlias p) :=
  mentions_of_followAliases typeDepth hp

end PatternCatalog.Library
