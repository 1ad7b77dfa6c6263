/-
  PatternCatalog.Library.Alias — following type aliases.

  A reference to an alias is followed to the body of the alias, and on from there, at most
  `typeDepth` times. Aliases may run in circles; whoever goes on from the end of a chain has
  to bound that (`typeNodes`).
-/

import PatternCatalog.Library.Symbol

namespace PatternCatalog

namespace Library

/-- A type with the file it is read in. -/
structure Place where
  file : Nat
  type : TypeExpr
  deriving BEq, Repr

/-- The alias that a type refers to. -/
def aliasKey? (l : Library) (p : Place) : Option DeclarationKey :=
  match l.reference? p.file p.type with
  | some (.declaration key) =>
    match l.kind? key with
    | some (.alias _) => some key
    | _ => none
  | _ => none

/-- The type that an alias stands for. -/
def aliasBody? (l : Library) (key : DeclarationKey) : Option Place :=
  match l.kind? key with
  | some (.alias type) => some ⟨key.file, type⟩
  | _ => none

/-- One step from an alias to what it stands for. -/
def aliasTarget? (l : Library) (p : Place) : Option Place := (l.aliasKey? p).bind l.aliasBody?

/-- How far types are followed. -/
def typeDepth : Nat := 32

/-- Where a chain of at most so many aliases leads. -/
def followAliases (l : Library) : Nat → Place → Place
  | 0, p => p
  | n + 1, p =>
    match l.aliasTarget? p with
    | some q => l.followAliases n q
    | none => p

def resolveAlias (l : Library) (p : Place) : Place := l.followAliases typeDepth p

/-- The last of at most so many aliases on the way from a type. -/
def lastAliasWithin? (l : Library) : Nat → Place → Option DeclarationKey
  | 0, _ => none
  | n + 1, p =>
    match l.aliasTarget? p with
    | some q => l.lastAliasWithin? n q <|> l.aliasKey? p
    | none => none

/-- The alias whose body `resolveAlias` ends at; none where the type is no alias. -/
def lastAlias? (l : Library) (p : Place) : Option DeclarationKey := l.lastAliasWithin? typeDepth p

end Library

/-! ## A bound for walks through aliases and unions -/

mutual

/-- A type and the parts of its unions, counted. -/
def TypeExpr.nodes : TypeExpr → Nat
  | .union parts => nodesOf parts + 1
  | _ => 1

def TypeExpr.nodesOf : List TypeExpr → Nat
  | [] => 0
  | t :: ts => t.nodes + nodesOf ts

end

def Declaration.aliasNodes (d : Declaration) : Nat :=
  match d.kind with
  | .alias type => type.nodes
  | _ => 0

/-- A walk from a type into the parts of unions and the bodies of aliases that is longer than
this has come to some place twice. -/
def Library.typeNodes (l : Library) (type : TypeExpr) : Nat :=
  total (l.files.map fun f => total (f.module.declarations.map (·.aliasNodes))) + type.nodes + 1

end PatternCatalog
