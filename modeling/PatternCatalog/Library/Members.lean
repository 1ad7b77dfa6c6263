/-
  PatternCatalog.Library.Members — the apparent members of a type.

  Members are gathered in order and the first of each name counts, so that a declaration's own
  members hide the inherited ones. Wrappers from outside the library pass on the members of
  their first argument, some of them changed.
-/

import PatternCatalog.Library.Alias

namespace PatternCatalog.Library

/-- A member reached through a type, with the file that declares it. -/
structure MemberRef where
  file : Nat
  member : Member
  /-- As the wrappers around it leave it. -/
  optional : Bool
  deriving BEq, Repr

def MemberRef.name (m : MemberRef) : String := m.member.name

def MemberRef.key (m : MemberRef) : MemberKey := ⟨m.file, m.member.start⟩

/-- Adds a member unless one of its name is there. -/
def addMember (out : List MemberRef) (m : MemberRef) : List MemberRef :=
  if out.any (·.name == m.name) then out else out ++ [m]

def addMembers (out ms : List MemberRef) : List MemberRef := ms.foldl addMember out

/-- Members as a file declares them. -/
def ownMembers (file : Nat) (members : List Member) : List MemberRef :=
  members.map fun m => ⟨file, m, m.optional⟩

/-! ## Wrappers -/

inductive Wrapper where
  | keep
  | partialMembers
  | requiredMembers
  | omit
  | pick
  deriving DecidableEq, Repr

def Wrapper.ofName? (name : String) : Option Wrapper :=
  [("Readonly", keep), ("PropsWithChildren", keep), ("PropsWithRef", keep), ("PropsWithoutRef", keep),
   ("Required", requiredMembers), ("Partial", partialMembers), ("Omit", .omit), ("Pick", pick)].lookup name

mutual

/-- The string literals of a type and of the unions in it. -/
def stringLiterals : TypeExpr → List String
  | .literal (.string s) => [s]
  | .union parts => stringLiteralsOf parts
  | _ => []

def stringLiteralsOf : List TypeExpr → List String
  | [] => []
  | t :: ts => stringLiterals t ++ stringLiteralsOf ts

end

/-- What a wrapper makes of the members of its first argument, given the names in the second. -/
def Wrapper.apply (w : Wrapper) (names : List String) (ms : List MemberRef) : List MemberRef :=
  match w with
  | keep => ms
  | partialMembers => ms.map fun m => { m with optional := true }
  | requiredMembers => ms.map fun m => { m with optional := false }
  | .omit => ms.filter fun m => !names.contains m.name
  | pick => ms.filter fun m => names.contains m.name

/-! ## Collection -/

/-- The wrapper around a type, the type, and the names that stand after it. -/
def wrapped? (name : List String) (args : List TypeExpr) : Option (Wrapper × TypeExpr × List String) :=
  match args with
  | [] => none
  | inner :: rest => do
    let w ← Wrapper.ofName? (name.getLast?.getD "")
    return (w, inner, (rest.head?.map stringLiterals).getD [])

/-- Adds the members of a type, followed so many steps deep. -/
def collectMembers (l : Library) : Nat → Place → List MemberRef → List MemberRef
  | 0, _, out => out
  | depth + 1, p, out =>
    match p.type with
    | .object members => addMembers out (ownMembers p.file members)
    | .intersection parts => parts.foldl (fun out t => l.collectMembers depth ⟨p.file, t⟩ out) out
    | .reference _ name args =>
      match l.reference? p.file p.type with
      | some (.declaration key) =>
        match l.kind? key with
        | some (.interface parents members) =>
          parents.foldl (fun out t => l.collectMembers depth ⟨key.file, t⟩ out)
            (addMembers out (ownMembers key.file members))
        | some (.alias type) => l.collectMembers depth ⟨key.file, type⟩ out
        | _ => out
      | _ =>
        match wrapped? name args with
        | some (w, inner, names) => addMembers out (w.apply names (l.collectMembers depth ⟨p.file, inner⟩ []))
        | none => out
    | _ => out

/-- The members of a type, own members first. -/
def apparentMembers (l : Library) (p : Place) : List MemberRef := l.collectMembers (typeDepth + 1) p []

end PatternCatalog.Library
