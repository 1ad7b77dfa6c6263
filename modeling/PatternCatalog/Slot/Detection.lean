/-
  PatternCatalog.Slot.Detection — which members take nested content, and how much of it.

  A type of renderable content takes one piece of content, a list of them takes several, and a
  union takes what one of its parts takes. Types are known by the name they are written with or
  by the name they have outside the library; one library alias is opened on the way. A `@slot`
  tag makes any member a slot.
-/

import PatternCatalog.Analysis
import PatternCatalog.Doc
import PatternCatalog.Implementation
import PatternCatalog.Library.Members
import PatternCatalog.Options

namespace PatternCatalog

/-- The greater of two quantities, where nothing counts as least. -/
def SlotQuantity.most : Option SlotQuantity → Option SlotQuantity → Option SlotQuantity
  | some .multiple, _ | _, some .multiple => some .multiple
  | some .single, _ | _, some .single => some .single
  | none, none => none

/-- Several pieces of content where there was one. -/
def SlotQuantity.several (q : Option SlotQuantity) : Option SlotQuantity := q.map fun _ => .multiple

def SlotKind.ofName (propertyName : String) : SlotKind :=
  if propertyName = Implementation.children then .children else .property

namespace Slot

open Library (MemberRef Place)

def isListName (name : List String) : Bool :=
  name.getLast? == some "Array" || name.getLast? == some "ReadonlyArray"

def isDeclaration : Option Symbol → Bool
  | some (.declaration _) => true
  | _ => false

/-- The quantity of a reference that is no list, by what it means; `onAlias` answers for an alias
of the library. -/
def symbolQuantity (o : Options) (onAlias : Option SlotQuantity) : Option Symbol → Option SlotQuantity
  | some (.external _ path) => if o.isSlotType path then some .single else none
  | some (.declaration _) => onAlias
  | _ => none

mutual

/-- The quantity of a type; `onAlias` answers for a reference to an alias of the library. -/
def quantityOf (l : Library) (o : Options) (onAlias : Place → Option SlotQuantity) (file : Nat) :
    TypeExpr → Option SlotQuantity
  | .array item => SlotQuantity.several (quantityOf l o onAlias file item)
  | .union parts => quantityOfAny l o onAlias file parts
  | .reference module name args =>
    let type := TypeExpr.reference module name args
    let symbol := l.reference? file type
    if o.isSlotType name then some .single
    else if !isDeclaration symbol && isListName name && args.length == 1 then
      SlotQuantity.several (quantityOfAny l o onAlias file args)
    else symbolQuantity o (onAlias ⟨file, type⟩) symbol
  | _ => none

/-- The greatest quantity of some types, without the nullish ones. -/
def quantityOfAny (l : Library) (o : Options) (onAlias : Place → Option SlotQuantity) (file : Nat) :
    List TypeExpr → Option SlotQuantity
  | [] => none
  | t :: ts =>
    let rest := quantityOfAny l o onAlias file ts
    if t.isNullish then rest else SlotQuantity.most (quantityOf l o onAlias file t) rest

end

/-- The quantity of a type, with so many aliases opened on the way. -/
def quantityWithin (l : Library) (o : Options) : Nat → Place → Option SlotQuantity
  | 0, p => quantityOf l o (fun _ => none) p.file p.type
  | n + 1, p => quantityOf l o (fun q => (l.aliasTarget? q).bind (quantityWithin l o n)) p.file p.type

/-- How many aliases are opened. -/
def aliasDepth : Nat := 1

def isUnconstrained : Option TypeExpr → Bool
  | none | some (.keyword .any) | some (.keyword .unknown) => true
  | _ => false

/-- The quantity of a member that is marked as a slot, by its type. -/
def markedQuantity (byType : Option SlotQuantity) (type : Option TypeExpr) : SlotQuantity :=
  match byType, type with
  | some q, _ => q
  | none, some (.array _) => .multiple
  | none, _ => .single

/-- The quantity of a member that is a slot. -/
def detect? (l : Library) (o : Options) (m : MemberRef) (doc : Doc.Comment) : Option SlotQuantity :=
  let byType := m.member.type.bind fun type => quantityWithin l o aliasDepth ⟨m.file, type⟩
  if doc.hasTag "slot" then some (markedQuantity byType m.member.type)
  else if m.name = Implementation.children ∧ isUnconstrained m.member.type then some .single
  else byType

end Slot

end PatternCatalog
