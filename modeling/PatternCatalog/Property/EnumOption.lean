/-
  PatternCatalog.Property.EnumOption — the options of an enum property.

  A member without an initializer counts on from the number before it, the first one from
  zero; after a member that is no number it takes its place in the enum. The ordinal is the
  number given to a member, or else its place, as a signed number of 64 bits.
-/

import PatternCatalog.Analysis
import PatternCatalog.Doc
import PatternCatalog.Identity
import PatternCatalog.Library.Alias

namespace PatternCatalog.EnumOption

/-- A place as a signed number of 64 bits. -/
def ordinalOf (index : Nat) : Int := Int.bmod index 0x10000000000000000

/-- The value and the ordinal of a member, and the number that a next member counts from. -/
def valueOf (index : Nat) (next : Option Binary64) : EnumInit → (EnumValue × Int) × Option Binary64
  | .number x => ((.number x, x.truncate), some (x.add .one))
  | .string s => ((.string s, ordinalOf index), none)
  | .none =>
    let x := next.getD (.ofNat index)
    ((.number x, ordinalOf index), some (x.add .one))
  | .other => ((.number (.ofNat index), ordinalOf index), none)

/-- The values and ordinals of the members from a place on. -/
def valuesFrom (index : Nat) (next : Option Binary64) : List EnumInit → List (EnumValue × Int)
  | [] => []
  | init :: inits =>
    let (v, next) := valueOf index next init
    v :: valuesFrom (index + 1) next inits

def values (inits : List EnumInit) : List (EnumValue × Int) := valuesFrom 0 (some (.zero false)) inits

/-- An option for a member with its value. -/
def ofMember (ids : Identity.Strategy) (propertyId : String) (m : EnumMember) (v : EnumValue × Int) : EnumOption :=
  let doc := Doc.parse? m.doc
  { id := ids.enumOption propertyId m.name
    contextId := m.name
    name := (doc.tagText? "name").getD m.name
    value := v.1
    ordinal := v.2
    icon := doc.tagText? "icon" }

def ofMembers (ids : Identity.Strategy) (propertyId : String) (members : List EnumMember) : List EnumOption :=
  List.zipWith (ofMember ids propertyId) members (values (members.map (·.init)))

/-- The members of the enum that a type refers to. -/
def members? (l : Library) (p : Library.Place) : Option (List EnumMember) :=
  match l.reference? p.file p.type with
  | some (.declaration key) =>
    match l.kind? key with
    | some (.enum members) => some members
    | _ => none
  | _ => none

end PatternCatalog.EnumOption
