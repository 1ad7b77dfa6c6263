/-
  PatternCatalog.Property.Classification — the kind of a property.

  A type is normalized: aliases are followed, and a union with one part that is not nullish
  counts as that part. The kind is the first that fits of boolean, enum, event handler, string
  and number; a `@control` tag refines a string. A union is boolean, a string or a number when
  all its parts are that, nullish ones aside. Aliases may lead back to themselves through unions,
  and the walk through them need not end; a member that cannot be classified is of unknown kind.
-/

import PatternCatalog.Library.Members
import PatternCatalog.Property.EnumOption
import PatternCatalog.Property.Event
import PatternCatalog.Property.Literal

namespace PatternCatalog

open Library (MemberRef Place)

namespace Library

/-- The parts of a union that are not nullish. -/
def properParts (parts : List TypeExpr) : List TypeExpr := parts.filter (!·.isNullish)

/-- The normalized type; none when the way there is longer than the given depth. -/
def normalize? (l : Library) : Nat → Place → Option Place
  | 0, _ => none
  | depth + 1, p =>
    let q := l.resolveAlias p
    match q.type with
    | .union parts =>
      match properParts parts with
      | [only] => normalize? l depth ⟨q.file, only⟩
      | _ => some q
    | _ => some q

/-- Whether a normalized type satisfies a test or is a union of such types; none when the walk is
longer than the given depth. -/
def consistsOf? (l : Library) (test : TypeExpr → Bool) : Nat → Place → Option Bool
  | 0, _ => none
  | depth + 1, p =>
    match p.type with
    | .union parts => do
      let places ← (properParts parts).mapM fun part => l.normalize? depth ⟨p.file, part⟩
      places.allM (consistsOf? l test depth)
    | type => some (test type)

end Library

namespace TypeExpr

def isBoolean : TypeExpr → Bool
  | .keyword .boolean | .literal (.boolean _) => true
  | _ => false

def isString : TypeExpr → Bool
  | .keyword .string | .literal (.string _) | .literal .template => true
  | _ => false

def isNumber : TypeExpr → Bool
  | .keyword .number | .literal (.number _) => true
  | _ => false

end TypeExpr

namespace PropertyKind

def lowerAscii (s : String) : String := s.map Char.toLower

/-- The kind that a `@control` tag asks for. -/
def ofControl? (doc : Doc.Comment) : Option PropertyKind := do
  let control := lowerAscii (String.ofList (Text.trim (← doc.tag? "control").toList))
  if control = "color" then some color
  else if control = "asset" ∨ control = "image" then some asset
  else if control = "href" ∨ control = "link" ∨ control = "url" then some href
  else none

/-- The kind of a member of the given type; none when a walk through aliases is longer than the
given depth. -/
def ofType? (l : Library) (ids : Identity.Strategy) (propertyId : String) (control : Option PropertyKind)
    (typeText : String) (depth : Nat) (raw : Place) : Option PropertyKind := do
  let p ← l.normalize? depth raw
  if ← l.consistsOf? TypeExpr.isBoolean depth p then return .boolean
  match EnumOption.members? l p with
  | some members => return .enum (EnumOption.ofMembers ids propertyId members)
  | none =>
    match EventKind.ofType? l raw <|> EventKind.ofType? l p with
    | some event => return .eventHandler event
    | none =>
      let isString ← l.consistsOf? TypeExpr.isString depth p
      if isString && control.isNone then return .string
      if ← l.consistsOf? TypeExpr.isNumber depth p then return .number
      if isString then return control.getD .string
      return .unknown typeText

/-- A depth that a walk from a type with its parts can only reach by coming to some place twice. -/
def walkDepth (l : Library) (type : TypeExpr) : Nat := 2 * l.typeNodes type + 1

/-- The kind of a member; none when a walk through aliases is longer than the given depth. -/
def ofMemberWithin? (l : Library) (ids : Identity.Strategy) (propertyId : String) (m : MemberRef) (doc : Doc.Comment)
    (depth : Nat) : Option PropertyKind :=
  match m.member.type with
  | none => some (.unknown m.member.typeText)
  | some type => ofType? l ids propertyId (ofControl? doc) m.member.typeText depth ⟨m.file, type⟩

/-- The kind of a member; none when the walk through aliases does not end. -/
def ofMember? (l : Library) (ids : Identity.Strategy) (propertyId : String) (m : MemberRef) (doc : Doc.Comment) :
    Option PropertyKind :=
  ofMemberWithin? l ids propertyId m doc ((m.member.type.map (walkDepth l)).getD 0)

/-- The kind of a member, unknown when the walk through aliases does not end. -/
def ofMember (l : Library) (ids : Identity.Strategy) (propertyId : String) (m : MemberRef) (doc : Doc.Comment) :
    PropertyKind :=
  (ofMember? l ids propertyId m doc).getD (.unknown m.member.typeText)

end PropertyKind

/-- The property of a pattern that a member is. -/
def Property.ofMember (l : Library) (ids : Identity.Strategy) (patternId : String) (m : MemberRef) : Property :=
  let doc := Doc.parse? m.member.doc
  let id := ids.property patternId m.name
  let kind := PropertyKind.ofMember l ids id m doc
  { id
    contextId := m.name
    propertyName := m.name
    label := (doc.tagText? "name").getD m.name
    description := doc.resolvedDescription
    example_ := (doc.tagText? "example").getD ""
    required := !m.optional
    hidden := doc.hasTag "hidden"
    group := doc.tagText? "group"
    defaultValue := (doc.tagText? "default").bind kind.literalDefault?
    kind }

end PatternCatalog
