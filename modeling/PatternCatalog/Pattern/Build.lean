/-
  PatternCatalog.Pattern.Build — the pattern of a component.

  The pattern is built in one loop over the members of the props type (`Setting.addMember`). A
  member that is ignored leaves it as it is; any other is a slot or a property, and is appended
  to the lists that are kept for it. A property that an earlier pattern has is only referred
  to. After the loop the implementation is asked whether it uses nested content that no slot
  stands for (`Setting.addImplied`).
-/

import PatternCatalog.Candidate
import PatternCatalog.Component
import PatternCatalog.Implementation
import PatternCatalog.Property.Classification
import PatternCatalog.Slot.Detection

namespace PatternCatalog

open Library (MemberRef)

/-- Where a slot is declared. -/
structure SlotSource where
  file : Nat
  /-- Its documentation as written. -/
  doc : Option String
  deriving DecidableEq, Repr

/-- The ids by which content refers to a pattern. -/
structure PatternIdentity where
  contextId : String
  id : String
  /-- Ids of the properties by their names, shared ones included. -/
  propertyIds : List (String × String)
  deriving DecidableEq, Repr

/-- What the patterns of a library are built from. -/
structure Setting where
  library : Library
  options : Options
  ids : Identity.Strategy
  fs : FileSystem
  /-- One for each file of the library. -/
  candidates : List Candidate

/-- Where a member that is a slot is declared. -/
def SlotSource.ofMember (m : MemberRef) : SlotSource := ⟨m.file, m.member.doc⟩

/-- A slot of a pattern that a member declares. -/
def Slot.ofMember (ids : Identity.Strategy) (patternId : String) (m : MemberRef) (doc : Doc.Comment)
    (quantity : SlotQuantity) : Slot where
  id := ids.slot patternId m.name
  contextId := m.name
  propertyName := m.name
  label := (doc.tagText? "name").getD m.name
  description := doc.resolvedDescription
  example_ := (doc.tagText? "example").getD ""
  required := !m.optional
  hidden := doc.hasTag "hidden"
  quantity
  kind := .ofName m.name
  defaultValue := none

/-- The slot for nested content that only the implementation shows. -/
def Slot.implied (ids : Identity.Strategy) (patternId : String) : Slot where
  id := ids.slot patternId Implementation.children
  contextId := Implementation.children
  propertyName := Implementation.children
  label := Implementation.children
  description := ""
  example_ := ""
  required := false
  hidden := false
  quantity := .single
  kind := .children
  defaultValue := none

/-- A pattern with what only the analysis needs to know of it. -/
structure PatternBuild where
  pattern : Pattern
  /-- The properties that are new with this pattern. -/
  properties : List Property
  /-- The members that the new properties come from, one for each. -/
  minted : List MemberKey
  /-- One for each slot. -/
  slotSources : List SlotSource
  /-- Ids of the properties by their names, shared ones included. -/
  propertyIds : List (String × String)

namespace PatternBuild

def identity (b : PatternBuild) : PatternIdentity := ⟨b.pattern.contextId, b.pattern.id, b.propertyIds⟩

/-- The new properties by the members that they come from. -/
def newProperties (b : PatternBuild) : List (MemberKey × Property) := b.minted.zip b.properties

def addSlot (b : PatternBuild) (slot : Slot) (source : SlotSource) : PatternBuild :=
  { b with
    pattern := { b.pattern with slots := b.pattern.slots ++ [slot] }
    slotSources := b.slotSources ++ [source] }

/-- Adds a property that no earlier pattern has. -/
def mint (b : PatternBuild) (key : MemberKey) (p : Property) : PatternBuild :=
  { b with properties := b.properties ++ [p], minted := b.minted ++ [key] }

/-- Refers to a property; a name stands for the id that it has got last. -/
def refer (b : PatternBuild) (name id : String) : PatternBuild :=
  { b with
    propertyIds := b.propertyIds.filter (·.1 ≠ name) ++ [(name, id)]
    pattern := { b.pattern with propertyIds := b.pattern.propertyIds ++ [id] } }

end PatternBuild

namespace Setting

def contextId (s : Setting) (file : Nat) (exportName : String) : String :=
  ((s.candidates[file]?.map (·.id)).getD "") ++ ":" ++ exportName

/-- The name shown for a component: a given one, or that of the export, the declaration or the file. -/
def patternName (s : Setting) (c : Component) : String :=
  let own := ((s.library.declaration? c.shape.key).map (·.name)).getD "default"
  match c.displayName with
  | some name => name
  | none =>
    if c.exportName ≠ "default" then c.exportName
    else if own ≠ "default" then own
    else (s.candidates[c.shape.key.file]?.map (·.displayName)).getD c.exportName

/-- The members of the props type of a component. -/
def members (s : Setting) (c : Component) : List MemberRef :=
  (c.shape.props.map s.library.apparentMembers).getD []

/-- What the build of a pattern begins with. -/
def blank (s : Setting) (c : Component) : PatternBuild :=
  let contextId := s.contextId c.shape.key.file c.exportName
  { pattern := {
      contextId
      id := s.ids.pattern contextId
      name := s.patternName c
      description := c.description
      propertyIds := []
      slots := []
      icon := c.icon
      group := c.group }
    properties := []
    minted := []
    slotSources := []
    propertyIds := [] }

/-- Adds a member as a slot or a property, unless it is ignored. `sharedId?` knows the properties of earlier patterns. -/
def addMember (s : Setting) (patternId : String) (sharedId? : MemberKey → Option String) (b : PatternBuild) (m : MemberRef) :
    PatternBuild :=
  let doc := Doc.parse? m.member.doc
  if doc.hasTag "ignore" then b
  else
    match Slot.detect? s.library s.options m doc with
    | some quantity => b.addSlot (.ofMember s.ids patternId m doc quantity) (.ofMember m)
    | none =>
      match sharedId? m.key with
      | some id => b.refer m.name id
      | none =>
        let p := Property.ofMember s.library s.ids patternId m
        (b.mint m.key p).refer m.name p.id

/-- Adds a slot for nested content that the implementation uses, when there is none. -/
def addImplied (s : Setting) (patternId : String) (c : Component) (b : PatternBuild) : PatternBuild :=
  let file := c.shape.key.file
  if !b.pattern.slots.any (·.kind == .children) && s.options.scanImplementationForChildren &&
      s.candidates[file]?.any fun candidate => Implementation.usesChildren s.fs candidate.artifactPath c.exportName then
    b.addSlot (.implied s.ids patternId) ⟨file, none⟩
  else b

def build (s : Setting) (sharedId? : MemberKey → Option String) (c : Component) : PatternBuild :=
  let patternId := s.ids.pattern (s.contextId c.shape.key.file c.exportName)
  s.addImplied patternId c ((s.members c).foldl (s.addMember patternId sharedId?) (s.blank c))

/-- Whether a member is classified, if it is a property that is new with its pattern. -/
def partEnds (s : Setting) (patternId : String) (sharedId? : MemberKey → Option String) (m : MemberRef) : Bool :=
  let doc := Doc.parse? m.member.doc
  doc.hasTag "ignore" || (Slot.detect? s.library s.options m doc).isSome || (sharedId? m.key).isSome ||
    (PropertyKind.ofMember? s.library s.ids (s.ids.property patternId m.name) m doc).isSome

/-- Whether the pattern of a component gets built: no classification of a property goes on without end. -/
def buildEnds (s : Setting) (sharedId? : MemberKey → Option String) (c : Component) : Bool :=
  (s.members c).all (s.partEnds (s.ids.pattern (s.contextId c.shape.key.file c.exportName)) sharedId?)

end Setting

end PatternCatalog
