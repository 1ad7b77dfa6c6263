/-
  PatternCatalog.Analysis — what an analysis of a library says.

  An analysis lists the patterns of a library. Each has slots, which take nested content, and
  the ids of its properties; a property that several patterns share is listed only by the
  pattern that came to it first, so properties are looked up over the whole analysis
  (`property?`, `propertiesOf`).
-/

import PatternCatalog.Json
import PatternCatalog.Path

namespace PatternCatalog

/-! ## Properties -/

inductive EventKind where
  | click
  | change
  | focus
  | input
  | keyboard
  | generic
  deriving DecidableEq, Repr

inductive EnumValue where
  | number (x : Binary64)
  | string (s : String)
  deriving DecidableEq, Repr

structure EnumOption where
  id : String
  contextId : String
  name : String
  value : EnumValue
  ordinal : Int
  icon : Option String
  deriving DecidableEq, Repr

inductive PropertyKind where
  | boolean
  | enum (options : List EnumOption)
  | eventHandler (event : EventKind)
  | string
  | number
  | color
  | asset
  | href
  /-- A shape that is not recognised; the text of its type is kept. -/
  | unknown (typeText : String)
  deriving DecidableEq, Repr

def PropertyKind.name : PropertyKind → String
  | .boolean => "boolean"
  | .enum _ => "enum"
  | .eventHandler _ => "event-handler"
  | .string => "string"
  | .number => "number"
  | .color => "color"
  | .asset => "asset"
  | .href => "href"
  | .unknown _ => "unknown"

/-- The options of a property; none unless it is an enum. -/
def PropertyKind.options : PropertyKind → List EnumOption
  | .enum options => options
  | _ => []

structure Property where
  id : String
  contextId : String
  propertyName : String
  label : String
  description : String
  example_ : String
  required : Bool
  hidden : Bool
  group : Option String
  defaultValue : Option Json
  kind : PropertyKind
  deriving BEq, Repr

/-! ## Slots and their content -/

inductive LiteralValue where
  | boolean (b : Bool)
  | number (x : Binary64)
  | string (s : String)
  deriving DecidableEq, Repr

structure ElementProp where
  propertyName : String
  propertyId : Option String
  value : LiteralValue
  deriving DecidableEq, Repr

/-- A node of default content. -/
structure Element where
  id : String
  parent : String
  libraryId : String
  patternContextId : String
  patternId : String
  props : List ElementProp
  children : List Element
  deriving BEq, Repr

inductive SlotQuantity where
  | single
  | multiple
  deriving DecidableEq, Repr

inductive SlotKind where
  | children
  | property
  deriving DecidableEq, Repr

structure Slot where
  id : String
  contextId : String
  propertyName : String
  label : String
  description : String
  example_ : String
  required : Bool
  hidden : Bool
  quantity : SlotQuantity
  kind : SlotKind
  defaultValue : Option Element
  deriving BEq, Repr

/-! ## Patterns -/

structure Pattern where
  contextId : String
  id : String
  name : String
  description : String
  propertyIds : List String
  slots : List Slot
  icon : Option String
  group : Option String
  deriving BEq, Repr

structure PatternEntry where
  /-- Compiled implementation of the component. -/
  path : Path
  declarationPath : Path
  pattern : Pattern
  /-- The properties that no earlier pattern lists. -/
  properties : List Property
  deriving BEq, Repr

structure Analysis where
  id : String
  path : Path
  packageFile : Json
  patterns : List PatternEntry
  bundle : String
  deriving BEq, Repr

def Pattern.slot? (p : Pattern) (propertyName : String) : Option Slot :=
  p.slots.find? (·.propertyName == propertyName)

namespace Analysis

/-- The first pattern of a name. -/
def pattern? (a : Analysis) (name : String) : Option PatternEntry :=
  a.patterns.find? (·.pattern.name == name)

def properties (a : Analysis) : List Property := a.patterns.flatMap (·.properties)

/-- The first property of an id. -/
def property? (a : Analysis) (id : String) : Option Property := a.properties.find? (·.id == id)

/-- The properties that a pattern refers to, shared ones included. -/
def propertiesOf (a : Analysis) (p : Pattern) : List Property := p.propertyIds.filterMap a.property?

end Analysis

end PatternCatalog
