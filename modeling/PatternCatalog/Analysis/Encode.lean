/-
  PatternCatalog.Analysis.Encode — an analysis as JSON.

  Records become objects with the fields in a fixed order; an absent optional field is left
  out. The kind of a property stands beside the other fields of the property, its name under
  `type`.
-/

import PatternCatalog.Analysis

namespace PatternCatalog

def EventKind.word : EventKind → String
  | .click => "click"
  | .change => "change"
  | .focus => "focus"
  | .input => "input"
  | .keyboard => "keyboard"
  | .generic => "generic"

def SlotQuantity.word : SlotQuantity → String
  | .single => "single"
  | .multiple => "multiple"

def SlotKind.word : SlotKind → String
  | .children => "children"
  | .property => "property"

namespace Analysis

/-! ## Properties -/

def encodeEnumValue : EnumValue → Json
  | .number x => .float x
  | .string s => .string s

def optionFields (o : EnumOption) : List (String × Option Json) :=
  [("id", some (.string o.id)), ("contextId", some (.string o.contextId)), ("name", some (.string o.name)),
   ("value", some (encodeEnumValue o.value)), ("ordinal", some (.int o.ordinal)), ("icon", o.icon.map .string)]

def encodeEnumOption (o : EnumOption) : Json := .record (optionFields o)

/-- The fields of a kind besides its name. -/
def encodeKindContent : PropertyKind → List (String × Json)
  | .enum options => [("options", .array (options.map encodeEnumOption))]
  | .eventHandler event => [("event", .string event.word)]
  | .unknown typeText => [("typeText", .string typeText)]
  | _ => []

def encodeKind (k : PropertyKind) : List (String × Json) := ("type", .string k.name) :: encodeKindContent k

/-- The fields of a property besides those of its kind. -/
def ownFields (p : Property) : List (String × Option Json) :=
  [("id", some (.string p.id)), ("contextId", some (.string p.contextId)), ("propertyName", some (.string p.propertyName)),
   ("label", some (.string p.label)), ("description", some (.string p.description)), ("example", some (.string p.example_)),
   ("required", some (.bool p.required)), ("hidden", some (.bool p.hidden)), ("group", p.group.map .string),
   ("defaultValue", p.defaultValue)]

def encodeProperty (p : Property) : Json := .object (Json.present (ownFields p) ++ encodeKind p.kind)

/-! ## Content -/

def encodeLiteral : LiteralValue → Json
  | .boolean b => .bool b
  | .number x => .float x
  | .string s => .string s

def elementPropFields (p : ElementProp) : List (String × Option Json) :=
  [("propertyName", some (.string p.propertyName)), ("propertyId", p.propertyId.map .string),
   ("value", some (encodeLiteral p.value))]

def encodeElementProp (p : ElementProp) : Json := .record (elementPropFields p)

mutual

def encodeElement : Element → Json
  | ⟨id, parent, libraryId, patternContextId, patternId, props, children⟩ =>
    .record [("id", some (.string id)), ("parent", some (.string parent)), ("libraryId", some (.string libraryId)),
      ("patternContextId", some (.string patternContextId)), ("patternId", some (.string patternId)),
      ("props", some (.array (props.map encodeElementProp))), ("children", some (.array (encodeElements children)))]

def encodeElements : List Element → List Json
  | [] => []
  | e :: es => encodeElement e :: encodeElements es

end

/-! ## Patterns -/

def slotFields (s : Slot) : List (String × Option Json) :=
  [("id", some (.string s.id)), ("contextId", some (.string s.contextId)), ("propertyName", some (.string s.propertyName)),
   ("label", some (.string s.label)), ("description", some (.string s.description)), ("example", some (.string s.example_)),
   ("required", some (.bool s.required)), ("hidden", some (.bool s.hidden)), ("quantity", some (.string s.quantity.word)),
   ("kind", some (.string s.kind.word)), ("defaultValue", s.defaultValue.map encodeElement)]

def encodeSlot (s : Slot) : Json := .record (slotFields s)

def patternFields (p : Pattern) : List (String × Option Json) :=
  [("contextId", some (.string p.contextId)), ("id", some (.string p.id)), ("name", some (.string p.name)),
   ("description", some (.string p.description)), ("propertyIds", some (.strings p.propertyIds)),
   ("slots", some (.array (p.slots.map encodeSlot))), ("type", some (.string "pattern")), ("icon", p.icon.map .string),
   ("group", p.group.map .string)]

def encodePattern (p : Pattern) : Json := .record (patternFields p)

def entryFields (e : PatternEntry) : List (String × Option Json) :=
  [("path", some (.string e.path.text)), ("declarationPath", some (.string e.declarationPath.text)),
   ("pattern", some (encodePattern e.pattern)), ("properties", some (.array (e.properties.map encodeProperty)))]

def encodeEntry (e : PatternEntry) : Json := .record (entryFields e)

def fields (a : Analysis) : List (String × Option Json) :=
  [("id", some (.string a.id)), ("path", some (.string a.path.text)), ("packageFile", some a.packageFile),
   ("patterns", some (.array (a.patterns.map encodeEntry))), ("bundle", some (.string a.bundle))]

def toJson (a : Analysis) : Json := .record a.fields

end Analysis

end PatternCatalog
