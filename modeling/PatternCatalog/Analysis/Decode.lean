/-
  PatternCatalog.Analysis.Decode — an analysis read back from JSON.

  Records may be objects or arrays of their fields; a property, whose kind is spread among its
  fields, is an object. Optional fields may be missing or null.
-/

import PatternCatalog.Analysis
import PatternCatalog.Json.Decode

namespace PatternCatalog.Analysis

open Json

def decodeText? : Option Json → Option (Option String) := orDefault? (asOptional? asString?) none

def decodePath? (v : Json) : Option Path := (asString? v).map (⟨·⟩)

def decodeEnumValue? (v : Json) : Option EnumValue :=
  match asFloat? v with
  | some x => some (.number x)
  | none => (asString? v).map .string

def decodeEnumOption? (v : Json) : Option EnumOption := do
  match ← recordFields? ["id", "contextId", "name", "value", "ordinal", "icon"] v with
  | [id, contextId, name, value, ordinal, icon] =>
    return {
      id := ← required? asString? id
      contextId := ← required? asString? contextId
      name := ← required? asString? name
      value := ← required? decodeEnumValue? value
      ordinal := ← required? asInt? ordinal
      icon := ← decodeText? icon }
  | _ => none

/-! ## Kinds -/

/-- The names of the kinds; a kind among the fields of a property may be given by its place here. -/
def kindNames : List String :=
  ["boolean", "enum", "event-handler", "string", "number", "color", "asset", "href", "unknown"]

def eventWords : List (String × EventKind) :=
  [("click", .click), ("change", .change), ("focus", .focus), ("input", .input), ("keyboard", .keyboard),
   ("generic", .generic)]

/-- An event; within a kind its word may map to an empty object as well as to null. -/
def decodeEvent? : Json → Option EventKind
  | .object [(s, .object [])] => eventWords.lookup s
  | v => asWord? eventWords v

/-- A kind that has no content of its own. -/
def decodePlain? (kind : PropertyKind) : Json → Option PropertyKind
  | .object _ | .array [] => some kind
  | _ => none

/-- The one field of a kind's content. -/
def decodeOnly? {α : Type} (name : String) (read : Json → Option α) (content : Json) : Option α := do
  match ← recordFields? [name] content with
  | [v] => required? read v
  | _ => none

/-- A kind from its name and the values that go with it. -/
def decodeKindAs? (name : String) (content : Json) : Option PropertyKind :=
  if name = "boolean" then decodePlain? .boolean content
  else if name = "enum" then (decodeOnly? "options" (asList? decodeEnumOption?) content).map .enum
  else if name = "event-handler" then (decodeOnly? "event" decodeEvent? content).map .eventHandler
  else if name = "string" then decodePlain? .string content
  else if name = "number" then decodePlain? .number content
  else if name = "color" then decodePlain? .color content
  else if name = "asset" then decodePlain? .asset content
  else if name = "href" then decodePlain? .href content
  else if name = "unknown" then (decodeOnly? "typeText" asString? content).map .unknown
  else none

/-- A kind on its own: an object with its name under `type`, or an array that starts with its name. -/
def decodeKind? : Json → Option PropertyKind
  | .object fields => do
    let name ← (← singleField? fields "type").bind asString?
    decodeKindAs? name (.object (fields.filter (·.1 != "type")))
  | .array (.string name :: content) => decodeKindAs? name (.array content)
  | _ => none

/-- The name of a kind, or its place among the names. -/
def kindName? : Json → Option String
  | .string s => some s
  | .int n => if 0 ≤ n then kindNames[n.toNat]? else none
  | _ => none

/-! ## Properties -/

def propertyFields : List String :=
  ["id", "contextId", "propertyName", "label", "description", "example", "required", "hidden", "group",
   "defaultValue"]

def decodeProperty? (v : Json) : Option Property := do
  match v with
  | .object fields =>
    let others := fields.filter fun f => !propertyFields.contains f.1
    let name ← (← singleField? others "type").bind kindName?
    let kind ← decodeKindAs? name (.object (others.filter (·.1 != "type")))
    match ← recordFields? propertyFields v with
    | [id, contextId, propertyName, label, description, example_, required, hidden, group, defaultValue] =>
      return {
        id := ← required? asString? id
        contextId := ← required? asString? contextId
        propertyName := ← required? asString? propertyName
        label := ← required? asString? label
        description := ← required? asString? description
        example_ := ← required? asString? example_
        required := ← required? asBool? required
        hidden := ← required? asBool? hidden
        group := ← decodeText? group
        defaultValue := ← orDefault? (asOptional? some) none defaultValue
        kind }
    | _ => none
  | _ => none

/-! ## Content -/

def decodeLiteral? : Json → Option LiteralValue
  | .bool b => some (.boolean b)
  | .string s => some (.string s)
  | v => (asFloat? v).map .number

def decodeElementProp? (v : Json) : Option ElementProp := do
  match ← recordFields? ["propertyName", "propertyId", "value"] v with
  | [propertyName, propertyId, value] =>
    return {
      propertyName := ← required? asString? propertyName
      propertyId := ← decodeText? propertyId
      value := ← required? decodeLiteral? value }
  | _ => none

/-- Reads content nested at most as deep as the fuel says. -/
def decodeElement? : Nat → Json → Option Element
  | 0, _ => none
  | fuel + 1, v => do
    match ← recordFields?
        ["id", "parent", "libraryId", "patternContextId", "patternId", "props", "children"] v with
    | [id, parent, libraryId, patternContextId, patternId, props, children] =>
      return {
        id := ← required? asString? id
        parent := ← required? asString? parent
        libraryId := ← required? asString? libraryId
        patternContextId := ← required? asString? patternContextId
        patternId := ← required? asString? patternId
        props := ← required? (asList? decodeElementProp?) props
        children := ← required? (asList? (decodeElement? fuel)) children }
    | _ => none

/-! ## Patterns -/

def quantityWords : List (String × SlotQuantity) := [("single", .single), ("multiple", .multiple)]

def slotKindWords : List (String × SlotKind) := [("children", .children), ("property", .property)]

def decodeSlot? (v : Json) : Option Slot := do
  match ← recordFields?
      ["id", "contextId", "propertyName", "label", "description", "example", "required", "hidden", "quantity",
       "kind", "defaultValue"] v with
  | [id, contextId, propertyName, label, description, example_, required, hidden, quantity, kind, defaultValue] =>
    return {
      id := ← required? asString? id
      contextId := ← required? asString? contextId
      propertyName := ← required? asString? propertyName
      label := ← required? asString? label
      description := ← required? asString? description
      example_ := ← required? asString? example_
      required := ← required? asBool? required
      hidden := ← required? asBool? hidden
      quantity := ← required? (asWord? quantityWords) quantity
      kind := ← required? (asWord? slotKindWords) kind
      defaultValue := ← orDefault? (asOptional? fun v => decodeElement? v.depth v) none defaultValue }
  | _ => none

def decodePattern? (v : Json) : Option Pattern := do
  match ← recordFields?
      ["contextId", "id", "name", "description", "propertyIds", "slots", "type", "icon", "group"] v with
  | [contextId, id, name, description, propertyIds, slots, kind, icon, group] =>
    let _ ← required? (asWord? [("pattern", ())]) kind
    return {
      contextId := ← required? asString? contextId
      id := ← required? asString? id
      name := ← required? asString? name
      description := ← required? asString? description
      propertyIds := ← required? asStrings? propertyIds
      slots := ← required? (asList? decodeSlot?) slots
      icon := ← decodeText? icon
      group := ← decodeText? group }
  | _ => none

def decodeEntry? (v : Json) : Option PatternEntry := do
  match ← recordFields? ["path", "declarationPath", "pattern", "properties"] v with
  | [path, declarationPath, pattern, properties] =>
    return {
      path := ← required? decodePath? path
      declarationPath := ← required? decodePath? declarationPath
      pattern := ← required? decodePattern? pattern
      properties := ← required? (asList? decodeProperty?) properties }
  | _ => none

def ofJson? (v : Json) : Option Analysis := do
  match ← recordFields? ["id", "path", "packageFile", "patterns", "bundle"] v with
  | [id, path, packageFile, patterns, bundle] =>
    return {
      id := ← required? asString? id
      path := ← required? decodePath? path
      packageFile := ← packageFile
      patterns := ← required? (asList? decodeEntry?) patterns
      bundle := ← required? asString? bundle }
  | _ => none

end PatternCatalog.Analysis
