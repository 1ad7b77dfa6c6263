/-
  PatternCatalog.Options — the settings of an analysis.

  Every setting has a default, so a JSON object with some of the fields is a valid
  configuration. The four name lists hold plain names, which match the last segment of a type
  reference, and dotted names, which match all of it (`matchesNames`).
-/

import PatternCatalog.Json.Decode
import PatternCatalog.Json.Parser

namespace PatternCatalog

structure Options where
  /-- Field of the package file that names the typings entry. -/
  typingsEntryKey : String := "patternTypings"
  declarationExtensions : List String := [".d.ts"]
  implementationExtensions : List String := [".js", ".jsx", ".mjs", ".cjs"]
  sourceExtensions : List String := [".tsx", ".ts", ".jsx"]
  /-- Types of renderable content. -/
  slotTypeNames : List String :=
    ["ReactNode", "ReactElement", "ReactChild", "ReactFragment", "ReactPortal", "JSX.Element"]
  /-- Generic types whose first argument is the props type of a component. -/
  componentTypeNames : List String :=
    ["FC", "SFC", "FunctionComponent", "StatelessComponent", "ComponentType", "ComponentClass",
     "ForwardRefExoticComponent", "MemoExoticComponent", "NamedExoticComponent", "ExoticComponent"]
  /-- Base classes whose first type argument is the props type of a component. -/
  classComponentNames : List String := ["Component", "PureComponent"]
  /-- Return types that make a function a component. -/
  elementTypeNames : List String := ["Element", "ReactElement", "ReactNode"]
  /-- Deepest nesting of elements in a default example. -/
  maxDefaultDepth : Nat := 16
  scanImplementationForChildren : Bool := true
  /-- Takes the place of the derived library id. -/
  libraryId : Option String := none
  deriving DecidableEq, Repr

namespace Options

def matchesNames (names segments : List String) : Bool :=
  match segments.getLast? with
  | none => false
  | some last =>
    let dotted := ".".intercalate segments
    names.any fun entry => if entry.toList.contains '.' then entry == dotted else entry == last

def isSlotType (o : Options) (segments : List String) : Bool := matchesNames o.slotTypeNames segments

def isComponentType (o : Options) (segments : List String) : Bool := matchesNames o.componentTypeNames segments

def isClassComponent (o : Options) (segments : List String) : Bool := matchesNames o.classComponentNames segments

def isElementType (o : Options) (segments : List String) : Bool := matchesNames o.elementTypeNames segments

/-! ## JSON -/

def fieldNames : List String :=
  ["typingsEntryKey", "declarationExtensions", "implementationExtensions", "sourceExtensions",
   "slotTypeNames", "componentTypeNames", "classComponentNames", "elementTypeNames",
   "maxDefaultDepth", "scanImplementationForChildren", "libraryId"]

def ofJson? (v : Json) : Option Options := do
  let d : Options := {}
  match ← Json.recordFields? fieldNames v with
  | [key, declarations, implementations, sources, slots, components, classes, elements, depth, scan, library] =>
    return {
      typingsEntryKey := ← Json.orDefault? Json.asString? d.typingsEntryKey key
      declarationExtensions := ← Json.orDefault? Json.asStrings? d.declarationExtensions declarations
      implementationExtensions := ← Json.orDefault? Json.asStrings? d.implementationExtensions implementations
      sourceExtensions := ← Json.orDefault? Json.asStrings? d.sourceExtensions sources
      slotTypeNames := ← Json.orDefault? Json.asStrings? d.slotTypeNames slots
      componentTypeNames := ← Json.orDefault? Json.asStrings? d.componentTypeNames components
      classComponentNames := ← Json.orDefault? Json.asStrings? d.classComponentNames classes
      elementTypeNames := ← Json.orDefault? Json.asStrings? d.elementTypeNames elements
      maxDefaultDepth := ← Json.orDefault? Json.asNat? d.maxDefaultDepth depth
      scanImplementationForChildren := ← Json.orDefault? Json.asBool? d.scanImplementationForChildren scan
      libraryId := ← Json.orDefault? (Json.asOptional? Json.asString?) d.libraryId library }
  | _ => none

/-- Reads JSON text. -/
def parse? (text : String) : Option Options := (Json.parse? text).bind ofJson?

def toJson (o : Options) : Json :=
  .object [("typingsEntryKey", .string o.typingsEntryKey),
    ("declarationExtensions", .strings o.declarationExtensions),
    ("implementationExtensions", .strings o.implementationExtensions),
    ("sourceExtensions", .strings o.sourceExtensions),
    ("slotTypeNames", .strings o.slotTypeNames),
    ("componentTypeNames", .strings o.componentTypeNames),
    ("classComponentNames", .strings o.classComponentNames),
    ("elementTypeNames", .strings o.elementTypeNames),
    ("maxDefaultDepth", .int o.maxDefaultDepth),
    ("scanImplementationForChildren", .bool o.scanImplementationForChildren),
    ("libraryId", Json.orNull (o.libraryId.map .string))]

end Options

end PatternCatalog
