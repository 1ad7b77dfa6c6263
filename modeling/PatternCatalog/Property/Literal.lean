/-
  PatternCatalog.Property.Literal — the value that a `@default` tag gives a property.

  The text is read by the kind of the property: the words `true` and `false`, a number, text
  with or without quotes, or the name of an enum option. An option is named by its member
  name, with or without the enum before a dot, by its label or by its value; the first option
  that fits is taken, and its id is the value.
-/

import PatternCatalog.Analysis
import PatternCatalog.Binary64.Text
import PatternCatalog.Text.Blank

namespace PatternCatalog.PropertyKind

open Text

/-- The text without a pair of equal quotes around it. -/
def unquote (s : List Char) : List Char :=
  match s with
  | c :: r =>
    if c = '"' ∨ c = '\'' ∨ c = '\x60' then (dropEnd? r [c]).getD s else s
  | [] => []

/-- The part after the last dot. -/
def lastSegment (s : List Char) : List Char := (s.reverse.takeWhile (· != '.')).reverse

/-- Whether a text names an option. -/
def names (wanted : List Char) (o : EnumOption) : Bool :=
  o.contextId.toList == lastSegment wanted || o.name.toList == wanted ||
    match o.value with
    | .string s => s.toList == wanted
    | .number x => (Binary64.read? wanted).any fun y => y.eqv x

def literalDefault? (kind : PropertyKind) (text : String) : Option Json :=
  let s := trim text.toList
  match kind with
  | .boolean =>
    if s = "true".toList then some (.bool true)
    else if s = "false".toList then some (.bool false)
    else none
  | .number => ((Binary64.read? s).filter Binary64.isFinite).map .float
  | .string | .color | .asset | .href => some (.string (String.ofList (unquote s)))
  | .enum options => (options.find? (names (unquote s))).map fun o => .string o.id
  | .eventHandler _ | .unknown _ => none

end PatternCatalog.PropertyKind
