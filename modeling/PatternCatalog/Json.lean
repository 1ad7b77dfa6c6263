/-
  PatternCatalog.Json — JSON values.

  Whole numbers and floating-point numbers are told apart. The fields of an object keep the
  order and the repetitions of their text; of several fields of one name the last counts
  (`field?`, `canonical`).
-/

import PatternCatalog.Binary64

namespace PatternCatalog

inductive Json where
  | null
  | bool (b : Bool)
  | int (n : Int)
  | float (x : Binary64)
  | string (s : String)
  | array (items : List Json)
  | object (fields : List (String × Json))
  deriving BEq, Repr, Inhabited

namespace Json

/-- The last of the fields of a name. -/
def lastField? (fields : List (String × Json)) (name : String) : Option Json :=
  (fields.reverse.find? (·.1 == name)).map (·.2)

/-- The value of a field; none for a value that is no object. -/
def field? (v : Json) (name : String) : Option Json :=
  match v with
  | .object fields => lastField? fields name
  | _ => none

def string? : Json → Option String
  | .string s => some s
  | _ => none

def array? : Json → Option (List Json)
  | .array items => some items
  | _ => none

def stringField? (v : Json) (name : String) : Option String := (v.field? name).bind string?

/-- Keeps the last field of each name. -/
def dropRepeated : List (String × Json) → List (String × Json)
  | [] => []
  | f :: fs => if fs.any (·.1 == f.1) then dropRepeated fs else f :: dropRepeated fs

mutual

/-- The value with one field for each name, at every depth. -/
def canonical : Json → Json
  | .array items => .array (canonicalItems items)
  | .object fields => .object (dropRepeated (canonicalFields fields))
  | v => v

def canonicalItems : List Json → List Json
  | [] => []
  | v :: vs => canonical v :: canonicalItems vs

def canonicalFields : List (String × Json) → List (String × Json)
  | [] => []
  | (name, v) :: fs => (name, canonical v) :: canonicalFields fs

end

mutual

/-- How many arrays and objects lie inside one another, the value itself counted. -/
def depth : Json → Nat
  | .array items => depthItems items + 1
  | .object fields => depthFields fields + 1
  | _ => 1

def depthItems : List Json → Nat
  | [] => 0
  | v :: vs => max (depth v) (depthItems vs)

def depthFields : List (String × Json) → Nat
  | [] => 0
  | (_, v) :: fs => max (depth v) (depthFields fs)

end

/-- An optional field: nothing when the value is absent. -/
def optional (name : String) (v : Option Json) : List (String × Json) :=
  match v with
  | some v => [(name, v)]
  | none => []

/-- The fields that are there, of fields that may be absent. -/
def present (fields : List (String × Option Json)) : List (String × Json) := fields.flatMap fun f => optional f.1 f.2

/-- An object without the fields that are absent. -/
def record (fields : List (String × Option Json)) : Json := .object (present fields)

/-- The value, or `null` for its absence. -/
def orNull (v : Option Json) : Json := v.getD .null

def strings (items : List String) : Json := .array (items.map .string)

end Json

end PatternCatalog
