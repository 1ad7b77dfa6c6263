/-
  PatternCatalog.Json.Decode — reading typed data out of JSON values.

  A record is read from an object, in which unknown fields are ignored and a field given twice
  is refused, or from an array of its fields in order, in which fields may be missing at the
  end (`recordFields?`). A word of a fixed list is a string, or an object that maps it to null.
-/

import PatternCatalog.Json

namespace PatternCatalog.Json

def asString? : Json → Option String := string?

def asBool? : Json → Option Bool
  | .bool b => some b
  | _ => none

/-- A whole number of 64 bits without sign. -/
def asNat? : Json → Option Nat
  | .int n => if 0 ≤ n then some n.toNat else none
  | _ => none

/-- A whole number of 64 bits with sign. -/
def asInt? : Json → Option Int
  | .int n => if n < Int.pow 2 63 then some n else none
  | _ => none

def asFloat? : Json → Option Binary64
  | .int n => some (.ofInt n)
  | .float x => some x
  | _ => none

def asList? {α : Type} (item : Json → Option α) : Json → Option (List α)
  | .array items => items.mapM item
  | _ => none

def asStrings? : Json → Option (List String) := asList? asString?

/-- An optional value: `null` stands for its absence. -/
def asOptional? {α : Type} (item : Json → Option α) : Json → Option (Option α)
  | .null => some none
  | v => (item v).map some

def asWord? {α : Type} (words : List (String × α)) : Json → Option α
  | .string s => words.lookup s
  | .object [(s, .null)] => words.lookup s
  | _ => none

/-- The value of a field given at most once; the outer option is a refusal. -/
def singleField? (fields : List (String × Json)) (name : String) : Option (Option Json) :=
  match fields.filter (·.1 == name) with
  | [] => some none
  | [(_, v)] => some (some v)
  | _ => none

/-- The values of the named fields, each absent or present. -/
def recordFields? (names : List String) : Json → Option (List (Option Json))
  | .array items =>
    if items.length ≤ names.length then
      some (items.map some ++ List.replicate (names.length - items.length) none)
    else none
  | .object fields => names.mapM (singleField? fields)
  | _ => none

/-- A field that has to be there. -/
def required? {α : Type} (read : Json → Option α) (v : Option Json) : Option α := v.bind read

/-- A field that may be missing. -/
def orDefault? {α : Type} (read : Json → Option α) (fallback : α) : Option Json → Option α
  | none => some fallback
  | some v => read v

end PatternCatalog.Json
