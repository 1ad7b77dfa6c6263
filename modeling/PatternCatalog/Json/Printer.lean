/-
  PatternCatalog.Json.Printer — JSON text without blanks.

  A string literal escapes quotes, backslashes and the characters below U+0020, the common ones
  by a letter and the others by four hexadecimal digits. A number that is not finite has no
  text of its own and is written as `null`.
-/

import PatternCatalog.Json
import PatternCatalog.Binary64.Text

namespace PatternCatalog.Json

/-- One character of a string literal. -/
def escape (c : Char) : List Char :=
  if c = '"' then ['\\', '"']
  else if c = '\\' then ['\\', '\\']
  else if c = '\n' then ['\\', 'n']
  else if c = '\r' then ['\\', 'r']
  else if c = '\t' then ['\\', 't']
  else if c.toNat = 8 then ['\\', 'b']
  else if c.toNat = 12 then ['\\', 'f']
  else if c.toNat < 32 then ['\\', 'u', '0', '0', Nat.digitChar (c.toNat / 16), Nat.digitChar (c.toNat % 16)]
  else [c]

/-- The string literal of a text, quotes included. -/
def quote (s : List Char) : List Char := '"' :: s.flatMap escape ++ ['"']

mutual

def render : Json → List Char
  | .null => ['n', 'u', 'l', 'l']
  | .bool true => ['t', 'r', 'u', 'e']
  | .bool false => ['f', 'a', 'l', 's', 'e']
  | .int n => (toString n).toList
  | .float x => x.text?.getD ['n', 'u', 'l', 'l']
  | .string s => quote s.toList
  | .array items => '[' :: renderItems items ++ [']']
  | .object fields => '\x7b' :: renderFields fields ++ ['\x7d']

def renderItems : List Json → List Char
  | [] => []
  | [v] => render v
  | v :: vs => render v ++ ',' :: renderItems vs

def renderFields : List (String × Json) → List Char
  | [] => []
  | [(name, v)] => quote name.toList ++ ':' :: render v
  | (name, v) :: fs => quote name.toList ++ ':' :: render v ++ ',' :: renderFields fs

end

def text (v : Json) : String := String.ofList (render v)

end PatternCatalog.Json
