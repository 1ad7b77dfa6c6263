/-
  PatternCatalog.Json.Parser — reading JSON text.

  `parse?` reads one value with blanks around it. It refuses control characters and lone
  surrogates in strings, numbers beyond the floating-point range, and nesting of 128 levels.
  A number without point and exponent is whole when it fits 64 bits. Any other number is its
  digits (as many as fit 64 bits) as a floating-point number, scaled by a power of ten.
-/

import PatternCatalog.Json
import PatternCatalog.Binary64.Text
import PatternCatalog.Text.CharSet

namespace PatternCatalog.Json

open Text (hexDigit?)

def isSpace (c : Char) : Bool := c == ' ' || c == '\n' || c == '\t' || c == '\r'

def skipSpaces (s : List Char) : List Char := s.dropWhile isSpace

/-! ## Strings -/

def hexFour? (a b c d : Char) : Option Nat := do
  return (((← hexDigit? a) * 16 + (← hexDigit? b)) * 16 + (← hexDigit? c)) * 16 + (← hexDigit? d)

def simpleEscape? (c : Char) : Option Char :=
  if c = '"' ∨ c = '\\' ∨ c = '/' then some c
  else if c = 'n' then some '\n'
  else if c = 'r' then some '\r'
  else if c = 't' then some '\t'
  else if c = 'b' then some (Char.ofNat 8)
  else if c = 'f' then some (Char.ofNat 12)
  else none

/-- The rest of a string literal after its opening quote. `lead` is the high surrogate just
read, which a low one has to follow. -/
def stringBody (acc : List Char) (lead : Option Nat) : List Char → Option (List Char × List Char)
  | '\\' :: 'u' :: a :: b :: c :: d :: r =>
    match hexFour? a b c d, lead with
    | none, _ => none
    | some n, some high =>
      if 0xDC00 ≤ n ∧ n < 0xE000 then
        stringBody (Char.ofNat (0x10000 + (high - 0xD800) * 0x400 + (n - 0xDC00)) :: acc) none r
      else none
    | some n, none =>
      if 0xD800 ≤ n ∧ n < 0xDC00 then stringBody acc (some n) r
      else if 0xDC00 ≤ n ∧ n < 0xE000 then none
      else stringBody (Char.ofNat n :: acc) none r
  | c :: r =>
    if lead.isSome then none
    else if c = '"' then some (acc.reverse, r)
    else if c = '\\' then
      match r with
      | e :: r =>
        match simpleEscape? e with
        | some c => stringBody (c :: acc) none r
        | none => none
      | [] => none
    else if c.toNat < 32 then none
    else stringBody (c :: acc) none r
  | [] => none

/-! ## Numbers -/

/-- The greatest number of 64 bits. -/
def maxWord : Nat := Nat.pow 2 64 - 1

/-- Reads digits while the number fits 64 bits; the digits left over come second. -/
def takeWord (n : Nat) : List Char → Nat × List Char
  | [] => (n, [])
  | c :: r =>
    let next := n * 10 + (c.toNat - 48)
    if maxWord < next then (n, c :: r) else takeWord next r

def powerOfTen (k : Nat) : Binary64 := .ofNat (Nat.pow 10 k)

/-- Scales by a power of ten, in steps of at most 308; none beyond the floating-point range. -/
def scale : Nat → Binary64 → Int → Option Binary64
  | 0, x, _ => some x
  | steps + 1, x, e =>
    if e.natAbs ≤ 308 then
      if 0 ≤ e then
        let y := x.mul (powerOfTen e.toNat)
        if y.isFinite then some y else none
      else some (x.div (powerOfTen e.natAbs))
    else if x.isZero then some x
    else if 0 ≤ e then none
    else scale steps (x.div (powerOfTen 308)) (e + 308)

/-- A number that is not whole, from its parts. -/
def floatOfParts (negative : Bool) (whole part : List Char) (exponent : Int) : Option Binary64 :=
  let (n, left) := takeWord 0 whole
  let (n, unread) := takeWord n part
  let e : Int := exponent + left.length - ((part.length : Int) - unread.length)
  (scale 8 (.ofNat n) e).map fun x => if negative then x.neg else x

def wholeNumber (negative : Bool) (digits : List Char) : Option Json :=
  let n := Binary64.natOfDigits digits
  if !negative && n ≤ maxWord then some (.int n)
  else if negative && n ≠ 0 && n ≤ Nat.pow 2 63 then some (.int (-n))
  else if n ≤ maxWord then some (.float (Binary64.ofNat n).neg)
  else (floatOfParts negative digits [] 0).map .float

/-- The digits of an exponent after its sign. -/
def exponentDigits? (minus : Bool) (s : List Char) : Option (Option Int × List Char) :=
  let ds := s.takeWhile Char.isDigit
  if ds = [] then none
  else
    let n : Int := Binary64.natOfDigits ds
    some (some (if minus then -n else n), s.dropWhile Char.isDigit)

/-- An exponent part, if there is one. -/
def exponentPart? : List Char → Option (Option Int × List Char)
  | c :: r =>
    if c = 'e' ∨ c = 'E' then
      match r with
      | '-' :: r => exponentDigits? true r
      | '+' :: r => exponentDigits? false r
      | r => exponentDigits? false r
    else some (none, c :: r)
  | [] => some (none, [])

/-- A number after its sign. -/
def unsigned? (negative : Bool) (s : List Char) : Option (Json × List Char) :=
  let whole := s.takeWhile Char.isDigit
  let rest := s.dropWhile Char.isDigit
  if whole = [] ∨ (whole.head? = some '0' ∧ whole.length ≠ 1) then none
  else
    match rest with
    | '.' :: r => do
      let part := r.takeWhile Char.isDigit
      if part = [] then none
      else
        let (e, rest) ← exponentPart? (r.dropWhile Char.isDigit)
        return (.float (← floatOfParts negative whole part (e.getD 0)), rest)
    | r => do
      match ← exponentPart? r with
      | (some e, rest) => return (.float (← floatOfParts negative whole [] e), rest)
      | (none, rest) => return (← wholeNumber negative whole, rest)

def number? : List Char → Option (Json × List Char)
  | '-' :: r => unsigned? true r
  | r => unsigned? false r

/-! ## Values -/

def keyword? (word : String) (v : Json) (s : List Char) : Option (Json × List Char) :=
  if word.toList.isPrefixOf s then some (v, s.drop word.length) else none

mutual

/-- A value, with at most `depth` levels of nesting inside it. -/
def value? : Nat → Nat → List Char → Option (Json × List Char)
  | 0, _, _ => none
  | fuel + 1, depth, s =>
    match skipSpaces s with
    | [] => none
    | c :: r =>
      if c = '"' then (stringBody [] none r).map fun (s, rest) => (.string (String.ofList s), rest)
      else if c = '[' then
        if depth = 0 then none
        else
          match skipSpaces r with
          | ']' :: r => some (.array [], r)
          | r => (items? fuel (depth - 1) r).map fun (vs, rest) => (.array vs, rest)
      else if c = '\x7b' then
        if depth = 0 then none
        else
          match skipSpaces r with
          | [] => none
          | d :: r =>
            if d = '\x7d' then some (.object [], r)
            else (fields? fuel (depth - 1) (d :: r)).map fun (fs, rest) => (.object fs, rest)
      else if c = 't' then keyword? "true" (.bool true) (c :: r)
      else if c = 'f' then keyword? "false" (.bool false) (c :: r)
      else if c = 'n' then keyword? "null" .null (c :: r)
      else number? (c :: r)

/-- The items of an array up to its closing bracket. -/
def items? : Nat → Nat → List Char → Option (List Json × List Char)
  | 0, _, _ => none
  | fuel + 1, depth, s =>
    match value? fuel depth s with
    | none => none
    | some (v, rest) =>
      match skipSpaces rest with
      | ',' :: rest => (items? fuel depth rest).map fun (vs, rest) => (v :: vs, rest)
      | ']' :: rest => some ([v], rest)
      | _ => none

/-- The fields of an object up to its closing brace. -/
def fields? : Nat → Nat → List Char → Option (List (String × Json) × List Char)
  | 0, _, _ => none
  | fuel + 1, depth, s =>
    match skipSpaces s with
    | '"' :: r =>
      match stringBody [] none r with
      | none => none
      | some (name, rest) =>
        match skipSpaces rest with
        | ':' :: rest =>
          match value? fuel depth rest with
          | none => none
          | some (v, rest) =>
            match skipSpaces rest with
            | c :: rest =>
              if c = ',' then
                (fields? fuel depth rest).map fun (fs, rest) => ((String.ofList name, v) :: fs, rest)
              else if c = '\x7d' then some ([(String.ofList name, v)], rest)
              else none
            | [] => none
        | _ => none
    | _ => none

end

/-- Reads a whole text; repeated fields are kept. -/
def parse? (text : String) : Option Json :=
  let s := text.toList
  match value? (s.length + 1) 127 s with
  | some (v, rest) => if skipSpaces rest = [] then some v else none
  | none => none

end PatternCatalog.Json
