/-
  PatternCatalog.Script.Token — the tokens of scripts and declaration files.

  `Token.next` reads the token at the start of a text without blanks in front. A slash is read
  as an operator and a greater-than sign alone; the grammar reads regular expressions, longer
  operators, the later parts of templates and markup where it expects them.
-/

import PatternCatalog.Binary64.Text
import PatternCatalog.Text.CharSet
import PatternCatalog.Text.Letters

namespace PatternCatalog.Script

open Text

inductive Token where
  | eof
  /-- An identifier or a keyword. -/
  | word (text : String)
  /-- A name written with escapes, which is never a keyword. -/
  | escapedWord (text : String)
  | privateName (text : String)
  | mark (text : String)
  | number (x : Binary64)
  | bigint (n : Nat)
  | string (text : String)
  /-- Template text; `closed` unless a substitution follows. -/
  | template (text : String) (closed : Bool)
  | regex
  | invalid
  deriving DecidableEq, Repr, Inhabited

namespace Token

/-! ## Classes of characters -/

def isLineBreak (c : Char) : Bool := c == '\n' || c == '\r' || c.toNat == 0x2028 || c.toNat == 0x2029

def isSpace (c : Char) : Bool :=
  let n := c.toNat
  n == 9 || n == 11 || n == 12 || n == 32 || n == 0x85 || n == 0xA0 || n == 0x1680 || n == 0x180E ||
    (0x2000 ≤ n && n ≤ 0x200B) || n == 0x202F || n == 0x205F || n == 0x3000 || n == 0xFEFF

/-- The character of a code point; a surrogate has none of its own. -/
def charOf (n : Nat) : Char := if n.isValidChar then Char.ofNat n else Char.ofNat 0xFFFD

/-! ## Escapes -/

/-- A code point in hexadecimal digits: four of them, or any number in braces. -/
def codePoint? : List Char → Option (Char × List Char)
  | '\x7b' :: r =>
    let ds := r.takeWhile fun c => (hexDigit? c).isSome
    match r.drop ds.length with
    | '\x7d' :: r => if ds = [] then none else some (charOf (hexNat ds), r)
    | _ => none
  | a :: b :: c :: d :: r =>
    if [a, b, c, d].all fun x => (hexDigit? x).isSome then some (charOf (hexNat [a, b, c, d]), r) else none
  | _ => none

/-- Two hexadecimal digits. -/
def hexPair? : List Char → Option (Char × List Char)
  | a :: b :: r =>
    if (hexDigit? a).isSome ∧ (hexDigit? b).isSome then some (charOf (hexNat [a, b]), r) else none
  | _ => none

def letterEscape (c : Char) : Char :=
  if c = 'n' then '\n'
  else if c = 't' then '\t'
  else if c = 'r' then '\r'
  else if c = 'b' then Char.ofNat 8
  else if c = 'f' then Char.ofNat 12
  else if c = 'v' then Char.ofNat 11
  else c

def isOctalDigit (c : Char) : Bool := '0' ≤ c && c ≤ '7'

/-- A character by its code in up to three octal digits, which stays below 256. -/
def octalEscape (s : List Char) : Char × List Char :=
  let width := if s.head?.any (· ≤ '3') then 3 else 2
  let ds := (s.take width).takeWhile isOctalDigit
  (Char.ofNat (ds.foldl (fun n c => 8 * n + (c.toNat - '0'.toNat)) 0), s.drop ds.length)

/-- What an escape after its backslash adds to the text, and the rest. -/
def escape? : List Char → Option (List Char × List Char)
  | [] => none
  | '\r' :: '\n' :: r => some ([], r)
  | 'u' :: r => (codePoint? r).map fun (c, r) => ([c], r)
  | 'x' :: r => (hexPair? r).map fun (c, r) => ([c], r)
  | c :: r =>
    if isLineBreak c then some ([], r)
    else if isOctalDigit c then
      let (x, rest) := octalEscape (c :: r)
      some ([x], rest)
    else some ([letterEscape c], r)

/-! ## Words -/

/-- The rest of a name in which escapes may stand: its characters, the ones so far newest first,
whether one was escaped, and what follows. -/
def wordTail : Nat → Bool → List Char → List Char → List Char × Bool × List Char
  | 0, escaped, acc, s => (acc.reverse, escaped, s)
  | fuel + 1, escaped, acc, s =>
    match s with
    | '\\' :: 'u' :: r =>
      match codePoint? r with
      | some (c, r) => if isScriptIdPart c then wordTail fuel true (c :: acc) r else (acc.reverse, escaped, s)
      | none => (acc.reverse, escaped, s)
    | c :: r => if isScriptIdPart c then wordTail fuel escaped (c :: acc) r else (acc.reverse, escaped, s)
    | [] => (acc.reverse, escaped, s)

def startsName : List Char → Bool
  | '\\' :: 'u' :: r => (codePoint? r).any fun x => isScriptIdStart x.1
  | c :: _ => isScriptIdStart c
  | [] => false

/-- A whole name; none if the text does not start with one. -/
def name? (s : List Char) : Option (String × Bool × List Char) :=
  if startsName s then
    let plain := s.takeWhile isScriptIdPart
    match s.drop plain.length with
    | '\\' :: r =>
      let (cs, escaped, rest) := wordTail (r.length + 1) false plain.reverse ('\\' :: r)
      some (String.ofList cs, escaped, rest)
    | rest => some (String.ofList plain, false, rest)
  else none

/-! ## Numbers -/

def isDigitPart (c : Char) : Bool := c.isDigit || c == '_'

/-- Digits with separators among them, and the rest; the separators are dropped. -/
def digits (s : List Char) : List Char × List Char :=
  ((s.takeWhile isDigitPart).filter (· != '_'), s.dropWhile isDigitPart)

/-- The value of digits in a base. -/
def inBase (base : Nat) (ds : List Char) : Nat :=
  ds.foldl (fun n c => n * base + (hexDigit? c).getD 0) 0

/-- The token of a number, unless a name or a digit follows it directly. -/
def sealNumber (t : Token) (rest : List Char) : Token × List Char :=
  match rest with
  | c :: _ => if isScriptIdStart c || c.isDigit || c == '\\' then (.invalid, rest) else (t, rest)
  | [] => (t, rest)

/-- A number, or a whole number of any size when it ends in `n`. -/
def wholeOrBig (n : Nat) (rest : List Char) : Token × List Char :=
  match rest with
  | 'n' :: r => sealNumber (.bigint n) r
  | r => sealNumber (.number (.ofNat n)) r

def basedNumber (base : Nat) (isDigit : Char → Bool) (s : List Char) : Token × List Char :=
  let part c := isDigit c || c == '_'
  let ds := (s.takeWhile part).filter (· != '_')
  if ds = [] then (.invalid, s) else wholeOrBig (inBase base ds) (s.dropWhile part)

def isBinaryDigit (c : Char) : Bool := c == '0' || c == '1'

/-- An exponent part after its mark: its value, and the rest. -/
def exponent? (s : List Char) : Option (Int × List Char) :=
  let (minus, s) := match s with
    | '-' :: r => (true, r)
    | '+' :: r => (false, r)
    | r => (false, r)
  let (ds, rest) := digits s
  if ds = [] then none
  else
    let n : Int := Binary64.natOfDigits ds
    some (if minus then -n else n, rest)

/-- A decimal number from its digits before and after the point. -/
def decimal (whole part : List Char) (rest : List Char) : Token × List Char :=
  let value (e : Int) : Token := .number (.ofDecimal false (Binary64.natOfDigits (whole ++ part)) (e - part.length))
  match rest with
  | c :: r =>
    if c = 'e' ∨ c = 'E' then
      match exponent? r with
      | some (e, rest) => sealNumber (value e) rest
      | none => (.invalid, r)
    else sealNumber (value 0) rest
  | [] => (value 0, [])

def readNumber (s : List Char) : Token × List Char :=
  match s with
  | '0' :: c :: r =>
    if c = 'x' ∨ c = 'X' then basedNumber 16 (fun c => (hexDigit? c).isSome) r
    else if c = 'b' ∨ c = 'B' then basedNumber 2 isBinaryDigit r
    else if c = 'o' ∨ c = 'O' then basedNumber 8 isOctalDigit r
    else if c.isDigit ∧ ((c :: r).takeWhile Char.isDigit).all isOctalDigit then
      basedNumber 8 isOctalDigit (c :: r)
    else plain s
  | s => plain s
where
  plain (s : List Char) : Token × List Char :=
    let (whole, rest) := digits s
    match rest with
    | '.' :: r =>
      let (part, rest) := digits r
      decimal whole part rest
    | 'n' :: _ => wholeOrBig (Binary64.natOfDigits whole) rest
    | _ => decimal whole [] rest

/-! ## Strings, templates and regular expressions -/

/-- Text as it is written up to a closing quote, the part so far newest first, and what follows the quote. -/
def quotedText? (quote : Char) (acc : List Char) : List Char → Option (List Char × List Char)
  | [] => none
  | '\\' :: '\r' :: '\n' :: r => quotedText? quote ('\n' :: '\r' :: '\\' :: acc) r
  | '\\' :: c :: r => quotedText? quote (c :: '\\' :: acc) r
  | c :: r =>
    if c = quote then some (acc.reverse, r)
    else if c = '\n' ∨ c = '\r' then none
    else quotedText? quote (c :: acc) r

/-- What quoted text stands for, the part so far newest first. -/
def unescape? : Nat → List Char → List Char → Option (List Char)
  | _, acc, [] => some acc.reverse
  | 0, _, _ => none
  | fuel + 1, acc, '\\' :: r => do
    let (cs, rest) ← escape? r
    unescape? fuel (cs.reverse ++ acc) rest
  | fuel + 1, acc, c :: r => unescape? fuel (c :: acc) r

/-- A string after its opening quote. -/
def readString (quote : Char) (s : List Char) : Token × List Char :=
  match quotedText? quote [] s with
  | none => (.invalid, s)
  | some (text, rest) =>
    match unescape? text.length [] text with
    | some value => (.string (String.ofList value), rest)
    | none => (.invalid, rest)

/-- Template text as it is written, the part so far newest first; whether it ends the template
or a substitution follows; and what comes after. -/
def templateText? (acc : List Char) : List Char → Option (List Char × Bool × List Char)
  | [] => none
  | '$' :: '\x7b' :: r => some (acc.reverse, false, r)
  | '\\' :: c :: r => templateText? (c :: '\\' :: acc) r
  | c :: r => if c = '\x60' then some (acc.reverse, true, r) else templateText? (c :: acc) r

/-- What template text stands for; line breaks count as line feeds, and escapes without a meaning vanish. -/
def templateValue : Nat → List Char → List Char → List Char
  | _, acc, [] => acc.reverse
  | 0, acc, _ => acc.reverse
  | fuel + 1, acc, '\r' :: '\n' :: r => templateValue fuel ('\n' :: acc) r
  | fuel + 1, acc, '\\' :: r =>
    match escape? r with
    | some (cs, rest) => templateValue fuel (cs.reverse ++ acc) rest
    | none => templateValue fuel acc (r.drop 1)
  | fuel + 1, acc, c :: r => templateValue fuel ((if c = '\r' then '\n' else c) :: acc) r

/-- Template text after its opening backtick, or after the brace that ends a substitution. -/
def readTemplate (s : List Char) : Token × List Char :=
  match templateText? [] s with
  | none => (.invalid, s)
  | some (text, closed, rest) => (.template (String.ofList (templateValue text.length [] text)) closed, rest)

/-- The body of a regular expression after its opening slash; `inSet` inside brackets. -/
def regexBody (inSet : Bool) : List Char → Option (List Char)
  | [] => none
  | '\\' :: c :: r => if isLineBreak c then none else regexBody inSet r
  | c :: r =>
    if isLineBreak c then none
    else if c = '[' then regexBody true r
    else if c = ']' then regexBody false r
    else if c = '/' ∧ !inSet then some r
    else regexBody inSet r

/-- A regular expression after its opening slash, with its flags. -/
def regex? (s : List Char) : Option (List Char) := (regexBody false s).map fun r => r.dropWhile isScriptIdPart

/-! ## All tokens -/

/-- Operators and punctuation, the longer ones first. -/
def marks : List String :=
  ["...", "===", "!==", "**=", "<<=", "&&=", "||=", "??=",
   "=>", "==", "!=", "++", "--", "+=", "-=", "*=", "/=", "%=", "&=", "|=", "^=", "&&", "||", "??", "**", "<<", "<=",
   "\x7b", "\x7d", "(", ")", "[", "]", ";", ",", "<", ">", "=", "!", "+", "-", "*", "/", "%", "&", "|", "^", "~",
   "?", ":", ".", "@"]

def firstMark (s : List Char) : Option (Token × List Char) :=
  marks.findSome? fun m => (dropPrefix? m.toList s).map fun r => (.mark m, r)
where
  dropPrefix? : List Char → List Char → Option (List Char)
    | [], s => some s
    | m :: ms, c :: s => if m = c then dropPrefix? ms s else none
    | _ :: _, [] => none

/-- The token at the start of the text, and the rest. -/
def next (s : List Char) : Token × List Char :=
  match s with
  | [] => (.eof, [])
  | c :: r =>
    match name? s with
    | some (text, escaped, rest) => (if escaped then .escapedWord text else .word text, rest)
    | none =>
      if c.isDigit then readNumber s
      else if c = '"' ∨ c = '\'' then readString c r
      else if c = '\x60' then readTemplate r
      else if c = '#' then
        match name? r with
        | some (text, _, rest) => (.privateName text, rest)
        | none => (.invalid, r)
      else
        match s with
        | '/' :: '*' :: _ => (.invalid, r)
        | '.' :: d :: _ =>
          if d.isDigit then
            let (part, rest) := digits r
            decimal [] part rest
          else (firstMark s).getD (.invalid, r)
        | '?' :: '.' :: d :: rest => if d.isDigit then (.mark "?", r) else (.mark "?.", d :: rest)
        | '?' :: '.' :: [] => (.mark "?.", [])
        | _ => (firstMark s).getD (.invalid, r)

end Token

end PatternCatalog.Script
