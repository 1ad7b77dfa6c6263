/-
  PatternCatalog.Markup.Scan — the pieces of markup text.

  Each scanner takes the text that is left and returns what is left after it; a failure holds
  the text left where it happened, from which its offset follows (`Failure.error`). Blanks and
  comments are skipped before keywords, names and punctuation, but not inside a tag name
  before its dot.
-/

import PatternCatalog.Markup
import PatternCatalog.Binary64.Text
import PatternCatalog.Text.Blank
import PatternCatalog.Text.Letters

namespace PatternCatalog.Markup

open Text

inductive Failure where
  | expected (what : String) (left : List Char)
  | mismatchedClose (opened closed : List String) (left : List Char)
  | tooDeep (limit : Nat)
  deriving DecidableEq, Repr

/-- The error of a failure in a text of the given size in octets. -/
def Failure.error (size : Nat) : Failure → Error
  | .expected what [] => .unexpectedEnd what
  | .expected what left => .expected what (size - octets left)
  | .mismatchedClose opened closed left => .mismatchedClose (tagText opened) (tagText closed) (size - octets left)
  | .tooDeep limit => .tooDeep limit

/-- The answer of a scanner comes with the text left after it. -/
abbrev Scan := Except Failure

/-! ## Blanks and comments -/

inductive TriviaMode where
  | between
  | line
  | block
  deriving DecidableEq, Repr

/-- Skips blanks and comments; a comment that does not close reaches to the end. -/
def skipTriviaFrom : TriviaMode → List Char → List Char
  | .between, '/' :: '/' :: r => skipTriviaFrom .line r
  | .between, '/' :: '*' :: r => skipTriviaFrom .block r
  | .between, c :: r => if isBlank c then skipTriviaFrom .between r else c :: r
  | .line, c :: r => if c = '\n' then skipTriviaFrom .between r else skipTriviaFrom .line r
  | .block, '*' :: '/' :: r => skipTriviaFrom .between r
  | .block, _ :: r => skipTriviaFrom .block r
  | _, [] => []

def skipTrivia (s : List Char) : List Char := skipTriviaFrom .between s

/-! ## Words and marks -/

def isNameStart (c : Char) : Bool := isAlphabetic c || c == '_' || c == '$'

def isNamePart (c : Char) : Bool := isAlphanumeric c || c == '_' || c == '$'

/-- The mark at the very start of the text. -/
def eat? (mark : String) (s : List Char) : Option (List Char) := dropStart? s mark.toList

/-- Drops the mark if the text starts with it. -/
def eatOptional (mark : String) (s : List Char) : List Char := (eat? mark s).getD s

def expect (mark what : String) (s : List Char) : Scan (Unit × List Char) :=
  let s := skipTrivia s
  match eat? mark s with
  | some r => .ok ((), r)
  | none => .error (.expected what s)

/-- A word that no further name character follows. -/
def eatKeyword? (word : String) (s : List Char) : Option (List Char) :=
  match eat? word (skipTrivia s) with
  | some r => if r.head?.any isNamePart then none else some r
  | none => none

def expectKeyword (word : String) (s : List Char) : Scan (Unit × List Char) :=
  match eatKeyword? word s with
  | some r => .ok ((), r)
  | none => .error (.expected word (skipTrivia s))

def identifier? (s : List Char) : Option (String × List Char) :=
  match skipTrivia s with
  | c :: r =>
    if isNameStart c then some (String.ofList (c :: r.takeWhile isNamePart), r.dropWhile isNamePart) else none
  | [] => none

def identifier (s : List Char) : Scan (String × List Char) :=
  match identifier? s with
  | some step => .ok step
  | none => .error (.expected "identifier" (skipTrivia s))

/-! ## Strings and brace groups -/

def isQuote (c : Char) : Bool := c == '"' || c == '\'' || c == '\x60'

/-- The character that an escape stands for. -/
def unescape (c : Char) : Char := if c = 'n' then '\n' else if c = 't' then '\t' else c

/-- A string literal after its opening quote; none if it does not close. -/
def stringBody? (quote : Char) (acc : List Char) : List Char → Option (List Char × List Char)
  | '\\' :: c :: r => stringBody? quote (unescape c :: acc) r
  | c :: r =>
    if c = '\\' then none
    else if c = quote then some (acc.reverse, r)
    else stringBody? quote (c :: acc) r
  | [] => none

def stringLiteral (s : List Char) : Scan (String × List Char) :=
  match s with
  | c :: r =>
    if isQuote c then
      match stringBody? c [] r with
      | some (value, r) => .ok (String.ofList value, r)
      | none => .error (.expected "closing quote" [])
    else .error (.expected "string literal" s)
  | [] => .error (.expected "string literal" [])

/-- A brace group after its opening brace: the text up to the matching brace, and the rest.
`depth` groups are open inside it; `quote` is the quote of an open string. -/
def groupBody (depth : Nat) (quote : Option Char) (acc : List Char) : List Char → Scan (List Char × List Char)
  | [] => .error (.expected (if quote.isSome then "closing quote" else "`\x7d`") [])
  | c :: r =>
    match quote with
    | some q =>
      if c = '\\' then
        match r with
        | d :: r => groupBody depth quote (d :: c :: acc) r
        | [] => .error (.expected "closing quote" [])
      else groupBody depth (if c = q then none else quote) (c :: acc) r
    | none =>
      if isQuote c then groupBody depth (some c) (c :: acc) r
      else if c = '\x7b' then groupBody (depth + 1) none (c :: acc) r
      else if c = '\x7d' then
        match depth with
        | 0 => .ok (acc.reverse, r)
        | depth + 1 => groupBody depth none (c :: acc) r
      else groupBody depth none (c :: acc) r

/-- Text between elements. -/
def skipText (s : List Char) : List Char := s.dropWhile fun c => c != '<' && c != '\x7b'

/-! ## Literals -/

/-- The literal that a whole string literal denotes; a template with a substitution is none. -/
def stringExpression? : List Char → Option LiteralValue
  | [] => none
  | c :: r =>
    if isQuote c then
      match stringBody? c [] r with
      | some (value, []) =>
        if c = '\x60' ∧ containsText ['$', '\x7b'] value then none else some (.string (String.ofList value))
      | _ => none
    else none

/-- The literal that a trimmed expression denotes. -/
def literalExpression? (s : List Char) : Option LiteralValue :=
  if s = "true".toList then some (.boolean true)
  else if s = "false".toList then some (.boolean false)
  else
    match Binary64.read? s with
    | some x => if x.isFinite then some (.number x) else stringExpression? s
    | none => stringExpression? s

end PatternCatalog.Markup
