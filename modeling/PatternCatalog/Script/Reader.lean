/-
  PatternCatalog.Script.Reader — reading a script token by token.

  A reader stands at a token and knows the text from it on, so that the grammar can go back to
  the start of the token and read the text in another way. It gathers the comments that lead to
  the tokens it has passed, with the table of their documentation (`gathered`), and the names
  that the script mentions. Parsers are functions of a reader; they have no answer for a text
  outside the grammar.

  Parsers never move back, and a token that is taken is behind the reader for good: a reader
  knows that its token takes text (`taken`, `ended`), and the answer of a parser comes with a
  reader that is proved to stand further on (`Onward`).
-/

import PatternCatalog.Script.Taken

namespace PatternCatalog.Script

open Text

/-- The language of a text. -/
structure Dialect where
  /-- Type annotations and declarations. -/
  types : Bool
  /-- Markup elements as expressions. -/
  markup : Bool
  deriving DecidableEq, Repr

structure Reader where
  dialect : Dialect
  /-- Octets of the whole text. -/
  size : Nat
  token : Token
  /-- The text from the token on. -/
  here : List Char
  /-- The text after the token. -/
  rest : List Char
  /-- The text after the token before. -/
  before : List Char
  /-- Whether a line break stands before the token. -/
  newline : Bool
  /-- Leading comments so far, newest first. -/
  comments : List Comment
  docs : DocTable
  /-- Names mentioned so far, newest first. -/
  mentions : List String
  within : octets here ≤ size
  gathered : docs = .ofComments comments.reverse
  /-- The token takes at least one character, -/
  taken : rest <:+ here.tail
  /-- unless there is none. -/
  ended : here = [] → token = .eof

namespace Reader

/-- Offset of the token. -/
def start (r : Reader) : Nat := r.size - octets r.here

/-- Whether a reader stands further on in the same text than another one, or at the same place. -/
structure Onward (r r' : Reader) : Prop where
  size : r'.size = r.size
  here : r'.here <:+ r.here

theorem Onward.refl (r : Reader) : r.Onward r := ⟨rfl, List.suffix_refl _⟩

theorem Onward.trans {r r' r'' : Reader} (h : r.Onward r') (h' : r'.Onward r'') : r.Onward r'' :=
  ⟨h'.size.trans h.size, h'.here.trans h.here⟩

theorem rest_suffix (r : Reader) : r.rest <:+ r.here := r.taken.trans (List.tail_suffix _)

/-- The comments of a gap that lead to the token after it, where the given text starts. -/
def leadingComments (r : Reader) (gap : Gap) (here : List Char) (atFileStart : Bool) : List Comment :=
  match gap.leading atFileStart with
  | [] => []
  | texts =>
    let target := r.size - octets here
    texts.map fun text => ⟨text, target⟩

/-- Stands at the first token of a part of the text. -/
def enter (r : Reader) (rest : List Char) (atFileStart : Bool) (h : octets rest ≤ r.size) : Reader :=
  let gap := Gap.after rest
  let next := Token.next gap.2
  let comments := r.leadingComments gap.1 gap.2 atFileStart
  { r with
    token := next.1, here := gap.2, rest := next.2, before := rest, newline := gap.1.newline
    comments := comments.reverse ++ r.comments
    docs := comments.foldl DocTable.add r.docs
    within := Nat.le_trans (octets_le_of_suffix (Gap.after_suffix rest)) h
    gathered := by rw [r.gathered, List.reverse_append, List.reverse_reverse, DocTable.ofComments_append]
    taken := Token.next_suffix gap.2
    ended := fun hnone => (congrArg (fun s => (Token.next s).1) hnone).trans Token.next_nil }

/-- Stands at the first token of what is left of the text further on. -/
def skipTo (r : Reader) (rest : List Char) (h : rest <:+ r.here) : { r' : Reader // r.Onward r' } :=
  ⟨r.enter rest false (Nat.le_trans (octets_le_of_suffix h) r.within), rfl, (Gap.after_suffix rest).trans h⟩

/-- Stands at the next token. -/
def next (r : Reader) : Reader := (r.skipTo r.rest r.rest_suffix).1

/-- A first line that starts with `#!` is no part of the script. -/
def skipHashbang (s : List Char) : List Char :=
  match s with
  | '#' :: '!' :: r => r.dropWhile fun c => !Token.isLineBreak c
  | s => s

theorem skipHashbang_suffix (s : List Char) : skipHashbang s <:+ s := by
  unfold skipHashbang
  split
  · next r => exact (List.dropWhile_suffix _).trans ⟨['#', '!'], rfl⟩
  · exact List.suffix_refl _

def ofText (dialect : Dialect) (s : List Char) : Reader :=
  let blank : Reader :=
    ⟨dialect, octets s, .eof, [], [], [], false, [], {}, [], Nat.zero_le _, rfl, List.suffix_refl _, fun _ => rfl⟩
  blank.enter (skipHashbang s) true (octets_le_of_suffix (skipHashbang_suffix s))

/-- Reads the current token anew as the given one, after which the given text is left. -/
def retake (r : Reader) (token : Token) (rest : List Char) (h : rest <:+ r.here.tail) (hsome : r.here ≠ []) :
    { r' : Reader // r.Onward r' } :=
  ⟨{ r with token, rest, taken := h, ended := fun hnone => absurd hnone hsome }, rfl, List.suffix_refl _⟩

end Reader

/-! ## Parsers -/

/-- Gives an answer with a reader further on, or none. -/
def Parse (α : Type) : Type := (r : Reader) → Option (α × { r' : Reader // r.Onward r' })

namespace Parse

instance : Monad Parse where
  pure a r := some (a, ⟨r, .refl r⟩)
  bind p f r :=
    match p r with
    | some (a, ⟨r', h⟩) =>
      match f a r' with
      | some (b, ⟨r'', h'⟩) => some (b, ⟨r'', h.trans h'⟩)
      | none => none
    | none => none

instance : MonadReaderOf Reader Parse where
  read r := some (r, ⟨r, .refl r⟩)

def fail {α : Type} : Parse α := fun _ => none

/-- The answer of a parser if it has one; otherwise the reader stays where it is. -/
def attempt {α : Type} (p : Parse α) : Parse (Option α) := fun r =>
  match p r with
  | some (a, r') => some (some a, r')
  | none => some (none, ⟨r, .refl r⟩)

def orElse {α : Type} (p q : Parse α) : Parse α := fun r =>
  match p r with
  | some a => some a
  | none => q r

/-- Asks about the reader without moving it. -/
def ask {α : Type} (f : Reader → α) : Parse α := fun r => some (f r, ⟨r, .refl r⟩)

def token : Parse Token := ask (·.token)

def advance : Parse Unit := fun r => some ((), r.skipTo r.rest r.rest_suffix)

def require (b : Bool) : Parse Unit := if b then pure () else fail

def types : Parse Bool := ask (·.dialect.types)

/-! ## Tokens -/

def atMark (m : String) : Parse Bool := ask fun r => r.token == .mark m

def atWord (w : String) : Parse Bool := ask fun r => r.token == .word w

def atAnyMark (ms : List String) : Parse Bool := ask fun r =>
  match r.token with
  | .mark m => ms.contains m
  | _ => false

def atAnyWord (ws : List String) : Parse Bool := ask fun r =>
  match r.token with
  | .word w => ws.contains w
  | _ => false

def eatMark (m : String) : Parse Bool := do
  if ← atMark m then advance; return true else return false

def eatWord (w : String) : Parse Bool := do
  if ← atWord w then advance; return true else return false

def expectMark (m : String) : Parse Unit := do require (← eatMark m)

def expectWord (w : String) : Parse Unit := do require (← eatWord w)

/-- The token after the current one, with the line break before it. -/
def ahead : Parse Reader := ask Reader.next

def nextToken : Parse Token := ask fun r => r.next.token

/-- No line break stands before the current token. -/
def sameLine : Parse Bool := ask fun r => !r.newline

def position : Parse Nat := ask (·.start)

/-! ## Names -/

/-- Words that cannot name anything. -/
def reserved : List String :=
  ["break", "case", "catch", "class", "const", "continue", "debugger", "default", "delete", "do", "else", "enum",
   "export", "extends", "false", "finally", "for", "function", "if", "import", "in", "instanceof", "new", "null",
   "return", "super", "switch", "this", "throw", "true", "try", "typeof", "var", "void", "while", "with"]

/-- The text of a token that may be a name of any kind, keywords included. -/
def wordText? : Token → Option String
  | .word w => some w
  | .escapedWord w => some w
  | _ => none

/-- The text of a token that may name a variable or a type. -/
def identifierText? : Token → Option String
  | .word w => if reserved.contains w then none else some w
  | .escapedWord w => some w
  | _ => none

def isIdentifier (t : Token) : Bool := (identifierText? t).isSome

def atIdentifier : Parse Bool := do return isIdentifier (← token)

/-- Changes the names mentioned so far. -/
def modifyMentions (f : List String → List String) : Parse Unit := fun r =>
  some ((), ⟨{ r with mentions := f r.mentions }, rfl, List.suffix_refl _⟩)

def mention (name : String) : Parse Unit := modifyMentions (name :: ·)

/-- Takes a name of any kind, and mentions it. -/
def anyName : Parse String := do
  match wordText? (← token) with
  | some w => mention w; advance; return w
  | none => fail

/-- Takes the name of a variable or a type, and mentions it. -/
def identifier : Parse String := do
  match identifierText? (← token) with
  | some w => mention w; advance; return w
  | none => fail

/-- Takes a name without mentioning it. -/
def label : Parse Unit := do
  require (← atIdentifier)
  advance

def stringLiteral : Parse String := do
  match ← token with
  | .string s => advance; return s
  | _ => fail

/-! ## Reading anew -/

/-- Reads so many characters from the current token on as the given one; there has to be one. -/
def retakeAs (token : Token) (length : Nat) : Parse Unit := fun r =>
  match hhere : r.here, length with
  | c :: s, n + 1 =>
    some ((), r.retake token (s.drop n) (by rw [hhere]; exact List.drop_suffix n s) (by rw [hhere]; exact List.cons_ne_nil c s))
  | _, _ => none

/-- Reads the current slash as the start of a regular expression. -/
def retakeRegex : Parse Unit := fun r =>
  match hregex : Token.regex? r.here.tail with
  | some rest =>
    some ((), r.retake .regex rest (Token.regex?_suffix hregex) fun hnone => by rw [hnone] at hregex; cases hregex)
  | none => none

/-- Reads on in a template, from the brace that ends a substitution. -/
def retakeTemplate : Parse Unit := fun r =>
  match hhere : r.here with
  | c :: s =>
    let template := Token.readTemplate s
    some ((), r.retake template.1 template.2 (by rw [hhere]; exact Token.readTemplate_suffix s)
      (by rw [hhere]; exact List.cons_ne_nil c s))
  | [] => none

/-- Reads the current greater-than sign together with the signs that follow it directly. -/
def retakeGreater : Parse Unit := do
  let r ← read
  match [">>>=", ">>>", ">>=", ">>", ">="].find? fun m => m.toList.isPrefixOf r.here with
  | some m => retakeAs (.mark m) m.length
  | none => return

/-- The end of a statement: a semicolon, or a place where one may be left out. -/
def semicolon : Parse Unit := do
  if ← eatMark ";" then return
  let r ← read
  require (r.newline || r.token == .eof || r.token == .mark "\x7d")

/-- Repeats a parser as long as it says so. -/
def repeatWhile : Nat → Parse Bool → Parse Unit
  | 0, _ => pure ()
  | fuel + 1, p => do if ← p then repeatWhile fuel p

/-- Answers of a parser up to the first that is none. -/
def many {α : Type} : Nat → Parse (Option α) → Parse (List α)
  | 0, _ => pure []
  | fuel + 1, p => do
    match ← p with
    | some a => return a :: (← many fuel p)
    | none => return []

/-- A bound for the rounds of a loop in which every round takes a token. -/
def rounds : Parse Nat := ask fun r => r.size + 1

/-- Repeats a parser as long as it says so; every round takes a token. -/
def loop (p : Parse Bool) : Parse Unit := do repeatWhile (← rounds) p

/-- Items up to a closing mark, which is taken, with commas between them and perhaps after the last. -/
def commaList {α : Type} (close : String) (item : Parse α) : Parse (List α) := do
  many (← rounds) do
    if ← eatMark close then return none
    let a ← item
    if ← eatMark "," then return some a
    require (← atMark close)
    return some a

end Parse

end PatternCatalog.Script
