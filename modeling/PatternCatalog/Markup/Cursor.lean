/-
  PatternCatalog.Markup.Cursor — markup examples read with a cursor.

  A cursor is a place in a text, counted in octets of its UTF-8 form; it never stands in the middle of
  a character. Every use of one is checked: it is moved only to a place of its text, a slice has to
  lie in its text in order, nothing is taken from a smaller number, and a loop goes round again, as a
  function calls itself, only with less text left than before. A use that fails its check ends the
  walk with a fault, which is no error of the text. `Cursor.parse` reads examples in this way.
-/

import PatternCatalog.Markup.Parser
import PatternCatalog.Text.Octets

namespace PatternCatalog.Markup

open Text

/-- A use of a cursor that fails its check. -/
inductive Fault where
  | place (octet : Nat)
  | slice (first last : Nat)
  | difference (whole part : Nat)
  | stall (octet : Nat)
  deriving DecidableEq, Repr

/-- What ends a walk before its end. -/
inductive Stop where
  | fault (f : Fault)
  | error (e : Error)
  deriving DecidableEq, Repr

@[ext]
structure Cursor where
  text : List Char
  place : Nat
  /-- The place lies in the text, between two characters or at an end. -/
  isPlace : (splitOctets? place text).isSome = true

abbrev Walk := StateT Cursor (Except Stop)

namespace Cursor

/-- The cursor at the start of a text. -/
def ofText (s : List Char) : Cursor := ⟨s, 0, by rw [splitOctets?_zero]; rfl⟩

/-- The octets after the place. -/
def left (c : Cursor) : Nat := octets c.text - c.place

/-! ## Checks -/

def fault {α : Type} (f : Fault) : Walk α := fun _ => .error (.fault f)

def stop {α : Type} (e : Error) : Walk α := fun _ => .error (.error e)

/-- The part of a text from one octet to another. -/
def slice (s : List Char) (first last : Nat) : Walk (List Char) :=
  if first ≤ last then
    match splitOctets? first s with
    | some (_, t) =>
      match splitOctets? (last - first) t with
      | some (u, _) => pure u
      | none => fault (.slice first last)
    | none => fault (.slice first last)
  else fault (.slice first last)

def minus (whole part : Nat) : Walk Nat :=
  if part ≤ whole then pure (whole - part) else fault (.difference whole part)

def seek (octet : Nat) : Walk Unit := fun c =>
  if h : (splitOctets? octet c.text).isSome then .ok ((), ⟨c.text, octet, h⟩) else fault (.place octet) c

/-- Goes on from a place only if less is left there than at the start. -/
def onward {α : Type} (start : Cursor) (next : (c : Cursor) → c.left < start.left → Except Stop (α × Cursor)) : Walk α :=
  fun c => if h : c.left < start.left then next c h else fault (.stall c.place) c

/-- Goes round until a round gives a result. -/
def loop {σ α : Type} (round : σ → Walk (σ ⊕ α)) (s : σ) : Walk α := fun start =>
  (do
    match ← round s with
    | .inl s => onward start fun c _ => loop round s c
    | .inr a => return a : Walk α) start
termination_by start => start.left

/-! ## Characters -/

def here : Walk Nat := return (← get).place

def atEnd : Walk Bool := do
  let c ← get
  return octets c.text ≤ c.place

/-- The part of the text from one octet to another. -/
def source (first last : Nat) : Walk (List Char) := do
  slice (← get).text first last

def rest : Walk (List Char) := do
  let c ← get
  source c.place (octets c.text)

def advance (n : Nat) : Walk Unit := do
  seek ((← here) + n)

def peek : Walk (Option Char) := return (← rest).head?

def bump : Walk (Option Char) := do
  match ← peek with
  | some c =>
    advance c.utf8Size
    return some c
  | none => return none

def expected {α : Type} (what : String) : Walk α := do
  if ← atEnd then stop (.unexpectedEnd what) else stop (.expected what (← here))

/-! ## Blanks and comments -/

/-- Skips the comment that a text starts with, and goes on after it. -/
def skipComment (s : List Char) : Walk (Unit ⊕ Unit) := do
  if "//".toList.isPrefixOf s then
    advance ((offset? ['\n'] s).getD (octets s))
    return .inl ()
  else if "/*".toList.isPrefixOf s then
    match offset? "*/".toList (← slice s 2 (octets s)) with
    | some n =>
      advance (n + 4)
      return .inl ()
    | none =>
      seek (octets (← get).text)
      return .inl ()
  else return .inr ()

def triviaRound (_ : Unit) : Walk (Unit ⊕ Unit) := do
  let rest ← rest
  let trimmed := trimStart rest
  advance (← minus (octets rest) (octets trimmed))
  skipComment trimmed

def skipTrivia : Walk Unit := loop triviaRound ()

/-! ## Words and marks -/

def eat (mark : String) : Walk Bool := do
  if mark.toList.isPrefixOf (← rest) then
    advance (octets mark.toList)
    return true
  else return false

def expect (mark what : String) : Walk Unit := do
  skipTrivia
  if ← eat mark then return () else expected what

def eatKeyword (word : String) : Walk Bool := do
  skipTrivia
  let rest ← rest
  if word.toList.isPrefixOf rest then
    let after ← slice rest (octets word.toList) (octets rest)
    if after.head?.any isNamePart then return false
    else
      advance (octets word.toList)
      return true
  else return false

def expectKeyword (word : String) : Walk Unit := do
  if ← eatKeyword word then return () else expected word

def skipRound (p : Char → Bool) (_ : Unit) : Walk (Unit ⊕ Unit) := do
  if (← peek).any p then
    let _ ← bump
    return .inl ()
  else return .inr ()

/-- Skips characters of a class. -/
def skipWhile (p : Char → Bool) : Walk Unit := loop (skipRound p) ()

def identifier? : Walk (Option String) := do
  skipTrivia
  let start ← here
  if (← peek).any isNameStart then
    let _ ← bump
    skipWhile isNamePart
    return some (String.ofList (← source start (← here)))
  else return none

def identifier : Walk String := do
  match ← identifier? with
  | some name => return name
  | none => expected "identifier"

/-! ## Strings and brace groups -/

def stringRound (quote : Char) (value : List Char) : Walk (List Char ⊕ List Char) := do
  match ← bump with
  | none => expected "closing quote"
  | some c =>
    if c = '\\' then
      match ← bump with
      | none => expected "closing quote"
      | some d => return .inl (value ++ [unescape d])
    else if c = quote then return .inr value
    else return .inl (value ++ [c])

def stringLiteral : Walk String := do
  match ← peek with
  | some quote =>
    if isQuote quote then
      let _ ← bump
      return String.ofList (← loop (stringRound quote) [])
    else expected "string literal"
  | none => expected "string literal"

/-- One character or string in a brace group; the state counts the open braces. -/
def groupRound (depth : Nat) : Walk (Nat ⊕ Unit) := do
  match ← peek with
  | none => expected "`\x7d`"
  | some c =>
    if isQuote c then
      let _ ← stringLiteral
      return .inl depth
    else if c = '\x7b' then
      let _ ← bump
      return .inl (depth + 1)
    else if c = '\x7d' then
      let depth ← minus depth 1
      let _ ← bump
      if depth = 0 then return .inr () else return .inl depth
    else
      let _ ← bump
      return .inl depth

/-- Skips a brace group from its opening brace on. -/
def skipGroup : Walk Unit := loop groupRound 0

/-! ## Literals -/

/-- Walks over another text; there an error is no value. -/
def onText {α : Type} (s : List Char) (walk : Walk (Option α)) : Walk (Option α) := fun c =>
  match walk (ofText s) with
  | .ok (a, _) => .ok (a, c)
  | .error (.error _) => .ok (none, c)
  | .error (.fault f) => fault f c

def stringExpression : Walk (Option LiteralValue) := do
  match ← peek with
  | some quote =>
    if isQuote quote then
      let value ← stringLiteral
      if (← atEnd) && !(quote == '\x60' && containsText ['$', '\x7b'] value.toList) then return some (.string value)
      else return none
    else return none
  | none => return none

/-- The literal that a trimmed expression denotes. -/
def literalExpression (s : List Char) : Walk (Option LiteralValue) :=
  if s = "true".toList then return some (.boolean true)
  else if s = "false".toList then return some (.boolean false)
  else
    match Binary64.read? s with
    | some x => if x.isFinite then return some (.number x) else onText s stringExpression
    | none => onText s stringExpression

/-! ## Elements -/

def tagName : Walk (List String) := do
  let first ← identifier
  if ← eat "." then
    let second ← identifier
    return [first, second]
  else return [first]

def attributeName : Walk String := do
  let start ← here
  skipWhile isAttributeChar
  if start = (← here) then expected "attribute name" else return String.ofList (← source start (← here))

/-- A quoted value after its opening quote. -/
def quotedValue (quote : Char) : Walk (Option LiteralValue) := do
  let start ← here
  match offset? [quote] (← rest) with
  | some n =>
    advance (n + 1)
    return some (.string (String.ofList (← source start (start + n))))
  | none => expected "closing quote"

/-- The literal in a brace group. -/
def groupValue : Walk (Option LiteralValue) := do
  let start ← here
  skipGroup
  let inner ← source (start + 1) (← minus (← here) 1)
  literalExpression (trim inner)

def attributeValue : Walk (Option LiteralValue) := do
  skipTrivia
  match ← peek with
  | some c =>
    if c = '"' ∨ c = '\'' then
      let _ ← bump
      quotedValue c
    else if c = '\x7b' then groupValue
    else expected "attribute value"
  | none => expected "attribute value"

def nextAttribute : Walk Attribute := do
  let name ← attributeName
  skipTrivia
  if ← eat "=" then return ⟨name, ← attributeValue⟩ else return ⟨name, some (.boolean true)⟩

def attributesRound (attributes : List Attribute) : Walk (List Attribute ⊕ List Attribute) := do
  skipTrivia
  match ← peek with
  | none => return .inr attributes
  | some c =>
    if c = '/' ∨ c = '>' then return .inr attributes
    else if c = '\x7b' then
      skipGroup
      return .inl attributes
    else
      let next ← nextAttribute
      return .inl (attributes ++ [next])

/-- The attributes of a tag, up to its end; spread groups are skipped. -/
def attributes : Walk (List Attribute) := loop attributesRound []

/-- The closing tag of an element, which starts at an octet. -/
def closingTag (tag : List String) (start : Nat) : Walk Unit := do
  let closed ← tagName
  expect ">" "`>`"
  if closed = tag then return () else stop (.mismatchedClose (tagText tag) (tagText closed) start)

def childrenRound (child : Walk Node) (tag : List String) (nodes : List Node) : Walk (List Node ⊕ List Node) := do
  skipWhile fun c => c != '<' && c != '\x7b'
  if ← atEnd then expected "closing tag"
  else if "</".toList.isPrefixOf (← rest) then
    let start ← here
    advance 2
    closingTag tag start
    return .inr nodes
  else if (← peek) = some '\x7b' then
    skipGroup
    return .inl nodes
  else
    let node ← child
    return .inl (nodes ++ [node])

/-- An element at a depth, counted from one. -/
def element (limit depth : Nat) : Walk Node := fun start =>
  (do
    if limit < depth then stop (.tooDeep limit)
    else
      expect "<" "element"
      let tag ← tagName
      let attributes ← attributes
      skipTrivia
      if ← eat "/>" then return ⟨tag, attributes, []⟩
      else
        expect ">" "`>`"
        let children ← loop (childrenRound (onward start fun c _ => element limit (depth + 1) c) tag) []
        return ⟨tag, attributes, children⟩ : Walk Node) start
termination_by start => start.left

/-! ## Imports -/

/-- The name that an imported name is given. -/
def givenName (imported : String) : Walk String := do
  if ← eatKeyword "as" then identifier else return imported

/-- One name of a brace list, with the blanks and comments after it. -/
def specifier : Walk (String × Imported) := do
  let imported ← identifier
  let name ← givenName imported
  skipTrivia
  return (name, .ofName imported)

def namesRound (bindings : List (String × Imported)) : Walk (List (String × Imported) ⊕ List (String × Imported)) := do
  skipTrivia
  if ← eat "\x7d" then return .inr bindings
  else
    let binding ← specifier
    if ← eat "," then return .inl (bindings ++ [binding])
    else
      expect "\x7d" "`\x7d`"
      return .inr (bindings ++ [binding])

/-- The bindings of a brace list, up to its closing brace. -/
def namedImports : Walk (List (String × Imported)) := loop namesRound []

/-- The name after a star. -/
def namespaceImport : Walk (List (String × Imported)) := do
  expectKeyword "as"
  let name ← identifier
  return [(name, .namespace_)]

/-- A brace list or a star, if there is one. -/
def bindingGroup : Walk (List (String × Imported)) := do
  if ← eat "\x7b" then namedImports
  else if ← eat "*" then namespaceImport
  else return []

/-- Skips a comma and the blanks and comments around it. -/
def skipComma : Walk Unit := do
  skipTrivia
  if ← eat "," then skipTrivia

def importBindings : Walk (List (String × Imported)) := do
  if ← eat "*" then namespaceImport
  else if (← peek) = some '\x7b' then bindingGroup
  else
    let name ← identifier
    skipComma
    return (name, .default_) :: (← bindingGroup)

/-- An import after its keyword. -/
def importDeclaration : Walk (List Import) := do
  skipTrivia
  let next ← peek
  if next = some '"' ∨ next = some '\'' then
    let _ ← stringLiteral
    skipTrivia
    let _ ← eat ";"
    return []
  else
    let bindings ← importBindings
    expectKeyword "from"
    skipTrivia
    let source ← stringLiteral
    skipTrivia
    let _ ← eat ";"
    return bindings.map fun (name, imported) => ⟨name, source, imported⟩

def importsRound (imports : List Import) : Walk (List Import ⊕ List Import) := do
  if ← eatKeyword "import" then
    let more ← importDeclaration
    skipTrivia
    return .inl (imports ++ more)
  else return .inr imports

/-! ## Modules -/

/-- An element, which may stand in parentheses. -/
def elementExpression (limit : Nat) : Walk Node := fun start =>
  (do
    skipTrivia
    if ← eat "(" then
      let node ← onward start fun c _ => elementExpression limit c
      expect ")" "`)`"
      return node
    else element limit 1 : Walk Node) start
termination_by start => start.left

/-- A function body after its opening brace. -/
def block (limit : Nat) : Walk Node := do
  expectKeyword "return"
  let node ← elementExpression limit
  skipTrivia
  let _ ← eat ";"
  expect "\x7d" "`\x7d`"
  return node

def noArguments : Walk Unit := do
  expect "(" "`(`"
  expect ")" "argument-free function"

def componentFunction (limit : Nat) : Walk Node := do
  if ← eatKeyword "function" then
    let _ ← identifier?
    noArguments
    expect "\x7b" "`\x7b`"
    block limit
  else
    noArguments
    expect "=>" "`=>`"
    skipTrivia
    if (← peek) = some '\x7b' then
      let _ ← bump
      block limit
    else elementExpression limit

def module (limit : Nat) : Walk Module := do
  skipTrivia
  let imports ← loop importsRound []
  expectKeyword "export"
  expectKeyword "default"
  let root ← componentFunction limit
  skipTrivia
  let _ ← eat ";"
  skipTrivia
  if ← atEnd then return ⟨imports, root⟩ else expected "end of example"

/-- Reads an example in which elements nest at most `limit` deep. -/
def parse (source : String) (limit : Nat) : Except Stop Module :=
  (module limit (ofText source.toList)).map (·.1)

end Cursor

end PatternCatalog.Markup
