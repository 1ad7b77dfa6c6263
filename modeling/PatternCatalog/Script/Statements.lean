/-
  PatternCatalog.Script.Statements — the grammar of statements.

  Labels are not mentioned. Imports that give a name to a name, and exports of a whole module
  under a global name, leave nothing.
-/

import PatternCatalog.Script.Declarations

namespace PatternCatalog.Script

open Parse

/-! ## Control flow -/

/-- An expression in parentheses. -/
def condition (g : Rules) : Parse Unit := do
  expectMark "("
  g (.expression true)
  expectMark ")"

def substatement (g : Rules) : Parse Unit := do
  let _ ← g .statement

/-- The first part of a `for`: variables or an expression, or nothing. -/
def forHead (g : Rules) : Parse Unit := do
  if ← ask startsPlainDeclaration then
    variableWord
    let _ ← declarators g false
  else if !(← atMark ";") then g (.expression false)

/-- An expression that may be missing, up to a mark, which is taken. -/
def expressionUpTo (g : Rules) (close : String) : Parse Unit := do
  if !(← atMark close) then g (.expression true)
  expectMark close

def forStatement (g : Rules) : Parse Unit := do
  expectWord "for"
  let _ ← eatWord "await"
  expectMark "("
  forHead g
  if ← eatWord "of" then
    g (.assignment true true)
    expectMark ")"
  else if ← eatWord "in" then
    g (.expression true)
    expectMark ")"
  else
    expectMark ";"
    expressionUpTo g ";"
    expressionUpTo g ")"
  substatement g

def ifStatement (g : Rules) : Parse Unit := do
  expectWord "if"
  condition g
  substatement g
  if ← eatWord "else" then substatement g

def whileStatement (g : Rules) : Parse Unit := do
  advance
  condition g
  substatement g

/-- The semicolon after a `do` may always be left out. -/
def doStatement (g : Rules) : Parse Unit := do
  expectWord "do"
  substatement g
  expectWord "while"
  condition g
  let _ ← eatMark ";"

/-- One case of a `switch` with its statements. -/
def switchCase (g : Rules) : Parse Bool := do
  if ← eatMark "\x7d" then return false
  if ← eatWord "case" then g (.expression true) else expectWord "default"
  expectMark ":"
  loop do
    if (← atAnyWord ["case", "default"]) || (← atMark "\x7d") then return false
    substatement g
    return true
  return true

def switchStatement (g : Rules) : Parse Unit := do
  expectWord "switch"
  condition g
  expectMark "\x7b"
  loop (switchCase g)

def catchParameter (g : Rules) : Parse Unit := do
  if ← eatMark "(" then
    g .pattern
    let _ ← annotation? g
    expectMark ")"

def tryStatement (g : Rules) : Parse Unit := do
  expectWord "try"
  block g
  let caught ← eatWord "catch"
  if caught then
    catchParameter g
    block g
  if ← eatWord "finally" then block g else require caught

/-- `break` or `continue`, perhaps with a label on the same line. -/
def jumpStatement : Parse Unit := do
  advance
  if (← sameLine) && (← atIdentifier) then label
  semicolon

/-- `return`, perhaps with an expression on the same line. -/
def returnStatement (g : Rules) : Parse Unit := do
  expectWord "return"
  if (← sameLine) && !(← atAnyMark [";", "\x7d"]) && (← token) != .eof then g (.expression true)
  semicolon

def throwStatement (g : Rules) : Parse Unit := do
  expectWord "throw"
  g (.expression true)
  semicolon

/-! ## Names in imports and exports -/

/-- A name or a string; a name is mentioned. -/
def moduleExportName : Parse String := do
  match ← token with
  | .string s => advance; return s
  | _ => anyName

/-- Whether a specifier ends before this token. -/
def endsSpecifier (t : Token) : Bool := t == .mark "," || t == .mark "\x7d"

/-- Takes the word `type` in front of a specifier, unless it is the name itself. -/
def specifierModifier : Parse Unit := do
  let first ← ahead
  let marks : Bool :=
    if first.token == .word "as" then
      let second := first.next
      endsSpecifier second.token || (second.token == .word "as" && !endsSpecifier second.next.token)
    else !endsSpecifier first.token
  if (← atWord "type") && marks then advance

def importSpecifier : Parse (String × Imported) := do
  specifierModifier
  let first ← token
  let name ← moduleExportName
  if ← eatWord "as" then return (← identifier, .ofName name)
  else
    require (isIdentifier first)
    return (name, .ofName name)

def exportSpecifier : Parse Specifier := do
  specifierModifier
  let name ← moduleExportName
  if ← eatWord "as" then return ⟨name, ← moduleExportName⟩ else return ⟨name, name⟩

/-- The string after `from`, and what an importer is told about the module. -/
def moduleSource : Parse String := do
  let source ← stringLiteral
  if (← atWord "with") || ((← atWord "assert") && (← sameLine)) then
    advance
    expectMark "\x7b"
    let _ ← commaList "\x7d" do
      let _ ← moduleExportName
      expectMark ":"
      stringLiteral
  return source

/-! ## Imports -/

/-- Takes the word after `import` that tells how to import, unless it is a name. -/
def importModifier : Parse Unit := do
  let next ← ahead
  let marks : Bool := match next.token with
    | .mark m => m == "\x7b" || m == "*"
    | .word "from" => next.next.token == .word "from"
    | t => isIdentifier t
  if (← atAnyWord ["type", "defer", "source"]) && marks then advance

/-- The bindings of an import between braces, or of a whole module. -/
def importBindings : Parse (List (String × Imported)) := do
  if ← eatMark "*" then
    expectWord "as"
    return [(← identifier, .namespace_)]
  else
    expectMark "\x7b"
    commaList "\x7d" importSpecifier

/-- What comes after the equals sign of an import. -/
def importTarget : Parse Unit := do
  if (← atWord "require") && (← nextToken) == .mark "(" then
    advance
    advance
    let _ ← stringLiteral
    expectMark ")"
  else
    let _ ← identifier
    let _ ← dottedNames
  semicolon

/-- An import of bindings, after the word `import`. -/
def importFrom (bindings : List (String × Imported)) : Parse Statement := do
  expectWord "from"
  let source ← moduleSource
  semicolon
  return .import source bindings

/-- An import declaration after the word `import`. -/
def importRest : Parse Statement := do
  match ← token with
  | .string _ =>
    let source ← moduleSource
    semicolon
    return .import source []
  | _ =>
    importModifier
    if ← atIdentifier then
      let name ← identifier
      if (← types) && (← atMark "=") then
        advance
        importTarget
        return .other
      else if ← eatMark "," then importFrom ((name, .default_) :: (← importBindings))
      else importFrom [(name, .default_)]
    else importFrom (← importBindings)

/-! ## Exports -/

/-- An expression, and its name if it is nothing but a name. -/
def expressionOrName (g : Rules) : Parse (Option String) := do
  let r ← read
  g (.assignment true true)
  let stop ← position
  semicolon
  return if r.next.start = stop then identifierText? r.token else none

/-- What follows `export default`. -/
def defaultExport (g : Rules) : Parse DefaultExport := do
  let r ← read
  let next := r.next
  let declares : Bool := match r.token with
    | .mark m => m == "@"
    | .word w =>
      if w == "function" || w == "class" then true
      else if w == "async" || w == "abstract" || w == "interface" then startsDeclaration r && !next.newline
      else false
    | _ => false
  if declares then return .declaration (← declaration g)
  else
    match ← expressionOrName g with
    | some name => return .name name
    | none => return .expression

def exportAll : Parse Statement := do
  expectMark "*"
  let name ← if ← eatWord "as" then pure (some (← moduleExportName)) else pure none
  expectWord "from"
  let source ← moduleSource
  semicolon
  return .exportAll source name

def exportList : Parse Statement := do
  expectMark "\x7b"
  let specifiers ← commaList "\x7d" exportSpecifier
  let source ← if ← eatWord "from" then pure (some (← moduleSource)) else pure none
  semicolon
  return .exportList specifiers source

/-- A list, or a whole module. -/
def exportNames : Parse Statement := do
  if ← atMark "*" then exportAll else exportList

def exportStatement (g : Rules) : Parse Statement := do
  expectWord "export"
  match ← token with
  | .mark "=" =>
    advance
    return .exportAssignment (← expressionOrName g)
  | .word w =>
    let next ← nextToken
    if w == "default" then
      advance
      return .exportDefault (← defaultExport g)
    else if w == "as" then
      advance
      expectWord "namespace"
      let _ ← anyName
      semicolon
      return .other
    else if w == "import" then
      advance
      let _ ← importRest
      return .exportDeclaration .other
    else if w == "type" && (next == .mark "\x7b" || next == .mark "*") then
      advance
      exportNames
    else return .exportDeclaration (← declaration g)
  | .mark "@" => return .exportDeclaration (← declaration g)
  | _ => exportNames

/-! ## Any statement -/

/-- Statements that leave nothing, by the word they start with. -/
def controlStatement (g : Rules) (w : String) : Option (Parse Unit) :=
  if w == "if" then some (ifStatement g)
  else if w == "for" then some (forStatement g)
  else if w == "while" || w == "with" then some (whileStatement g)
  else if w == "do" then some (doStatement g)
  else if w == "switch" then some (switchStatement g)
  else if w == "try" then some (tryStatement g)
  else if w == "break" || w == "continue" then some jumpStatement
  else if w == "return" then some (returnStatement g)
  else if w == "throw" then some (throwStatement g)
  else if w == "debugger" then some do
    advance
    semicolon
  else none

def expressionStatement (g : Rules) : Parse Unit := do
  g (.expression true)
  semicolon

/-- A statement that starts with a word and declares nothing. -/
def wordStatement (g : Rules) (w : String) : Parse Statement := do
  let next ← nextToken
  if w == "export" then exportStatement g
  else if w == "import" && next != .mark "(" && next != .mark "." then
    advance
    importRest
  else
    match controlStatement g w with
    | some p => p
    | none => expressionStatement g
    return .other

/-- An exported class with its decorators in front of the export. -/
def decoratedExport (g : Rules) : Parse Statement := do
  loop (decorator g)
  exportStatement g

def statementRule (g : Rules) : Parse Statement := do
  let r ← read
  if r.token == .mark "@" then
    orElse (decoratedExport g) do
      return .declaration (← declaration g)
  else if startsDeclaration r then return .declaration (← declaration g)
  else if isIdentifier r.token && r.next.token == .mark ":" then
    advance
    advance
    substatement g
    return .other
  else
    match r.token with
    | .word w => wordStatement g w
    | .mark "\x7b" => block g; return .other
    | .mark ";" => advance; return .other
    | _ => expressionStatement g; return .other

end PatternCatalog.Script
