/-
  PatternCatalog.Script.Expressions — the grammar of expressions.

  Expressions leave only the names they mention, so operators need no precedence: operands
  alternate with operators. A list in parentheses is first tried as the parameters of an arrow
  function. Object and array literals admit what destructuring patterns add to them.
-/

import PatternCatalog.Script.Types

namespace PatternCatalog.Script

open Parse

/-! ## Blocks and functions -/

/-- Statements in braces. -/
def block (g : Rules) : Parse Unit := do
  expectMark "\x7b"
  loop do
    if ← eatMark "\x7d" then return false
    let _ ← g .statement
    return true

/-- The body of a function; with types there may be none. -/
def functionBody (g : Rules) : Parse Unit := do
  if ← atMark "\x7b" then block g
  else
    require (← types)
    semicolon

/-- A function from its type parameters on. -/
def functionRest (g : Rules) (body : Parse Unit) : Parse Signature := do
  typeParameters g
  let (params, rest) ← parameters g
  let returns ← resultAnnotation? g
  body
  return ⟨params, rest, returns⟩

/-- A function expression, from the word `function` on. -/
def functionExpression (g : Rules) : Parse Unit := do
  expectWord "function"
  let _ ← eatMark "*"
  if ← atIdentifier then
    let _ ← identifier
  let _ ← functionRest g (block g)

/-! ## Patterns -/

def initializer (g : Rules) : Parse Unit := do
  if ← eatMark "=" then g (.assignment true true)

def arrayPatternPart (g : Rules) : Parse Bool := do
  if ← eatMark "]" then return false
  if ← eatMark "," then return true
  let _ ← eatMark "..."
  g .pattern
  initializer g
  if !(← atMark "]") then expectMark ","
  return true

def objectPatternPart (g : Rules) : Parse Unit := do
  if ← eatMark "..." then g .pattern
  else
    let short := isIdentifier (← token)
    let _ ← propertyKey g
    if ← eatMark ":" then g .pattern else require short
    initializer g

def patternRule (g : Rules) : Parse Unit := do
  if ← eatMark "[" then loop (arrayPatternPart g)
  else if ← eatMark "\x7b" then
    let _ ← commaList "\x7d" (objectPatternPart g)
  else
    let _ ← identifier

/-! ## Literals -/

def arrayPart (g : Rules) : Parse Bool := do
  if ← eatMark "]" then return false
  if ← eatMark "," then return true
  let _ ← eatMark "..."
  g (.assignment true true)
  if !(← atMark "]") then expectMark ","
  return true

/-- Marks after a word that is a key itself and no modifier of a key. -/
def keyEnds : List String := ["(", ",", ":", "\x7d", "=", ";", "<", "?", "!"]

/-- Whether the current word modifies the key after it. -/
def modifiesKey (words : List String) (onLine : Bool) : Parse Bool := do
  if !(← atAnyWord words) then return false
  let next ← ahead
  if onLine && next.newline then return false
  match next.token with
  | .mark m => return !keyEnds.contains m
  | .eof => return false
  | _ => return true

def methodRest (g : Rules) : Parse Unit := do
  let _ ← functionRest g (block g)

def objectPart (g : Rules) : Parse Unit := do
  if ← eatMark "..." then g (.assignment true true)
  else
    let async ← modifiesKey ["async"] true
    if async then advance
    let accessor ← modifiesKey ["get", "set"] false
    if accessor then advance
    let modified := (← eatMark "*") || async || accessor
    let short := isIdentifier (← token)
    let _ ← propertyKey g
    if (← atMark "(") || (← atMark "<") then methodRest g
    else
      require !modified
      if ← eatMark ":" then g (.assignment true true)
      else
        require short
        initializer g

def template (g : Rules) : Parse Unit := templateParts (g (.expression true))

/-! ## Classes -/

/-- A parent class that is a name with type arguments; nothing is kept of another expression. -/
def namedParent (g : Rules) : Parse TypeExpr := do
  let first ← identifier
  let names ← dottedNames
  let args ← if (← types) && ((← atMark "<") || (← atMark "<<")) then typeArguments g else pure []
  require ((← atMark "\x7b") || (← atWord "implements"))
  return .reference none (first :: names) args

def parentClass? (g : Rules) : Parse (Option TypeExpr) := do
  if !(← eatWord "extends") then return none
  match ← attempt (namedParent g) with
  | some t => return some t
  | none =>
    g .access
    let _ ← typeArgumentsHere g
    return none

def implementedTypes (g : Rules) : Parse Unit := do
  if (← types) && (← atWord "implements") then
    advance
    loop do
      let _ ← g (.type true)
      eatMark ","

/-- Modifiers of class members that need no types. -/
def plainModifiers : List String := ["async", "accessor"]

def typedModifiers : List String :=
  ["public", "private", "protected", "readonly", "abstract", "override", "declare"]

def classModifier (g : Rules) : Parse Bool := do
  if ← decorator g then return true
  let onLine := if ← types then plainModifiers ++ typedModifiers else plainModifiers
  if (← modifiesKey ["static", "get", "set"] false) || (← modifiesKey onLine true) then
    advance
    return true
  else return false

/-- A field or a method, from its key on. -/
def classElement (g : Rules) : Parse Unit := do
  let _ ← eatMark "*"
  let _ ← propertyKey g
  if ← types then
    if ← atAnyMark ["?", "!"] then advance
  if (← atMark "(") || (← atMark "<") then
    let _ ← functionRest g (functionBody g)
  else
    let _ ← annotation? g
    initializer g
    semicolon

def classIndex (g : Rules) : Parse Unit := do
  require (← types)
  indexSignature g
  semicolon

def classMember (g : Rules) : Parse Bool := do
  if ← eatMark "\x7d" then return false
  if ← eatMark ";" then return true
  if (← atWord "static") && (← nextToken) == .mark "\x7b" then
    advance
    block g
  else
    loop (classModifier g)
    match ← attempt (classIndex g) with
    | some _ => pure ()
    | none => classElement g
  return true

/-- The name of a class, if it has one. -/
def className : Parse (Option String) := do
  if (← atIdentifier) && !(← atWord "implements") then return some (← identifier) else return none

/-- A class from the word `class` on: its name and its parent. -/
def classRest (g : Rules) : Parse (Option String × Option TypeExpr) := do
  expectWord "class"
  let name ← className
  typeParameters g
  let parent ← parentClass? g
  implementedTypes g
  expectMark "\x7b"
  loop (classMember g)
  return (name, parent)

/-! ## Calls and accesses -/

def argument (g : Rules) : Parse Unit := do
  let _ ← eatMark "..."
  g (.assignment true true)

def arguments (g : Rules) : Parse Unit := do
  expectMark "("
  let _ ← commaList ")" (argument g)

def memberName : Parse Unit := do
  match ← token with
  | .privateName _ => advance
  | _ => let _ ← anyName

def indexAccess (g : Rules) : Parse Unit := do
  expectMark "["
  g (.expression true)
  expectMark "]"

/-- Words that are operators between operands. -/
def wordOperators : List String := ["instanceof", "in", "as", "satisfies"]

/-- Marks that are operators between operands; those that start with a greater-than sign are read
anew first. -/
def markOperators : List String :=
  ["||", "&&", "??", "|", "^", "&", "==", "!=", "===", "!==", "<", "<=", ">", ">=", "<<", ">>", ">>>",
   "+", "-", "*", "/", "%", "**"]

def assignmentMarks : List String :=
  ["=", "+=", "-=", "*=", "/=", "%=", "**=", "<<=", ">>=", ">>>=", "&=", "|=", "^=", "&&=", "||=", "??="]

/-- Whether type arguments in an expression may end before this token. -/
def endsTypeArguments (r : Reader) : Bool :=
  match r.token with
  | .template _ _ => true
  | .mark m =>
    if m == "(" then true
    else if ["<", ">", "+", "-"].contains m then false
    else r.newline || markOperators.contains m || !(["[", "\x7b", "!", "~", "++", "--", "@"].contains m)
  | .word w => r.newline || wordOperators.contains w
  | .eof => true
  | _ => r.newline

def callTypeArguments (g : Rules) : Parse Unit := do
  let _ ← typeArguments g
  require (← ask endsTypeArguments)

/-- What follows `?.`. -/
def optionalAccess (g : Rules) : Parse Unit := do
  if ← atMark "(" then arguments g
  else if ← atMark "[" then indexAccess g
  else if (← types) && (← atMark "<") then
    let _ ← typeArguments g
    arguments g
  else memberName

/-- One call or access, if there is one. -/
def accessPart (g : Rules) : Parse Bool := do
  match ← token with
  | .template _ _ => template g; return true
  | .mark m =>
    if m == "." then advance; memberName; return true
    else if m == "?." then advance; optionalAccess g; return true
    else if m == "[" then indexAccess g; return true
    else if m == "(" then arguments g; return true
    else if ← types then
      if m == "!" && (← sameLine) then advance; return true
      else if m == "<" || m == "<<" then return (← attempt (callTypeArguments g)).isSome
      else return false
    else return false
  | _ => return false

/-! ## Operands -/

/-- An expression that starts with a word. -/
def wordExpression (g : Rules) (w : String) : Parse Unit := do
  if ["this", "null", "true", "false", "super"].contains w then advance
  else if w == "function" then functionExpression g
  else if w == "class" then
    let _ ← classRest g
  else if w == "async" && (← ahead).token == .word "function" && !(← ahead).newline then
    advance
    functionExpression g
  else if w == "new" then
    advance
    if ← eatMark "." then
      let _ ← anyName
    else g .access
  else if w == "import" then
    advance
    if ← eatMark "." then
      let _ ← anyName
    else require (← atMark "(")
  else
    let _ ← identifier

def primary (g : Rules) : Parse Unit := do
  match ← token with
  | .word w => wordExpression g w
  | .escapedWord _ => let _ ← identifier
  | .number _ | .bigint _ | .string _ => advance
  | .template _ _ => template g
  | .privateName _ =>
    advance
    require (← atWord "in")
  | .mark m =>
    if m == "/" || m == "/=" then
      retakeRegex
      advance
    else if m == "(" then
      advance
      g (.expression true)
      expectMark ")"
    else if m == "[" then
      advance
      loop (arrayPart g)
    else if m == "\x7b" then
      advance
      let _ ← commaList "\x7d" (objectPart g)
    else if m == "@" then
      loop (decorator g)
      let _ ← classRest g
    else if m == "<" then
      require (← ask (·.dialect.markup))
      g .element
      advance
    else fail
  | _ => fail

def accessRule (g : Rules) : Parse Unit := do
  primary g
  loop (accessPart g)

/-- A type in angle brackets in front of an operand. -/
def typeAssertion (g : Rules) : Parse Unit := do
  expectMark "<"
  let _ ← g (.type true)
  expectMark ">"
  g .unary

def unaryRule (g : Rules) : Parse Unit := do
  if (← atAnyMark ["+", "-", "!", "~", "++", "--"]) || (← atAnyWord ["typeof", "void", "delete", "await"]) then
    advance
    g .unary
  else if (← atMark "<") && !(← ask (·.dialect.markup)) then typeAssertion g
  else
    g .access
    if (← sameLine) && (← atAnyMark ["++", "--"]) then advance

/-! ## Operators -/

/-- An operator with its right operand, if there is one. -/
def operation (g : Rules) (allowIn : Bool) : Parse Bool := do
  if ← atMark ">" then retakeGreater
  if ← atAnyMark markOperators then
    advance
    g .unary
    return true
  else if (← atWord "instanceof") || (allowIn && (← atWord "in")) then
    advance
    g .unary
    return true
  else if (← types) && (← sameLine) && (← atAnyWord ["as", "satisfies"]) then
    advance
    let _ ← g (.type true)
    return true
  else return false

def binary (g : Rules) (allowIn : Bool) : Parse Unit := do
  g .unary
  loop (operation g allowIn)

/-- The branches of a conditional expression. -/
def branches (g : Rules) (allowIn arrowTypes firstArrowTypes : Bool) : Parse Unit := do
  g (.assignment true firstArrowTypes)
  expectMark ":"
  g (.assignment allowIn arrowTypes)

def conditional (g : Rules) (allowIn arrowTypes : Bool) : Parse Unit := do
  binary g allowIn
  if ← eatMark "?" then
    if ← types then orElse (branches g allowIn arrowTypes true) (branches g allowIn arrowTypes false)
    else branches g allowIn arrowTypes true

/-! ## Arrow functions -/

def arrowBody (g : Rules) (allowIn arrowTypes : Bool) : Parse Unit := do
  require (← sameLine)
  expectMark "=>"
  if ← atMark "\x7b" then block g else g (.assignment allowIn arrowTypes)

/-- An arrow function with parameters in parentheses. -/
def arrowFunction (g : Rules) (allowIn arrowTypes : Bool) : Parse Unit := do
  typeParameters g
  let _ ← parameters g
  if arrowTypes then
    let _ ← resultAnnotation? g
  arrowBody g allowIn arrowTypes

/-- An arrow function with one plain parameter. -/
def shortArrow (g : Rules) (allowIn arrowTypes : Bool) : Parse Unit := do
  let _ ← identifier
  arrowBody g allowIn arrowTypes

/-- Whether type parameters may start here, where markup could start too. -/
def startsTypeParameters : Parse Bool := do
  let r ← read
  if !r.dialect.types || r.token != .mark "<" then return false
  let first := r.next
  let second := first.next
  return !r.dialect.markup || first.token == .word "const" || second.token == .mark "," ||
    second.token == .word "extends"

/-- An arrow function that may start here. -/
def arrow (g : Rules) (allowIn arrowTypes : Bool) : Parse Unit := do
  let r ← read
  let next := r.next
  match r.token with
  | .mark m =>
    require (m == "(" || (← startsTypeParameters))
    arrowFunction g allowIn arrowTypes
  | .word "async" =>
    if next.newline then shortArrow g allowIn arrowTypes
    else if isIdentifier next.token then
      advance
      shortArrow g allowIn arrowTypes
    else if next.token == .mark "(" || next.token == .mark "<" then
      advance
      arrowFunction g allowIn arrowTypes
    else shortArrow g allowIn arrowTypes
  | t =>
    require (isIdentifier t && next.token == .mark "=>")
    shortArrow g allowIn arrowTypes

/-! ## Assignments and sequences -/

/-- Whether an expression can start at this token. -/
def startsExpression : Token → Bool
  | .eof | .invalid => false
  | .mark m => !([")", "]", "\x7d", ",", ";", ":", "=>", "=", "?"].contains m)
  | .word w => !(["in", "of", "instanceof", "as", "satisfies"].contains w)
  | _ => true

def yieldExpression (g : Rules) (allowIn arrowTypes : Bool) : Parse Unit := do
  expectWord "yield"
  if ← sameLine then
    if ← eatMark "*" then g (.assignment allowIn arrowTypes)
    else if startsExpression (← token) then g (.assignment allowIn arrowTypes)

def assignmentRule (g : Rules) (allowIn arrowTypes : Bool) : Parse Unit := do
  if ← atWord "yield" then yieldExpression g allowIn arrowTypes
  else
    match ← attempt (arrow g allowIn arrowTypes) with
    | some _ => pure ()
    | none =>
      conditional g allowIn arrowTypes
      if ← atAnyMark assignmentMarks then
        advance
        g (.assignment allowIn arrowTypes)

def expressionRule (g : Rules) (allowIn : Bool) : Parse Unit := do
  loop do
    g (.assignment allowIn true)
    eatMark ","

end PatternCatalog.Script
