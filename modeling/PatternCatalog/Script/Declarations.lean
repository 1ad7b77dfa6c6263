/-
  PatternCatalog.Script.Declarations — the grammar of declarations.

  A declaration starts at its first token, words such as `declare` included; a variable starts
  at its own name. Of an enum member the initializer is kept when it is a string or a number,
  the latter perhaps negated or in parentheses.
-/

import PatternCatalog.Script.Expressions

namespace PatternCatalog.Script

open Parse

/-! ## What starts a declaration -/

def startsPattern (t : Token) : Bool := isIdentifier t || t == .mark "[" || t == .mark "\x7b"

/-- Whether a declaration without words such as `declare` starts at the token of a reader. -/
def startsPlainDeclaration (r : Reader) : Bool :=
  let next := r.next
  let typed := r.dialect.types
  match r.token with
  | .mark m => m == "@"
  | .word w =>
    if ["function", "class", "var", "const"].contains w then true
    else if w == "enum" then typed
    else if w == "let" then startsPattern next.token
    else if w == "async" then next.token == .word "function" && !next.newline
    else if w == "using" then isIdentifier next.token && !next.newline && next.token != .word "of"
    else if w == "await" then next.token == .word "using" && isIdentifier next.next.token && !next.newline
    else if w == "type" || w == "interface" then typed && isIdentifier next.token && !next.newline
    else if w == "namespace" || w == "module" then
      let named : Bool := match next.token with
        | .string _ => true
        | t => isIdentifier t
      typed && named && !next.newline
    else if w == "global" then typed && next.token == .mark "\x7b"
    else false
  | _ => false

/-- Whether a declaration starts at the token of a reader. -/
def startsDeclaration (r : Reader) : Bool :=
  let next := r.next
  startsPlainDeclaration r ||
    (r.dialect.types && !next.newline &&
      match r.token with
      | .word "declare" =>
        startsPlainDeclaration next || (next.token == .word "abstract" && next.next.token == .word "class")
      | .word "abstract" => next.token == .word "class"
      | _ => false)

/-! ## Variables -/

def declarator (g : Rules) (allowIn : Bool) : Parse Variable := do
  let start ← position
  let name := identifierText? (← token)
  g .pattern
  if (← types) && (← atMark "!") then advance
  let type ← annotation? g
  if ← eatMark "=" then g (.assignment allowIn true)
  return ⟨name, start, type⟩

/-- Variables with commas between them, after the word that declares them. -/
def declarators (g : Rules) (allowIn : Bool) : Parse (List Variable) := do
  let first ← declarator g allowIn
  let others ← many (← rounds) do
    if ← eatMark "," then return some (← declarator g allowIn) else return none
  return first :: others

/-- The word or words in front of variables. -/
def variableWord : Parse Unit := do
  let _ ← eatWord "await"
  require (← atAnyWord ["var", "let", "const", "using"])
  advance

/-! ## Functions and classes -/

def functionDeclaration (g : Rules) (start : Nat) : Parse DeclarationSyntax := do
  let _ ← eatWord "async"
  expectWord "function"
  let _ ← eatMark "*"
  let name ← if ← atIdentifier then pure (some (← identifier)) else pure none
  return .function name start (← functionRest g (functionBody g))

def classDeclaration (g : Rules) (start : Nat) : Parse DeclarationSyntax := do
  loop (decorator g)
  let _ ← eatWord "abstract"
  let (name, parent) ← classRest g
  return .class name start parent

/-! ## Types -/

/-- The type of an alias; a lone `intrinsic` is a type of which nothing is kept. -/
def aliasType (g : Rules) : Parse TypeExpr := do
  if (← atWord "intrinsic") && (← nextToken) != .mark "." then
    advance
    return .other
  else g (.type true)

def aliasDeclaration (g : Rules) (start : Nat) : Parse DeclarationSyntax := do
  expectWord "type"
  let name ← identifier
  typeParameters g
  expectMark "="
  let type ← aliasType g
  semicolon
  return .alias name start type

/-- A parent of an interface. -/
def parentInterface (g : Rules) : Parse TypeExpr := do
  let first ← identifier
  let names ← dottedNames
  return .reference none (first :: names) (← typeArgumentsHere g)

def parentInterfaces (g : Rules) : Parse (List TypeExpr) := do
  if ← eatWord "extends" then
    let first ← parentInterface g
    let others ← many (← rounds) do
      if ← eatMark "," then return some (← parentInterface g) else return none
    return first :: others
  else return []

def interfaceDeclaration (g : Rules) (start : Nat) : Parse DeclarationSyntax := do
  expectWord "interface"
  let name ← identifier
  typeParameters g
  let parents ← parentInterfaces g
  expectMark "\x7b"
  return .interface name start parents (← typeMembers g)

/-! ## Enums -/

def enumMemberName : Parse String := do
  match ← token with
  | .string s => advance; return s
  | .mark "[" =>
    advance
    match ← token with
    | .string s | .template s true =>
      advance
      expectMark "]"
      return s
    | _ => fail
  | _ => anyName

/-- A number, perhaps with minus signs and parentheses around it. -/
def numericValue : Nat → Parse Binary64
  | 0 => fail
  | fuel + 1 => do
    if ← eatMark "-" then return (← numericValue fuel).neg
    else if ← eatMark "(" then
      let x ← numericValue fuel
      expectMark ")"
      return x
    else
      match ← token with
      | .number x => advance; return x
      | _ => fail

/-- A string or a number that is a whole initializer. -/
def literalInit : Parse EnumInit := do
  let init ← match ← token with
    | .string s => advance; pure (.string s)
    | _ => pure (.number (← numericValue (← rounds)))
  require (← atAnyMark [",", "\x7d"])
  return init

def enumInit (g : Rules) : Parse EnumInit := do
  if ← eatMark "=" then
    match ← attempt literalInit with
    | some init => return init
    | none => g (.assignment true true); return .other
  else return .none

def enumMember (g : Rules) : Parse EnumMember := do
  let start ← position
  let name ← enumMemberName
  let init ← enumInit g
  return ⟨name, init, ← ask (·.docs.docAt? start)⟩

def enumDeclaration (g : Rules) (start : Nat) : Parse DeclarationSyntax := do
  let _ ← eatWord "const"
  expectWord "enum"
  let name ← identifier
  expectMark "\x7b"
  return .enum name start (← commaList "\x7d" (enumMember g))

/-! ## Name spaces -/

/-- A name space or a module with its body; a module with a quoted name may go without. -/
def namespaceDeclaration (g : Rules) : Parse DeclarationSyntax := do
  match ← token with
  | .string _ =>
    advance
    if ← atMark "\x7b" then block g else semicolon
  | _ =>
    let _ ← identifier
    let _ ← dottedNames
    block g
  return .other

/-! ## Any declaration -/

def declarationModifier : Parse Bool := do
  let next ← ahead
  if (← types) && !next.newline && ((← atWord "declare") || ((← atWord "abstract") && next.token == .word "class"))
  then
    advance
    return true
  else return false

def declaration (g : Rules) : Parse DeclarationSyntax := do
  let start ← position
  loop declarationModifier
  match ← token with
  | .mark "@" => classDeclaration g start
  | .word w =>
    if w == "function" || w == "async" then functionDeclaration g start
    else if w == "class" then classDeclaration g start
    else if w == "type" then aliasDeclaration g start
    else if w == "interface" then interfaceDeclaration g start
    else if w == "enum" || (w == "const" && (← nextToken) == .word "enum") then enumDeclaration g start
    else if w == "namespace" || w == "module" then
      advance
      namespaceDeclaration g
    else if w == "global" then namespaceDeclaration g
    else
      variableWord
      let items ← declarators g true
      semicolon
      return .variables items
  | _ => fail

end PatternCatalog.Script
