/-
  PatternCatalog.Script.Types — the grammar of types.

  Each rule takes the parser of the goals it leads to. Readonly types and parentheses leave no
  trace; conditional, indexed, mapped, tuple, constructor and predicate types, `keyof`,
  `unique`, `infer`, `typeof` and a lone `this` are types of which nothing is kept.
-/

import PatternCatalog.Script.Reader
import PatternCatalog.Script.Syntax

namespace PatternCatalog.Script

/-- The parsers of all goals. -/
abbrev Rules := (goal : Goal) → Parse goal.Answer

open Parse

/-! ## Shared pieces -/

/-- The source from the token of an earlier reader up to the last token taken. -/
def textSince (from_ : Reader) : Parse String :=
  ask fun r => String.ofList (from_.here.take (from_.here.length - r.before.length))

/-- A type after a colon, if there is a colon. -/
def annotation? (g : Rules) : Parse (Option TypeExpr) := do
  if (← types) && (← atMark ":") then
    advance
    return some (← g (.type true))
  else return none

/-- Type arguments in angle brackets. -/
def typeArguments (g : Rules) : Parse (List TypeExpr) := do
  if ← atMark "<<" then retakeAs (.mark "<") 1
  expectMark "<"
  commaList ">" (g (.type true))

/-- Type arguments, if there are any on this line. -/
def typeArgumentsHere (g : Rules) : Parse (List TypeExpr) := do
  if (← sameLine) && ((← atMark "<") || (← atMark "<<")) then typeArguments g else return []

/-- The words in front of a type parameter. -/
def variance : Parse Bool := do
  if !(← atAnyWord ["in", "out", "const"]) then return false
  let next ← nextToken
  if (wordText? next).isSome && next != .word "extends" then
    advance
    return true
  else return false

def typeParameter (g : Rules) : Parse Unit := do
  loop variance
  let _ ← identifier
  if ← eatWord "extends" then
    let _ ← g (.type true)
  if ← eatMark "=" then
    let _ ← g (.type true)

/-- Type parameters in angle brackets, if there are any. -/
def typeParameters (g : Rules) : Parse Unit := do
  if (← types) && (← atMark "<") then
    advance
    let _ ← commaList ">" (typeParameter g)

/-- Names after dots. -/
def dottedNames : Parse (List String) := do
  many (← rounds) do
    if ← eatMark "." then return some (← anyName) else return none

/-! ## Property keys -/

/-- A key in brackets: its text when it is a literal. -/
def computedKey (g : Rules) : Parse (Option String) := do
  expectMark "["
  let literal : Option String := match ← token with
    | .string s => some s
    | .number x => some x.plainText
    | .bigint n => some (toString n)
    | .template s true => some s
    | .word "null" => some "null"
    | _ => none
  if literal.isSome && (← nextToken) == .mark "]" then
    advance
    advance
    return literal
  else
    g (.assignment true true)
    expectMark "]"
    return none

/-- The key of a property: its text when it is known. -/
def propertyKey (g : Rules) : Parse (Option String) := do
  match ← token with
  | .word _ | .escapedWord _ => return some (← anyName)
  | .string s => advance; return some s
  | .number x => advance; return some x.plainText
  | .bigint n => advance; return some (toString n)
  | .privateName _ => advance; return none
  | .mark "[" => computedKey g
  | _ => fail

/-- Whether a token can start a property key. -/
def startsKey : Token → Bool
  | .word _ | .escapedWord _ | .string _ | .number _ | .bigint _ | .privateName _ | .mark "[" => true
  | _ => false

/-! ## Parameters -/

/-- A part of a parameter list. -/
inductive ParamPart where
  | receiver
  | rest
  | param (name : Option String) (type : Option TypeExpr) (optional : Bool)

/-- The words that may stand in front of a parameter. -/
def paramModifiers : List String := ["public", "private", "protected", "readonly", "override"]

def paramModifier : Parse Bool := do
  if !(← atAnyWord paramModifiers) then return false
  match ← nextToken with
  | .word _ | .escapedWord _ | .mark "[" | .mark "\x7b" => advance; return true
  | _ => return false

def decorator (g : Rules) : Parse Bool := do
  if ← eatMark "@" then
    g .access
    return true
  else return false

def paramPart (g : Rules) : Parse ParamPart := do
  loop (decorator g)
  loop paramModifier
  if ← eatMark "..." then
    g .pattern
    let _ ← annotation? g
    return .rest
  else if (← types) && (← atWord "this") then
    advance
    let _ ← annotation? g
    return .receiver
  else
    let name := identifierText? (← token)
    g .pattern
    let optional ← if ← types then eatMark "?" else pure false
    let type ← annotation? g
    if ← eatMark "=" then g (.assignment true true)
    return .param name type optional

/-- The parameters that have a place of their own; one without a name is called by its place. -/
def namedParams (index : Nat) : List ParamPart → List Param
  | [] => []
  | .param name type optional :: parts =>
    ⟨name.getD ("arg" ++ toString index), type, optional⟩ :: namedParams (index + 1) parts
  | _ :: parts => namedParams index parts

/-- A parameter list: the parameters, and whether a rest parameter follows. -/
def parameters (g : Rules) : Parse (List Param × Bool) := do
  expectMark "("
  let parts ← commaList ")" (paramPart g)
  return (namedParams 0 parts, parts.any fun p => match p with | .rest => true | _ => false)

/-! ## Results -/

/-- A type predicate, if one starts here. -/
def predicate? (g : Rules) : Parse (Option TypeExpr) := do
  let next ← ahead
  let subject (t : Token) : Bool := isIdentifier t || t == .word "this"
  if (← atWord "asserts") && subject next.token && !next.newline then
    advance
    let _ ← anyName
    if ← eatWord "is" then
      let _ ← g (.type true)
    return some .other
  else if subject (← token) && next.token == .word "is" && !next.newline then
    let _ ← anyName
    advance
    let _ ← g (.type true)
    return some .other
  else return none

/-- The result type of a function. -/
def resultType (g : Rules) (conditional : Bool) : Parse TypeExpr := do
  match ← predicate? g with
  | some t => return t
  | none => g (.type conditional)

/-- A result type after a colon, if there is a colon. -/
def resultAnnotation? (g : Rules) : Parse (Option TypeExpr) := do
  if (← types) && (← atMark ":") then
    advance
    return some (← resultType g true)
  else return none

/-! ## Members of object types -/

/-- The end of a member. -/
def memberEnd : Parse Unit := do
  if ← eatMark "," then return
  semicolon

/-- `[name: type]: type`, whose name is not mentioned. -/
def indexSignature (g : Rules) : Parse Unit := do
  expectMark "["
  label
  expectMark ":"
  let _ ← g (.type true)
  expectMark "]"
  let _ ← annotation? g

/-- Parameters and result of a call or construct signature, of which nothing is kept. -/
def callSignature (g : Rules) : Parse Unit := do
  typeParameters g
  let _ ← parameters g
  let _ ← resultAnnotation? g

/-- The rest of a method, from its type parameters on. -/
def methodSignature (g : Rules) (name : Option String) (optional : Bool) (start : Nat) : Parse (Option Member) := do
  typeParameters g
  let text ← read
  let (params, _) ← parameters g
  let returns := (← resultAnnotation? g).getD (.keyword .any)
  memberEnd
  let typeText := String.ofList ((← textSince text).toList.reverse.dropWhile (· == ';')).reverse
  let doc ← ask (·.docs.docAt? start)
  return name.map fun name => ⟨name, optional, some (.function params returns), typeText, doc, start⟩

/-- A type after a colon with its text. -/
def annotationWithText (g : Rules) : Parse (Option TypeExpr × String) := do
  if ← eatMark ":" then
    let text ← read
    let type ← g (.type true)
    return (some type, ← textSince text)
  else return (none, "")

/-- `readonly` in front of a key. -/
def readonlyModifier : Parse Bool := do
  let next ← ahead
  if (← atWord "readonly") && startsKey next.token && !next.newline then
    advance
    return true
  else return false

/-- A property or a method from its key on. -/
def keyedMember (g : Rules) (start : Nat) : Parse (Option Member) := do
  let name ← propertyKey g
  let optional ← eatMark "?"
  if ← atAnyMark ["(", "<"] then methodSignature g name optional start
  else
    let (type, typeText) ← annotationWithText g
    memberEnd
    let doc ← ask (·.docs.docAt? start)
    return name.map fun name => ⟨name, optional, type, typeText, doc, start⟩

/-- A property, a method or an accessor. -/
def namedMember (g : Rules) (start : Nat) : Parse (Option Member) := do
  if (← atAnyWord ["get", "set"]) && startsKey (← nextToken) then advance
  keyedMember g start

/-- A member of an object type; only properties and methods with known keys are kept. -/
def typeMember (g : Rules) : Parse (Option Member) := do
  let start ← position
  let next ← nextToken
  if (← atAnyMark ["(", "<"]) || ((← atWord "new") && (next == .mark "(" || next == .mark "<")) then
    let _ ← eatWord "new"
    callSignature g
    memberEnd
    return none
  else
    loop readonlyModifier
    match ← attempt (indexSignature g) with
    | some _ => memberEnd; return none
    | none => namedMember g start

/-- The members after an opening brace, up to the closing one, which is taken. -/
def typeMembers (g : Rules) : Parse (List Member) := do
  let members ← many (← rounds) do
    if ← eatMark "\x7d" then return none
    return some (← typeMember g)
  return members.filterMap id

/-! ## Compound types -/

def functionType (g : Rules) (conditional : Bool) : Parse TypeExpr := do
  typeParameters g
  let (params, _) ← parameters g
  expectMark "=>"
  return .function params (← resultType g conditional)

/-- `new (…) => …`, perhaps abstract. -/
def constructorType (g : Rules) (conditional : Bool) : Parse TypeExpr := do
  let _ ← eatWord "abstract"
  expectWord "new"
  let _ ← functionType g conditional
  return .other

def mappedModifier (w : String) : Parse Unit := do
  if ← atAnyMark ["+", "-"] then advance
  if w == "?" then
    let _ ← eatMark "?"
  else
    let _ ← eatWord w

/-- The name for the keys, where they come from and what becomes of them, in brackets. -/
def mappedKey (g : Rules) : Parse Unit := do
  expectMark "["
  let _ ← identifier
  expectWord "in"
  let _ ← g (.type true)
  if ← eatWord "as" then
    let _ ← g (.type true)
  expectMark "]"

/-- An object type whose keys come from another type. -/
def mappedType (g : Rules) : Parse TypeExpr := do
  expectMark "\x7b"
  mappedModifier "readonly"
  mappedKey g
  mappedModifier "?"
  let _ ← annotation? g
  if ← atAnyMark [";", ","] then advance
  expectMark "\x7d"
  return .other

/-- The name of a tuple element with its colon. -/
def tupleLabel : Parse Unit := do
  let _ ← anyName
  let _ ← eatMark "?"
  expectMark ":"

def tupleElement (g : Rules) : Parse Unit := do
  let _ ← eatMark "..."
  let _ ← attempt tupleLabel
  let _ ← g (.type true)
  let _ ← eatMark "?"

/-- The parts of a template with substitutions; `part` reads one substitution. -/
def templateParts (part : Parse Unit) : Parse Unit := do
  loop do
    match ← token with
    | .template _ true => advance; return false
    | .template _ false =>
      advance
      part
      require (← atMark "\x7d")
      retakeTemplate
      return true
    | _ => fail

/-- What an importer is told about the module, after a comma. -/
def importOptions (g : Rules) : Parse Unit := do
  if ← eatMark "," then
    if !(← atMark ")") then
      g (.assignment true true)
      let _ ← eatMark ","

def importType (g : Rules) : Parse TypeExpr := do
  expectWord "import"
  expectMark "("
  let source ← stringLiteral
  importOptions g
  expectMark ")"
  let names ← dottedNames
  let args ← typeArgumentsHere g
  return if names.isEmpty then .other else .reference (some source) names args

/-- `typeof` of a name or of a module. -/
def typeQuery (g : Rules) : Parse TypeExpr := do
  expectWord "typeof"
  if ← atWord "import" then
    let _ ← importType g
  else
    let _ ← if ← atWord "this" then anyName else identifier
    loop do
      if ← eatMark "." then
        match ← token with
        | .privateName _ => advance
        | _ => let _ ← anyName
        return true
      else return false
    let _ ← typeArgumentsHere g
  return .other

def referenceType (g : Rules) : Parse TypeExpr := do
  let first ← if ← atAnyWord ["this", "const"] then anyName else identifier
  let names ← dottedNames
  let args ← typeArgumentsHere g
  return .reference none (first :: names) args

/-! ## Simple types -/

def keywordTypes : List (String × Keyword) :=
  [("any", .any), ("unknown", .unknown), ("boolean", .boolean), ("string", .string), ("number", .number),
   ("bigint", .bigint), ("undefined", .undefined), ("never", .never), ("object", .object), ("symbol", .symbol)]

/-- A type that starts with a word. -/
def wordType (g : Rules) (w : String) : Parse TypeExpr := do
  let dotted := (← nextToken) == .mark "."
  match if dotted then none else keywordTypes.lookup w with
  | some k => advance; return .keyword k
  | none =>
    if w == "void" then advance; return .keyword .void
    else if w == "null" then advance; return .keyword .null
    else if w == "true" then advance; return .literal (.boolean true)
    else if w == "false" then advance; return .literal (.boolean false)
    else if w == "this" && !dotted then advance; return .other
    else if w == "typeof" then typeQuery g
    else if w == "import" then importType g
    else referenceType g

def negativeNumber : Parse TypeExpr := do
  expectMark "-"
  match ← token with
  | .number x => advance; return .literal (.number x.neg)
  | .bigint _ => advance; return .other
  | _ => fail

def primaryType (g : Rules) : Parse TypeExpr := do
  match ← token with
  | .word w => wordType g w
  | .escapedWord _ => referenceType g
  | .string s => advance; return .literal (.string s)
  | .number x => advance; return .literal (.number x)
  | .bigint _ => advance; return .other
  | .template _ _ =>
    templateParts do
      let _ ← g (.type true)
    return .literal .template
  | .mark "-" => negativeNumber
  | .mark "\x7b" =>
    orElse (mappedType g) do
      expectMark "\x7b"
      return .object (← typeMembers g)
  | .mark "[" =>
    advance
    let _ ← commaList "]" (tupleElement g)
    return .other
  | .mark "(" =>
    advance
    let t ← g (.type true)
    expectMark ")"
    return t
  | _ => fail

/-- Array brackets and indices after a type, on the same line. -/
def typeBrackets (g : Rules) : Nat → TypeExpr → Parse TypeExpr
  | 0, t => return t
  | fuel + 1, t => do
    if (← sameLine) && (← atMark "[") then
      advance
      if ← eatMark "]" then typeBrackets g fuel (.array t)
      else
        let _ ← g (.type true)
        expectMark "]"
        typeBrackets g fuel .other
    else return t

/-- The bound of an inferred type, unless a conditional type goes on there. -/
def inferBound (g : Rules) (conditional : Bool) : Parse Unit := do
  expectWord "extends"
  let _ ← g (.type false)
  require (!conditional || !(← atMark "?"))

def operatorTypeRule (g : Rules) (conditional : Bool) : Parse TypeExpr := do
  if ← atAnyWord ["keyof", "unique"] then
    advance
    let _ ← g (.operatorType conditional)
    return .other
  else if ← eatWord "readonly" then g (.operatorType conditional)
  else if ← eatWord "infer" then
    let _ ← identifier
    let _ ← attempt (inferBound g conditional)
    return .other
  else
    let t ← primaryType g
    typeBrackets g (← rounds) t

/-- Types with a mark between them; the mark may also stand in front of the first. -/
def typeSeries (mark : String) (build : List TypeExpr → TypeExpr) (part : Parse TypeExpr) : Parse TypeExpr := do
  let leading ← eatMark mark
  let first ← part
  let others ← many (← rounds) do
    if ← eatMark mark then return some (← part) else return none
  return if others.isEmpty && !leading then first else build (first :: others)

def unionType (g : Rules) (conditional : Bool) : Parse TypeExpr :=
  typeSeries "|" .union (typeSeries "&" .intersection (g (.operatorType conditional)))

/-- A type that is not conditional. -/
def plainType (g : Rules) (conditional : Bool) : Parse TypeExpr := do
  let next ← nextToken
  if ← atMark "<" then functionType g conditional
  else if ((← atWord "new") && (next == .mark "(" || next == .mark "<"))
      || ((← atWord "abstract") && next == .word "new") then constructorType g conditional
  else if ← atMark "(" then orElse (functionType g conditional) (unionType g conditional)
  else unionType g conditional

def typeRule (g : Rules) (conditional : Bool) : Parse TypeExpr := do
  let t ← plainType g conditional
  if conditional && (← sameLine) && (← atWord "extends") then
    advance
    let _ ← g (.type false)
    expectMark "?"
    let _ ← g (.type true)
    expectMark ":"
    let _ ← g (.type true)
    return .other
  else return t

end PatternCatalog.Script
