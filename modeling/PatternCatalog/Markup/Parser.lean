/-
  PatternCatalog.Markup.Parser — reading a markup example.

  `parse` accepts imports, `export default` with an arrow function or a function declaration
  without arguments, and nothing after it but a semicolon. Loops carry fuel; the length of the
  text is enough, as every round consumes a character.
-/

import PatternCatalog.Markup.Scan

namespace PatternCatalog.Markup

open Text

/-! ## Elements -/

/-- `Name` or `Namespace.Name`. -/
def tagName (s : List Char) : Scan (List String × List Char) := do
  let (first, s) ← identifier s
  match eat? "." s with
  | some s =>
    let (second, s) ← identifier s
    return ([first, second], s)
  | none => return ([first], s)

def isAttributeChar (c : Char) : Bool := isNamePart c || c == '-' || c == ':'

def attributeName (s : List Char) : Scan (String × List Char) :=
  let name := s.takeWhile isAttributeChar
  if name = [] then .error (.expected "attribute name" s)
  else .ok (String.ofList name, s.dropWhile isAttributeChar)

/-- The value after an equals sign. Quoted text has no escapes here. -/
def attributeValue (s : List Char) : Scan (Option LiteralValue × List Char) :=
  let s := skipTrivia s
  match s with
  | c :: r =>
    if c = '"' ∨ c = '\'' then
      let value := r.takeWhile (· != c)
      match r.dropWhile (· != c) with
      | _ :: rest => .ok (some (.string (String.ofList value)), rest)
      | [] => .error (.expected "closing quote" r)
    else if c = '\x7b' then do
      let (inner, rest) ← groupBody 0 none [] r
      return (literalExpression? (trim inner), rest)
    else .error (.expected "attribute value" s)
  | [] => .error (.expected "attribute value" [])

/-- The attributes of a tag, up to its end; spread groups are skipped. -/
def attributes : Nat → List Char → Scan (List Attribute × List Char)
  | 0, s => .error (.expected "attribute name" s)
  | fuel + 1, s =>
    match skipTrivia s with
    | [] => .ok ([], [])
    | c :: r =>
      if c = '/' ∨ c = '>' then .ok ([], c :: r)
      else if c = '\x7b' then do
        let (_, r) ← groupBody 0 none [] r
        attributes fuel r
      else do
        let (name, s) ← attributeName (c :: r)
        let s := skipTrivia s
        match eat? "=" s with
        | some s =>
          let (value, s) ← attributeValue s
          let (others, s) ← attributes fuel s
          return (⟨name, value⟩ :: others, s)
        | none =>
          let (others, s) ← attributes fuel s
          return (⟨name, some (.boolean true)⟩ :: others, s)

mutual

/-- An element at a depth, counted from one. -/
def element (limit : Nat) : Nat → Nat → List Char → Scan (Node × List Char)
  | 0, _, s => .error (.expected "element" s)
  | fuel + 1, depth, s =>
    if limit < depth then .error (.tooDeep limit)
    else do
      let (_, s) ← expect "<" "element" s
      let (tag, s) ← tagName s
      let (attributes, s) ← attributes (s.length + 1) s
      let s := skipTrivia s
      match eat? "/>" s with
      | some s => return (⟨tag, attributes, []⟩, s)
      | none =>
        let (_, s) ← expect ">" "`>`" s
        let (children, s) ← children limit fuel depth tag s
        return (⟨tag, attributes, children⟩, s)

/-- The elements up to the closing tag; text and brace groups between them are skipped. -/
def children (limit : Nat) : Nat → Nat → List String → List Char → Scan (List Node × List Char)
  | 0, _, _, s => .error (.expected "closing tag" s)
  | fuel + 1, depth, tag, s =>
    match skipText s with
    | [] => .error (.expected "closing tag" [])
    | c :: r =>
      if c = '\x7b' then do
        let (_, r) ← groupBody 0 none [] r
        children limit fuel depth tag r
      else if r.head? = some '/' then do
        let (closed, s) ← tagName (r.drop 1)
        let (_, s) ← expect ">" "`>`" s
        if closed = tag then return ([], s)
        else .error (.mismatchedClose tag closed (c :: r))
      else do
        let (child, s) ← element limit fuel (depth + 1) (c :: r)
        let (others, s) ← children limit fuel depth tag s
        return (child :: others, s)

end

/-! ## Imports -/

/-- The bindings of a brace list, up to its closing brace. -/
def namedImports : Nat → List Char → Scan (List (String × Imported) × List Char)
  | 0, s => .error (.expected "identifier" s)
  | fuel + 1, s =>
    let s := skipTrivia s
    match eat? "\x7d" s with
    | some s => .ok ([], s)
    | none => do
      let (imported, s) ← identifier s
      let (name, s) ← match eatKeyword? "as" s with
        | some s => identifier s
        | none => .ok (imported, s)
      let binding := (name, Imported.ofName imported)
      let s := skipTrivia s
      match eat? "," s with
      | some s =>
        let (others, s) ← namedImports fuel s
        return (binding :: others, s)
      | none =>
        let (_, s) ← expect "\x7d" "`\x7d`" s
        return ([binding], s)

/-- The name after a star: `as Name`. -/
def namespaceImport (s : List Char) : Scan (List (String × Imported) × List Char) := do
  let (_, s) ← expectKeyword "as" s
  let (name, s) ← identifier s
  return ([(name, .namespace_)], s)

/-- A brace list or a star, if there is one. -/
def bindingGroup (s : List Char) : Scan (List (String × Imported) × List Char) :=
  match eat? "\x7b" s with
  | some s => namedImports (s.length + 1) s
  | none =>
    match eat? "*" s with
    | some s => namespaceImport s
    | none => .ok ([], s)

def importBindings (s : List Char) : Scan (List (String × Imported) × List Char) :=
  match eat? "*" s with
  | some s => namespaceImport s
  | none =>
    if s.head? = some '\x7b' then bindingGroup s
    else do
      let (name, s) ← identifier s
      let s := skipTrivia s
      let s := match eat? "," s with
        | some s => skipTrivia s
        | none => s
      let (others, s) ← bindingGroup s
      return ((name, .default_) :: others, s)

/-- An import after its keyword. -/
def importDeclaration (s : List Char) : Scan (List Import × List Char) :=
  let s := skipTrivia s
  if s.head? = some '"' ∨ s.head? = some '\'' then do
    let (_, s) ← stringLiteral s
    return ([], eatOptional ";" (skipTrivia s))
  else do
    let (bindings, s) ← importBindings s
    let (_, s) ← expectKeyword "from" s
    let (source, s) ← stringLiteral (skipTrivia s)
    return (bindings.map fun (name, imported) => ⟨name, source, imported⟩, eatOptional ";" (skipTrivia s))

def imports : Nat → List Char → Scan (List Import × List Char)
  | 0, s => .ok ([], s)
  | fuel + 1, s =>
    match eatKeyword? "import" s with
    | some s => do
      let (first, s) ← importDeclaration s
      let (others, s) ← imports fuel s
      return (first ++ others, s)
    | none => .ok ([], skipTrivia s)

/-! ## Modules -/

/-- An element, which may stand in parentheses. -/
def elementExpression (limit : Nat) : Nat → List Char → Scan (Node × List Char)
  | 0, s => .error (.expected "element" s)
  | fuel + 1, s =>
    let s := skipTrivia s
    match eat? "(" s with
    | some s => do
      let (node, s) ← elementExpression limit fuel s
      let (_, s) ← expect ")" "`)`" s
      return (node, s)
    | none => element limit (s.length + 1) 1 s

/-- A function body after its opening brace. -/
def block (limit : Nat) (s : List Char) : Scan (Node × List Char) := do
  let (_, s) ← expectKeyword "return" s
  let (node, s) ← elementExpression limit (s.length + 1) s
  let (_, s) ← expect "\x7d" "`\x7d`" (eatOptional ";" (skipTrivia s))
  return (node, s)

def noArguments (s : List Char) : Scan (Unit × List Char) := do
  let (_, s) ← expect "(" "`(`" s
  expect ")" "argument-free function" s

def componentFunction (limit : Nat) (s : List Char) : Scan (Node × List Char) :=
  match eatKeyword? "function" s with
  | some s => do
    let s := ((identifier? s).map (·.2)).getD (skipTrivia s)
    let (_, s) ← noArguments s
    let (_, s) ← expect "\x7b" "`\x7b`" s
    block limit s
  | none => do
    let (_, s) ← noArguments s
    let (_, s) ← expect "=>" "`=>`" s
    let s := skipTrivia s
    match eat? "\x7b" s with
    | some s => block limit s
    | none => elementExpression limit (s.length + 1) s

def module (limit : Nat) (s : List Char) : Except Failure Module := do
  let (imports, s) ← imports (s.length + 1) s
  let (_, s) ← expectKeyword "export" s
  let (_, s) ← expectKeyword "default" s
  let (root, s) ← componentFunction limit s
  let s := skipTrivia (eatOptional ";" (skipTrivia s))
  if s = [] then return ⟨imports, root⟩
  else .error (.expected "end of example" s)

/-- Reads an example in which elements nest at most `limit` deep. -/
def parse (source : String) (limit : Nat) : Except Error Module :=
  let s := source.toList
  (module limit s).mapError (Failure.error (octets s))

end PatternCatalog.Markup
