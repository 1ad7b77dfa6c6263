/-
  PatternCatalog.Script.Elements — markup elements as expressions.

  Text between elements is skipped to the next element or brace. Of the names only those that
  refer to something are mentioned: a tag name that does not start with a lower-case letter,
  and the first name of a dotted tag.
-/

import PatternCatalog.Script.Types

namespace PatternCatalog.Script

open Parse

/-- A name of markup, in which hyphens are letters; it is not mentioned. -/
def markupName : Parse String := do
  require ((wordText? (← token)).isSome)
  let r ← read
  let text := r.here.takeWhile fun c => Text.isScriptIdPart c || c == '-'
  retakeAs (.word (String.ofList text)) text.length
  advance
  return String.ofList text

def refersTo (name : String) : Bool :=
  match name.toList with
  | c :: _ => !('a' ≤ c && c ≤ 'z') && !name.toList.contains '-'
  | [] => false

/-- The name of an element. -/
def elementName : Parse Unit := do
  let first ← markupName
  if ← eatMark ":" then
    let _ ← markupName
  else if ← atMark "." then
    mention first
    loop do
      if ← eatMark "." then
        let _ ← markupName
        return true
      else return false
  else if refersTo first then mention first

/-- A quoted attribute value after the equals sign, which is the current token. Quotes have no
escapes here. -/
def quotedValue : Parse Bool := fun r =>
  match hvalue : (Gap.after r.rest).2 with
  | c :: s =>
    if c = '"' ∨ c = '\'' then
      match hclose : s.dropWhile (· != c) with
      | quote :: rest =>
        have hs : s <:+ r.here :=
          ((List.suffix_cons c s).trans (hvalue ▸ Gap.after_suffix r.rest)).trans r.rest_suffix
        some (true, r.skipTo rest
          (((List.suffix_cons quote rest).trans (hclose ▸ List.dropWhile_suffix _)).trans hs))
      | [] => none
    else some (false, ⟨r, .refl r⟩)
  | [] => none

/-- An expression in braces after the opening one, up to the closing one, which is not taken. -/
def bracedExpression (g : Rules) : Parse Unit := do
  if !(← atMark "\x7d") then
    let _ ← eatMark "..."
    g (.expression true)
  require (← atMark "\x7d")

def attributeValue (g : Rules) : Parse Unit := do
  if !(← quotedValue) then
    advance
    if ← eatMark "\x7b" then
      bracedExpression g
      advance
    else
      require (← atMark "<")
      g .element
      advance

def markupAttribute (g : Rules) : Parse Bool := do
  if ← eatMark "\x7b" then
    bracedExpression g
    advance
    return true
  else if (wordText? (← token)).isSome then
    let _ ← markupName
    if ← eatMark ":" then
      let _ ← markupName
    if ← atMark "=" then attributeValue g
    return true
  else return false

/-- Skips text after the current token. -/
def skipMarkupText : Parse Unit := fun r =>
  some ((), r.skipTo (r.rest.dropWhile fun c => c != '<' && c != '\x7b')
    ((List.dropWhile_suffix _).trans r.rest_suffix))

/-- One child, or the closing tag up to its last mark. Text in front of it is skipped. -/
def child (g : Rules) : Parse Bool := do
  skipMarkupText
  if ← eatMark "\x7b" then
    bracedExpression g
    return true
  else
    require (← atMark "<")
    if (← nextToken) == .mark "/" then
      advance
      advance
      if !(← atMark ">") then elementName
      require (← atMark ">")
      return false
    else
      g .element
      return true

def elementRule (g : Rules) : Parse Unit := do
  expectMark "<"
  if ← atMark ">" then loop (child g)
  else
    elementName
    if ← types then
      let _ ← typeArgumentsHere g
    loop (markupAttribute g)
    if ← eatMark "/" then require (← atMark ">")
    else
      require (← atMark ">")
      loop (child g)

end PatternCatalog.Script
