/-
  PatternCatalog.Script.Grammar — the items of a script.

  The rules of the goals call each other through `Rules`; `run` ties them together with a depth
  that bounds how deeply the goals nest. Every goal but the first takes a token before it comes
  back to itself, so that a depth of several times the length of the text is never the limit.
-/

import PatternCatalog.Script.Elements
import PatternCatalog.Script.Statements

namespace PatternCatalog

namespace Script

open Parse

/-- The rule of a goal, over the parsers of all goals. -/
def rule (g : Rules) : Rules
  | .type conditional => typeRule g conditional
  | .operatorType conditional => operatorTypeRule g conditional
  | .pattern => patternRule g
  | .expression allowIn => expressionRule g allowIn
  | .assignment allowIn arrowTypes => assignmentRule g allowIn arrowTypes
  | .unary => unaryRule g
  | .access => accessRule g
  | .element => elementRule g
  | .statement => statementRule g

/-- The parsers of all goals, nested at most so deep. -/
def run : Nat → Rules
  | 0, _ => fail
  | depth + 1, goal => rule (run depth) goal

/-- A bound for the nesting of goals in a text. -/
def nesting (s : List Char) : Nat := 8 * s.length + 64

/-- One top-level statement with the names it mentions; none at the end. -/
def item? (g : Rules) : Parse (Option Item) := do
  if (← token) == .eof then return none
  modifyMentions fun _ => []
  let start ← position
  let statement ← g .statement
  return some ⟨start, statement, (← read).mentions.reverse⟩

/-- All top-level statements. -/
def itemList (g : Rules) : Parse (List Item) := do
  let items ← many (← rounds) (item? g)
  require ((← token) == .eof)
  return items

end Script

/-- The statements of a text and the comments that lead to its tokens. -/
structure Script where
  items : List Script.Item
  comments : List Script.Comment
  deriving BEq, Repr

def Script.docs (s : Script) : Script.DocTable := .ofComments s.comments

/-- Reads a text as a whole; none if it is outside the grammar. -/
def Script.parse? (dialect : Dialect) (s : String) : Option Script :=
  let text := s.toList
  (itemList (run (nesting text)) (Reader.ofText dialect text)).map fun (items, r) => ⟨items, r.1.comments.reverse⟩

end PatternCatalog
