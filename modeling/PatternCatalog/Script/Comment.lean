/-
  PatternCatalog.Script.Comment — comments between tokens, and where documentation goes.

  A comment leads to the token after it, unless a line break follows it while none stands
  before it since the previous token; then it trails that token (`Gap.leading`). Documentation
  is a leading block comment whose text starts with a star and is not stars alone. The first
  such comment with a file tag documents the file; of the others each belongs to the token it
  leads to, the first one if there are several (`DocTable.ofComments`).
-/

import PatternCatalog.Script.Token
import PatternCatalog.Text.Blank

namespace PatternCatalog.Script

open Text

/-! ## Gaps between tokens -/

/-- A block comment: its text without the marks around it, and whether a line break stands
between the previous token and it. -/
structure GapComment where
  text : List Char
  afterBreak : Bool
  deriving DecidableEq, Repr

/-- What stands between two tokens. -/
structure Gap where
  /-- A line break outside comments. -/
  broken : Bool := false
  /-- Any line break. -/
  newline : Bool := false
  /-- Block comments, newest first. -/
  comments : List GapComment := []
  deriving DecidableEq, Repr

/-- Where a walk through a gap stands. -/
inductive GapMode where
  | blank
  | line
  /-- Inside a block comment; its text so far, newest first. -/
  | block (text : List Char)
  deriving DecidableEq, Repr

namespace Gap

/-- A line break outside comments. -/
def break_ (g : Gap) : Gap := { g with broken := true, newline := true }

def addComment (g : Gap) (text : List Char) : Gap :=
  { g with newline := g.newline || text.any Token.isLineBreak, comments := ⟨text, g.broken⟩ :: g.comments }

/-- Walks to the end of a gap, where the rest of the text starts. A comment that does not end is
left as it stands; its opening mark is no token. -/
def walk (g : Gap) : GapMode → List Char → Gap × List Char
  | .block text, '*' :: '/' :: r => walk (g.addComment text.reverse) .blank r
  | .block text, c :: r => walk g (.block (c :: text)) r
  | .block text, [] => (g, '/' :: '*' :: text.reverse)
  | .line, c :: r => if Token.isLineBreak c then walk g.break_ .blank r else walk g .line r
  | .blank, '/' :: '/' :: r => walk g .line r
  | .blank, '/' :: '*' :: r => walk g (.block []) r
  | .blank, c :: r =>
    if Token.isLineBreak c then walk g.break_ .blank r
    else if Token.isSpace c then walk g .blank r
    else (g, c :: r)
  | _, [] => (g, [])

/-- The gap at the start of a text, and what follows it. -/
def after (s : List Char) : Gap × List Char := walk {} .blank s

end Gap

/-- The comments that lead to the next token, in order. Nothing trails at the start of a file. -/
def Gap.leading (g : Gap) (atFileStart : Bool) : List (List Char) :=
  let cs := g.comments.reverse
  ((if g.broken && !atFileStart then cs.filter (·.afterBreak) else cs)).map (·.text)

/-! ## Documentation -/

/-- A leading block comment with the offset of the token it leads to. -/
structure Comment where
  text : List Char
  target : Nat
  deriving DecidableEq, Repr

def Comment.isDoc (c : Comment) : Bool := c.text.head? == some '*' && !c.text.all (· == '*')

/-- The tags that mark the comment of a file. -/
def fileTags : List String := ["@packageDocumentation", "@module", "@file"]

def Comment.hasFileTag (c : Comment) : Bool := fileTags.any fun tag => containsText tag.toList c.text

structure DocTable where
  fileDoc : Option String := none
  /-- Offsets of tokens and their documentation, newest first. -/
  attached : List (Nat × String) := []
  deriving DecidableEq, Repr

namespace DocTable

/-- The documentation of the token at an offset. -/
def docAt? (t : DocTable) (offset : Nat) : Option String := t.attached.lookup offset

def add (t : DocTable) (c : Comment) : DocTable :=
  if !c.isDoc then t
  else if t.fileDoc.isNone ∧ c.hasFileTag then { t with fileDoc := some (String.ofList c.text) }
  else if (t.docAt? c.target).isSome then t
  else { t with attached := (c.target, String.ofList c.text) :: t.attached }

def ofComments (cs : List Comment) : DocTable := cs.foldl add {}

theorem ofComments_append (cs ds : List Comment) : ofComments (cs ++ ds) = ds.foldl add (ofComments cs) :=
  List.foldl_append

end DocTable

end PatternCatalog.Script
