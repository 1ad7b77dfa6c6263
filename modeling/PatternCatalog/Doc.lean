/-
  PatternCatalog.Doc — documentation comments.

  The text between `/*` and `*/` is read line by line, each without its gutter: blanks, one
  star, one space. A line that starts with `@name` opens a tag, and the lines up to the next
  tag belong to it; the lines before the first tag are the description. Inside a fence of
  backticks or tildes no line opens a tag. `defaultBlock?` finds the fenced block that follows
  a line holding just `@default`, the last one if there are several.
-/

import PatternCatalog.Text.Blank
import PatternCatalog.Text.Letters

namespace PatternCatalog.Doc

open Text

/-! ## Lines -/

/-- A line without its gutter. -/
def dropGutter (line : List Char) : List Char :=
  let line := trimStart line
  let line := match line with
    | '*' :: r => r
    | r => r
  let line := match line with
    | ' ' :: r => r
    | r => r
  trimEnd line

def commentLines (raw : String) : List (List Char) := (lines raw.toList).map dropGutter

/-! ## Fences -/

/-- The fence that a trimmed line starts with: three or more backticks, or tildes. -/
def fenceMarker? : List Char → Option (List Char)
  | [] => none
  | c :: r =>
    if c = '\x60' ∨ c = '~' then
      let run := c :: r.takeWhile (· == c)
      if 3 ≤ run.length then some run else none
    else none

/-- The open fence after a trimmed line. A marker closes the fence when it starts with the opening one. -/
def feedFence (fence : Option (List Char)) (line : List Char) : Option (List Char) :=
  match fenceMarker? line, fence with
  | none, fence => fence
  | some marker, some opened => if opened.isPrefixOf marker then none else some opened
  | some marker, none => some marker

/-! ## Tags -/

structure Tag where
  name : String
  text : String
  deriving DecidableEq, Repr

structure Comment where
  description : String
  tags : List Tag
  deriving DecidableEq, Repr

def Comment.empty : Comment := ⟨"", []⟩

def isTagChar (c : Char) : Bool := isWord c || c == '-'

/-- The tag that a trimmed line opens: its name and what follows on the line. -/
def tagLine? : List Char → Option (List Char × List (List Char))
  | '@' :: c :: r =>
    if c.isAlpha then
      let name := c :: r.takeWhile isTagChar
      match r.dropWhile isTagChar with
      | [] => some (name, [])
      | d :: rest => if isBlank d then some (name, [trimStart (d :: rest)]) else none
    else none
  | _ => none

/-- What has been read of a comment; lines and tags are kept newest first. -/
structure Reading where
  fence : Option (List Char) := none
  description : List (List Char) := []
  tags : List (List Char × List (List Char)) := []

def Reading.step (r : Reading) (line : List Char) : Reading :=
  let trimmed := trim line
  match if r.fence.isSome then none else tagLine? trimmed with
  | some tag => { r with tags := tag :: r.tags }
  | none =>
    let fence := feedFence r.fence trimmed
    match r.tags with
    | (name, ls) :: tags => { r with fence, tags := (name, line :: ls) :: tags }
    | [] => { r with fence, description := line :: r.description }

/-- Lines kept newest first, as one trimmed text. -/
def joinLines (ls : List (List Char)) : String := String.ofList (trim (unlines ls.reverse))

def Reading.comment (r : Reading) : Comment where
  description := joinLines r.description
  tags := r.tags.reverse.map fun (name, ls) => ⟨String.ofList name, joinLines ls⟩

def parse (raw : String) : Comment := ((commentLines raw).foldl Reading.step {}).comment

/-- The comment of an optional text. -/
def parse? (raw : Option String) : Comment := (raw.map parse).getD .empty

namespace Comment

/-- The text of the first tag of a name. -/
def tag? (c : Comment) (name : String) : Option String := (c.tags.find? (·.name == name)).map (·.text)

def hasTag (c : Comment) (name : String) : Bool := c.tags.any (·.name == name)

/-- The text of the first tag of a name, unless it is empty. -/
def tagText? (c : Comment) (name : String) : Option String := (c.tag? name).filter (· != "")

/-- The text of `@description`, or else the lines before the first tag. -/
def resolvedDescription (c : Comment) : String := (c.tagText? "description").getD c.description

end Comment

/-! ## Default blocks -/

inductive BlockMode where
  | text
  /-- After a `@default` line, with nothing but blank lines since. -/
  | awaiting
  /-- Inside a default block; its lines so far, newest first. -/
  | body (marker : List Char) (lines : List (List Char))
  deriving DecidableEq, Repr

structure BlockScan where
  fence : Option (List Char) := none
  mode : BlockMode := .text
  /-- Whether a line here starts a paragraph. -/
  afterBlank : Bool := true
  found : Option (List (List Char)) := none

/-- A line of ordinary text. -/
def BlockScan.textLine (s : BlockScan) (trimmed : List Char) : BlockScan :=
  if s.fence.isNone ∧ trimmed = "@default".toList ∧ s.afterBlank then
    { s with mode := .awaiting, afterBlank := false }
  else
    { s with mode := .text, fence := feedFence s.fence trimmed, afterBlank := trimmed.isEmpty }

def BlockScan.step (s : BlockScan) (line : List Char) : BlockScan :=
  let trimmed := trim line
  match s.mode with
  | .text => s.textLine trimmed
  | .awaiting =>
    match trimmed, fenceMarker? trimmed with
    | [], _ => { s with afterBlank := true }
    | _, some marker => { s with mode := .body marker [] }
    | _, none => s.textLine trimmed
  | .body marker ls =>
    if marker.isPrefixOf trimmed then
      { s with mode := .text, afterBlank := false, found := some ls.reverse }
    else { s with mode := .body marker (line :: ls) }

/-- The lines of the last default block of a comment, joined. -/
def defaultBlock? (raw : String) : Option String :=
  (((commentLines raw).foldl BlockScan.step {}).found).map fun ls => String.ofList (unlines ls)

end PatternCatalog.Doc
