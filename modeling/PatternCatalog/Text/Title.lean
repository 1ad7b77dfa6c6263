/-
  PatternCatalog.Text.Title — the words of a name, capitalised and divided by single blanks.

  Words are the runs of letters and digits, cut again where a lower-case letter meets an
  upper-case one (`iconButton`) and before the last upper-case letter of a run that a
  lower-case letter follows (`HTMLView`).
-/

import PatternCatalog.Text.Letters

namespace PatternCatalog.Text

inductive CaseMode where
  | boundary
  | lower
  | upper
  deriving DecidableEq, Repr

/-- The mode after a character, when no word ends at it. -/
def CaseMode.after (mode : CaseMode) (c : Char) : CaseMode :=
  if isLower c then .lower else if isUpper c then .upper else mode

/-- Cuts one run of letters and digits; `word` holds the characters of the open word, newest first. -/
def cutWords (mode : CaseMode) (word : List Char) : List Char → List (List Char)
  | [] => []
  | [c] => [(c :: word).reverse]
  | c :: d :: r =>
    if mode.after c = .lower ∧ isUpper d then
      (c :: word).reverse :: cutWords .boundary [] (d :: r)
    else if mode = .upper ∧ isUpper c ∧ isLower d then
      word.reverse :: cutWords .boundary [c] (d :: r)
    else cutWords (mode.after c) (c :: word) (d :: r)

/-- The maximal runs of letters and digits, empty runs between two other characters included. -/
def alphanumericRuns : List Char → List (List Char)
  | [] => [[]]
  | c :: r =>
    if isAlphanumeric c then
      match alphanumericRuns r with
      | [] => [[c]]
      | w :: ws => (c :: w) :: ws
    else [] :: alphanumericRuns r

/-- Lower case, with the final form of sigma at the end of the text. -/
def lowerWord : List Char → List Char
  | [] => []
  | [c] => if c.toNat = 0x3A3 then [Char.ofNat 0x3C2] else toLower c
  | c :: r => toLower c ++ lowerWord r

def capitalize : List Char → List Char
  | [] => []
  | c :: r => toUpper c ++ lowerWord r

def titleWords (s : List Char) : List (List Char) :=
  ((alphanumericRuns s).flatMap (cutWords .boundary [])).map capitalize

/-- The words of the name in title case, divided by single blanks. -/
def titleCase (name : String) : String :=
  " ".intercalate ((titleWords name.toList).map String.ofList)

end PatternCatalog.Text
