/-
  PatternCatalog.Text.Blank — blanks, trimming and lines.

  Blanks are the 25 code points with the property White_Space. A line ends at a line feed,
  and a carriage return just before it belongs to the line end; text after the last line
  feed is a line only when there is some (`lines`).
-/

import PatternCatalog.Total

namespace PatternCatalog.Text

def isBlank (c : Char) : Bool :=
  let n := c.toNat
  (9 ≤ n && n ≤ 13) || n == 0x20 || n == 0x85 || n == 0xA0 || n == 0x1680 ||
    (0x2000 ≤ n && n ≤ 0x200A) || n == 0x2028 || n == 0x2029 || n == 0x202F || n == 0x205F || n == 0x3000

def trimStart (s : List Char) : List Char := s.dropWhile isBlank

def trimEnd (s : List Char) : List Char := (s.reverse.dropWhile isBlank).reverse

def trim (s : List Char) : List Char := trimEnd (trimStart s)

def lines : List Char → List (List Char)
  | [] => []
  | '\n' :: r => [] :: lines r
  | '\r' :: '\n' :: r => [] :: lines r
  | c :: r =>
    match lines r with
    | [] => [[c]]
    | l :: ls => (c :: l) :: ls

/-- Joins lines by line feeds. -/
def unlines : List (List Char) → List Char
  | [] => []
  | [l] => l
  | l :: ls => l ++ '\n' :: unlines ls

/-- The text without the given end, if it has that end. -/
def dropEnd? (s tail : List Char) : Option (List Char) :=
  if tail.isSuffixOf s then some (s.take (s.length - tail.length)) else none

/-- The text after the given start, if it has that start. -/
def dropStart? (s head : List Char) : Option (List Char) :=
  if head.isPrefixOf s then some (s.drop head.length) else none

/-- Whether the part occurs in the text. -/
def containsText (part : List Char) : List Char → Bool
  | [] => part.isEmpty
  | c :: r => part.isPrefixOf (c :: r) || containsText part r

/-- Number of octets of the text in UTF-8. -/
def octets (s : List Char) : Nat := total (s.map Char.utf8Size)

theorem octets_append (s t : List Char) : octets (s ++ t) = octets s + octets t := by
  rw [octets, octets, octets, List.map_append, total_append]

theorem octets_cons (c : Char) (s : List Char) : octets (c :: s) = c.utf8Size + octets s := rfl

theorem octets_le_of_suffix {s t : List Char} (h : s <:+ t) : octets s ≤ octets t := by
  obtain ⟨u, rfl⟩ := h
  rw [octets_append]
  exact Nat.le_add_left _ _

theorem octets_tail_lt {s : List Char} (h : s ≠ []) : octets s.tail < octets s := by
  cases s with
  | nil => exact absurd rfl h
  | cons c s =>
    have hc := c.utf8Size_pos
    rw [octets_cons, List.tail_cons]
    omega

end PatternCatalog.Text
