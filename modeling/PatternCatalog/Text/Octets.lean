/-
  PatternCatalog.Text.Octets — places of a text, counted in octets of its UTF-8 form.
-/

import PatternCatalog.Text.Blank

namespace PatternCatalog.Text

/-- A text split after some octets; none where that is in the middle of a character or beyond the text. -/
def splitOctets? : Nat → List Char → Option (List Char × List Char)
  | 0, s => some ([], s)
  | _ + 1, [] => none
  | n + 1, c :: s =>
    if c.utf8Size ≤ n + 1 then (splitOctets? (n + 1 - c.utf8Size) s).map fun (u, v) => (c :: u, v) else none

theorem splitOctets?_zero (s : List Char) : splitOctets? 0 s = some ([], s) := by
  cases s <;> rfl

/-- The octet at which a part first occurs in a text. -/
def offset? (part : List Char) : List Char → Option Nat
  | [] => if part = [] then some 0 else none
  | c :: s => if part.isPrefixOf (c :: s) then some 0 else (offset? part s).map (c.utf8Size + ·)

end PatternCatalog.Text
