/-
  PatternCatalog.Text.CharSet — sets of code points kept as sorted ranges, and maps from a
  code point to the text that replaces it.

  A set is written as the hexadecimal ranges `lo-hi` (or `lo` alone) in increasing order,
  divided by blanks. A map is written as runs: `lo-hi+d` adds `d` to each code point of the
  range, `lo:hi+d` to every second one, and `<d` in place of `+d` subtracts; the entries `c=x.y` replace `c` by several code points.
-/

namespace PatternCatalog.Text

def hexDigit? (c : Char) : Option Nat :=
  if '0' ≤ c ∧ c ≤ '9' then some (c.toNat - 48)
  else if 'a' ≤ c ∧ c ≤ 'f' then some (c.toNat - 87)
  else if 'A' ≤ c ∧ c ≤ 'F' then some (c.toNat - 55)
  else none

/-- Reads hexadecimal digits, most significant first; other characters are skipped. -/
def hexNat (s : List Char) : Nat :=
  s.foldl (fun n c => ((hexDigit? c).map (n * 16 + ·)).getD n) 0

/-- The items of lines in which blanks divide them. -/
def items (lines : List String) : List (List Char) := lines.flatMap fun line => line.toList.splitOn ' '

structure CharSet where
  ranges : Array (Nat × Nat)

namespace CharSet

def ofText (lines : List String) : CharSet :=
  ⟨((items lines).map fun item =>
    match item.splitOn '-' with
    | [lo, hi] => (hexNat lo, hexNat hi)
    | _ => (hexNat item, hexNat item)).toArray⟩

/-- Halves the interval `lo ≤ i < hi` of range indices until the code point is decided. -/
def search (ranges : Array (Nat × Nat)) (n : Nat) : Nat → Nat → Nat → Bool
  | 0, _, _ => false
  | steps + 1, lo, hi =>
    if hi ≤ lo then false
    else
      let mid := (lo + hi) / 2
      match ranges[mid]? with
      | none => false
      | some (a, b) =>
        if n < a then search ranges n steps lo mid
        else if b < n then search ranges n steps (mid + 1) hi
        else true

def contains (s : CharSet) (c : Char) : Bool :=
  search s.ranges c.toNat (s.ranges.size + 1) 0 s.ranges.size

end CharSet

structure CharRun where
  first : Nat
  last : Nat
  step : Nat
  shift : Int

structure CharMap where
  runs : Array CharRun
  special : List (Nat × List Char)

namespace CharMap

/-- The shift at the end of a run, with its sign. -/
def splitShift (item : List Char) : List Char × Int :=
  let body := item.takeWhile fun c => c != '+' && c != '<'
  let tail := item.drop body.length
  (body, if tail.head? == some '<' then -(hexNat tail : Int) else hexNat tail)

def runOfText (item : List Char) : CharRun :=
  let (body, shift) := splitShift item
  match body.splitOn '-', body.splitOn ':' with
  | [lo, hi], _ => ⟨hexNat lo, hexNat hi, 1, shift⟩
  | _, [lo, hi] => ⟨hexNat lo, hexNat hi, 2, shift⟩
  | _, _ => ⟨hexNat body, hexNat body, 1, shift⟩

def ofText (runs special : List String) : CharMap where
  runs := ((items runs).map runOfText).toArray
  special := (items special).filterMap fun item =>
    match item.splitOn '=' with
    | [c, image] => some (hexNat c, (image.splitOn '.').map fun x => Char.ofNat (hexNat x))
    | _ => none

/-- The image of a code point; one that is in no run and has no entry is its own image. -/
def apply (m : CharMap) (c : Char) : List Char :=
  let n := c.toNat
  match m.special.lookup n with
  | some image => image
  | none =>
    match m.runs.find? fun r => r.first ≤ n && n ≤ r.last && (n - r.first) % r.step == 0 with
    | some r => [Char.ofNat (n + r.shift).toNat]
    | none => [c]

end CharMap

end PatternCatalog.Text
