/-
  PatternCatalog.Binary64.Text — decimal text of a number, written and read.

  Written: the shortest digits that read back; with a point and no exponent for magnitudes from
  10^-5 up to below 10^16, otherwise with one digit before the point and an exponent (`1e-7`,
  `1.5e+21`). Read: an optional sign, then digits with an optional point (a digit on one side
  is enough) and an optional exponent, or one of the words `inf`, `infinity`, `nan` in any case.
-/

import PatternCatalog.Binary64.Shortest

namespace PatternCatalog.Binary64

def digitText (n : Nat) : List Char := Nat.toDigits 10 n

/-- The text of a decimal that is not zero. -/
def Decimal.text (d : Decimal) : List Char :=
  let ds := digitText d.digits
  let point : Int := ds.length + d.exponent
  if 0 ≤ d.exponent ∧ point ≤ 16 then
    ds ++ List.replicate d.exponent.toNat '0' ++ ['.', '0']
  else if 0 < point ∧ point ≤ 16 then
    ds.take point.toNat ++ '.' :: ds.drop point.toNat
  else if -5 < point ∧ point ≤ 0 then
    '0' :: '.' :: List.replicate (-point).toNat '0' ++ ds
  else
    let power := point - 1
    let mantissa := match ds with
      | [] => []
      | [c] => [c]
      | c :: r => c :: '.' :: r
    mantissa ++ 'e' :: (if power < 0 then '-' else '+') :: digitText power.natAbs

/-- The text of a finite number; the others have none. -/
def text? : Binary64 → Option (List Char)
  | .finite s m e =>
    let body := if m = 0 then ['0', '.', '0'] else (shortest m e).text
    some (if s then '-' :: body else body)
  | _ => none

/-- The text of a decimal without an exponent, and without a point where it is whole. -/
def Decimal.plainText (d : Decimal) : List Char :=
  let ds := digitText d.digits
  let point : Int := ds.length + d.exponent
  if 0 ≤ d.exponent then ds ++ List.replicate d.exponent.toNat '0'
  else if 0 < point then ds.take point.toNat ++ '.' :: ds.drop point.toNat
  else '0' :: '.' :: List.replicate (-point).toNat '0' ++ ds

/-- The text of a number without an exponent. -/
def plainText : Binary64 → String
  | .nan => "NaN"
  | .infinite s => if s then "-inf" else "inf"
  | .finite s m e =>
    let body := if m = 0 then ['0'] else (shortest m e).plainText
    String.ofList (if s then '-' :: body else body)

/-! ## Reading -/

/-- The value of decimal digits, most significant first. -/
def natOfDigits (ds : List Char) : Nat := ds.foldl (fun n c => n * 10 + (c.toNat - 48)) 0

/-- An exponent part up to the end of the text: a mark, an optional sign and digits, or nothing. -/
def readExponent? : List Char → Option Int
  | [] => some 0
  | c :: r =>
    if c = 'e' ∨ c = 'E' then
      let (minus, ds) := match r with
        | '-' :: r => (true, r)
        | '+' :: r => (false, r)
        | r => (false, r)
      if ds ≠ [] ∧ ds.all Char.isDigit then
        some (if minus then -(natOfDigits ds : Int) else natOfDigits ds)
      else none
    else none

def readMagnitude? (negative : Bool) (s : List Char) : Option Binary64 :=
  let whole := s.takeWhile Char.isDigit
  let rest := s.dropWhile Char.isDigit
  let (part, rest) := match rest with
    | '.' :: r => (r.takeWhile Char.isDigit, r.dropWhile Char.isDigit)
    | r => ([], r)
  if whole = [] ∧ part = [] then none
  else (readExponent? rest).map fun e => ofDecimal negative (natOfDigits (whole ++ part)) (e - part.length)

def read? (s : List Char) : Option Binary64 :=
  let (negative, body) := match s with
    | '-' :: r => (true, r)
    | '+' :: r => (false, r)
    | r => (false, r)
  let word := String.ofList (body.map Char.toLower)
  if word = "inf" ∨ word = "infinity" then some (.infinite negative)
  else if word = "nan" then some .nan
  else readMagnitude? negative body

end PatternCatalog.Binary64
