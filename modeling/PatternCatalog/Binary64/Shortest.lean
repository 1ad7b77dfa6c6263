/-
  PatternCatalog.Binary64.Shortest — the shortest decimal that reads back as a number.

  Between two neighbouring numbers lies a midpoint; the reals that round to a number are those
  between its two midpoints, which belong to it when its mantissa is even. For 1, 2, … 17
  digits the two decimals next to the number are tried, and the first that lies in this
  interval is taken, the nearer one if both do.
-/

import PatternCatalog.Binary64

namespace PatternCatalog.Binary64

/-- Digits and a power of ten: `digits * 10^exponent`. -/
structure Decimal where
  digits : Nat
  exponent : Int
  deriving DecidableEq, Repr

/-- The reals that round to a number, as numerators over one denominator. -/
structure Interval where
  low : Nat
  value : Nat
  high : Nat
  den : Nat
  closed : Bool

def interval (m : Nat) (e : Int) : Interval :=
  let below := if m = Nat.pow 2 52 ∧ -1074 < e then 1 else 2
  let up := Nat.pow 2 e.toNat
  ⟨(4 * m - below) * up, 4 * m * up, (4 * m + 2) * up, 4 * Nat.pow 2 (-e).toNat, m % 2 == 0⟩

/-- Whether `c * 10^k` lies in the interval. -/
def Interval.holds (i : Interval) (c : Nat) (k : Int) : Bool :=
  let x := c * Nat.pow 10 k.toNat * i.den
  let unit := Nat.pow 10 (-k).toNat
  if i.closed then i.low * unit ≤ x && x ≤ i.high * unit else i.low * unit < x && x < i.high * unit

/-- The decimal in the interval with steps of `10^k` that is next to the value, if there is one. -/
def Interval.onGrid? (i : Interval) (k : Int) : Option Decimal :=
  let num := i.value * Nat.pow 10 (-k).toNat
  let den := i.den * Nat.pow 10 k.toNat
  let c := num / den
  let nearer := roundDiv num den
  let other := if nearer = c then c + 1 else c
  if i.holds nearer k then some ⟨nearer, k⟩
  else if i.holds other k then some ⟨other, k⟩
  else none

/-- The power of ten of the first digit of `num / den`, plus one. -/
def decimalSize (num den : Nat) : Int :=
  if den ≤ num then ((Nat.toDigits 10 (num / den)).length : Int)
  else
    let q := den / num
    let n := (Nat.toDigits 10 q).length
    -- 10^(n-1) ≤ q < 10^n, so the quotient is at most 10^-(n-1)
    if num * Nat.pow 10 (n - 1) = den then 2 - n else 1 - (n : Int)

/-- Drops zeros at the end of the digits, at most as many as there are steps. -/
def Decimal.trim : Nat → Decimal → Decimal
  | 0, d => d
  | steps + 1, d =>
    if d.digits ≠ 0 ∧ d.digits % 10 = 0 then trim steps ⟨d.digits / 10, d.exponent + 1⟩ else d

/-- The shortest decimal for the magnitude of a finite number. -/
def shortest (m : Nat) (e : Int) : Decimal :=
  if m = 0 then ⟨0, 0⟩
  else
    let i := interval m e
    let size := decimalSize i.value i.den
    ((List.range 17).findSome? fun (n : Nat) => (i.onGrid? (size - (n + 1))).map (Decimal.trim 20)).getD ⟨0, 0⟩

end PatternCatalog.Binary64
