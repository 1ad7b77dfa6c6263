/-
  PatternCatalog.Binary64 — binary floating-point numbers of 53 significant bits, exactly.

  A finite number is a sign, a mantissa below 2^53 and an exponent: its magnitude is
  `mantissa * 2^exponent`. Every operation computes the exact rational result and rounds it
  once, to the nearest representable number and to the even mantissa on a tie (`ofRatio`).
  Exponents run from -1074 to 971, and the mantissa is at least 2^52 unless the exponent is
  the least one, so each number has one form.
-/

namespace PatternCatalog

inductive Binary64 where
  | nan
  | infinite (negative : Bool)
  | finite (negative : Bool) (mantissa : Nat) (exponent : Int)
  deriving DecidableEq, Repr, Inhabited

namespace Binary64

def zero (negative : Bool) : Binary64 := .finite negative 0 (-1074)

/-- The quotient rounded to the nearest integer, ties to the even one. -/
def roundDiv (num den : Nat) : Nat :=
  let q := num / den
  let r := num % den
  if 2 * r < den then q else if den < 2 * r then q + 1 else q + q % 2

/-- Numerator and denominator of `num / den / 2^e`. -/
def scaleDown (num den : Nat) (e : Int) : Nat × Nat :=
  if 0 ≤ e then (num, den * Nat.pow 2 e.toNat) else (num * Nat.pow 2 (-e).toNat, den)

/-- The exponent at which the integer part of `num / den / 2^e` has 53 bits, but at least -1074. -/
def exponentFor (num den : Nat) : Int :=
  let guess : Int := (Nat.log2 num : Int) - Nat.log2 den - 52
  let (n, d) := scaleDown num den guess
  let exact := if n / d < Nat.pow 2 52 then guess - 1 else guess
  max exact (-1074)

/-- The representable number nearest to a quotient of natural numbers. -/
def ofRatio (negative : Bool) (num den : Nat) : Binary64 :=
  if num = 0 ∨ den = 0 then zero negative
  else
    let e := exponentFor num den
    let (n, d) := scaleDown num den e
    let m := roundDiv n d
    let (m, e) := if m = Nat.pow 2 53 then (Nat.pow 2 52, e + 1) else (m, e)
    if 971 < e then .infinite negative else .finite negative m e

def ofNat (n : Nat) : Binary64 := ofRatio false n 1

def ofInt (i : Int) : Binary64 := ofRatio (i < 0) i.natAbs 1

/-- The number nearest to `digits * 10^exponent`; exponents far out of range are decided by length. -/
def ofDecimal (negative : Bool) (digits : Nat) (exponent : Int) : Binary64 :=
  let size : Int := (Nat.toDigits 10 digits).length + exponent
  if digits = 0 then zero negative
  else if 310 < size then .infinite negative
  else if size < -330 then zero negative
  else if 0 ≤ exponent then ofRatio negative (digits * Nat.pow 10 exponent.toNat) 1
  else ofRatio negative digits (Nat.pow 10 (-exponent).toNat)

/-! ## Tests and conversions -/

def isFinite : Binary64 → Bool
  | .finite .. => true
  | _ => false

def isZero : Binary64 → Bool
  | .finite _ 0 _ => true
  | _ => false

def neg : Binary64 → Binary64
  | .nan => .nan
  | .infinite s => .infinite (!s)
  | .finite s m e => .finite (!s) m e

/-- Equality of values: both zeros are equal, and nothing equals a value that is not a number. -/
def eqv (x y : Binary64) : Bool :=
  match x, y with
  | .nan, _ | _, .nan => false
  | x, y => x == y || (x.isZero && y.isZero)

/-- The magnitude of a finite number as a quotient. -/
def ratio (m : Nat) (e : Int) : Nat × Nat :=
  if 0 ≤ e then (m * Nat.pow 2 e.toNat, 1) else (m, Nat.pow 2 (-e).toNat)

/-- The integer part, toward zero, held within the signed 64-bit integers. -/
def truncate : Binary64 → Int
  | .nan => 0
  | .infinite s => if s then -Int.pow 2 63 else Int.pow 2 63 - 1
  | .finite s m e =>
    let (n, d) := ratio m e
    let i : Int := if s then -(n / d : Nat) else (n / d : Nat)
    max (-Int.pow 2 63) (min i (Int.pow 2 63 - 1))

/-! ## Arithmetic -/

/-- The signed numerator of a finite number over the denominator `2^1074`. -/
def overLeast (s : Bool) (m : Nat) (e : Int) : Int :=
  let n : Int := (m * Nat.pow 2 (e + 1074).toNat : Nat)
  if s then -n else n

def add (x y : Binary64) : Binary64 :=
  match x, y with
  | .nan, _ | _, .nan => .nan
  | .infinite s, .infinite t => if s = t then .infinite s else .nan
  | .infinite s, _ => .infinite s
  | _, .infinite t => .infinite t
  | .finite s m e, .finite t n f =>
    let sum := overLeast s m e + overLeast t n f
    if sum = 0 then zero (s && t) else ofRatio (sum < 0) sum.natAbs (Nat.pow 2 1074)

def mul (x y : Binary64) : Binary64 :=
  match x, y with
  | .nan, _ | _, .nan => .nan
  | .infinite s, y => if y.isZero then .nan else .infinite (s != mul.isNegative y)
  | x, .infinite t => if x.isZero then .nan else .infinite (t != mul.isNegative x)
  | .finite s m e, .finite t n f =>
    let (a, b) := ratio (m * n) (e + f)
    ofRatio (s != t) a b
where
  isNegative : Binary64 → Bool
    | .nan => false
    | .infinite s => s
    | .finite s _ _ => s

/-- Division by a finite number other than zero; any other divisor gives no number. -/
def div (x y : Binary64) : Binary64 :=
  match x, y with
  | .finite s m e, .finite t (n + 1) f =>
    let (a, b) := ratio m e
    let (c, d) := ratio (n + 1) f
    ofRatio (s != t) (a * d) (b * c)
  | .infinite s, .finite t (_ + 1) _ => .infinite (s != t)
  | _, _ => .nan

def one : Binary64 := ofNat 1

end Binary64

end PatternCatalog
