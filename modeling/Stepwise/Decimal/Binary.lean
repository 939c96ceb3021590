/-!
# Floats as integers

`decode` takes a float apart into a sign, a mantissa and a power of two; `nearest` puts the float
closest to a ratio of natural numbers together, ties going to the even mantissa.  All arithmetic is
exact arithmetic on natural numbers, so a number text is read and written without rounding twice.
-/

namespace Stepwise.Decimal

/-- What a float stands for: a finite one is `± mantissa * 2 ^ exponent`. -/
inductive Decoded where
  | nan
  | infinite (negative : Bool)
  | finite (negative : Bool) (mantissa : Nat) (exponent : Int)
  deriving DecidableEq, Repr

/-- The sign, mantissa and exponent in the bits of a float. -/
def decode (x : Float) : Decoded :=
  let bits := x.toBits.toNat
  let negative := decide (Nat.pow 2 63 ≤ bits)
  let field : Nat := bits / Nat.pow 2 52 % Nat.pow 2 11
  let fraction : Nat := bits % Nat.pow 2 52
  if field == 2047 then
    if fraction == 0 then .infinite negative else .nan
  else if field == 0 then .finite negative fraction (-1074)
  else .finite negative (Nat.pow 2 52 + fraction) ((field : Int) - 1075)

/-- Neither an infinity nor a NaN. -/
def isFinite (x : Float) : Bool :=
  match decode x with
  | .finite _ _ _ => true
  | _ => false

/-- The bits of positive infinity. -/
def infinityBits : Nat := 2047 * Nat.pow 2 52

/-- A quotient rounded to the nearest natural number, a half going to the even neighbour. -/
def roundHalfEven (num den : Nat) : Nat :=
  let q := num / den
  let r := num % den
  if 2 * r < den then q
  else if 2 * r == den then q + q % 2
  else q + 1

/-- The exponent of the float nearest to a ratio, before rounding. -/
def ratioExponent (num den : Nat) : Int :=
  let guess := (num.log2 : Int) - (den.log2 : Int)
  let reaches :=
    if 0 ≤ guess then den * Nat.pow 2 guess.toNat ≤ num
    else den ≤ num * Nat.pow 2 (-guess).toNat
  max ((if reaches then guess else guess - 1) - 52) (-1074)

/-- The bits of the positive float nearest to `num / den`; too large a ratio gives infinity.  The
mantissa is added to the shifted exponent, so a carry out of it raises the exponent. -/
def nearestBits (num den : Nat) : Nat :=
  if num == 0 then 0 else
  let e := ratioExponent num den
  let mantissa :=
    if 0 ≤ e then roundHalfEven num (den * Nat.pow 2 e.toNat)
    else roundHalfEven (num * Nat.pow 2 (-e).toNat) den
  min ((e + 1074).toNat * Nat.pow 2 52 + mantissa) infinityBits

/-- The float with a sign and the bits of its magnitude. -/
def ofMagnitude (negative : Bool) (bits : Nat) : Float :=
  Float.ofBits (UInt64.ofNat (if negative then Nat.pow 2 63 + bits else bits))

/-- The float nearest to a ratio. -/
def nearest (negative : Bool) (num den : Nat) : Float :=
  ofMagnitude negative (nearestBits num den)

/-- The float nearest to `± digits * 10 ^ exponent`.  Exponents far outside the range of floats are
settled without writing the power out. -/
def ofDecimal (negative : Bool) (digits : Nat) (exponent : Int) : Float :=
  let size := ((Nat.toDigits 10 digits).length : Int) + exponent
  if digits == 0 || size < -400 then ofMagnitude negative 0
  else if 400 < size then ofMagnitude negative infinityBits
  else if 0 ≤ exponent then nearest negative (digits * Nat.pow 10 exponent.toNat) 1
  else nearest negative digits (Nat.pow 10 (-exponent).toNat)

/-- The float nearest to an integer. -/
def ofInt (n : Int) : Float :=
  nearest (decide (n < 0)) n.natAbs 1

/-- The float nearest to an integer, or nothing when the integer is beyond the largest float. -/
def ofInt? (n : Int) : Option Float :=
  let x := ofInt n
  if isFinite x then some x else none

/-- The integer part of a finite float, toward zero. -/
def truncate? (x : Float) : Option Int :=
  match decode x with
  | .finite negative m e =>
    let size := if 0 ≤ e then m * Nat.pow 2 e.toNat else m / Nat.pow 2 (-e).toNat
    some (if negative then -(size : Int) else size)
  | _ => none

/-- The largest integer that is not above a finite float. -/
def floor? (x : Float) : Option Int :=
  (truncate? x).map fun n => if x < ofInt n then n - 1 else n

/-- The integer nearest to a finite float, a half going to the even neighbour. -/
def round? (x : Float) : Option Int :=
  match decode x with
  | .finite negative m e =>
    let size := if 0 ≤ e then m * Nat.pow 2 e.toNat else roundHalfEven m (Nat.pow 2 (-e).toNat)
    some (if negative then -(size : Int) else size)
  | _ => none

/-- A finite float that is an integer. -/
def isInteger (x : Float) : Bool :=
  match decode x with
  | .finite _ m e => decide (0 ≤ e) || m % Nat.pow 2 (-e).toNat == 0
  | _ => false

end Stepwise.Decimal
