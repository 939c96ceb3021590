import Stepwise.Decimal.Binary

/-!
# Shortest decimals

A positive float stands for every real that rounds to it.  `shortest` finds the decimal with the
fewest digits among those reals, and of two with equally few digits the one nearer to the float.
For one digit, two digits and so on it tests the two neighbours of the value on the grid of
decimals with that many digits; the first grid with a hit wins.
-/

namespace Stepwise.Decimal

/-- Digits and exponent: the value is `digits * 10 ^ exponent`. -/
structure Scaled where
  digits : Nat
  exponent : Int
  deriving DecidableEq, Repr

/-- The power of ten at or below the ratio of two positive numbers. -/
def leadingPower (num den : Nat) : Int :=
  let guess := ((Nat.toDigits 10 num).length : Int) - ((Nat.toDigits 10 den).length : Int)
  let reaches :=
    if 0 ≤ guess then den * Nat.pow 10 guess.toNat ≤ num
    else den ≤ num * Nat.pow 10 (-guess).toNat
  if reaches then guess else guess - 1

/-- The reals that round to a float, in quarters of the last binary place: from `low` to `high`,
ends included when the mantissa is even. -/
structure Cell where
  low : Nat
  value : Nat
  high : Nat
  closed : Bool

/-- The cell of `mantissa * 2 ^ exponent`.  Below a power of two the floats lie twice as dense. -/
def cell (mantissa : Nat) (exponent : Int) : Cell where
  low := if mantissa == Nat.pow 2 52 && decide (-1074 < exponent) then 4 * mantissa - 1
    else 4 * mantissa - 2
  value := 4 * mantissa
  high := 4 * mantissa + 2
  closed := mantissa % 2 == 0

/-- Whether `candidate * step` lies in the cell, both in the units of the cell times `scale`. -/
def Cell.holds (c : Cell) (scale point : Nat) : Bool :=
  if c.closed then decide (c.low * scale ≤ point) && decide (point ≤ c.high * scale)
  else decide (c.low * scale < point) && decide (point < c.high * scale)

/-- The decimal on one grid nearest to the value, if a grid point lies in the cell. -/
def Cell.onGrid (c : Cell) (scale step : Nat) : Option Nat :=
  let below := c.value * scale / step
  let lowerHit := c.holds scale (below * step)
  let upperHit := c.holds scale ((below + 1) * step)
  let rest := c.value * scale - below * step
  if lowerHit && upperHit then
    if 2 * rest < step then some below
    else if 2 * rest == step then some (below + below % 2)
    else some (below + 1)
  else if lowerHit then some below
  else if upperHit then some (below + 1)
  else none

/-- Searches the grids from `places` digits on. -/
def Cell.search (c : Cell) (unitNum unitDen : Nat) (power : Int) : Nat → Nat → Scaled
  | 0, places => ⟨c.value * unitNum / unitDen, 1 - places⟩
  | fuel + 1, places =>
    let exponent := power + 1 - (places : Int)
    let scale := if 0 ≤ exponent then unitNum else unitNum * Nat.pow 10 (-exponent).toNat
    let step := if 0 ≤ exponent then unitDen * Nat.pow 10 exponent.toNat else unitDen
    match c.onGrid scale step with
    | some digits => ⟨digits, exponent⟩
    | none => c.search unitNum unitDen power fuel (places + 1)

/-- The shortest decimal that reads back as `mantissa * 2 ^ exponent`, for a positive mantissa. -/
def shortest (mantissa : Nat) (exponent : Int) : Scaled :=
  let unit := exponent - 2
  let unitNum := if 0 ≤ unit then Nat.pow 2 unit.toNat else 1
  let unitDen := if 0 ≤ unit then 1 else Nat.pow 2 (-unit).toNat
  let c := cell mantissa exponent
  c.search unitNum unitDen (leadingPower (c.value * unitNum) unitDen) 18 1

end Stepwise.Decimal
