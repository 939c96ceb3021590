import Stepwise.Decimal.Shortest

/-!
# Float text

A `Layout` says how the shortest digits of a float are set: which decimal exponents are written
positionally, how wide the exponent of the others is, and what stands for the values that are no
number.  `display` is the layout of messages to people and `wire` the layout of messages between
components.
-/

namespace Stepwise.Decimal

/-- Choices in the text of a float. -/
structure Layout where
  /-- The least decimal exponent of the leading digit that is written positionally. -/
  lowest : Int
  /-- The greatest decimal exponent that is written positionally. -/
  highest : Int
  /-- The least number of digits of a written exponent. -/
  exponentWidth : Nat
  nan : String
  infinity : String
  minusInfinity : String

/-- Positional from 0.0001 to below 1e+16; exponents have two digits. -/
def display : Layout := ⟨-4, 15, 2, "nan", "inf", "-inf"⟩

/-- Positional from 0.00001 to below 1e+16; exponents are not padded, and what is no number is
null. -/
def wire : Layout := ⟨-5, 15, 1, "null", "null", "null"⟩

/-- The digits of a number without its trailing zeros. -/
def significant (digits : Nat) : List Char :=
  ((Nat.toDigits 10 digits).reverse.dropWhile (· == '0')).reverse

/-- The fraction after the point, which has at least one digit. -/
def fractionOr0 (cs : List Char) : List Char :=
  if cs.isEmpty then ['0'] else cs

/-- Significant digits with a point, the leading digit standing for `10 ^ power`. -/
def positional (ds : List Char) (power : Int) : List Char :=
  if 0 ≤ power then
    let places := power.toNat + 1
    let whole := ds.take places
    whole ++ List.replicate (places - whole.length) '0' ++ '.' :: fractionOr0 (ds.drop places)
  else '0' :: '.' :: (List.replicate ((-power).toNat - 1) '0' ++ ds)

/-- Significant digits with an exponent. -/
def scientific (width : Nat) (ds : List Char) (power : Int) : List Char :=
  let exponent := Nat.toDigits 10 power.natAbs
  let padding := List.replicate (width - exponent.length) '0'
  let mantissa := match ds with
    | [] => []
    | [d] => [d]
    | d :: rest => d :: '.' :: rest
  mantissa ++ 'e' :: (if power < 0 then '-' else '+') :: (padding ++ exponent)

/-- The text of a positive number from its shortest digits. -/
def Layout.magnitude (l : Layout) (s : Scaled) : List Char :=
  let power := s.exponent + ((Nat.toDigits 10 s.digits).length : Int) - 1
  let ds := significant s.digits
  if l.lowest ≤ power && power ≤ l.highest then positional ds power
  else scientific l.exponentWidth ds power

/-- The text of a float. -/
def Layout.render (l : Layout) (x : Float) : String :=
  match decode x with
  | .nan => l.nan
  | .infinite false => l.infinity
  | .infinite true => l.minusInfinity
  | .finite negative m e =>
    let size := if m == 0 then ['0', '.', '0'] else l.magnitude (shortest m e)
    String.ofList (if negative then '-' :: size else size)

/-- A float in a message to people. -/
def text (x : Float) : String :=
  display.render x

/-- A float as a figure: an integral one shows all digits of its value and no point. -/
def figure (x : Float) : String :=
  match truncate? x with
  | some n => if isInteger x then toString n else text x
  | none => text x

/-- A float with a fixed number of places, the exact value being rounded with a half going to the
even neighbour. -/
def fixed (places : Nat) (x : Float) : String :=
  match decode x with
  | .finite negative m e =>
    let shifted := m * Nat.pow 10 places
    let units :=
      if 0 ≤ e then shifted * Nat.pow 2 e.toNat else roundHalfEven shifted (Nat.pow 2 (-e).toNat)
    let ds := Nat.toDigits 10 units
    let ds := List.replicate (places + 1 - ds.length) '0' ++ ds
    let body := ds.take (ds.length - places) ++
      (if places == 0 then [] else '.' :: ds.drop (ds.length - places))
    String.ofList (if negative then '-' :: body else body)
  | _ => text x

end Stepwise.Decimal
