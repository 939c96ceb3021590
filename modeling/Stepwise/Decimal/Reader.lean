import Stepwise.Decimal.Binary
import Stepwise.Text.Blank
import Stepwise.Text.Digit

/-!
# Reading numbers

A number text has an optional sign, digits with at most one point, and an optional exponent; the
words for infinity and NaN are numbers too.  `ofPlain?` reads exactly that.  `ofText?` also takes
blanks around the number, digits of any script and single underscores between digits;
`ofField?` takes white space around it and single underscores inside.
-/

namespace Stepwise.Decimal

open Stepwise.Text

/-- A sign at the head of a text, and what follows. -/
def splitSign : List Char → Bool × List Char
  | '-' :: rest => (true, rest)
  | '+' :: rest => (false, rest)
  | rest => (false, rest)

/-- The words for values that are no number, in any case. -/
def ofWord? (negative : Bool) (cs : List Char) : Option Float :=
  let word := String.ofList (cs.map Char.toLower)
  if word == "inf" || word == "infinity" then some (ofMagnitude negative infinityBits)
  else if word == "nan" then some (ofMagnitude negative (infinityBits + Nat.pow 2 51))
  else none

/-- The exponent after the digits: none, or a mark, a sign and digits up to the end. -/
def exponent? : List Char → Option Int
  | [] => some 0
  | c :: rest =>
    if c == 'e' || c == 'E' then
      let (negative, ds) := splitSign rest
      if ! ds.isEmpty && ds.all isDigit then
        let n : Int := digitsValue ds
        some (if negative then -n else n)
      else none
    else none

/-- Digits, a point and an exponent, without a sign. -/
def ofDigits? (negative : Bool) (cs : List Char) : Option Float :=
  let whole := cs.takeWhile isDigit
  let rest := cs.dropWhile isDigit
  let (fraction, rest) := match rest with
    | '.' :: more => (more.takeWhile isDigit, more.dropWhile isDigit)
    | more => ([], more)
  if whole.isEmpty && fraction.isEmpty then none else
  match exponent? rest with
  | none => none
  | some e => some (ofDecimal negative (digitsValue (whole ++ fraction)) (e - fraction.length))

/-- Reads a number text that is nothing but the number. -/
def ofPlain? (cs : List Char) : Option Float :=
  let (negative, body) := splitSign cs
  match ofWord? negative body with
  | some x => some x
  | none => ofDigits? negative body

/-- Removes underscores, each of which has to stand between two digits. -/
def joinDigits? (previous : Bool) : List Char → Option (List Char)
  | [] => some []
  | '_' :: c :: rest =>
    if previous && isDigit c then (joinDigits? true rest).map (c :: ·) else none
  | c :: rest => if c == '_' then none else (joinDigits? (isDigit c) rest).map (c :: ·)

/-- Reads a number as a person may write it. -/
def ofText? (cs : List Char) : Option Float :=
  match joinDigits? false (asciiDigits (trim isBlank cs)) with
  | some plain => ofPlain? plain
  | none => none

/-- Removes single underscores that stand inside a text. -/
def joinParts? (cs : List Char) : Option (List Char) :=
  let doubled := (cs.zip cs.tail).any fun p => p.1 == '_' && p.2 == '_'
  if cs.head? == some '_' || cs.getLast? == some '_' || doubled then none
  else some (cs.filter (· != '_'))

/-- Reads a number in the text field of a message. -/
def ofField? (cs : List Char) : Option Float :=
  let body := trim isSpace cs
  match ofPlain? body with
  | some x => some x
  | none => (joinParts? body).bind ofPlain?

/-- Reads an integer with a sign and nothing around it. -/
def intOfPlain? (cs : List Char) : Option Int :=
  let (negative, ds) := splitSign cs
  if ! ds.isEmpty && ds.all isDigit then
    let n : Int := digitsValue ds
    some (if negative then -n else n)
  else none

/-- Reads an integer as a person may write it. -/
def intOfText? (cs : List Char) : Option Int :=
  match joinDigits? false (asciiDigits (trim isBlank cs)) with
  | some plain => intOfPlain? plain
  | none => none

/-- An integer text without a point and the zeros after it. -/
def withoutZeroFraction (cs : List Char) : List Char :=
  let whole := cs.takeWhile (· != '.')
  match cs.dropWhile (· != '.') with
  | _ :: zeros => if zeros.all (· == '0') then whole else cs
  | [] => cs

/-- Reads an integer in the text field of a message: white space around it, single underscores
inside, and a fraction of zeros are allowed. -/
def intOfField? (cs : List Char) : Option Int :=
  let body := withoutZeroFraction (trim isSpace cs)
  match intOfPlain? body with
  | some n => some n
  | none => (joinParts? (splitSign body).2).bind fun ds =>
    if ds.all isDigit && ! ds.isEmpty then
      intOfPlain? ((if (splitSign body).1 then ['-'] else []) ++ ds)
    else none

end Stepwise.Decimal
