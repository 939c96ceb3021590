import Stepwise.Text.Printable

/-!
# Quoted text

`quote` writes a text between apostrophes, or between double quotes when it holds an apostrophe
and no double quote.  A backslash and the chosen quote are escaped, and a character that is not
printable is written by its code point.
-/

namespace Stepwise.Text

/-- The lower-case hexadecimal digits of a number, padded with zeros. -/
def hex (width n : Nat) : String :=
  let ds := Nat.toDigits 16 n
  String.ofList (List.replicate (width - ds.length) '0' ++ ds)

/-- One character inside a text quoted by `mark`. -/
def quotedChar (mark c : Char) : String :=
  if c == mark || c == '\\' then String.ofList ['\\', c]
  else if c == '\t' then "\\t"
  else if c == '\n' then "\\n"
  else if c == '\r' then "\\r"
  else if isPrintable c then c.toString
  else if c.toNat < 0x100 then "\\x" ++ hex 2 c.toNat
  else if c.toNat < 0x10000 then "\\u" ++ hex 4 c.toNat
  else "\\U" ++ hex 8 c.toNat

/-- A text between quotes. -/
def quote (text : String) : String :=
  let apostrophe := Char.ofNat 39
  let double := Char.ofNat 34
  let cs := text.toList
  let mark := if cs.contains apostrophe && ! cs.contains double then double else apostrophe
  mark.toString ++ String.join (cs.map (quotedChar mark)) ++ mark.toString

end Stepwise.Text
