import Stepwise.Decimal.Layout
import Stepwise.Json.Value
import Stepwise.Text.Quoted

/-!
# Json text

`render` writes a value without blanks.  Inside a text only the quote, the backslash and the
controls below U+0020 are escaped.
-/

namespace Stepwise.Json

open Stepwise.Decimal (Layout)

/-- One character of a text. -/
def escapedChar (c : Char) : List Char :=
  if c.toNat == 0x22 then ['\\', c]
  else if c == '\\' then ['\\', '\\']
  else if c == '\n' then ['\\', 'n']
  else if c == '\r' then ['\\', 'r']
  else if c == '\t' then ['\\', 't']
  else if c.toNat == 8 then ['\\', 'b']
  else if c.toNat == 12 then ['\\', 'f']
  else if c.toNat < 0x20 then '\\' :: 'u' :: (Text.hex 4 c.toNat).toList
  else [c]

/-- A text between quotes. -/
def renderText (s : String) : String :=
  "\"" ++ String.ofList (s.toList.flatMap escapedChar) ++ "\""

/-- One unit of a text that holds unpaired surrogates. -/
def renderUnit (n : Nat) : String :=
  if 0xd800 ≤ n && n ≤ 0xdfff then "\\u" ++ Text.hex 4 n
  else String.ofList (escapedChar (Char.ofNat n))

mutual

/-- The text of a value. -/
def render (l : Layout) : Json → String
  | .null => "null"
  | .bool b => if b then "true" else "false"
  | .int n => toString n
  | .float x => l.render x
  | .text s => renderText s
  | .unpaired units => "\"" ++ String.join (units.map renderUnit) ++ "\""
  | .array items => "[" ++ ",".intercalate (renderItems l items) ++ "]"
  | .object entries => "\x7b" ++ ",".intercalate (renderEntries l entries) ++ "\x7d"

/-- The texts of the items of an array. -/
def renderItems (l : Layout) : List Json → List String
  | [] => []
  | v :: rest => render l v :: renderItems l rest

/-- The texts of the entries of an object. -/
def renderEntries (l : Layout) : List (String × Json) → List String
  | [] => []
  | (key, v) :: rest => (renderText key ++ ":" ++ render l v) :: renderEntries l rest

end

end Stepwise.Json
