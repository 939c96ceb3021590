import Stepwise.Decimal.Reader
import Stepwise.Json.Value

/-!
# Reading Json

`read` turns a text into a value, or gives the position, counted in characters, of the first fault.
The dialects differ in two points: `wire`, for messages, refuses texts with unpaired surrogates and
deep nesting; `lenient` takes both.  Both take the words `NaN`, `Infinity` and `-Infinity`, and
neither takes an integer of more than 4300 digits.

Inside the reader a fault is the number of characters left when it was met.
-/

namespace Stepwise.Json

open Stepwise.Text

/-- What a reader accepts beyond the common ground. -/
structure Dialect where
  unpaired : Bool
  depth : Nat → Nat

/-- Messages: every text is made of scalar values, and at most 200 containers are nested. -/
def wire : Dialect := ⟨false, fun _ => 200⟩

/-- Texts from outside: nesting is bounded by the length of the text alone. -/
def lenient : Dialect := ⟨true, fun size => size + 1⟩

/-- What a part of the reader yields: a result and the characters after it, or a fault. -/
abbrev Reading (α : Type) := Except Nat (α × List Char)

/-- Blanks between the parts of a text. -/
def skip (cs : List Char) : List Char :=
  cs.dropWhile fun c => c == ' ' || c == '\t' || c == '\n' || c == '\r'

/-! ## Texts -/

/-- The character that an escape of one letter stands for. -/
def escapeValue? (c : Char) : Option Nat :=
  if c.toNat == 0x22 || c == '\\' || c == '/' then some c.toNat
  else if c == 'b' then some 8
  else if c == 'f' then some 12
  else if c == 'n' then some 10
  else if c == 'r' then some 13
  else if c == 't' then some 9
  else none

/-- Four hexadecimal digits.  An escape never ends the text, so a character has to follow. -/
def hex4? : List Char → Option (Nat × List Char)
  | a :: b :: c :: d :: e :: rest =>
    match hexDigit? a, hexDigit? b, hexDigit? c, hexDigit? d with
    | some a, some b, some c, some d => some (((a * 16 + b) * 16 + c) * 16 + d, e :: rest)
    | _, _, _, _ => none
  | _ => none

theorem hex4?_length {cs rest : List Char} {n : Nat} (h : hex4? cs = some (n, rest)) :
    rest.length < cs.length := by
  unfold hex4? at h
  split at h
  · split at h
    · simp only [Option.some.injEq, Prod.mk.injEq] at h
      simp only [← h.2, List.length_cons]
      omega
    · simp at h
  · simp at h

/-- The second half of a surrogate pair: nothing, or a fault, or the low half and the rest. -/
def lowHalf? (cs : List Char) : Except Nat (Option (Nat × List Char)) :=
  match cs with
  | '\\' :: 'u' :: more =>
    if cs.length < 7 then .ok none else
    match hex4? more with
    | none => .error (more.length + 1)
    | some (n, rest) => if 0xdc00 ≤ n && n ≤ 0xdfff then .ok (some (n, rest)) else .ok none
  | _ => .ok none

theorem lowHalf?_length {cs rest : List Char} {n : Nat} (h : lowHalf? cs = .ok (some (n, rest))) :
    rest.length < cs.length := by
  unfold lowHalf? at h
  split at h
  · split at h
    · simp at h
    · split at h
      · simp at h
      · rename_i m r hr
        split at h
        · simp only [Except.ok.injEq, Option.some.injEq, Prod.mk.injEq] at h
          have := hex4?_length hr
          simp only [← h.2, List.length_cons]
          omega
        · simp at h
  · simp at h

/-- The code points of a text after its opening quote, at which `start` characters were left. -/
def units (start : Nat) (cs : List Char) : Reading (List Nat) :=
  match cs with
  | [] => .error start
  | '\\' :: rest =>
    match rest with
    | [] => .error start
    | 'u' :: more =>
      match hex : hex4? more with
      | none => .error (more.length + 1)
      | some (high, after) =>
        if 0xd800 ≤ high && high ≤ 0xdbff then
          match half : lowHalf? after with
          | .error fault => .error fault
          | .ok (some (low, tail)) =>
            (units start tail).map fun r =>
              ((0x10000 + (high - 0xd800) * 0x400 + (low - 0xdc00)) :: r.1, r.2)
          | .ok none => (units start after).map fun r => (high :: r.1, r.2)
        else (units start after).map fun r => (high :: r.1, r.2)
    | c :: more =>
      match escapeValue? c with
      | some n => (units start more).map fun r => (n :: r.1, r.2)
      | none => .error (rest.length + 1)
  | c :: rest =>
    if c.toNat == 0x22 then .ok ([], rest)
    else if c.toNat < 0x20 then .error (rest.length + 1)
    else (units start rest).map fun r => (c.toNat :: r.1, r.2)
termination_by cs.length
decreasing_by
  · have := hex4?_length hex
    have := lowHalf?_length half
    simp only [List.length_cons]
    omega
  · have := hex4?_length hex
    simp only [List.length_cons]
    omega
  · have := hex4?_length hex
    simp only [List.length_cons]
    omega
  · simp only [List.length_cons]
    omega
  · simp only [List.length_cons]
    omega

/-- A code point that is a character. -/
def isScalar (n : Nat) : Bool :=
  n < 0xd800 || (0xdfff < n && n < 0x110000)

/-- The characters of code points; a surrogate becomes the replacement character. -/
def ofUnits (ns : List Nat) : String :=
  String.ofList (ns.map fun n => if isScalar n then Char.ofNat n else Char.ofNat 0xfffd)

/-- A text value, its opening quote read. -/
def textValue (d : Dialect) (start : Nat) (cs : List Char) : Reading Json :=
  match units start cs with
  | .error fault => .error fault
  | .ok (ns, rest) =>
    if ns.all isScalar then .ok (.text (ofUnits ns), rest)
    else if d.unpaired then .ok (.unpaired ns, rest)
    else .error start

/-! ## Numbers -/

/-- The digits after a point, if the point has one. -/
def fractionDigits : List Char → List Char × List Char
  | '.' :: c :: rest =>
    if isDigit c then ((c :: rest).takeWhile isDigit, (c :: rest).dropWhile isDigit)
    else ([], '.' :: c :: rest)
  | cs => ([], cs)

/-- The exponent, if its mark has a digit. -/
def exponentDigits (cs : List Char) : Option Int × List Char :=
  match cs with
  | mark :: rest =>
    let (negative, body) := Decimal.splitSign rest
    if (mark == 'e' || mark == 'E') && (body.head?.map isDigit).getD false then
      let n : Int := digitsValue (body.takeWhile isDigit)
      (some (if negative then -n else n), body.dropWhile isDigit)
    else (none, cs)
  | [] => (none, [])

/-- The integer part: a single zero, or digits that do not start with one. -/
def wholeDigits : List Char → List Char × List Char
  | '0' :: rest => (['0'], rest)
  | cs => (cs.takeWhile isDigit, cs.dropWhile isDigit)

/-- A number. -/
def number (cs : List Char) : Reading Json :=
  let (negative, body) := match cs with
    | '-' :: rest => (true, rest)
    | rest => (false, rest)
  let (whole, rest) := wholeDigits body
  if whole.isEmpty then .error cs.length else
  let (fraction, rest) := fractionDigits rest
  let (exponent, rest) := exponentDigits rest
  if fraction.isEmpty && exponent.isNone then
    if 4300 < whole.length then .error cs.length else
    let n : Int := digitsValue whole
    .ok (.int (if negative then -n else n), rest)
  else
    .ok (.float (Decimal.ofDecimal negative (digitsValue (whole ++ fraction))
      (exponent.getD 0 - fraction.length)), rest)

/-! ## Values -/

/-- The rest of a text after a word at its head. -/
def afterWord? (word : String) (cs : List Char) : Option (List Char) :=
  if word.toList.isPrefixOf cs then some (cs.drop word.length) else none

/-- A value that is a word, or a number. -/
def scalar (cs : List Char) : Reading Json :=
  match afterWord? "null" cs with
  | some rest => .ok (.null, rest)
  | none => match afterWord? "true" cs with
  | some rest => .ok (.bool true, rest)
  | none => match afterWord? "false" cs with
  | some rest => .ok (.bool false, rest)
  | none => match afterWord? "NaN" cs with
  | some rest =>
    .ok (.float (Decimal.ofMagnitude false (Decimal.infinityBits + Nat.pow 2 51)), rest)
  | none => match afterWord? "Infinity" cs with
  | some rest => .ok (.float (Decimal.ofMagnitude false Decimal.infinityBits), rest)
  | none => match afterWord? "-Infinity" cs with
  | some rest => .ok (.float (Decimal.ofMagnitude true Decimal.infinityBits), rest)
  | none => number cs

/-- The key of an entry: a text in which surrogates count as the replacement character. -/
def key (cs : List Char) : Reading String :=
  match cs with
  | c :: rest =>
    if c.toNat == 0x22 then (units cs.length rest).map fun r => (ofUnits r.1, r.2)
    else .error cs.length
  | [] => .error 0

mutual

/-- A value at the head of a text, with room for `depth` nested containers. -/
def value (d : Dialect) : Nat → Nat → List Char → Reading Json
  | 0, _, cs => .error cs.length
  | fuel + 1, depth, cs =>
    match cs with
    | [] => .error 0
    | c :: rest =>
      if c.toNat == 0x22 then textValue d cs.length rest
      else if c == '[' then
        match depth with
        | 0 => .error cs.length
        | depth + 1 =>
          match skip rest with
          | ']' :: after => .ok (.array [], after)
          | body => (items d fuel depth body).map fun r => (.array r.1, r.2)
      else if c.toNat == 0x7b then
        match depth with
        | 0 => .error cs.length
        | depth + 1 =>
          match skip rest with
          | [] => .error 0
          | c :: after =>
            if c.toNat == 0x7d then .ok (.object [], after)
            else (entries d fuel depth (c :: after)).map fun r => (.object r.1, r.2)
      else scalar cs

/-- The items of an array up to its closing bracket. -/
def items (d : Dialect) : Nat → Nat → List Char → Reading (List Json)
  | 0, _, cs => .error cs.length
  | fuel + 1, depth, cs =>
    match value d fuel depth cs with
    | .error fault => .error fault
    | .ok (v, rest) =>
      match skip rest with
      | ']' :: after => .ok ([v], after)
      | ',' :: after => (items d fuel depth (skip after)).map fun r => (v :: r.1, r.2)
      | other => .error other.length

/-- The entries of an object up to its closing brace. -/
def entries (d : Dialect) : Nat → Nat → List Char → Reading (List (String × Json))
  | 0, _, cs => .error cs.length
  | fuel + 1, depth, cs =>
    match key cs with
    | .error fault => .error fault
    | .ok (k, rest) =>
      match skip rest with
      | ':' :: after =>
        match value d fuel depth (skip after) with
        | .error fault => .error fault
        | .ok (v, rest) =>
          match skip rest with
          | [] => .error 0
          | c :: after =>
            if c.toNat == 0x7d then .ok ([(k, v)], after)
            else if c == ',' then
              (entries d fuel depth (skip after)).map fun r => ((k, v) :: r.1, r.2)
            else .error (after.length + 1)
      | other => .error other.length

end

/-- The value that a whole text writes, or the position of its first fault. -/
def read (d : Dialect) (text : String) : Except Nat Json :=
  let cs := text.toList
  let size := cs.length
  match value d (2 * size + 2) (d.depth size) (skip cs) with
  | .error left => .error (size - left)
  | .ok (v, rest) =>
    match skip rest with
    | [] => .ok v
    | more => .error (size - more.length)

end Stepwise.Json
