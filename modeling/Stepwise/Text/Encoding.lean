/-!
# Text encodings

`decodeAny?` reads bytes whose encoding is told by their first four: a byte-order mark, or the
places of the zero bytes, which an Ascii first character leaves.  Without either the bytes are
UTF-8.
-/

namespace Stepwise.Text

/-- The octets of a message. -/
abbrev Body := ByteArray

/-- The text of bytes in UTF-8. -/
def decode? (body : Body) : Option String :=
  String.fromUTF8? body

/-- The bytes of a text in UTF-8. -/
def encode (text : String) : Body :=
  text.toUTF8

/-- The order of the octets of a unit. -/
inductive Order where
  | big
  | little
  deriving DecidableEq, Repr

/-- The number that octets write. -/
def Order.value (order : Order) (octets : List Nat) : Nat :=
  let bigEndian := match order with
    | .big => octets
    | .little => octets.reverse
  bigEndian.foldl (fun n b => 256 * n + b) 0

/-- Code points of two-octet units; surrogates have to come in pairs. -/
def points16? (order : Order) : List Nat → Option (List Nat)
  | [] => some []
  | a :: b :: c :: d :: rest =>
    let high := order.value [a, b]
    let low := order.value [c, d]
    if 0xd800 ≤ high && high ≤ 0xdbff then
      if 0xdc00 ≤ low && low ≤ 0xdfff then
        (points16? order rest).map ((0x10000 + (high - 0xd800) * 0x400 + (low - 0xdc00)) :: ·)
      else none
    else if 0xdc00 ≤ high && high ≤ 0xdfff then none
    else (points16? order (c :: d :: rest)).map (high :: ·)
  | [a, b] =>
    let unit := order.value [a, b]
    if 0xd800 ≤ unit && unit ≤ 0xdfff then none else some [unit]
  | _ => none

/-- Code points of four-octet units. -/
def points32? (order : Order) : List Nat → Option (List Nat)
  | [] => some []
  | a :: b :: c :: d :: rest => (points32? order rest).map (order.value [a, b, c, d] :: ·)
  | _ => none

/-- The text of code points. -/
def ofPoints? (ns : List Nat) : Option String :=
  if ns.all fun n => n < 0xd800 || (0xdfff < n && n < 0x110000) then
    some (String.ofList (ns.map Char.ofNat))
  else none

/-- The text of bytes in whichever encoding their beginning shows. -/
def decodeAny? (body : Body) : Option String :=
  let bs := body.toList.map UInt8.toNat
  let utf16 (order : Order) (bs : List Nat) := (points16? order bs).bind ofPoints?
  let utf32 (order : Order) (bs : List Nat) := (points32? order bs).bind ofPoints?
  match bs with
  | 0 :: 0 :: 0xfe :: 0xff :: rest => utf32 .big rest
  | 0xff :: 0xfe :: 0 :: 0 :: rest => utf32 .little rest
  | 0xfe :: 0xff :: rest => utf16 .big rest
  | 0xff :: 0xfe :: rest => utf16 .little rest
  | 0xef :: 0xbb :: 0xbf :: _ => decode? (body.extract 3 body.size)
  | 0 :: b :: _ :: _ :: _ => if b == 0 then utf32 .big bs else utf16 .big bs
  | _ :: 0 :: c :: d :: _ => if c == 0 && d == 0 then utf32 .little bs else utf16 .little bs
  | [0, _] => utf16 .big bs
  | [_, 0] => utf16 .little bs
  | _ => decode? body

end Stepwise.Text
