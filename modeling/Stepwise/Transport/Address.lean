import Stepwise.Text.Digit
import Stepwise.Text.Encoding
import Stepwise.Text.Quoted

/-!
# Server addresses

`Address.ofUrl` takes the host, the port and the virtual host out of the URL of a message server.
Parts that are not given have the usual values.
-/

namespace Stepwise

/-- Where a message server listens, and which of its virtual hosts is meant. -/
structure Address where
  host : String
  port : Nat
  virtualHost : String
  deriving DecidableEq, Repr, Inhabited

namespace Address

/-- The text after the first occurrence of a mark, if it occurs. -/
def afterMark? (mark : List Char) : List Char → Option (List Char)
  | [] => if mark.isEmpty then some [] else none
  | c :: rest =>
    if mark.isPrefixOf (c :: rest) then some ((c :: rest).drop mark.length)
    else afterMark? mark rest

/-- The text after the last occurrence of a character, or all of it. -/
def afterLast (mark : Char) (cs : List Char) : List Char :=
  (cs.reverse.takeWhile (· != mark)).reverse

/-- The bytes of a text with percent escapes.  What is no escape stands for itself. -/
def unescapedBytes : List Char → List UInt8
  | [] => []
  | [c] => c.toString.toUTF8.toList
  | [c, d] => c.toString.toUTF8.toList ++ d.toString.toUTF8.toList
  | c :: a :: b :: rest =>
    match c == '%', Text.hexDigit? a, Text.hexDigit? b with
    | true, some x, some y => UInt8.ofNat (16 * x + y) :: unescapedBytes rest
    | _, _, _ => c.toString.toUTF8.toList ++ unescapedBytes (a :: b :: rest)

/-- A text without its percent escapes. -/
def unescape (cs : List Char) : String :=
  let bytes := ByteArray.mk (unescapedBytes cs).toArray
  (Text.decode? bytes).getD (String.ofList cs)

/-- The address in a URL. -/
def ofUrl (url : String) : Address :=
  let cs := url.toList
  let secure := "amqps".toList.isPrefixOf (cs.map Char.toLower)
  let rest := (afterMark? "://".toList cs).getD cs
  let authority := afterLast '@' (rest.takeWhile fun c => c != '/' && c != '?' && c != '#')
  let host := authority.takeWhile (· != ':')
  let port := (authority.dropWhile (· != ':')).drop 1
  let path := ((rest.dropWhile fun c => c != '/' && c != '?' && c != '#').takeWhile fun c =>
    c != '?' && c != '#').drop 1
  let name := path.takeWhile (· != '/')
  { host := if host.isEmpty then "localhost" else String.ofList (host.map Char.toLower)
    port := if port.isEmpty then (if secure then 5671 else 5672) else Text.digitsValue port
    virtualHost := if path.isEmpty then "/" else unescape name }

/-- The address in one word. -/
def text (a : Address) : String :=
  a.host ++ ":" ++ toString a.port ++ a.virtualHost

end Address

end Stepwise
