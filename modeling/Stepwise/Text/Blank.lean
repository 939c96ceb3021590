/-!
# Blanks

`isSpace` is the Unicode property White_Space.  `isBlank` adds the four information separators
U+001C to U+001F, which the expression language also skips.  `trim` drops a class of characters
from both ends of a text.
-/

namespace Stepwise.Text

/-- Characters with the Unicode property White_Space. -/
def isSpace (c : Char) : Bool :=
  let n := c.toNat
  (9 ≤ n && n ≤ 13) || n == 0x20 || n == 0x85 || n == 0xa0 || n == 0x1680 ||
    (0x2000 ≤ n && n ≤ 0x200a) || n == 0x2028 || n == 0x2029 || n == 0x202f || n == 0x205f ||
    n == 0x3000

/-- White space and the information separators. -/
def isBlank (c : Char) : Bool :=
  isSpace c || (0x1c ≤ c.toNat && c.toNat ≤ 0x1f)

/-- The text without its leading and trailing characters of a class. -/
def trim (p : Char → Bool) (cs : List Char) : List Char :=
  ((cs.dropWhile p).reverse.dropWhile p).reverse

/-- The text without its blanks. -/
def withoutBlanks (text : String) : List Char :=
  text.toList.filter (! isBlank ·)

end Stepwise.Text
