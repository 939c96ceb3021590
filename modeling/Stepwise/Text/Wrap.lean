import Stepwise.Text.Blank
import Stepwise.Text.Width

/-!
# Lines of a given width

`wrap` breaks a text into lines that fit into a number of cells.  Lines are broken before words,
and the blanks after a word stay with it.  A word that is too long for any line is either folded
over several lines or left alone on one, which is then cut and ends in an ellipsis.
-/

namespace Stepwise.Text

/-- What happens to a word that is longer than a line. -/
inductive Overflow where
  | fold
  | ellipsis
  deriving DecidableEq, Repr

/-- A text without the blanks at its end. -/
def trimRight (cs : List Char) : List Char :=
  (cs.reverse.dropWhile isSpace).reverse

/-- A text split at newlines. -/
def splitLines : List Char → List (List Char)
  | [] => [[]]
  | c :: rest =>
    if c == '\n' then [] :: splitLines rest
    else
      match splitLines rest with
      | [] => [[c]]
      | line :: lines => (c :: line) :: lines

/-- A text in which each tab is filled up to a multiple of eight cells; `column` is where it
starts. -/
def expandTabs (column : Nat) : List Char → List Char
  | [] => []
  | c :: rest =>
    if c == '\t' then
      let next := (column / 8 + 1) * 8
      List.replicate (next - column) ' ' ++ expandTabs next rest
    else c :: expandTabs (column + cells c) rest

/-- The words of a text, each with the blanks after it and the first also with those before it.
The blanks of a text without any word are no word. -/
def words (cs : List Char) : List (List Char) :=
  match (cs.dropWhile isSpace).splitBy (fun a b => !(isSpace a && !isSpace b)) with
  | [] => []
  | first :: others => (cs.takeWhile isSpace ++ first) :: others

/-- A text cut into pieces that fit into a width, the last piece first. -/
def chop (limit : Nat) (cs : List Char) : List (List Char) :=
  let (piece, _, done) := cs.foldl
    (fun (piece, size, done) c =>
      if limit < size + cells c then ([c], cells c, piece.reverse :: done)
      else (c :: piece, size + cells c, done))
    (([] : List Char), 0, ([] : List (List Char)))
  piece.reverse :: done

/-- Lines under construction. -/
structure Breaking where
  /-- The complete lines, the last one first. -/
  done : List (List Char)
  current : List Char
  deriving Inhabited

/-- Adds a word to the lines. -/
def Breaking.add (limit : Nat) (overflow : Overflow) (b : Breaking) (word : List Char) :
    Breaking :=
  let size := width (trimRight word)
  if width b.current + size ≤ limit then { b with current := b.current ++ word }
  else
    let done := if b.current.isEmpty then b.done else b.current :: b.done
    if limit < size && overflow = .fold then
      let pieces := chop limit word
      { done := pieces.drop 1 ++ done, current := pieces.headD [] }
    else { done, current := word }

/-- The lines of a text without newlines. -/
def breakLine (limit : Nat) (overflow : Overflow) (cs : List Char) : List (List Char) :=
  match words cs with
  | [] => [cs]
  | ws =>
    let b := ws.foldl (Breaking.add limit overflow) ⟨[], []⟩
    (b.current :: b.done).reverse

/-- A line without those blanks at its end that do not fit. -/
def trimExcess (limit : Nat) (line : List Char) : List Char :=
  let blanks := line.length - (trimRight line).length
  line.take (line.length - min blanks (line.length - limit))

/-- The longest beginning of a line that fits into a width, filled up to it. -/
def fit (limit : Nat) : List Char → List Char
  | [] => List.replicate limit ' '
  | c :: rest =>
    if cells c ≤ limit then c :: fit (limit - cells c) rest else List.replicate limit ' '

/-- A line cut to a width. -/
def truncate (limit : Nat) (overflow : Overflow) (line : List Char) : List Char :=
  if width line ≤ limit then line
  else match overflow with
    | .fold => fit limit line
    | .ellipsis => fit (limit - 1) line ++ ['…']

/-- The lines of a text.  Without breaking, each line of the text stays one line. -/
def wrap (limit : Nat) (overflow : Overflow) (breaking : Bool) (text : String) :
    List (List Char) :=
  (splitLines text.toList).flatMap fun line =>
    let line := if line.contains '\t' then expandTabs 0 line else line
    let pieces := if breaking then breakLine limit overflow line else [line]
    pieces.map fun piece => truncate limit overflow (trimExcess limit piece)

/-- A line filled with blanks at its end. -/
def padRight (size : Nat) (line : List Char) : List Char :=
  line ++ List.replicate (size - width line) ' '

/-- A line in the middle of a width. -/
def centre (size : Nat) (line : List Char) : List Char :=
  let line := truncate size .fold (trimRight line)
  padRight size (List.replicate ((size - width line) / 2) ' ' ++ line)

/-- Characters that move the cursor are not shown. -/
def isControl (c : Char) : Bool :=
  [7, 8, 11, 12, 13].contains c.toNat

/-- The number of cells of the longest line of a text. -/
def longestLine (text : String) : Nat :=
  let isBreak (c : Char) : Bool :=
    [0x0a, 0x1c, 0x1d, 0x1e, 0x85, 0x2028, 0x2029].contains c.toNat
  (text.toList.splitBy (fun a b => !(isBreak a) && !(isBreak b))).foldl
    (fun longest piece => max longest (width (piece.filter (!isBreak ·)))) 0

end Stepwise.Text
