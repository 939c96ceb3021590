import Stepwise.Cli.Markup

/-!
# Tables

A table is drawn with ASCII lines under a centred title.  Its columns are as wide as their longest
cell; when the table does not fit, those columns that may wrap give way, the widest first.
-/

namespace Stepwise.Cli

/-- A column.  Its cells may be wrapped unless it is firm. -/
structure Column where
  header : String
  firm : Bool
  deriving Repr, Inhabited

/-- A table.  With `edges` the outer cells have a blank towards the border as well. -/
structure Table where
  title : String
  columns : List Column
  rows : List (List String)
  headed : Bool
  edges : Bool
  deriving Repr, Inhabited

namespace Table

/-- The number of cells of the console. -/
def consoleWidth : Nat := 80

/-- The blanks at the left and at the right of the cells in a column. -/
def padding (t : Table) (column : Nat) : Nat × Nat :=
  (if t.edges || column != 0 then 1 else 0,
    if t.edges || column + 1 != t.columns.length then 1 else 0)

/-- All lines of cells, the headers first if they are shown. -/
def lines (t : Table) : List (List String) :=
  if t.headed then t.columns.map (·.header) :: t.rows else t.rows

/-- The space that the vertical lines take. -/
def frame (t : Table) : Nat := t.columns.length + 1

/-- The width that a column wants, padding included, when there is so much space. -/
def wanted (t : Table) (column space : Nat) : Nat :=
  let blanks := (t.padding column).1 + (t.padding column).2
  let longest := t.lines.foldl (fun n cells => max n (Text.longestLine (cells.getD column ""))) 0
  if space < blanks + 1 then space else min (longest + blanks) space

/-- The quotient of two numbers rounded to the nearest, a half to the even neighbour. -/
def roundedQuotient (a b : Nat) : Nat :=
  let q := a / b
  let r := a % b
  if b < 2 * r || (2 * r == b && q % 2 == 1) then q + 1 else q

/-- Takes a total away from widths: each with a share gives as much as its share of what is still
to be taken, but not more than its limit. -/
def reduce (total shares : Nat) : List (Bool × Nat × Nat) → List Nat
  | [] => []
  | (shared, limit, size) :: rest =>
    if shared && limit != 0 && shares != 0 then
      let taken := min limit (roundedQuotient total shares)
      (size - taken) :: reduce (total - taken) (shares - 1) rest
    else size :: reduce total shares rest

/-- Takes an excess away from the widest columns that may wrap, level by level. -/
def collapse : Nat → List (Bool × Nat) → Nat → List Nat
  | 0, columns, _ => columns.map (·.2)
  | fuel + 1, columns, excess =>
    let sizes := columns.map (·.2)
    if excess == 0 then sizes else
    let soft := columns.filter (·.1)
    let widest := (soft.map (·.2)).foldl max 0
    let second := ((soft.map (·.2)).filter (· != widest)).foldl max 0
    let share (c : Bool × Nat) : Bool := c.1 && c.2 == widest
    if soft.isEmpty || widest == second then sizes else
    let limit := min excess (widest - second)
    let reduced := reduce excess (columns.filter share).length
      (columns.map fun c => (share c, limit, c.2))
    let taken := Text.total sizes - Text.total reduced
    if taken == 0 then sizes
    else collapse fuel ((columns.map (·.1)).zip reduced) (excess - taken)

/-- The widths of the columns, padding included. -/
def widths (t : Table) : List Nat :=
  let space := consoleWidth - t.frame
  let indices := List.range t.columns.length
  let wide := indices.map fun i => max 1 (t.wanted i space)
  if Text.total wide ≤ space then wide else
  let soft := t.columns.map (!·.firm)
  let narrow := collapse (Text.total wide + 1) (soft.zip wide) (Text.total wide - space)
  let narrow := if Text.total narrow ≤ space then narrow else
    reduce (Text.total narrow - space) (narrow.filter (· != 0)).length
      (narrow.map fun w => (true, w, w))
  (indices.zip narrow).map fun (i, w) => t.wanted i w

/-- The lines of one cell, each as wide as the column. -/
def cellLines (t : Table) (column size : Nat) (text : String) : List (List Char) :=
  let (left, right) := t.padding column
  let inner := size - left - right
  let firm := (t.columns.getD column default).firm
  (Text.wrap inner .ellipsis (!firm) text).map fun line =>
    List.replicate left ' ' ++ Text.padRight inner line ++ List.replicate right ' '

/-- The lines of one row: as many as its highest cell has. -/
def rowLines (t : Table) (sizes : List Nat) (cells : List String) : List (List Char) :=
  let columns := (List.range sizes.length).map fun i =>
    (sizes.getD i 0, t.cellLines i (sizes.getD i 0) (cells.getD i ""))
  let height := (columns.map (·.2.length)).foldl max 1
  (List.range height).map fun n =>
    let parts := columns.map fun (size, ls) => ls.getD n (List.replicate size ' ')
    '|' :: (parts.intersperse ['|']).flatten ++ ['|']

/-- The table as text.  Cells and title are taken as they are. -/
def draw (t : Table) : String :=
  let sizes := t.widths
  let total := Text.total sizes + t.frame
  let title := (Text.wrap total .fold true t.title).map (Text.centre total)
  let border := '+' :: List.replicate (total - 2) '-' ++ ['+']
  let rule := '|' :: ((sizes.map fun s => List.replicate s '-').intersperse ['+']).flatten ++ ['|']
  let head := if t.headed then t.rowLines sizes (t.columns.map (·.header)) ++ [rule] else []
  let body := t.rows.flatMap (t.rowLines sizes)
  String.join ((title ++ [border] ++ head ++ body ++ [border]).map fun l =>
    String.ofList (l ++ ['\n']))

/-- The table as text, or nothing if the markup in it does not match. -/
def render? (t : Table) : Option String := do
  let title ← Markup.shown? t.title
  let rows ← t.rows.mapM fun cells => cells.mapM Markup.shown?
  return { t with title, rows }.draw

end Table

/-- A text on the console, or nothing if its markup does not match. -/
def printed? (text : String) : Option String :=
  (Markup.shown? text).map fun s =>
    String.join ((Text.wrap Table.consoleWidth .fold true s).map fun l =>
      String.ofList (l ++ ['\n']))

end Stepwise.Cli
