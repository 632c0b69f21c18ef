import QueryCheck.Text.Wrap

/-! # Tables

Tables with a round frame, a fixed overall width and wrapped cells. The columns start as wide as
their widest cell; the table then grows by its narrowest columns or shrinks by its widest until it
fits.

* `Table.columnWidths`: the width of every column, its blank on the right included;
* `Table.heightOf`: the lines a row takes;
* `Table.render`: the text. -/

namespace QueryCheck.Report

open QueryCheck.Text

/-- A table: a heading per column, possibly none, and rows of cells. -/
structure Table where
  headers : List String
  rows : List (List String)
  deriving DecidableEq, Repr, Inhabited

namespace Table

/-- The overall width of a table, frame included. -/
def frameWidth : Nat := 120

/-! ### Columns -/

/-- The cells of the longest row. -/
def rowColumns (t : Table) : Nat := (t.rows.map List.length).foldl max 0

/-- The number of columns. -/
def columns (t : Table) : Nat :=
  if t.headers.isEmpty then t.rowColumns else max t.headers.length t.rowColumns

/-- The cells of a list, filled up with empty ones. -/
def fill (n : Nat) (cells : List String) : List String :=
  cells ++ List.replicate (n - cells.length) ""

/-- The headings, one for every column, none in a table without headings. -/
def fullHeaders (t : Table) : List String := if t.headers.isEmpty then [] else fill t.columns t.headers

/-- The rows, each as long as the longest. -/
def fullRows (t : Table) : List (List String) := t.rows.map (fill t.rowColumns)

/-- Every line of the table, the headings first. -/
def allRows (t : Table) : List (List String) :=
  if t.headers.isEmpty then t.fullRows else t.fullHeaders :: t.fullRows

/-- The width of a cell: that of its widest line. -/
def cellCells (cell : String) : Nat := widest (lines cell.toList)

/-- The widths of the cells of column `j` in the given rows. -/
def columnCells (rows : List (List String)) (j : Nat) : List Nat :=
  (rows.filterMap (·[j]?)).map cellCells

/-- The middle one of the given numbers, or the middle between two, rounded down; `0` of none. -/
def median (ns : List Nat) : Nat :=
  let sorted := ns.mergeSort
  let n := sorted.length
  if n % 2 = 1 then sorted.getD (n / 2) 0
  else (sorted.getD (n / 2 - 1) 0 + sorted.getD (n / 2) 0) / 2

/-- The widths of the columns by their widest cells, with a blank on the right. -/
def startWidths (t : Table) : List Nat :=
  (List.range t.columns).map fun j => (columnCells t.allRows j).foldl max 0 + 1

/-- The middle cell width of every column, leaving the first line of the table out. -/
def medians (t : Table) : List Nat :=
  (List.range t.columns).map fun j => median (columnCells (t.allRows.drop 1) j)

/-- The width of the table with columns of the given widths. -/
def outerWidth (widths : List Nat) : Nat := sumOf id widths + widths.length + 1

/-- A column chosen so far: its place and the measure it was chosen by. -/
def pickStep (better : Nat → Nat → Bool) (best : Option (Nat × Nat)) (c : Nat × Nat) :
    Option (Nat × Nat) :=
  match best with
  | some b => if better c.2 b.2 then some c else best
  | none => some c

/-- The place of the first best among the measured columns. -/
def pick (better : Nat → Nat → Bool) (columns : List (Nat × Nat)) : Option Nat :=
  (columns.foldl (pickStep better) none).map Prod.fst

/-- The widths beside their places. -/
def placed (widths : List Nat) : List (Nat × Nat) := widths.zipIdx.map Prod.swap

/-- The narrowest column becomes one cell wider. -/
def widen (widths : List Nat) : List Nat :=
  match pick (· < ·) (placed widths) with
  | some j => widths.modify j (· + 1)
  | none => widths

/-- Takes a cell from the chosen column until the table fits, no column is chosen or `fuel` cells
have been taken. -/
def shrink (choose : List Nat → Option Nat) : (fuel : Nat) → List Nat → List Nat
  | 0, widths => widths
  | fuel + 1, widths =>
    if outerWidth widths ≤ frameWidth then widths
    else match choose widths with
      | some j => shrink choose fuel (widths.modify j (· - 1))
      | none => widths

/-- The widest column that takes at least half of the table. -/
def chooseHuge (widths : List Nat) : Option Nat :=
  pick (· > ·) ((placed widths).filter fun c => frameWidth / 2 ≤ c.2)

/-- The column that is most above its middle cell; none if that is the first column. -/
def chooseUneven (medians widths : List Nat) : Option Nat :=
  let above := (placed widths).map fun c => (c.1, c.2 - medians.getD c.1 0)
  (pick (· > ·) (above.filter fun c => 0 < c.2)).filter (0 < ·)

/-- The widest column. -/
def chooseWidest (widths : List Nat) : Option Nat :=
  pick (· > ·) ((placed widths).filter fun c => 0 < c.2)

/-- The widths of the columns. -/
def columnWidths (t : Table) : List Nat :=
  let start := t.startWidths
  if sumOf id start ≤ frameWidth then Nat.repeat widen (frameWidth - outerWidth start) start
  else
    let huge := shrink chooseHuge (sumOf id start) start
    let uneven := shrink (chooseUneven t.medians) (sumOf id huge) huge
    shrink chooseWidest (sumOf id uneven) uneven

/-! ### Cells -/

/-- The spaces, other than the one that forbids a break, that separate words when the lines of a
cell are counted. -/
def isSpace (c : Char) : Bool :=
  let n := c.toNat
  9 ≤ n && n ≤ 13 || n = 32 || n = 0x85 || n = 0x1680 || 0x2000 ≤ n && n ≤ 0x200a || n = 0x2028
    || n = 0x2029 || n = 0x202f || n = 0x205f || n = 0x3000

/-- How words are separated when the lines of a cell are counted. -/
def countedRules : WrapRules where
  blank g :=
    match g.chars.head? with
    | some c => if isSpace c then c.utf8Size else 0
    | none => 0
  hyphenWaits := true

/-- The lines a cell takes in a column of width `w`. -/
def cellHeight (w : Nat) (cell : String) : Nat :=
  if w = 1 then 1
  else sumOf (fun l => (wrapWith countedRules (w - 1) l).length) (lines (dropReturns cell.toList))

/-- The lines a row takes. -/
def heightOf (widths : List Nat) (row : List String) : Nat :=
  ((row.zip widths).map fun c => cellHeight c.2 c.1).foldl max 1

/-- The lines of a cell in a column of width `w` and a row of height `h`. -/
def cellLines (w h : Nat) (cell : String) : List (List Char) :=
  let wrapped := (lines (unlines (wrap (w - 1) (dropReturns (expandTabs cell.toList))))).map (· ++ [' '])
  ((wrapped ++ List.replicate (h - wrapped.length) []).map fun l => cutTo w (padTo w l)).take h

/-! ### Frame -/

/-- A horizontal line of the frame. -/
def rule (left middle right : Char) (widths : List Nat) : List Char :=
  left :: ((widths.map fun w => List.replicate w '─').intersperse [middle]).flatten ++ [right]

/-- A line of text in the frame. -/
def framed (parts : List (List Char)) : List Char := '│' :: (parts.intersperse ['│']).flatten ++ ['│']

/-- The lines of a row of height `h`. -/
def rowLines (widths : List Nat) (h : Nat) (row : List String) : List (List Char) :=
  let cells := (row.zip widths).map fun c => block (cellLines c.2 h c.1)
  (List.range h).map fun k => framed (cells.map (·.getD k []))

/-- The line of headings, of which only the first line is shown, and the line under it. -/
def headerLines (t : Table) (widths : List Nat) : List (List Char) :=
  if t.headers.isEmpty then [] else rowLines widths 1 t.fullHeaders ++ [rule '├' '┼' '┤' widths]

/-- All lines of the table. -/
def tableLines (t : Table) (widths : List Nat) : List (List Char) :=
  rule '╭' '┬' '╮' widths :: t.headerLines widths
    ++ (t.fullRows.flatMap fun row => rowLines widths (heightOf widths row) row)
    ++ [rule '╰' '┴' '╯' widths]

/-- The text of the table, cut to its overall width; a table of nothing is empty. -/
def render (t : Table) : String :=
  if t.headers.isEmpty && t.rows.isEmpty then ""
  else String.ofList (unlines ((block (t.tableLines t.columnWidths)).map (cutTo frameWidth)))

/-- The text of the table, none for rows without any column. -/
def render? (t : Table) : Option String :=
  if t.columns = 0 && !t.rows.isEmpty then none else some t.render

end Table

end QueryCheck.Report
