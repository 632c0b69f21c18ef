import QueryCheck.Text.Fold

/-! # Edit distance

The edit distance of two texts is the least number of characters to insert, delete or replace to
turn one into the other. It is computed row by row: the entry at position `j` of the row of a list
`s` is the distance from `s` to the first `j` characters of the other text.

* `editDistance` is the distance of two lists of characters.
* `nameDistance` compares names, which are closer when they differ in case only. -/

namespace QueryCheck.Text

/-- The rest of the next row: `left` is the entry before it, and the list pairs each character of
the other text with the entry above and to the left of its own and with the entry above its own. -/
def rowStep (c : Char) (left : Nat) : List (Char × Nat × Nat) → List Nat
  | [] => []
  | (d, diagonal, above) :: rest =>
    let entry := min (min (left + 1) (above + 1)) (if c = d then diagonal else diagonal + 1)
    entry :: rowStep c entry rest

/-- The row after one more character of the first text. -/
def nextRow (t : List Char) (row : List Nat) (c : Char) : List Nat :=
  let first := row.headD 0 + 1
  first :: rowStep c first (t.zip (row.zip row.tail))

/-- The edit distance of two lists of characters. -/
def editDistance (s t : List Char) : Nat :=
  ((s.foldl (nextRow t) (List.range (t.length + 1))).getLast?).getD 0

/-- How far a candidate is from a name: nothing when they are the same, one when they differ in case
only, and else the edit distance of their folded forms. -/
def nameDistance (query candidate : String) : Nat :=
  if query = candidate then 0
  else if fold query = fold candidate then 1
  else editDistance (fold query) (fold candidate)

end QueryCheck.Text
