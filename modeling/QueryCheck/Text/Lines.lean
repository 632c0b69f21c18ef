import QueryCheck.Text.Glyph

/-! # Lines

Texts of several lines: cutting at line breaks, joining again, and the block a styled text becomes,
in which every line is as wide as the widest. -/

namespace QueryCheck.Text

/-- Puts a character in front of lines. -/
def lineStep (c : Char) (ls : List (List Char)) : List (List Char) :=
  if c = '\n' then [] :: ls
  else match ls with
    | l :: rest => (c :: l) :: rest
    | [] => [[c]]

/-- The lines of a text, one more than it has line breaks. -/
def lines (cs : List Char) : List (List Char) := cs.foldr lineStep [[]]

/-- The lines with a line break between any two. -/
def unlines : List (List Char) → List Char
  | [] => []
  | [l] => l
  | l :: m :: ls => l ++ '\n' :: unlines (m :: ls)

/-- The cells a tab takes. -/
def tabWidth : Nat := 4

/-- The text with spaces in the place of tabs. -/
def expandTabs (cs : List Char) : List Char :=
  cs.flatMap fun c => if c = '\t' then List.replicate tabWidth ' ' else [c]

/-- The text without the carriage returns that stand before a line break. -/
def dropReturns : List Char → List Char
  | [] => []
  | '\r' :: '\n' :: cs => '\n' :: dropReturns cs
  | c :: cs => c :: dropReturns cs

/-- The cells the widest line takes. -/
def widest (ls : List (List Char)) : Nat := (ls.map width).foldl max 0

/-- The line with spaces behind it up to a width. -/
def padTo (n : Nat) (l : List Char) : List Char := l ++ List.replicate (n - width l) ' '

/-- The lines, each padded to the widest. -/
def block (ls : List (List Char)) : List (List Char) := ls.map (padTo (widest ls))

/-- A text as it is shown in a style of its own: without tabs and carriage returns, a rectangle. -/
def styled (s : String) : String :=
  String.ofList (unlines (block (lines (dropReturns (expandTabs s.toList)))))

end QueryCheck.Text
