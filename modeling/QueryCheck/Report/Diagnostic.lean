import QueryCheck.Text.Lines

/-! # Diagnostics

The report of one problem: where it is, the source line it is on, a row of carets under the
offending characters and lines of help. Columns and lengths count characters; the carets are placed
by cells, so that wide characters and tabs before and under them are accounted for.

* `underline`: the blanks in front of the carets and the number of carets;
* `snippet`: the source line with its number, and the carets with the message under it;
* `Diagnostic.render`: the whole report. -/

namespace QueryCheck.Report

open QueryCheck.Text

/-! ### Carets -/

/-- The cells a character of a source line takes. -/
def sourceCells (c : Char) : Nat := if c = '\t' then tabWidth else cellWidth c

/-- The cells characters of a source line take. -/
def cells (cs : List Char) : Nat := sumOf sourceCells cs

/-- The characters of a line in front of a span and those in it. A span starts at the first column
at the earliest and covers at least one column; what lies behind the end of the line is left out. -/
def spanOf (line : List Char) (column length : Int) : List Char × List Char :=
  let start := (column - 1).toNat
  (line.take start, (line.drop start).take (max length 1).toNat)

/-- The blanks in front of the carets, and the carets: one per cell of the span, one for an empty
span. -/
def underline (line : List Char) (column length : Int) : Nat × Nat :=
  let (before, under) := spanOf line column length
  (cells before, max (cells under) 1)

/-- Whether the last column of a span is a number of 64 bits. -/
def spanInRange (line : List Char) (column length : Int) : Bool :=
  (min (column - 1).toNat line.length : Int) + max length 1 < 0x8000000000000000

/-! ### Texts -/

/-- Where a problem is. -/
def location (file : String) (line column : Int) : String :=
  "--> " ++ file ++ ":" ++ toString line ++ ":" ++ toString column

/-- A source line with its number, and under it the carets with the message behind them. -/
def snippet (source : String) (lineNumber column length : Int) (message : String) : String :=
  let number := toString lineNumber
  let (blanks, carets) := underline source.toList column length
  number ++ " | " ++ String.ofList (expandTabs source.toList) ++ "\n"
    ++ "".pushn ' ' number.length ++ " | " ++ "".pushn ' ' blanks ++ "".pushn '^' carets
    ++ (if message = "" then "" else " " ++ styled message)

/-- The snippet of a span, none when its last column is out of range. -/
def snippet? (source : String) (lineNumber column length : Int) (message : String) : Option String :=
  if spanInRange source.toList column length then some (snippet source lineNumber column length message)
  else none

/-- One report: a span of a file, what is wrong there and how it may be mended. -/
structure Diagnostic where
  file : String
  line : Int
  column : Int
  length : Int
  message : String
  help : List String := []
  deriving DecidableEq, Repr, Inhabited

/-- The line without a carriage return at its end. -/
def dropReturn (line : List Char) : List Char :=
  if line.getLast? = some '\r' then line.dropLast else line

namespace Diagnostic

/-- The source line a diagnostic points into. -/
def sourceLine? (d : Diagnostic) (source : String) : Option String :=
  ((lines source.toList)[(d.line - 1).toNat]?).map fun l => String.ofList (dropReturn l)

/-- The lines of help. -/
def helpText (d : Diagnostic) : String :=
  d.help.foldl (fun text h => text ++ "\n  = help: " ++ h) ""

/-- The report against the whole source. Without a line the message stands alone; a line behind the
end of the source is not shown. -/
def render (d : Diagnostic) (source : String) : String :=
  if d.line < 1 then "  " ++ d.message
  else
    let shown :=
      match d.sourceLine? source with
      | some line => snippet line d.line d.column d.length d.message
      | none => "  " ++ d.message
    location d.file d.line d.column ++ "\n" ++ shown ++ d.helpText

/-- Whether the span of the diagnostic is in range, where it is shown at all. -/
def inRange (d : Diagnostic) (source : String) : Bool :=
  d.line < 1 || match d.sourceLine? source with
    | some line => spanInRange line.toList d.column d.length
    | none => true

/-- The report, none when the last column of its span is out of range. -/
def render? (d : Diagnostic) (source : String) : Option String :=
  if d.inRange source then some (d.render source) else none

end Diagnostic

end QueryCheck.Report
