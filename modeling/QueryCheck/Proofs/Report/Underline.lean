import QueryCheck.Proofs.Text.Lines
import QueryCheck.Report.Diagnostic

/-! # What the carets stand under

The report of a stretch of a text shows the line on which the stretch starts, and carets under as
much of the stretch as is on this line. In front of the carets there are as many blanks as the
characters before the stretch take cells, so that the carets stand under the stretch.

* `shownLine`, `shownEnd`: the line of an offset as it is shown, and where it ends in the text.
* `clipped`: the part of a stretch that is on the line.
* `underlinedLine`: a line with carets under a part of it.
* `render_stretch`: the report of a stretch. -/

namespace QueryCheck.Report

open QueryCheck.Text

/-! ### The line that is shown -/

/-- The line that holds an offset, as it is shown: without a carriage return at its end. -/
def shownLine (cs : List Char) (i : Nat) : List Char := dropReturn (lineAt cs i)

/-- The offset at which this line ends. -/
def shownEnd (cs : List Char) (i : Nat) : Nat := lineStart cs i + (shownLine cs i).length

/-- The characters of the line in front of the offset. -/
def shownBefore (cs : List Char) (i : Nat) : List Char := (shownLine cs i).take (i - lineStart cs i)

/-- The characters between two offsets, up to the end of the line. -/
def clipped (cs : List Char) (start stop : Nat) : List Char :=
  (cs.take (min stop (shownEnd cs start))).drop start

theorem prefix_dropReturn (l : List Char) : dropReturn l <+: l := by
  unfold dropReturn
  split_ifs
  · exact List.dropLast_prefix l
  · exact List.prefix_rfl

/-- **The line that is shown** is what stands in the text between its start and its end. -/
theorem shownLine_eq {cs : List Char} {i : Nat} (h : i ≤ cs.length) :
    shownLine cs i = (cs.take (shownEnd cs i)).drop (lineStart cs i) := by
  have hline := List.prefix_iff_eq_take.mp ((prefix_dropReturn _).trans (prefix_lineAt h))
  rw [List.drop_take, shownEnd, Nat.add_sub_cancel_left]
  exact hline

theorem column_sub_one {cs : List Char} {i : Nat} :
    ((lastLine (cs.take i)).length + 1 - 1 : Int).toNat = i - lineStart cs i := by
  have hle := length_lastLine_take_le cs i
  rw [lineStart]
  omega

/-- The span of a stretch on its line. -/
theorem spanOf_shownLine {cs : List Char} {start stop : Nat} (hlt : start < stop)
    (hstart : start ≤ cs.length) :
    spanOf (shownLine cs start) ((lastLine (cs.take start)).length + 1) (stop - start) =
      (shownBefore cs start, clipped cs start stop) := by
  have hle : lineStart cs start ≤ start := Nat.sub_le _ _
  have hwidth : (max (stop - start : Int) 1).toNat = stop - start := by omega
  have hunder : ((shownLine cs start).drop (start - lineStart cs start)).take (stop - start) =
      clipped cs start stop := by
    rw [shownLine_eq hstart, List.drop_drop, Nat.add_sub_cancel' hle, clipped, List.drop_take,
      List.drop_take, List.take_take]
    congr 1
    omega
  rw [spanOf, column_sub_one, hwidth, hunder]
  rfl

/-- The line in front of a stretch, the stretch on the line, and the rest of the line. -/
theorem exists_shownLine {cs : List Char} {start stop : Nat} (hlt : start < stop)
    (hstart : start ≤ cs.length) :
    ∃ rest, shownLine cs start = shownBefore cs start ++ clipped cs start stop ++ rest := by
  have hspan := spanOf_shownLine hlt hstart
  obtain ⟨hbefore, hunder⟩ := Prod.mk.inj hspan
  refine ⟨((shownLine cs start).drop (start - lineStart cs start)).drop (stop - start), ?_⟩
  have hwidth : (max (stop - start : Int) 1).toNat = stop - start := by omega
  rw [← hunder, column_sub_one, hwidth, List.append_assoc, List.take_append_drop, shownBefore,
    List.take_append_drop]

/-- What stands between two offsets of one line. -/
theorem clipped_of_le {cs : List Char} {start stop : Nat} (h : stop ≤ shownEnd cs start) :
    clipped cs start stop = (cs.take stop).drop start := by
  rw [clipped, Nat.min_eq_left h]

/-! ### Carets -/

/-- The cells of a source line are those of the line as it is printed. -/
theorem cells_eq (cs : List Char) : cells cs = sumOf cellWidth (expandTabs cs) := by
  induction cs with
  | nil => rfl
  | cons c cs ih =>
    have hcons : expandTabs (c :: cs) =
        (if c = '\t' then List.replicate tabWidth ' ' else [c]) ++ expandTabs cs := rfl
    rw [cells, sumOf_cons, ← cells, ih, hcons, sumOf_append, sourceCells]
    split_ifs
    · rfl
    · rfl

/-- A source line in three parts behind its number, tabs as blanks, and a row of carets under the
cells of the second part. -/
def underlinedLine (number : String) (before under rest : List Char) : String :=
  number ++ " | " ++ String.ofList (expandTabs before ++ expandTabs under ++ expandTabs rest) ++ "\n"
    ++ "".pushn ' ' number.length ++ " | " ++ "".pushn ' ' (sumOf cellWidth (expandTabs before))
    ++ "".pushn '^' (max (sumOf cellWidth (expandTabs under)) 1)

/-- The message behind the carets. -/
def messageBehind (message : String) : String := if message = "" then "" else " " ++ styled message

theorem snippet_eq {line before under rest : List Char} {column length : Int}
    (hline : line = before ++ under ++ rest) (hspan : spanOf line column length = (before, under))
    (number : Int) (message : String) :
    snippet (String.ofList line) number column length message =
      underlinedLine (toString number) before under rest ++ messageBehind message := by
  have hexpand : expandTabs line = expandTabs before ++ expandTabs under ++ expandTabs rest := by
    rw [hline, expandTabs, List.flatMap_append, List.flatMap_append]
    rfl
  have hcarets : underline line column length =
      (sumOf cellWidth (expandTabs before), max (sumOf cellWidth (expandTabs under)) 1) := by
    rw [← cells_eq, ← cells_eq, underline, hspan]
  rw [snippet, String.toList_ofList, hcarets, hexpand]
  rfl

/-- **The report of a stretch of a text.** The line on which the stretch starts is shown, and the
carets stand under as much of the stretch as is on it. -/
theorem render_stretch {d : Diagnostic} {source : String} {start stop : Nat} (hlt : start < stop)
    (hstop : stop ≤ source.toList.length)
    (hline : d.line = (source.toList.take start).count '\n' + 1)
    (hcolumn : d.column = (lastLine (source.toList.take start)).length + 1)
    (hlength : d.length = stop - start) :
    ∃ rest, shownLine source.toList start =
        shownBefore source.toList start ++ clipped source.toList start stop ++ rest ∧
      d.render source = location d.file d.line d.column ++ "\n"
        ++ (underlinedLine (toString d.line) (shownBefore source.toList start)
          (clipped source.toList start stop) rest ++ messageBehind d.message) ++ d.helpText := by
  have hstart : start ≤ source.toList.length := by omega
  obtain ⟨rest, hrest⟩ := exists_shownLine hlt hstart
  have hindex : (d.line - 1).toNat = (source.toList.take start).count '\n' := by omega
  have hsource : d.sourceLine? source = some (String.ofList (shownLine source.toList start)) := by
    rw [Diagnostic.sourceLine?, hindex, getElem?_lines]
    rfl
  have hspan : spanOf (shownLine source.toList start) d.column d.length =
      (shownBefore source.toList start, clipped source.toList start stop) := by
    rw [hcolumn, hlength]
    exact spanOf_shownLine hlt hstart
  refine ⟨rest, hrest, ?_⟩
  rw [Diagnostic.render, if_neg (by omega), hsource]
  exact congrArg (location d.file d.line d.column ++ "\n" ++ · ++ d.helpText)
    (snippet_eq hrest hspan d.line d.message)

end QueryCheck.Report
