import QueryCheck.Proofs.Data.Json
import QueryCheck.Proofs.Report.Underline

/-! # Carets under any span

A snippet can be asked for with any column and any length. The span is moved into the line first: it
starts at the first column at the earliest, covers one column at least and ends with the line at the
latest. Its bounds are words of 64 bits, so that the line cannot be cut where their sum is no word.
Short of that the two lines of the snippet are aligned.

* `spanStart`, `spanStop`: the bounds of a span in its line.
* `cutOf`, `spanInRange_iff`: the bounds in words of 64 bits, and when the line can be cut there.
* `barOf`, `blanksOf`, `caretsOf`: what can be read off the lines of a snippet.
* `lines_snippet`: the first two lines of a snippet.
* `snippet?_aligned`: they are aligned for every span. -/

namespace QueryCheck.Report

open QueryCheck.Text

/-! ### The bounds of a span -/

/-- The offset in a line at which a span starts: that of its column, the first one at the
earliest. -/
def spanStart (line : List Char) (column : Int) : Nat := min (max column 1 - 1).toNat line.length

/-- The offset in a line at which a span ends, behind one column at least. -/
def spanStop (line : List Char) (column length : Int) : Nat :=
  min (spanStart line column + (max length 1).toNat) line.length

theorem spanStart_le_spanStop (line : List Char) (column length : Int) :
    spanStart line column ≤ spanStop line column length := by
  unfold spanStop spanStart
  omega

/-- The characters of a span are those between its bounds. -/
theorem spanOf_eq (line : List Char) (column length : Int) :
    spanOf line column length = (line.take (spanStart line column),
      (line.take (spanStop line column length)).drop (spanStart line column)) := by
  have hstart : (column - 1).toNat = (max column 1 - 1).toNat := by omega
  have hbefore : line.take (column - 1).toNat = line.take (spanStart line column) := by
    rw [hstart, spanStart, ← List.take_take, List.take_length]
  have hunder : (line.drop (column - 1).toNat).take (max length 1).toNat =
      (line.take (spanStop line column length)).drop (spanStart line column) := by
    by_cases hin : (max column 1 - 1).toNat ≤ line.length
    · have heq : spanStart line column = (max column 1 - 1).toNat := Nat.min_eq_left hin
      rw [List.take_drop, hstart, ← heq, spanStop, ← List.take_take, List.take_length]
    · have heq : spanStart line column = line.length := Nat.min_eq_right (by omega)
      rw [hstart, List.drop_eq_nil_of_le (by omega), heq, List.take_nil,
        List.drop_eq_nil_of_le (List.length_take_le' ..)]
  rw [spanOf, hbefore, hunder]

/-- The value of a sum in a word of 64 bits. -/
def inWord (n : Int) : Int := n.bmod 0x10000000000000000

theorem inWord_of_lt {n : Int} (hnonneg : 0 ≤ n) (hlt : n < 0x8000000000000000) : inWord n = n :=
  Int.bmod_eq_of_le_mul_two (by omega) (by omega)

/-- A sum of two words that is no word becomes negative. -/
theorem inWord_neg {n : Int} (hle : 0x8000000000000000 ≤ n) (hlt : n < 0x10000000000000000) :
    inWord n < 0 := by
  have hsub : inWord n = n - 0x10000000000000000 := by
    rw [inWord, ← Int.sub_bmod_right]
    exact Int.bmod_eq_of_le_mul_two (by omega) (by omega)
  omega

/-- The offsets between which a span is cut from its line, in words. -/
def cutOf (line : List Char) (column length : Int) : Int × Int :=
  let start := min (max column 1 - 1) line.length
  (start, min (inWord (start + max length 1)) line.length)

/-- A part of a line that can be cut from it. -/
structure InLine (line : List Char) (cut : Int × Int) : Prop where
  start : 0 ≤ cut.1
  order : cut.1 ≤ cut.2
  stop : cut.2 ≤ line.length

theorem spanInRange_iff_lt {line : List Char} {column length : Int} :
    spanInRange line column length = true ↔
      min (max column 1 - 1) line.length + max length 1 < 0x8000000000000000 := by
  have hstart : (min (column - 1).toNat line.length : Int) = min (max column 1 - 1) line.length := by
    omega
  rw [spanInRange, decide_eq_true_iff, hstart]

/-- **A span in range** is cut from its line at its bounds. -/
theorem cutOf_eq {line : List Char} {column length : Int}
    (h : spanInRange line column length = true) :
    cutOf line column length = (↑(spanStart line column), ↑(spanStop line column length)) := by
  rw [spanInRange_iff_lt] at h
  rw [cutOf, inWord_of_lt (by omega) h, spanStop, spanStart]
  exact Prod.ext (by omega) (by omega)

theorem inLine_cutOf {line : List Char} {column length : Int}
    (h : spanInRange line column length = true) : InLine line (cutOf line column length) := by
  have hle := spanStart_le_spanStop line column length
  rw [cutOf_eq h]
  exact ⟨Int.natCast_nonneg _, Int.ofNat_le.mpr hle, Int.ofNat_le.mpr (Nat.min_le_right _ _)⟩

/-- **A span is in range** if and only if it can be cut from its line. -/
theorem spanInRange_iff {line : List Char} {column length : Int}
    (hline : line.length < 0x8000000000000000) (hlength : length < 0x8000000000000000) :
    spanInRange line column length = true ↔ InLine line (cutOf line column length) := by
  refine ⟨inLine_cutOf, fun hcut => ?_⟩
  have horder := hcut.order
  rw [spanInRange_iff_lt]
  by_contra hnot
  have hneg : inWord (min (max column 1 - 1) line.length + max length 1) < 0 :=
    inWord_neg (by omega) (by omega)
  rw [cutOf] at horder
  omega

/-- Where the sum of column and length is a word, the span is in range. -/
theorem spanInRange_of_lt {column length : Int} (hcolumn : column < 0x8000000000000000)
    (hlength : length < 0x8000000000000000) (hsum : column + length < 0x8000000000000000)
    (line : List Char) : spanInRange line column length = true := by
  rw [spanInRange_iff_lt]
  omega

/-! ### The lines of a snippet -/

/-- The position of the bar in a line of a snippet. -/
def barOf (l : List Char) : Nat := l.idxOf '|'

/-- What stands behind the bar and a blank. -/
def behindBar (l : List Char) : List Char := l.drop (barOf l + 2)

/-- The number of blanks there. -/
def blanksOf (l : List Char) : Nat := ((behindBar l).takeWhile (· = ' ')).length

/-- The number of carets behind the blanks. -/
def caretsOf (l : List Char) : Nat :=
  (((behindBar l).dropWhile (· = ' ')).takeWhile (· = '^')).length

/-- A line of a snippet: something in front of a bar between blanks, and something behind. -/
def barred (front behind : List Char) : List Char := front ++ ' ' :: '|' :: ' ' :: behind

section Barred

variable {front : List Char} (hfront : '|' ∉ front) (behind : List Char)

include hfront

theorem barOf_barred : barOf (barred front behind) = front.length + 1 := by
  rw [barOf, barred, List.idxOf_append, if_neg hfront, List.idxOf_cons_ne _ (by decide),
    List.idxOf_cons_self, Nat.add_comm]

theorem behindBar_barred : behindBar (barred front behind) = behind := by
  rw [behindBar, barOf_barred hfront, barred, List.drop_append, List.drop_eq_nil_of_le (by omega),
    List.nil_append]
  have hthree : front.length + 1 + 2 - front.length = 3 := by omega
  rw [hthree]
  rfl

theorem gap_barred : (barred front behind)[barOf (barred front behind)]? = some '|' ∧
    (barred front behind)[barOf (barred front behind) + 1]? = some ' ' := by
  rw [barOf_barred hfront, barred, List.getElem?_append_right (by omega),
    List.getElem?_append_right (by omega), Nat.add_sub_cancel_left, Nat.add_assoc,
    Nat.add_sub_cancel_left]
  exact ⟨rfl, rfl⟩

end Barred

/-- Blanks and carets, if something else follows the carets. -/
theorem blanks_carets (blanks : Nat) {carets : Nat} (hcarets : 1 ≤ carets) {rest : List Char}
    (hrest : ∀ c ∈ rest.head?, c ≠ '^') {l : List Char}
    (hl : l = List.replicate blanks ' ' ++ (List.replicate carets '^' ++ rest)) :
    (l.takeWhile (· = ' ')).length = blanks ∧
      ((l.dropWhile (· = ' ')).takeWhile (· = '^')).length = carets := by
  obtain ⟨k, rfl⟩ := Nat.exists_eq_add_of_le' hcarets
  have hblank : ∀ c ∈ List.replicate blanks ' ', decide (c = ' ') = true := fun c hc =>
    decide_eq_true (List.eq_of_mem_replicate hc)
  have hcaret : ∀ c ∈ List.replicate (k + 1) '^', decide (c = '^') = true := fun c hc =>
    decide_eq_true (List.eq_of_mem_replicate hc)
  have hend : rest.takeWhile (· = '^') = [] := by
    cases rest with
    | nil => rfl
    | cons c rest => exact List.takeWhile_cons_of_neg (by simpa using hrest c rfl)
  rw [hl, List.takeWhile_append_of_pos hblank, List.dropWhile_append_of_pos hblank]
  constructor
  · rw [List.replicate_succ, List.cons_append, List.takeWhile_cons_of_neg (by decide),
      List.append_nil, List.length_replicate]
  · have hkept : (List.replicate (k + 1) '^' ++ rest).dropWhile (· = ' ') =
        List.replicate (k + 1) '^' ++ rest := by
      rw [List.replicate_succ, List.cons_append, List.dropWhile_cons_of_neg (by decide)]
    rw [hkept, List.takeWhile_append_of_pos hcaret, hend, List.append_nil, List.length_replicate]

theorem toList_pushn (c : Char) (n : Nat) : ("".pushn c n).toList = List.replicate n c := by
  rw [String.pushn_eq_repeat_push]
  induction n with
  | zero => rfl
  | succ n ih => rw [Nat.repeat, String.toList_push, ih, List.replicate_succ']

/-- A line number holds neither a bar nor a line break. -/
theorem number_clean (n : Int) : '|' ∉ (toString n).toList ∧ '\n' ∉ (toString n).toList := by
  have hclean : ∀ c, Data.Json.inNumber c = false → c ∉ (toString n).toList := by
    intro c hc hmem
    have hin := Data.Json.inNumber_of_mem_repr c hmem
    rw [hc] at hin
    cases hin
  exact ⟨hclean _ rfl, hclean _ rfl⟩

/-- The line of the source in a snippet. -/
def sourceLine (number : Int) (line : List Char) : List Char :=
  barred (toString number).toList (expandTabs line)

/-- The line of the carets in a snippet, of a message as much as is on this line. -/
def caretLine (number : Int) (before under message : List Char) : List Char :=
  barred (List.replicate (toString number).toList.length ' ')
    (List.replicate (sumOf cellWidth (expandTabs before)) ' '
      ++ (List.replicate (max (sumOf cellWidth (expandTabs under)) 1) '^' ++ message))

theorem toList_underlinedLine (number : Int) (before under rest : List Char) (message : String) :
    (underlinedLine (toString number) before under rest ++ message).toList =
      sourceLine number (before ++ under ++ rest) ++ '\n' ::
        caretLine number before under message.toList := by
  have hexpand : expandTabs (before ++ under ++ rest) =
      expandTabs before ++ expandTabs under ++ expandTabs rest := by
    rw [expandTabs, List.flatMap_append, List.flatMap_append]
    rfl
  rw [sourceLine, caretLine, hexpand]
  simp only [underlinedLine, String.toList_append, toList_pushn, String.toList_ofList,
    String.length_toList, barred, List.append_assoc, List.cons_append]
  rfl

theorem notMem_expandTabs {line : List Char} (h : '\n' ∉ line) : '\n' ∉ expandTabs line := by
  intro hmem
  obtain ⟨c, hc, hin⟩ := List.mem_flatMap.mp hmem
  split_ifs at hin
  · cases List.eq_of_mem_replicate hin
  · exact h (List.mem_singleton.mp hin ▸ hc)

theorem notMem_sourceLine (number : Int) {line : List Char} (h : '\n' ∉ line) :
    '\n' ∉ sourceLine number line := by
  have hnumber : '\n' ∉ number.repr.toList := (number_clean number).2
  simp [sourceLine, barred, hnumber, notMem_expandTabs h]

/-- The line of the carets ends with the first line of the message. -/
theorem takeWhile_caretLine (number : Int) (before under message : List Char) :
    (caretLine number before under message).takeWhile (· ≠ '\n') =
      caretLine number before under (message.takeWhile (· ≠ '\n')) := by
  simp [caretLine, barred, List.takeWhile_append_of_pos]

/-- **The first two lines of a snippet** are that of the source and that of the carets. -/
theorem lines_snippet {line : List Char} (hline : '\n' ∉ line) (number column length : Int)
    (message : String) :
    ∃ behind : List Char, (∀ c ∈ behind.head?, c ≠ '^') ∧ ∃ rest,
      lines (snippet (String.ofList line) number column length message).toList =
        sourceLine number line ::
          caretLine number (line.take (spanStart line column))
            ((line.take (spanStop line column length)).drop (spanStart line column)) behind :: rest := by
  set start := spanStart line column
  set stop := spanStop line column length
  have hle : start ≤ stop := spanStart_le_spanStop line column length
  have hsplit : line = line.take start ++ (line.take stop).drop start ++ line.drop stop := by
    have hfront : line.take start = (line.take stop).take start := by
      rw [List.take_take, Nat.min_eq_left hle]
    rw [hfront, List.take_append_drop, List.take_append_drop]
  have hsnippet := snippet_eq hsplit (spanOf_eq line column length) number message
  have hbehind : ∀ c ∈ (messageBehind message).toList.head?, c ≠ '^' := by
    intro c hc
    unfold messageBehind at hc
    split_ifs at hc
    · cases hc
    · have hblank : c = ' ' := by simpa using hc.symm
      rw [hblank]
      decide
  refine ⟨(messageBehind message).toList.takeWhile (· ≠ '\n'), fun c hc => hbehind c ?_, ?_⟩
  · rw [List.head?_takeWhile] at hc
    exact (Option.mem_filter_iff.mp hc).1
  · obtain ⟨rest, hrest⟩ := exists_lines
      (caretLine number (line.take start) ((line.take stop).drop start) (messageBehind message).toList)
    refine ⟨rest, ?_⟩
    rw [hsnippet, toList_underlinedLine, ← hsplit, lines_append_break _ (notMem_sourceLine number hline),
      hrest, takeWhile_caretLine]

/-! ### Alignment -/

/-- Two lines of a snippet that show a line with carets under a part of it. -/
structure Aligned (line : List Char) (start stop : Nat) (first second : List Char) : Prop where
  /-- The bars stand one under the other. -/
  bar : barOf first = barOf second
  /-- They are bars, with blanks behind them. -/
  gap : ∀ l ∈ [first, second], l[barOf l]? = some '|' ∧ l[barOf l + 1]? = some ' '
  /-- Behind the first bar there is the line, with blanks for tabs. -/
  shown : behindBar first = expandTabs line
  /-- In front of the carets there are as many blanks as the text before the part is wide. -/
  blanks : blanksOf second = sumOf cellWidth (expandTabs (line.take start))
  /-- There are as many carets as the part is wide, and at least one. -/
  carets : caretsOf second = max 1 (sumOf cellWidth (expandTabs ((line.take stop).drop start)))

theorem aligned (number : Int) (line : List Char) (start stop : Nat) {behind : List Char}
    (hbehind : ∀ c ∈ behind.head?, c ≠ '^') :
    Aligned line start stop (sourceLine number line)
      (caretLine number (line.take start) ((line.take stop).drop start) behind) := by
  have hnumber := (number_clean number).1
  have hindent : '|' ∉ List.replicate (toString number).toList.length ' ' := fun h => by
    cases List.eq_of_mem_replicate h
  obtain ⟨hblanks, hcarets⟩ := blanks_carets (sumOf cellWidth (expandTabs (line.take start)))
    (Nat.le_max_right (sumOf cellWidth (expandTabs ((line.take stop).drop start))) 1) hbehind
    (behindBar_barred hindent _)
  exact
    { bar := by rw [sourceLine, caretLine, barOf_barred hnumber, barOf_barred hindent,
        List.length_replicate]
      gap := by
        simp only [List.forall_mem_cons]
        exact ⟨gap_barred hnumber _, gap_barred hindent _, nofun⟩
      shown := behindBar_barred hnumber _
      blanks := hblanks
      carets := hcarets.trans (Nat.max_comm _ _) }

/-- **Carets are aligned for every span.** Where the sum of column and length is a word, the line
can be cut at the bounds of the span, and there is a snippet. In its first two lines the bars stand
one under the other, and the carets stand under the characters of the span: in front of them there
are as many blanks as the text before the span takes cells, and there are as many carets as the span
takes cells, one at least. -/
theorem snippet?_aligned {source : String} (hsource : '\n' ∉ source.toList)
    (number column length : Int) (hcolumn : column < 0x8000000000000000)
    (hlength : length < 0x8000000000000000) (hsum : column + length < 0x8000000000000000)
    (message : String) :
    cutOf source.toList column length =
        (↑(spanStart source.toList column), ↑(spanStop source.toList column length)) ∧
      InLine source.toList (cutOf source.toList column length) ∧
      ∃ out first second rest, snippet? source number column length message = some out ∧
        lines out.toList = first :: second :: rest ∧
        Aligned source.toList (spanStart source.toList column)
          (spanStop source.toList column length) first second := by
  have hrange := spanInRange_of_lt hcolumn hlength hsum source.toList
  obtain ⟨behind, hbehind, rest, hlines⟩ := lines_snippet hsource number column length message
  rw [String.ofList_toList] at hlines
  refine ⟨cutOf_eq hrange, inLine_cutOf hrange, _, _, _, rest, ?_, hlines,
    aligned number source.toList _ _ hbehind⟩
  rw [snippet?, if_pos hrange]

/-- A tab and a wide character behind another wide one are underlined with six carets. -/
theorem snippet?_aligned_wide :
    '\n' ∉ "名\t字b".toList ∧ (2 : Int) < 0x8000000000000000 ∧ (2 : Int) + 2 < 0x8000000000000000 ∧
      ∃ out first second rest, snippet? "名\t字b" 12 2 2 "wide" = some out ∧
        lines out.toList = first :: second :: rest ∧ barOf first = barOf second ∧
        behindBar first = "名    字b".toList ∧ blanksOf second = 2 ∧ caretsOf second = 6 := by
  have hsource : '\n' ∉ "名\t字b".toList := by decide
  obtain ⟨-, -, out, first, second, rest, hout, hlines, haligned⟩ :=
    snippet?_aligned hsource 12 2 2 (by decide) (by decide) (by decide) "wide"
  exact ⟨hsource, by decide, by decide, out, first, second, rest, hout, hlines, haligned.bar,
    haligned.shown.trans (by decide), haligned.blanks.trans (by decide),
    haligned.carets.trans (by decide)⟩

end QueryCheck.Report
