import Mathlib.Data.List.DropRight
import QueryCheck.Text.Lines

/-! # The line of an offset

A text is cut into lines at its line breaks. The line that holds an offset is made of what stands
between the last line break before the offset and the offset, and of what follows up to the next
line break; its number is the number of line breaks before the offset.

* `lastLine`: what stands behind the last line break of a text.
* `lineAt`: the line that holds an offset.
* `lines_append_break`: a line in front of the lines of a text.
* `getElem?_lines`: the lines of a text hold this line under its number.
* `prefix_lineAt`: the line stands where it starts. -/

namespace QueryCheck.Text

/-- What stands behind the last line break of a text. -/
def lastLine (cs : List Char) : List Char := cs.rtakeWhile (· ≠ '\n')

/-- The line that holds an offset. -/
def lineAt (cs : List Char) (i : Nat) : List Char :=
  lastLine (cs.take i) ++ (cs.drop i).takeWhile (· ≠ '\n')

/-- The offset at which the line that holds an offset starts. -/
def lineStart (cs : List Char) (i : Nat) : Nat := i - (lastLine (cs.take i)).length

theorem lastLine_concat (cs : List Char) (c : Char) :
    lastLine (cs ++ [c]) = if c = '\n' then [] else lastLine cs ++ [c] := by
  rw [lastLine, List.rtakeWhile_concat]
  by_cases hc : c = '\n' <;> simp [hc, lastLine]

/-- A text without line breaks is one line. -/
theorem lastLine_of_notMem {cs : List Char} (h : '\n' ∉ cs) : lastLine cs = cs :=
  List.rtakeWhile_eq_self_iff.mpr fun c hc => by
    simpa using fun hbreak : c = '\n' => h (hbreak ▸ hc)

/-- What stands before the last line break does not matter. -/
theorem lastLine_cons (c : Char) {cs : List Char} (h : c = '\n' ∨ '\n' ∈ cs) :
    lastLine (c :: cs) = lastLine cs := by
  induction cs using List.reverseRecOn with
  | nil =>
    obtain rfl : c = '\n' := by simpa using h
    rfl
  | append_singleton cs d ih =>
    rw [← List.cons_append, lastLine_concat, lastLine_concat]
    split_ifs with hd
    · rfl
    · rw [ih (by simpa [Ne.symm hd] using h)]

theorem exists_lines (cs : List Char) : ∃ ls, lines cs = cs.takeWhile (· ≠ '\n') :: ls := by
  induction cs with
  | nil => exact ⟨[], rfl⟩
  | cons c cs ih =>
    obtain ⟨ls, hls⟩ := ih
    have hstep : lines (c :: cs) = lineStep c (lines cs) := rfl
    rw [hstep, hls, lineStep]
    by_cases hc : c = '\n'
    · exact ⟨cs.takeWhile (· ≠ '\n') :: ls, by simp [hc]⟩
    · exact ⟨ls, by simp [hc]⟩

/-- A line in front of a line break. -/
theorem lines_append_break (ys : List Char) : ∀ {l : List Char}, '\n' ∉ l →
    lines (l ++ '\n' :: ys) = l :: lines ys
  | [], _ => by
    have hstep : lines ('\n' :: ys) = lineStep '\n' (lines ys) := rfl
    rw [List.nil_append, hstep]
    exact if_pos rfl
  | c :: l, h => by
    rw [List.mem_cons, not_or] at h
    have ih := lines_append_break ys h.2
    have hstep : lines (c :: l ++ '\n' :: ys) = lineStep c (lines (l ++ '\n' :: ys)) := rfl
    rw [hstep, ih, lineStep, if_neg (Ne.symm h.1)]

/-- The induction is on what stands before the place: a line break there opens a further line,
and any other character belongs to the first line, which is the line of the place if there is no
break. -/
theorem getElem?_lines_append (ys : List Char) : ∀ xs : List Char,
    (lines (xs ++ ys))[xs.count '\n']? = some (lastLine xs ++ ys.takeWhile (· ≠ '\n'))
  | [] => by
    obtain ⟨ls, hls⟩ := exists_lines ys
    rw [List.nil_append, hls]
    rfl
  | c :: xs => by
    have ih := getElem?_lines_append ys xs
    obtain ⟨ls, hls⟩ := exists_lines (xs ++ ys)
    have hstep : lines (c :: xs ++ ys) = lineStep c (lines (xs ++ ys)) := rfl
    rw [hstep, hls, lineStep]
    rw [hls] at ih
    by_cases hc : c = '\n'
    · rw [if_pos hc, hc, List.count_cons_self, List.getElem?_cons_succ, ih, lastLine_cons _ (.inl rfl)]
    · rw [if_neg hc, List.count_cons_of_ne hc]
      by_cases hbreak : '\n' ∈ xs
      · obtain ⟨k, hk⟩ := Nat.exists_eq_succ_of_ne_zero (List.count_pos_iff.mpr hbreak).ne'
        rw [hk, List.getElem?_cons_succ] at ih ⊢
        rw [ih, lastLine_cons _ (.inr hbreak)]
      · rw [List.count_eq_zero.mpr hbreak, List.getElem?_cons_zero] at ih ⊢
        have hcons : '\n' ∉ c :: xs := by simp [hbreak, Ne.symm hc]
        rw [Option.some.inj ih, lastLine_of_notMem hbreak, lastLine_of_notMem hcons]
        rfl

/-- **The line of an offset** is the one with as many line breaks before it. -/
theorem getElem?_lines (cs : List Char) (i : Nat) :
    (lines cs)[(cs.take i).count '\n']? = some (lineAt cs i) := by
  have h := getElem?_lines_append (cs.drop i) (cs.take i)
  rwa [List.take_append_drop] at h

theorem length_lastLine_take_le (cs : List Char) (i : Nat) : (lastLine (cs.take i)).length ≤ i :=
  (List.rtakeWhile_suffix _ _).length_le.trans (List.length_take_le i cs)

/-- **The line of an offset** stands in the text where it starts. -/
theorem prefix_lineAt {cs : List Char} {i : Nat} (h : i ≤ cs.length) :
    lineAt cs i <+: cs.drop (lineStart cs i) := by
  obtain ⟨front, hfront⟩ : lastLine (cs.take i) <:+ cs.take i := List.rtakeWhile_suffix _ _
  have hlength := congrArg List.length hfront
  rw [List.length_append, List.length_take_of_le h] at hlength
  have hsplit : cs = front ++ (lastLine (cs.take i) ++ cs.drop i) := by
    rw [← List.append_assoc, hfront, List.take_append_drop]
  have hdrop : cs.drop (lineStart cs i) = lastLine (cs.take i) ++ cs.drop i := by
    have hstart : lineStart cs i = front.length := by
      rw [lineStart]
      omega
    rw [hstart]
    conv_lhs => rw [hsplit]
    exact List.drop_left
  rw [hdrop, lineAt]
  have hbehind : (cs.drop i).takeWhile (· ≠ '\n') <+: cs.drop i := List.takeWhile_prefix _
  exact (List.prefix_append_right_inj _).mpr hbehind

end QueryCheck.Text
