import Mathlib.Data.List.Basic
import Mathlib.Data.List.Induction
import Mathlib.Order.Bounds.Basic
import Mathlib.Order.MinMax
import QueryCheck.Text.Distance

/-! # Edits

The edit distance of two texts is the least number of edits that lead from one to the other. It is
computed row by row, and every entry of a row is the distance of two beginnings of the texts. As
distances grow at the ends of these beginnings, the recursion behind the rows runs over texts that
are read backwards.

* `Edit`, `Edits`: one edit, and a number of them one after the other.
* `cost`, `isLeast_cost`: the recursion behind the rows yields the least number of edits.
* `foldl_nextRow`: what the rows hold.
* `isLeast_editDistance`: the edit distance is the least number of edits.
* `nameDistance_metric`: the distance of names is a metric. -/

namespace QueryCheck.Text

/-! ### Edits -/

/-- One character is inserted, deleted or replaced. -/
inductive Edit : List Char → List Char → Prop
  | insert (p s : List Char) (c : Char) : Edit (p ++ s) (p ++ c :: s)
  | delete (p s : List Char) (c : Char) : Edit (p ++ c :: s) (p ++ s)
  | replace (p s : List Char) (c d : Char) : Edit (p ++ c :: s) (p ++ d :: s)

/-- A text becomes another by a number of edits. -/
inductive Edits : Nat → List Char → List Char → Prop
  | none (s : List Char) : Edits 0 s s
  | step {n : Nat} {s t u : List Char} : Edit s t → Edits n t u → Edits (n + 1) s u

theorem Edit.symm {s t : List Char} (h : Edit s t) : Edit t s := by
  cases h with
  | insert p s c => exact .delete p s c
  | delete p s c => exact .insert p s c
  | replace p s c d => exact .replace p s d c

theorem Edit.cons {s t : List Char} (h : Edit s t) (c : Char) : Edit (c :: s) (c :: t) := by
  cases h with
  | insert p s d => exact .insert (c :: p) s d
  | delete p s d => exact .delete (c :: p) s d
  | replace p s d e => exact .replace (c :: p) s d e

theorem Edit.reverse {s t : List Char} (h : Edit s t) : Edit s.reverse t.reverse := by
  cases h with
  | insert p s c => simpa using Edit.insert s.reverse p.reverse c
  | delete p s c => simpa using Edit.delete s.reverse p.reverse c
  | replace p s c d => simpa using Edit.replace s.reverse p.reverse c d

namespace Edits

variable {m n : Nat} {s t u : List Char}

theorem trans (h : Edits m s t) (h' : Edits n t u) : Edits (m + n) s u := by
  induction h with
  | none s => rwa [Nat.zero_add]
  | @step m s t v hedit _ ih =>
    rw [Nat.add_right_comm]
    exact .step hedit (ih h')

/-- A last edit. -/
theorem concat (h : Edits n s t) (h' : Edit t u) : Edits (n + 1) s u := h.trans (.step h' (.none u))

theorem symm (h : Edits n s t) : Edits n t s := by
  induction h with
  | none s => exact .none s
  | step hedit _ ih => exact ih.concat hedit.symm

theorem cons (h : Edits n s t) (c : Char) : Edits n (c :: s) (c :: t) := by
  induction h with
  | none s => exact .none _
  | step hedit _ ih => exact .step (hedit.cons c) ih

theorem reverse (h : Edits n s t) : Edits n s.reverse t.reverse := by
  induction h with
  | none s => exact .none _
  | step hedit _ ih => exact .step hedit.reverse ih

theorem reverse_iff : Edits n s.reverse t.reverse ↔ Edits n s t :=
  ⟨fun h => by simpa using h.reverse, reverse⟩

theorem zero_iff : Edits 0 s t ↔ s = t := by
  constructor
  · rintro ⟨⟩
    rfl
  · rintro rfl
    exact .none s

end Edits

/-! ### The recursion behind the rows -/

/-- The cost of a text with `c` in front, from that of the text behind. -/
def costCons (c : Char) (behind : List Char → Nat) : List Char → Nat
  | [] => behind [] + 1
  | d :: t =>
    min (min (costCons c behind t + 1) (behind (d :: t) + 1))
      (if c = d then behind t else behind t + 1)

/-- The number of edits that lead from one text to another, told from their first characters. -/
def cost : List Char → List Char → Nat
  | [] => List.length
  | c :: s => costCons c (cost s)

theorem cost_cons_nil (c : Char) (s : List Char) : cost (c :: s) [] = cost s [] + 1 := rfl

theorem cost_cons_cons (c d : Char) (s t : List Char) : cost (c :: s) (d :: t) =
    min (min (cost (c :: s) t + 1) (cost s (d :: t) + 1))
      (if c = d then cost s t else cost s t + 1) := rfl

theorem cost_self (s : List Char) : cost s s = 0 := by
  induction s with
  | nil => rfl
  | cons c s ih =>
    rw [cost_cons_cons, if_pos rfl, ih]
    exact Nat.min_zero _

/-- As many edits as the cost tells lead from one text to the other. -/
theorem edits_cost : ∀ s t : List Char, Edits (cost s t) s t
  | [], [] => .none []
  | [], d :: t => .step (.insert [] [] d) ((edits_cost [] t).cons d)
  | c :: s, [] => .step (.delete [] s c) (edits_cost s [])
  | c :: s, d :: t => by
    rw [cost_cons_cons]
    have hinsert : Edits (cost (c :: s) t + 1) (c :: s) (d :: t) :=
      (edits_cost (c :: s) t).concat (.insert [] t d)
    have hdelete : Edits (cost s (d :: t) + 1) (c :: s) (d :: t) :=
      .step (.delete [] s c) (edits_cost s (d :: t))
    have hheads : Edits (if c = d then cost s t else cost s t + 1) (c :: s) (d :: t) := by
      split_ifs with hcd
      · rw [hcd]
        exact (edits_cost s t).cons d
      · exact .step (.replace [] s c d) ((edits_cost s t).cons d)
    rcases min_choice (min (cost (c :: s) t + 1) (cost s (d :: t) + 1))
      (if c = d then cost s t else cost s t + 1) with h | h <;> rw [h]
    · rcases min_choice (cost (c :: s) t + 1) (cost s (d :: t) + 1) with h | h <;> rw [h]
      · exact hinsert
      · exact hdelete
    · exact hheads

/-! ### One edit changes the cost by one at most -/

theorem cost_cons_le (c : Char) (s : List Char) : ∀ t, cost (c :: s) t ≤ cost s t + 1
  | [] => le_rfl
  | d :: t => by
    rw [cost_cons_cons]
    omega

theorem cost_cons_right_le (d : Char) (t : List Char) : ∀ s, cost s (d :: t) ≤ cost s t + 1
  | [] => le_rfl
  | c :: s => by
    rw [cost_cons_cons]
    omega

theorem cost_le_cost_cons (c : Char) (s : List Char) : ∀ t, cost s t ≤ cost (c :: s) t + 1
  | [] => by
    rw [cost_cons_nil]
    omega
  | d :: t => by
    have hright := cost_cons_right_le d t s
    have ih := cost_le_cost_cons c s t
    rw [cost_cons_cons]
    split_ifs <;> omega

/-- Texts whose costs differ by one at most may get first characters, if the texts or the characters
are the same. -/
theorem cost_cons_le_cost_cons {c d : Char} {s t : List Char} (h : ∀ u, cost s u ≤ cost t u + 1)
    (hsame : s = t ∨ c = d) : ∀ u, cost (c :: s) u ≤ cost (d :: t) u + 1
  | [] => by
    have := h []
    rw [cost_cons_nil, cost_cons_nil]
    omega
  | e :: u => by
    have hbehind := h (e :: u)
    have hheads := h u
    have ih := cost_cons_le_cost_cons h hsame u
    rw [cost_cons_cons, cost_cons_cons]
    rcases hsame with rfl | rfl <;> split_ifs <;> omega

theorem cost_append_le {s t : List Char} (h : ∀ u, cost s u ≤ cost t u + 1) :
    ∀ p u : List Char, cost (p ++ s) u ≤ cost (p ++ t) u + 1
  | [] => h
  | _ :: p => cost_cons_le_cost_cons (cost_append_le h p) (.inr rfl)

/-- **One edit** changes the cost by one at most. -/
theorem Edit.cost_le {s t : List Char} (h : Edit s t) (u : List Char) :
    cost s u ≤ cost t u + 1 := by
  cases h with
  | insert p s c => exact cost_append_le (cost_le_cost_cons c s) p u
  | delete p s c => exact cost_append_le (cost_cons_le c s) p u
  | replace p s c d =>
    exact cost_append_le (cost_cons_le_cost_cons (fun u => Nat.le_succ _) (.inl rfl)) p u

theorem Edits.cost_le {n : Nat} {s t : List Char} (h : Edits n s t) : cost s t ≤ n := by
  induction h with
  | none s => exact (cost_self s).le
  | step hedit _ ih => exact (hedit.cost_le _).trans (Nat.succ_le_succ ih)

/-- **The cost** is the least number of edits. -/
theorem isLeast_cost (s t : List Char) : IsLeast {n | Edits n s t} (cost s t) :=
  ⟨edits_cost s t, fun _ h => h.cost_le⟩

/-! ### Rows -/

/-- The row of the text `s`, read backwards, from where `p`, read backwards, stands before the
characters of `t`. -/
def costRow (s p : List Char) : List Char → List Nat
  | [] => [cost s p]
  | d :: t => cost s p :: costRow s (d :: p) t

theorem headD_costRow (s p t : List Char) : (costRow s p t).headD 0 = cost s p := by
  cases t <;> rfl

theorem getLast?_costRow (s : List Char) : ∀ t p : List Char,
    (costRow s p t).getLast? = some (cost s (t.reverse ++ p))
  | [], p => rfl
  | d :: t, p => by
    have ih := getLast?_costRow s t (d :: p)
    rw [costRow, List.getLast?_cons, ih, List.reverse_cons, List.append_assoc]
    rfl

/-- The first row counts the characters of the other text. -/
theorem costRow_nil : ∀ t p : List Char, costRow [] p t = List.range' p.length (t.length + 1)
  | [], p => rfl
  | d :: t, p => by
    rw [costRow, costRow_nil t, List.length_cons, List.length_cons, List.range'_succ]
    rfl

/-- The entries of a row come from those of the row before, one by one. -/
theorem rowStep_costRow (c : Char) (s : List Char) : ∀ t p : List Char,
    rowStep c (cost (c :: s) p) (t.zip ((costRow s p t).zip (costRow s p t).tail)) =
      (costRow (c :: s) p t).tail
  | [], p => rfl
  | d :: t, p => by
    have ih := rowStep_costRow c s t (d :: p)
    have hrow : ∃ row, costRow s (d :: p) t = cost s (d :: p) :: row := by cases t <;> exact ⟨_, rfl⟩
    have hnext : costRow (c :: s) (d :: p) t =
        cost (c :: s) (d :: p) :: (costRow (c :: s) (d :: p) t).tail := by cases t <;> rfl
    obtain ⟨row, hrow⟩ := hrow
    rw [costRow, costRow, List.tail_cons, List.tail_cons, hrow, List.zip_cons_cons, List.zip_cons_cons,
      rowStep, hnext, ← ih, hrow]
    rfl

theorem nextRow_costRow (c : Char) (s t : List Char) :
    nextRow t (costRow s [] t) c = costRow (c :: s) [] t := by
  have hfirst : (costRow s [] t).headD 0 + 1 = cost (c :: s) [] := by
    rw [headD_costRow, cost_cons_nil]
  have hrow : costRow (c :: s) [] t = cost (c :: s) [] :: (costRow (c :: s) [] t).tail := by
    cases t <;> rfl
  rw [nextRow, hfirst, rowStep_costRow, ← hrow]

/-- **The row of a text** holds its distances from the beginnings of the other text. -/
theorem foldl_nextRow (s t : List Char) :
    s.foldl (nextRow t) (List.range (t.length + 1)) = costRow s.reverse [] t := by
  induction s using List.reverseRecOn with
  | nil => rw [List.reverse_nil, costRow_nil, List.range_eq_range']; rfl
  | append_singleton s c ih =>
    rw [List.foldl_concat, ih, nextRow_costRow, List.reverse_concat]

/-! ### The edit distance -/

theorem editDistance_eq_cost (s t : List Char) :
    editDistance s t = cost s.reverse t.reverse := by
  rw [editDistance, foldl_nextRow, getLast?_costRow, List.append_nil, Option.getD_some]

/-- **The edit distance** is the least number of edits. -/
theorem isLeast_editDistance (s t : List Char) :
    IsLeast {n | Edits n s t} (editDistance s t) := by
  rw [editDistance_eq_cost]
  simpa only [Edits.reverse_iff] using isLeast_cost s.reverse t.reverse

theorem editDistance_le {n : Nat} {s t : List Char} (h : Edits n s t) : editDistance s t ≤ n :=
  (isLeast_editDistance s t).2 h

theorem edits_editDistance (s t : List Char) : Edits (editDistance s t) s t :=
  (isLeast_editDistance s t).1

theorem editDistance_eq_zero_iff {s t : List Char} : editDistance s t = 0 ↔ s = t := by
  rw [← Edits.zero_iff]
  exact ⟨fun h => h ▸ edits_editDistance s t, fun h => Nat.le_zero.mp (editDistance_le h)⟩

theorem editDistance_comm (s t : List Char) : editDistance s t = editDistance t s :=
  le_antisymm (editDistance_le (edits_editDistance t s).symm)
    (editDistance_le (edits_editDistance s t).symm)

theorem editDistance_triangle (s t u : List Char) :
    editDistance s u ≤ editDistance s t + editDistance t u :=
  editDistance_le ((edits_editDistance s t).trans (edits_editDistance t u))

/-! ### The distance of names -/

/-- Names that differ in case only. -/
theorem nameDistance_of_fold_eq {a b : String} (hne : a ≠ b) (hfold : fold a = fold b) :
    nameDistance a b = 1 := by
  rw [nameDistance, if_neg hne, if_pos hfold]

/-- Names that differ in more than case. -/
theorem nameDistance_of_fold_ne {a b : String} (hfold : fold a ≠ fold b) :
    nameDistance a b = editDistance (fold a) (fold b) := by
  have hne : a ≠ b := fun h => hfold (congrArg fold h)
  rw [nameDistance, if_neg hne, if_neg hfold]

theorem nameDistance_self (a : String) : nameDistance a a = 0 := if_pos rfl

theorem nameDistance_eq_zero_iff {a b : String} : nameDistance a b = 0 ↔ a = b := by
  constructor
  · intro h
    by_contra hne
    by_cases hfold : fold a = fold b
    · rw [nameDistance_of_fold_eq hne hfold] at h
      cases h
    · rw [nameDistance_of_fold_ne hfold, editDistance_eq_zero_iff] at h
      exact hfold h
  · rintro rfl
    exact nameDistance_self a

theorem nameDistance_comm (a b : String) : nameDistance a b = nameDistance b a := by
  simp only [nameDistance, eq_comm (a := a), eq_comm (a := fold a), editDistance_comm (fold a)]

/-- Names are as far apart as their folded forms at least. -/
theorem editDistance_fold_le (a b : String) :
    editDistance (fold a) (fold b) ≤ nameDistance a b := by
  by_cases hfold : fold a = fold b
  · rw [editDistance_eq_zero_iff.mpr hfold]
    exact Nat.zero_le _
  · exact (nameDistance_of_fold_ne hfold).ge

theorem nameDistance_triangle (a b c : String) :
    nameDistance a c ≤ nameDistance a b + nameDistance b c := by
  by_cases hfold : fold a = fold c
  · -- Names that differ in case only are at most one apart, and of two steps between them one counts.
    by_cases hac : a = c
    · rw [nameDistance_eq_zero_iff.mpr hac]
      exact Nat.zero_le _
    · rw [nameDistance_of_fold_eq hac hfold]
      by_contra hlt
      have hab : a = b := nameDistance_eq_zero_iff.mp (by omega)
      have hbc : b = c := nameDistance_eq_zero_iff.mp (by omega)
      exact hac (hab.trans hbc)
  · calc nameDistance a c = editDistance (fold a) (fold c) := nameDistance_of_fold_ne hfold
      _ ≤ editDistance (fold a) (fold b) + editDistance (fold b) (fold c) :=
        editDistance_triangle ..
      _ ≤ nameDistance a b + nameDistance b c :=
        Nat.add_le_add (editDistance_fold_le a b) (editDistance_fold_le b c)

/-- **The distance of names is a metric.** Only equal names are no distance apart, the distance is
the same both ways, and a detour is no shorter. Names that differ in case only are one apart, and
others as far as the least number of edits between their folded forms. -/
theorem nameDistance_metric (a b c : String) :
    (nameDistance a b = 0 ↔ a = b) ∧ nameDistance a b = nameDistance b a ∧
      nameDistance a c ≤ nameDistance a b + nameDistance b c ∧
      (a ≠ b → fold a = fold b → nameDistance a b = 1) ∧
      (fold a ≠ fold b → IsLeast {n | Edits n (fold a) (fold b)} (nameDistance a b)) := by
  refine ⟨nameDistance_eq_zero_iff, nameDistance_comm a b, nameDistance_triangle a b c,
    nameDistance_of_fold_eq, fun hfold => ?_⟩
  rw [nameDistance_of_fold_ne hfold]
  exact isLeast_editDistance _ _

/-- A name in capitals is one apart from the same name with a sharp s, and this one is two apart
from a name with one letter less. -/
theorem nameDistance_metric_sharp :
    "STRASSE" ≠ "Straße" ∧ fold "STRASSE" = fold "Straße" ∧ fold "Straße" ≠ fold "strae" ∧
      nameDistance "STRASSE" "Straße" = 1 ∧
      IsLeast {n | Edits n (fold "Straße") (fold "strae")} (nameDistance "Straße" "strae") := by
  have hne : "STRASSE" ≠ "Straße" := by decide
  have hfold : fold "STRASSE" = fold "Straße" := by decide +kernel
  have hapart : fold "Straße" ≠ fold "strae" := by decide +kernel
  obtain ⟨-, -, -, hcase, -⟩ := nameDistance_metric "STRASSE" "Straße" "strae"
  obtain ⟨-, -, -, -, hleast⟩ := nameDistance_metric "Straße" "strae" "STRASSE"
  exact ⟨hne, hfold, hapart, hcase hne hfold, hleast hapart⟩

end QueryCheck.Text
