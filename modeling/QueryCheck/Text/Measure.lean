/-! # Sums

The sum of a measure over a list. Widths of texts, bytes of records and heights of cells are such
sums. -/

namespace QueryCheck.Text

variable {α : Type}

/-- The sum of a measure over a list. -/
def sumOf (measure : α → Nat) (xs : List α) : Nat := xs.foldr (fun x n => measure x + n) 0

@[simp] theorem sumOf_nil (measure : α → Nat) : sumOf measure [] = 0 := rfl

@[simp] theorem sumOf_cons (measure : α → Nat) (x : α) (xs : List α) :
    sumOf measure (x :: xs) = measure x + sumOf measure xs := rfl

theorem sumOf_append (measure : α → Nat) (xs ys : List α) :
    sumOf measure (xs ++ ys) = sumOf measure xs + sumOf measure ys := by
  induction xs with
  | nil => simp
  | cons x xs ih => simp [ih, Nat.add_assoc]

end QueryCheck.Text
