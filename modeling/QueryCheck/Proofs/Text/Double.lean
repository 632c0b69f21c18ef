import Mathlib.Algebra.Order.Ring.Nat
import Mathlib.Tactic.Ring
import Mathlib.Tactic.SplitIfs
import QueryCheck.Text.Double

/-! # Numbers of double precision

A quotient is rounded to a nearest whole number. Whole numbers of at most 53 binary digits need no
rounding: they are numbers of double precision, and stay what they are when these are converted to
whole numbers again.

* `Double.roundedQuotient_near`: a rounded quotient is at most one half from the quotient.
* `Double.nearest?_whole`: a whole number of at most 53 digits has a number of its own.
* `Double.toInt64_whole`: that number is converted to the whole number. -/

namespace QueryCheck.Text.Double

/-- A rounded quotient is at most one half from the quotient. -/
theorem roundedQuotient_near (n : Nat) {d : Nat} (hd : 0 < d) :
    2 * roundedQuotient n d * d ≤ 2 * n + d ∧ 2 * n ≤ 2 * roundedQuotient n d * d + d := by
  have hdiv := Nat.div_add_mod n d
  have hmod := Nat.mod_lt n hd
  have hbelow : 2 * (n / d) * d = 2 * (d * (n / d)) := by ring
  have habove : 2 * (n / d + 1) * d = 2 * (d * (n / d)) + 2 * d := by ring
  simp only [roundedQuotient, Bool.or_eq_true, Bool.and_eq_true, decide_eq_true_eq]
  split_ifs with h
  · rw [hbelow]
    omega
  · rw [habove]
    omega

theorem roundedQuotient_one (n : Nat) : roundedQuotient n 1 = n := by
  simp [roundedQuotient, Nat.mod_one]

theorem scaled_natCast (base n d k : Nat) : scaled base n d k = (n * base ^ k, d) := by
  rw [scaled, if_neg (by omega), Int.toNat_natCast]
  rfl

theorem scaled_neg_natCast (base n d k : Nat) : scaled base n d (-(k : Int)) = (n, d * base ^ k) := by
  rw [scaled]
  split_ifs with h
  · rw [Int.neg_neg, Int.toNat_natCast]
    rfl
  · obtain rfl : k = 0 := by omega
    simp

/-- A whole number that is shifted until it has 53 binary digits. -/
theorem shifted_bounds {n : Nat} (hn : n ≠ 0) (h : n.log2 ≤ 52) :
    2 ^ 52 ≤ n * 2 ^ (52 - n.log2) ∧ n * 2 ^ (52 - n.log2) < 2 ^ 53 := by
  have hdigits : n.log2 + 1 + (52 - n.log2) = 53 := by omega
  constructor
  · calc 2 ^ 52
      _ = 2 ^ n.log2 * 2 ^ (52 - n.log2) := by rw [← Nat.pow_add, Nat.add_sub_of_le h]
      _ ≤ n * 2 ^ (52 - n.log2) := Nat.mul_le_mul_right _ (Nat.log2_self_le hn)
  · calc n * 2 ^ (52 - n.log2)
      _ < 2 ^ (n.log2 + 1) * 2 ^ (52 - n.log2) :=
        Nat.mul_lt_mul_of_pos_right Nat.lt_log2_self (Nat.two_pow_pos _)
      _ = 2 ^ 53 := by rw [← Nat.pow_add, hdigits]

theorem exponentFor_whole {n : Nat} (hn : n ≠ 0) (h : n.log2 ≤ 52) :
    exponentFor n 1 = -((52 - n.log2 : Nat) : Int) := by
  have he : (n.log2 : Int) - Nat.log2 1 - 52 = -((52 - n.log2 : Nat) : Int) := by
    rw [show Nat.log2 1 = 0 from rfl]
    omega
  have hfull := (shifted_bounds hn h).1
  rw [exponentFor, he, Int.neg_neg, scaled_natCast]
  dsimp only
  rw [if_neg (by omega), leastExponent]
  omega

/-- **A whole number of at most 53 binary digits** has a number of its own. -/
theorem nearest?_whole (negative : Bool) {n : Nat} (hn : n ≠ 0) (h : n < 2 ^ 53) :
    nearest? negative n 1 =
      some ⟨negative, n * 2 ^ (52 - n.log2), -((52 - n.log2 : Nat) : Int)⟩ := by
  have hlog : n.log2 ≤ 52 := Nat.le_of_lt_succ ((Nat.log2_lt hn).mpr h)
  have hshort : n * 2 ^ (52 - n.log2) ≠ 0x20000000000000 := by
    have := (shifted_bounds hn hlog).2
    omega
  have hsmall : ¬ greatestExponent < -((52 - n.log2 : Nat) : Int) := by
    rw [greatestExponent]
    omega
  rw [nearest?, if_neg hn, exponentFor_whole hn hlog]
  dsimp only
  rw [Int.neg_neg, scaled_natCast]
  dsimp only
  rw [roundedQuotient_one, if_neg hshort, if_neg hsmall]

theorem truncate_neg_natCast (negative : Bool) (m k : Nat) :
    truncate ⟨negative, m, -(k : Int)⟩ =
      if negative then -((m / 2 ^ k : Nat) : Int) else (m / 2 ^ k : Nat) := by
  rw [truncate, fraction, scaled_neg_natCast, Nat.one_mul]

/-- **Whole numbers of at most 53 binary digits** are kept by the conversion to double precision and
back. -/
theorem toInt64_whole (negative : Bool) {n : Nat} (h : n < 2 ^ 53) :
    (nearest? negative n 1).map toInt64 = some (if negative then -(n : Int) else n) := by
  obtain ⟨x, hx, htruncate⟩ : ∃ x, nearest? negative n 1 = some x ∧
      x.truncate = if negative then -(n : Int) else n := by
    by_cases hn : n = 0
    · subst hn
      refine ⟨zero negative, rfl, ?_⟩
      rw [zero, show leastExponent = -((1074 : Nat) : Int) from rfl, truncate_neg_natCast,
        Nat.zero_div]
    · refine ⟨_, nearest?_whole negative hn h, ?_⟩
      rw [truncate_neg_natCast, Nat.mul_div_cancel _ (Nat.two_pow_pos _)]
  rw [hx, Option.map_some, toInt64, htruncate]
  refine congrArg some (if_pos ?_)
  split_ifs <;> omega

end QueryCheck.Text.Double
