import QueryCheck.Text.Number

/-! # Numbers of double precision

Numbers with 53 binary digits and an exponent. A decimal is read as the nearest of them, of two that
are equally near as the one with an even last digit; it is written with as few decimal digits as are
read as the same number again.

* `Double.nearest?`: the number nearest to a quotient, if it is not too large;
* `Double.ofDecimal?`, `Double.toText`: reading and writing;
* `Double.toInt64`: the number without its fraction, in 64 bits. -/

namespace QueryCheck.Text

/-- The number `significand · 2 ^ exponent` with a sign; there are two zeros. -/
structure Double where
  negative : Bool
  significand : Nat
  exponent : Int
  deriving DecidableEq, Repr, Inhabited

namespace Double

/-- The least exponent. -/
def leastExponent : Int := -1074

/-- The greatest exponent. -/
def greatestExponent : Int := 971

/-- Zero. -/
def zero (negative : Bool) : Double := ⟨negative, 0, leastExponent⟩

/-! ### Rounding -/

/-- The quotient rounded to the nearest whole number, to the even one of two that are equally
near. -/
def roundedQuotient (n d : Nat) : Nat :=
  let q := n / d
  let r := n % d
  if 2 * r < d || (2 * r = d && q % 2 = 0) then q else q + 1

/-- Numerator and denominator of a quotient times `base ^ e`. -/
def scaled (base n d : Nat) (e : Int) : Nat × Nat :=
  if e < 0 then (n, d * Nat.pow base (-e).toNat) else (n * Nat.pow base e.toNat, d)

/-- The exponent for which a quotient has 53 binary digits before its point, but at least the least
exponent. -/
def exponentFor (n d : Nat) : Int :=
  let e : Int := (n.log2 : Int) - d.log2 - 52
  let (a, b) := scaled 2 n d (-e)
  max (if a < b * 0x10000000000000 then e - 1 else e) leastExponent

/-- The number nearest to a quotient; there is none when the quotient is too large. -/
def nearest? (negative : Bool) (n d : Nat) : Option Double :=
  if n = 0 then some (zero negative)
  else
    let e := exponentFor n d
    let (a, b) := scaled 2 n d (-e)
    let m := roundedQuotient a b
    -- Rounding up may take one digit more, and then all digits but the first are zeros.
    let x : Double :=
      if m = 0x20000000000000 then ⟨negative, 0x10000000000000, e + 1⟩ else ⟨negative, m, e⟩
    if greatestExponent < x.exponent then none else some x

/-- The number nearest to a decimal. A decimal with its first digit far from the point is not worked
out. -/
def ofDecimal? (d : Decimal) : Option Double :=
  let size := d.exponent + (toString d.digits).length
  if d.digits = 0 || size < -324 then some (zero d.negative)
  else if 309 < size then none
  else
    let (a, b) := scaled 10 d.digits 1 d.exponent
    nearest? d.negative a b

/-- The number of a text. -/
def read? (s : String) : Option Double := (Decimal.read? s).bind ofDecimal?

/-! ### Conversions -/

/-- Numerator and denominator of the number without its sign. -/
def fraction (x : Double) : Nat × Nat := scaled 2 x.significand 1 x.exponent

/-- The number rounded toward zero. -/
def truncate (x : Double) : Int :=
  let (n, d) := x.fraction
  if x.negative then -((n / d : Nat) : Int) else (n / d : Nat)

/-- The number rounded toward zero, the least number of 64 bits if it is none of 64 bits. -/
def toInt64 (x : Double) : Int :=
  let n := x.truncate
  if -0x8000000000000000 ≤ n ∧ n < 0x8000000000000000 then n else -0x8000000000000000

/-! ### Writing -/

/-- The number of decimal digits before the point of a quotient that is not zero; for a quotient
below one the zeros behind the point count negative. -/
def pointOf (n d : Nat) : Int :=
  if d ≤ n then (toString (n / d)).length else 1 - ((toString (d / n)).length : Int)

/-- The number of `count` decimal digits that is nearest to a number and is read as that number. -/
def digitsOf? (x : Double) (count : Nat) : Option Decimal :=
  let (n, d) := x.fraction
  let exponent := pointOf n d - count
  let (n, d) := scaled 10 n d (-exponent)
  let below : Decimal := ⟨x.negative, n / d, exponent⟩
  let above : Decimal := ⟨x.negative, n / d + 1, exponent⟩
  let nearer := if roundedQuotient n d = n / d then below else above
  [nearer, below, above].find? fun c => ofDecimal? c == some x

/-- The shortest decimal that is read as the number; 17 digits are enough for every number. -/
def shortest (x : Double) : Decimal :=
  if x.significand = 0 then ⟨x.negative, 0, 0⟩
  else ((List.range 17).findSome? fun i => digitsOf? x (i + 1)).getD ⟨x.negative, 0, 0⟩

/-- The number in positional notation. -/
def toText (x : Double) : String := x.shortest.toText

end Double

end QueryCheck.Text
