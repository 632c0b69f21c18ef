/-! # Numbers in texts

Reading whole numbers of 64 bits with an optional sign. A leading `0x`, `0o` or `0b`, or a plain
leading zero, chooses the base, and underscores may stand between digits and behind the mark of the
base.

* `readInt`: the number, or why there is none;
* `Decimal`: numbers with a fraction, as they are written. -/

namespace QueryCheck.Text

/-! ### Whole numbers -/

/-- Why a text is no number of 64 bits. -/
inductive NumberError where
  | notANumber
  | outOfRange
  deriving DecidableEq, Repr, Inhabited

/-- The wording of a failure. -/
def NumberError.message : NumberError → String
  | notANumber => "invalid syntax"
  | outOfRange => "value out of range"

/-- The value of a digit in any base up to sixteen. -/
def digitValue? (c : Char) : Option Nat :=
  if '0' ≤ c ∧ c ≤ '9' then some (c.toNat - '0'.toNat)
  else if 'a' ≤ c ∧ c ≤ 'f' then some (c.toNat - 'a'.toNat + 10)
  else if 'A' ≤ c ∧ c ≤ 'F' then some (c.toNat - 'A'.toNat + 10)
  else none

/-- One more digit of a number; underscores are passed over. -/
def digitStep (base : Nat) (n : Nat) (c : Char) : Except NumberError Nat :=
  if c = '_' then .ok n
  else match digitValue? c with
    | some d =>
      if d ≥ base then .error .notANumber
      else if n * base + d < 0x10000000000000000 then .ok (n * base + d)
      else .error .outOfRange
    | none => .error .notANumber

/-- The number written by digits in a base. -/
def digitsIn (base : Nat) (cs : List Char) : Except NumberError Nat := cs.foldlM (digitStep base) 0

/-- Whether every underscore has a digit on both sides; `afterDigit` says whether one stands
before. -/
def underscoresBetween : (afterDigit : Bool) → List Char → Bool
  | _, [] => true
  | _, ['_'] => false
  | afterDigit, '_' :: c :: cs =>
    afterDigit && (digitValue? c).isSome && underscoresBetween true cs
  | _, c :: cs => underscoresBetween (digitValue? c).isSome cs

/-- A text split into its base and its digits; the flag says whether the base has a mark that
counts as a digit. -/
def splitBase : List Char → Nat × Bool × List Char
  | '0' :: x :: c :: cs =>
    if x = 'x' || x = 'X' then (16, true, c :: cs)
    else if x = 'o' || x = 'O' then (8, true, c :: cs)
    else if x = 'b' || x = 'B' then (2, true, c :: cs)
    else (8, true, x :: c :: cs)
  | ['0', x] => (8, true, [x])
  | ['0'] => (8, true, [])
  | cs => (10, false, cs)

/-- The number of a text without sign. -/
def readNat (cs : List Char) : Except NumberError Nat :=
  if cs.isEmpty then .error .notANumber
  else
    let (base, marked, digits) := splitBase cs
    match digitsIn base digits with
    | .ok n => if underscoresBetween marked digits then .ok n else .error .notANumber
    | .error e => .error e

/-- A number of 64 bits with its sign. -/
def signed (negative : Bool) (n : Nat) : Except NumberError Int :=
  if negative then if n ≤ 0x8000000000000000 then .ok (-n) else .error .outOfRange
  else if n < 0x8000000000000000 then .ok n else .error .outOfRange

/-- The whole number of a text. -/
def readInt (s : String) : Except NumberError Int := do
  match s.toList with
  | '-' :: cs => signed true (← readNat cs)
  | '+' :: cs => signed false (← readNat cs)
  | cs => signed false (← readNat cs)

/-! ### Decimals -/

/-- A number as it is written: `digits · 10 ^ exponent` with a sign. -/
structure Decimal where
  negative : Bool
  digits : Nat
  exponent : Int
  deriving DecidableEq, Repr, Inhabited

namespace Decimal

/-- Digits without the zeros at their end. -/
def dropZeros (cs : List Char) : List Char := (cs.reverse.dropWhile (· = '0')).reverse

/-- The number in positional notation with as few digits as it has. -/
def toText (d : Decimal) : String :=
  let sign := if d.negative then "-" else ""
  if 0 ≤ d.exponent then sign ++ toString (d.digits * Nat.pow 10 d.exponent.toNat)
  else
    let places := (-d.exponent).toNat
    let scale := Nat.pow 10 places
    let digits := toString (d.digits % scale)
    let fraction := dropZeros (List.replicate (places - digits.length) '0' ++ digits.toList)
    sign ++ toString (d.digits / scale)
      ++ (if fraction.isEmpty then "" else "." ++ String.ofList fraction)

/-- The digits at the front of a text, and the rest. -/
def spanDigits (cs : List Char) : List Char × List Char := cs.span Char.isDigit

/-- The number written by decimal digits. -/
def digitsValue (cs : List Char) : Nat := cs.foldl (fun n c => n * 10 + (c.toNat - '0'.toNat)) 0

/-- The number of an exponent with its sign; `none` without a digit or with anything behind it. -/
def readExponent (cs : List Char) : Option Int :=
  let (negative, digits) := match cs with
    | '-' :: ds => (true, ds)
    | '+' :: ds => (false, ds)
    | ds => (false, ds)
  if digits.isEmpty || !digits.all Char.isDigit then none
  else some (if negative then -(digitsValue digits : Int) else digitsValue digits)

/-- The decimal of a text without underscores: digits, a point with digits behind it and an
exponent, of which digits on one side of the point and all else may be missing. -/
def read? (s : String) : Option Decimal :=
  let (negative, cs) := match s.toList with
    | '-' :: cs => (true, cs)
    | '+' :: cs => (false, cs)
    | cs => (false, cs)
  let (whole, rest) := spanDigits cs
  let (fraction, rest) := match rest with
    | '.' :: cs => spanDigits cs
    | cs => ([], cs)
  if whole.isEmpty && fraction.isEmpty then none
  else
    let digits := digitsValue (whole ++ fraction)
    match rest with
    | [] => some { negative, digits, exponent := -fraction.length }
    | e :: cs =>
      if e = 'e' || e = 'E' then
        (readExponent cs).map fun x => { negative, digits, exponent := x - fraction.length }
      else none

end Decimal

end QueryCheck.Text
