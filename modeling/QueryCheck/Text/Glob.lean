/-! # Glob patterns

Patterns for names: `*` stands for any characters, `?` for one, `[a-z]` for one of a set and
`[^a-z]` for one that is not, and a backslash takes away the meaning of the character behind it. A
slash is matched by itself only.

* `Glob.parse?`: the parts of a pattern, none if it is malformed;
* `Glob.matches`: whether a name has the form of a pattern. -/

namespace QueryCheck.Text

/-- One part of a pattern. -/
inductive GlobPart where
  | star
  | any
  | char (c : Char)
  | set (negated : Bool) (ranges : List (Char × Char))
  deriving DecidableEq, Repr, Inhabited

namespace Glob

/-- A bound of a range in a set, and what follows, which may not be the end of the pattern. -/
def bound? : List Char → Option (Char × List Char)
  | [] => none
  | '\\' :: c :: d :: cs => some (c, d :: cs)
  | c :: d :: cs => if c = '-' || c = ']' || c = '\\' then none else some (c, d :: cs)
  | [_] => none

/-- The ranges of a set up to its closing bracket, of which there is at least one. -/
def ranges? : (fuel : Nat) → (first : Bool) → List Char → Option (List (Char × Char) × List Char)
  | 0, _, _ => none
  | fuel + 1, first, cs =>
    match first, cs with
    | false, ']' :: rest => some ([], rest)
    | _, cs => do
      let (lo, rest) ← bound? cs
      let (hi, rest) ← match rest with
        | '-' :: more => bound? more
        | more => some (lo, more)
      let (more, rest) ← ranges? fuel false rest
      return ((lo, hi) :: more, rest)

/-- The parts of a pattern. -/
def parts? : (fuel : Nat) → List Char → Option (List GlobPart)
  | 0, _ => none
  | _ + 1, [] => some []
  | fuel + 1, '*' :: cs => (parts? fuel cs).map (.star :: ·)
  | fuel + 1, '?' :: cs => (parts? fuel cs).map (.any :: ·)
  | _ + 1, ['\\'] => none
  | fuel + 1, '\\' :: c :: cs => (parts? fuel cs).map (.char c :: ·)
  | fuel + 1, '[' :: cs => do
    let (negated, cs) := match cs with
      | '^' :: more => (true, more)
      | more => (false, more)
    let (ranges, cs) ← ranges? (cs.length + 1) true cs
    (parts? fuel cs).map (.set negated ranges :: ·)
  | fuel + 1, c :: cs => (parts? fuel cs).map (.char c :: ·)

/-- The parts of a pattern, none if it is malformed. -/
def parse? (pattern : String) : Option (List GlobPart) :=
  parts? (pattern.length + 1) pattern.toList

/-- Whether one character matches a part other than `*`. -/
def fits : GlobPart → Char → Bool
  | .star, _ => false
  | .any, c => c ≠ '/'
  | .char d, c => c = d
  | .set negated ranges, c => (ranges.any fun r => r.1 ≤ c && c ≤ r.2) != negated

/-- Whether characters match the rest of a pattern behind a star. -/
def afterStar (rest : List Char → Bool) : List Char → Bool
  | [] => rest []
  | c :: cs => rest (c :: cs) || c ≠ '/' && afterStar rest cs

/-- Whether characters match the parts of a pattern. -/
def matchParts : List GlobPart → List Char → Bool
  | [], cs => cs.isEmpty
  | .star :: ps, cs => afterStar (matchParts ps) cs
  | _ :: _, [] => false
  | p :: ps, c :: cs => fits p c && matchParts ps cs

/-- Whether a name has the form of a pattern; no name has that of a malformed one. -/
def isMatch (pattern name : String) : Bool :=
  match parse? pattern with
  | some parts => matchParts parts name.toList
  | none => false

end Glob

end QueryCheck.Text
