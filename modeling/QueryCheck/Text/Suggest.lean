import QueryCheck.Text.Distance
import QueryCheck.Text.Quoted

/-! # Suggestions

The names a misspelled one was likely meant to be, and the sentence that offers them.

* `suggestions` lists the candidates near enough, nearest first.
* `closest?` picks the nearest candidate, and `closest` tells it as a text. -/

namespace QueryCheck.Text

/-- How far a suggestion may be from a name: two fifths of its length in bytes, and one more. -/
def suggestionLimit (query : String) : Nat := query.utf8ByteSize * 2 / 5 + 1

/-- The candidates near enough to a name, nearest first; equally near ones keep their order. -/
def suggestions (query : String) (candidates : List String) : List String :=
  let scored := candidates.map fun c => (c, nameDistance query c)
  let kept := scored.filter fun c => c.2 ≤ suggestionLimit query
  (kept.mergeSort fun a b => a.2 ≤ b.2).map Prod.fst

/-- One step of the scan for the nearest candidate: only a nearer one replaces the best so far. -/
def closestStep (query : String) (best : Option (String × Nat)) (c : String) :
    Option (String × Nat) :=
  let d := nameDistance query c
  match best with
  | none => some (c, d)
  | some b => if d < b.2 then some (c, d) else some b

/-- The first of the nearest candidates, unless it is further away than the limit. -/
def closest? (query : String) (candidates : List String) (limit : Int) : Option String := do
  let best ← candidates.foldl (closestStep query) none
  if (best.2 : Int) ≤ limit then some best.1 else none

/-- The first of the nearest candidates; no text at all when it is further away than the limit. -/
def closest (query : String) (candidates : List String) (limit : Int) : String :=
  (closest? query candidates limit).getD ""

/-- How many names are offered at most. -/
def maxOffered : Nat := 5

/-- The first names of a list in quotes, with commas and a final `or`. -/
def orList (names : List String) : String :=
  match (names.take maxOffered).map quote with
  | [] => ""
  | [a] => a
  | [a, b] => a ++ " or " ++ b
  | quoted => String.intercalate ", " quoted.dropLast ++ ", or " ++ quoted.getLastD ""

/-- The sentence that offers suggestions, with a space in front; empty without any. -/
def didYouMean (names : List String) : String :=
  if names.isEmpty then "" else " Did you mean " ++ orList names ++ "?"

end QueryCheck.Text
