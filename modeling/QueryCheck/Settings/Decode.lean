import QueryCheck.Settings.Datum

/-! # Settings from data

The settings of a run, and their decoding from the data of a layer. Decoding is generous: numbers
and flags are accepted where texts are expected and the other way round, a single value where a list
is expected, and nothing stands for the empty value of its kind. -/

namespace QueryCheck.Settings

open QueryCheck.Text (readInt)

/-- The settings of a run. -/
structure Config where
  /-- The file of the schema; none is used if empty. -/
  schema : String
  /-- The output format; one is chosen if empty. -/
  format : String
  /-- The greatest depth of a document; there is no limit below one. -/
  maxDepth : Int
  /-- The rules to run; the default ones if empty. -/
  rules : List String
  /-- The file of further directive definitions. -/
  directives : String
  /-- Whether to report what is being done. -/
  verbose : Bool
  /-- The number of documents validated at once. -/
  jobs : Int
  deriving DecidableEq, Repr, Inhabited

namespace Datum

/-- The text of a datum. -/
def text? : Datum → Option String
  | null => some ""
  | bool b => some (if b then "1" else "0")
  | int i => some (toString i)
  | decimal d => some d.toText
  | irregular s => some s
  | str s => some s
  | date _ | list _ | map _ => none

/-- A number of 64 bits without a sign as one with a sign; the upper half wraps around. -/
def wrapped (i : Int) : Int := if i < 0x8000000000000000 then i else i - 0x10000000000000000

/-- The whole number of a datum. -/
def int? : Datum → Option Int
  | null => some 0
  | bool b => some (if b then 1 else 0)
  | int i => some (wrapped i)
  | decimal d => some d.toInt64
  | irregular _ => some (-0x8000000000000000)
  | str s => if s = "" then some 0 else (readInt s).toOption
  | date _ | list _ | map _ => none

/-- The words for flags. -/
def flagWords : List (String × Bool) :=
  [("1", true), ("t", true), ("T", true), ("true", true), ("TRUE", true), ("True", true),
   ("0", false), ("f", false), ("F", false), ("false", false), ("FALSE", false), ("False", false)]

/-- The flag of a datum. -/
def flag? : Datum → Option Bool
  | null => some false
  | bool b => some b
  | int i => some (i ≠ 0)
  | decimal d => some (d.significand ≠ 0)
  | irregular _ => some true
  | str s => if s = "" then some false else flagWords.lookup s
  | date _ | list _ | map _ => none

/-- The texts of a datum. -/
def texts? : Datum → Option (List String)
  | null => some []
  | list items => items.mapM text?
  | map [] => some []
  | d => (text? d).map ([·])

end Datum

/-- The settings of a layer; a key that is missing counts as nothing. -/
def decode (l : Layer) : Option Config := do
  let at_ (key : String) : Datum := (l.get? key).getD .null
  return {
    schema := ← (at_ "schema").text?
    format := ← (at_ "format").text?
    maxDepth := ← (at_ "max_depth").int?
    rules := ← (at_ "rules").texts?
    directives := ← (at_ "directives").text?
    verbose := ← (at_ "verbose").flag?
    jobs := ← (at_ "jobs").int? }

end QueryCheck.Settings
