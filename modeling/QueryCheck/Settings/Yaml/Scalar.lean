import QueryCheck.Settings.Datum

/-! # Plain words in YAML

What a word without quotes stands for: nothing, a flag, a number, a date, or else the word
itself. -/

namespace QueryCheck.Settings.Yaml

open QueryCheck.Text (Double readInt readNat)

/-- The words for nothing and for flags and the numbers that are not finite. -/
def wordTable : List (String × Datum) :=
  [("", .null), ("~", .null), ("null", .null), ("Null", .null), ("NULL", .null),
   ("true", .bool true), ("True", .bool true), ("TRUE", .bool true),
   ("false", .bool false), ("False", .bool false), ("FALSE", .bool false),
   (".nan", .irregular "NaN"), (".NaN", .irregular "NaN"), (".NAN", .irregular "NaN"),
   (".inf", .irregular "+Inf"), (".Inf", .irregular "+Inf"), (".INF", .irregular "+Inf"),
   ("+.inf", .irregular "+Inf"), ("+.Inf", .irregular "+Inf"), ("+.INF", .irregular "+Inf"),
   ("-.inf", .irregular "-Inf"), ("-.Inf", .irregular "-Inf"), ("-.INF", .irregular "-Inf")]

/-- Whether characters are between `least` and `most` digits. -/
def digitsBetween (least most : Nat) (cs : List Char) : Bool :=
  least ≤ cs.length && cs.length ≤ most && cs.all Char.isDigit

/-- Whether characters are a date: a year, a month and a day with hyphens between them. -/
def isDay (cs : List Char) : Bool :=
  match (String.ofList cs).splitOn "-" with
  | [y, m, d] =>
    digitsBetween 4 4 y.toList && digitsBetween 1 2 m.toList && digitsBetween 1 2 d.toList
      && 1 ≤ m.toNat?.getD 0 && m.toNat?.getD 0 ≤ 12 && 1 ≤ d.toNat?.getD 0 && d.toNat?.getD 0 ≤ 31
  | _ => false

/-- Whether a word is a date, possibly with a time of day behind it. -/
def isTimestamp (cs : List Char) : Bool :=
  let day := cs.takeWhile fun c => c.isDigit || c = '-'
  let rest := cs.drop day.length
  isDay day && match rest with
    | [] => true
    | c :: time =>
      (c = 'T' || c = 't' || c = ' ') && match (String.ofList time).splitOn ":" with
        | h :: m :: s :: _ =>
          digitsBetween 1 2 h.toList && digitsBetween 1 2 m.toList
            && digitsBetween 1 2 (s.toList.takeWhile Char.isDigit)
        | _ => false

/-- The number of a word that starts like one. Underscores are passed over; a whole number too large
for 64 bits is taken as one of double precision. -/
def numberOf? (word : String) : Option Datum :=
  let plain := String.ofList (word.toList.filter (· ≠ '_'))
  match readInt plain, readNat plain.toList with
  | .ok i, _ => some (.int i)
  | .error _, .ok n => some (.int n)
  | .error _, .error _ => (Double.read? plain).map .decimal

/-- What a word stands for. -/
def resolve (word : String) : Datum :=
  match wordTable.lookup word with
  | some d => d
  | none =>
    match word.toList with
    | c :: _ =>
      if c.isDigit || c = '+' || c = '-' then
        if isTimestamp word.toList then .date word else (numberOf? word).getD (.str word)
      else if c = '.' then ((Double.read? word).map .decimal).getD (.str word)
      else .str word
    | [] => .null

end QueryCheck.Settings.Yaml
