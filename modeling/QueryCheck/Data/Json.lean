import QueryCheck.Data.Value

/-! # JSON text

Structured values as JSON, on one line (`Value.toJson`) or indented by two spaces
(`Value.toIndentedJson`). A value that is nested too deep has no text (`Value.toJson?`,
`Value.toIndentedJson?`); what is told of it then is `Value.tooDeep?`. Texts are written so that
they may stand inside a web page: `<`, `>`, `&` and the two line separators are escaped besides what
JSON itself asks for. -/

namespace QueryCheck.Data

/-! ### Texts -/

/-- The digits of a number below sixteen in base sixteen. -/
def hexDigit (n : Nat) : Char := "0123456789abcdef".toList.getD n '0'

/-- The last `width` base sixteen digits of a number. -/
def hexDigits : (width : Nat) → Nat → List Char
  | 0, _ => []
  | w + 1, n => hexDigits w (n / 16) ++ [hexDigit (n % 16)]

namespace Json

/-- How a character is written inside a text. -/
def escape (c : Char) : List Char :=
  if c = '"' then ['\\', '"']
  else if c = '\\' then ['\\', '\\']
  else if c = '\n' then ['\\', 'n']
  else if c = '\r' then ['\\', 'r']
  else if c = '\t' then ['\\', 't']
  else if c.toNat = 8 then ['\\', 'b']
  else if c.toNat = 12 then ['\\', 'f']
  else if c.toNat < 32 || c = '<' || c = '>' || c = '&' || c.toNat = 0x2028 || c.toNat = 0x2029 then
    '\\' :: 'u' :: hexDigits 4 c.toNat
  else [c]

/-- A text with its quotes. -/
def text (s : String) : String := String.ofList ('"' :: s.toList.flatMap escape ++ ['"'])

/-- The word for a flag. -/
def flag (b : Bool) : String := if b then "true" else "false"

/-- A line break followed by two spaces per level. -/
def newline (level : Nat) : String := "\n" ++ "".pushn ' ' (2 * level)

end Json

namespace Value

mutual

/-- The value on one line. -/
def toJson : Value → String
  | null => "null"
  | bool b => Json.flag b
  | int i => toString i
  | str s => Json.text s
  | list items => "[" ++ String.intercalate "," (toJsonItems items) ++ "]"
  | map es => "\x7b" ++ String.intercalate "," (toJsonEntries es) ++ "\x7d"

/-- The items of a list, each on one line. -/
def toJsonItems : List Value → List String
  | [] => []
  | v :: vs => toJson v :: toJsonItems vs

/-- The entries of a map, each on one line. -/
def toJsonEntries : List (String × Value) → List String
  | [] => []
  | (k, v) :: es => (Json.text k ++ ":" ++ toJson v) :: toJsonEntries es

end

/-! ### Nesting -/

mutual

/-- How deep lists and maps are nested in a value; other values have none. -/
def depth : Value → Nat
  | list items => depthItems items + 1
  | map es => depthEntries es + 1
  | _ => 0

/-- The greatest depth of the items of a list. -/
def depthItems : List Value → Nat
  | [] => 0
  | v :: vs => max (depth v) (depthItems vs)

/-- The greatest depth of the entries of a map. -/
def depthEntries : List (String × Value) → Nat
  | [] => 0
  | (_, v) :: es => max (depth v) (depthEntries es)

end

/-- How deep lists and maps may be nested in a text. -/
def maxNesting : Nat := 10000

/-- The value on one line, unless it is nested too deep. -/
def toJson? (v : Value) : Option String := if v.depth ≤ maxNesting then some v.toJson else none

/-- Whether two values have the same text on one line. -/
def writtenAlike (v w : Value) : Bool :=
  match v.toJson?, w.toJson? with
  | some s, some t => s == t
  | _, _ => false

/-! ### Indented texts -/

mutual

/-- The value with every item and entry on a line of its own, below `level` levels. -/
def indentedAt (level : Nat) : Value → String
  | null => "null"
  | bool b => Json.flag b
  | int i => toString i
  | str s => Json.text s
  | list [] => "[]"
  | list (v :: vs) =>
    "[" ++ Json.newline (level + 1)
      ++ String.intercalate ("," ++ Json.newline (level + 1)) (indentedItems (level + 1) (v :: vs))
      ++ Json.newline level ++ "]"
  | map [] => "\x7b\x7d"
  | map (e :: es) =>
    "\x7b" ++ Json.newline (level + 1)
      ++ String.intercalate ("," ++ Json.newline (level + 1)) (indentedEntries (level + 1) (e :: es))
      ++ Json.newline level ++ "\x7d"

/-- The items of a list, each indented. -/
def indentedItems (level : Nat) : List Value → List String
  | [] => []
  | v :: vs => indentedAt level v :: indentedItems level vs

/-- The entries of a map, each indented. -/
def indentedEntries (level : Nat) : List (String × Value) → List String
  | [] => []
  | (k, v) :: es => (Json.text k ++ ": " ++ indentedAt level v) :: indentedEntries level es

end

/-- The value as indented JSON. -/
def toIndentedJson : Value → String := indentedAt 0

/-! ### What is nested too deep -/

mutual

/-- The bracket that opens the first list or map with `n` of them around it. -/
def bracketAt? : Value → (n : Nat) → Option Char
  | list _, 0 => some '['
  | map _, 0 => some '\x7b'
  | list items, n + 1 => bracketAtItems? items n
  | map es, n + 1 => bracketAtEntries? es n
  | _, _ => none

/-- The first such bracket in the items of a list. -/
def bracketAtItems? : List Value → (n : Nat) → Option Char
  | [], _ => none
  | v :: vs, n => (bracketAt? v n).or (bracketAtItems? vs n)

/-- The first such bracket in the entries of a map. -/
def bracketAtEntries? : List (String × Value) → (n : Nat) → Option Char
  | [], _ => none
  | (_, v) :: es, n => (bracketAt? v n).or (bracketAtEntries? es n)

end

end Value

/-- Why a value has no text: the bracket that is nested too deep, and how many maps there are from
the one that cannot be written outwards. -/
structure TooDeep where
  maps : Nat
  bracket : Char
  deriving DecidableEq, Repr, Inhabited

/-- The wording: each map that fails says so in front. -/
def TooDeep.message (t : TooDeep) : String :=
  String.join (List.replicate t.maps "json: error calling MarshalJSON for type ast.Map: ")
    ++ "invalid character '" ++ t.bracket.toString ++ "' exceeded max depth"

namespace Value

mutual

/-- The first map that cannot be written. Each map is written after what it contains, so that the
bound is broken in an inner map first. -/
def tooDeepMap? : Value → Option TooDeep
  | list items => tooDeepMapItems? items
  | map es =>
    match tooDeepMapEntries? es with
    | some t => some { t with maps := t.maps + 1 }
    | none => (bracketAt? (map es) maxNesting).map (TooDeep.mk 1)
  | _ => none

/-- The first such map in the items of a list. -/
def tooDeepMapItems? : List Value → Option TooDeep
  | [] => none
  | v :: vs => (tooDeepMap? v).or (tooDeepMapItems? vs)

/-- The first such map in the entries of a map. -/
def tooDeepMapEntries? : List (String × Value) → Option TooDeep
  | [] => none
  | (_, v) :: es => (tooDeepMap? v).or (tooDeepMapEntries? es)

end

/-- What is nested too deep in a value: something in a map that cannot be written, or else a list
outside all of them. -/
def tooDeep? (v : Value) : Option TooDeep :=
  v.tooDeepMap?.or ((v.bracketAt? maxNesting).map (TooDeep.mk 0))

/-- The value as indented JSON, unless it is nested too deep. -/
def toIndentedJson? (v : Value) : Except TooDeep String :=
  match v.tooDeep? with
  | some t => .error t
  | none => .ok v.toIndentedJson

end Value

end QueryCheck.Data
