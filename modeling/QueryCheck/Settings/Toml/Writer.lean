import QueryCheck.Data.Json
import QueryCheck.Settings.Datum

/-! # Writing TOML

Data as a TOML text. The keys of a table stand in order, plain values before tables; the entries of
a table inside another are indented by two spaces per level. A list of which every item is a table
is written as a list of sections, every other list on one line.

* `writeToml`: the text, none for data that hold nothing in a list or a date. -/

namespace QueryCheck.Settings.Toml

open QueryCheck.Data (hexDigits)

/-! ### Texts and keys -/

/-- How a character is written between quotes. -/
def writeChar (c : Char) : List Char :=
  if c = '"' then ['\\', '"']
  else if c = '\\' then ['\\', '\\']
  else if c = '\n' then ['\\', 'n']
  else if c = '\r' then ['\\', 'r']
  else if c = '\t' then ['\\', 't']
  else if c.toNat = 8 then ['\\', 'b']
  else if c.toNat = 12 then ['\\', 'f']
  else if c.toNat < 0x20 || c.toNat = 0x7f then '\\' :: 'u' :: hexDigits 4 c.toNat
  else [c]

/-- A text with its quotes. -/
def writeText (s : String) : String := String.ofList ('"' :: s.toList.flatMap writeChar ++ ['"'])

/-- A part of a key, in quotes if it needs them. -/
def writeKey (key : String) : String :=
  if !key.isEmpty && key.toList.all fun c => c.isAlphanum || c = '_' || c = '-' then key
  else writeText key

/-- A key with points between its parts. -/
def writePath (path : List String) : String := String.intercalate "." (path.map writeKey)

/-! ### Shapes -/

/-- Whether a datum is a table. -/
def isTable : Datum → Bool
  | .map _ => true
  | _ => false

/-- Whether a datum is nothing. -/
def isNull : Datum → Bool
  | .null => true
  | _ => false

/-- Whether a datum is written as a section or as sections. -/
def isSection : Datum → Bool
  | .map _ => true
  | .list (d :: ds) => isTable d && ds.all isTable
  | _ => false

/-- Puts an entry before the first with a larger key. -/
def insertByKey {α : Type} (e : String × α) : List (String × α) → List (String × α)
  | [] => [e]
  | f :: es => if e.1 < f.1 then e :: f :: es else f :: insertByKey e es

/-- The entries by their keys, those that are no sections first. -/
def arrange {α : Type} (sectionOf : α → Bool) (es : List (String × α)) : List (String × α) :=
  let sorted := es.foldr insertByKey []
  (sorted.filter fun e => !sectionOf e.2) ++ sorted.filter fun e => sectionOf e.2

/-! ### Values on one line -/

/-- The text of a number with a fraction. -/
def writeDecimal (d : Text.Double) : String :=
  let s := d.toText
  if s.toList.contains '.' then s else s ++ ".0"

mutual

/-- A value on one line. -/
def inlineValue : Datum → Option String
  | .null => none
  | .bool b => some (if b then "true" else "false")
  | .int i => some (toString i)
  | .decimal d => some (writeDecimal d)
  | .irregular s => some s.toLower
  | .date _ => none
  | .str s => some (writeText s)
  | .list items => (inlineItems items).map fun ss => "[" ++ String.intercalate ", " ss ++ "]"
  | .map es =>
    (inlineEntries es).map fun ss =>
      "\x7b" ++ String.intercalate ", " ((arrange Prod.fst ss).map fun e => e.2.2) ++ "\x7d"

/-- The items of a list on one line. -/
def inlineItems : List Datum → Option (List String)
  | [] => some []
  | d :: ds =>
    match inlineValue d, inlineItems ds with
    | some s, some ss => some (s :: ss)
    | _, _ => none

/-- The entries of a table on one line, each by its key and beside whether it is a section; nothing
is left out. -/
def inlineEntries : List (String × Datum) → Option (List (String × Bool × String))
  | [] => some []
  | (key, d) :: es =>
    if isNull d then inlineEntries es
    else match inlineValue d, inlineEntries es with
      | some s, some ss => some ((key, isSection d, writeKey key ++ " = " ++ s) :: ss)
      | _, _ => none

end

/-! ### Sections -/

/-- The blanks in front of the lines of a path. -/
def indent (path : List String) : String := "".pushn ' ' (2 * (path.length - 1))

/-- One line of the text; an empty one separates sections, and is left out at the front. -/
abbrev Line := String

mutual

/-- The lines of a datum at a path that is not empty. -/
def sectionLines (path : List String) : Datum → Option (List Line)
  | .null => some []
  | .map es =>
    (entryLines path es).map fun parts =>
      (if path.length = 1 then [""] else []) ++ (indent path ++ "[" ++ writePath path ++ "]")
        :: ((arrange Prod.fst parts).map fun e => e.2.2).flatten
  | .list items =>
    if isSection (.list items) then itemLines path items
    else (inlineValue (.list items)).map fun s => [assignment s]
  | d => (inlineValue d).map fun s => [assignment s]
where
  /-- The line of a plain value. -/
  assignment (s : String) : Line := indent path ++ writeKey (path.getLastD "") ++ " = " ++ s

/-- The lines of the tables of a list. -/
def itemLines (path : List String) : List Datum → Option (List Line)
  | [] => some []
  | .map es :: rest =>
    match entryLines path es, itemLines path rest with
    | some parts, some more =>
      some ("" :: (indent path ++ "[[" ++ writePath path ++ "]]")
        :: ((arrange Prod.fst parts).map fun e => e.2.2).flatten ++ more)
    | _, _ => none
  | _ :: rest => itemLines path rest

/-- The lines of every entry of a table, by its key and beside whether it is a section. -/
def entryLines (path : List String) : List (String × Datum) → Option (List (String × Bool × List Line))
  | [] => some []
  | (key, d) :: es =>
    match sectionLines (path ++ [key]) d, entryLines path es with
    | some ls, some rest => some ((key, isSection d, ls) :: rest)
    | _, _ => none

end

end QueryCheck.Settings.Toml

namespace QueryCheck.Settings

/-- Data as a TOML text. -/
def writeToml (l : Layer) : Option String :=
  (Toml.entryLines [] l).map fun parts =>
    let lines := ((Toml.arrange Prod.fst parts).map fun e => e.2.2).flatten
    let lines := if lines.head? = some "" then lines.drop 1 else lines
    String.join (lines.map (· ++ "\n"))

end QueryCheck.Settings
