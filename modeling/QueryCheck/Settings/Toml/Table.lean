import QueryCheck.Settings.Datum

/-! # Tables being filled

The tables of a TOML text while it is read. A table can be created in passing, by a longer path
through it; such a table may still be defined once, every other table and value is final. The tables
of a list of tables are filled one after the other: a path through the list leads to the last.

* `Node.assign` puts a value at the path of a key;
* `Node.openTable` and `Node.openItem` make room for the section of a header. -/

namespace QueryCheck.Settings.Toml

/-- What stands at a key. -/
inductive Node where
  | leaf (d : Datum)
  /-- A table; `inPassing` says that it has not been defined yet. -/
  | table (inPassing : Bool) (entries : List (String × Node))
  | tables (items : List (List (String × Node)))
  deriving Inhabited

/-- The contents of a table. -/
abbrev Entries := List (String × Node)

namespace Entries

/-- What stands at a key. -/
def get? (es : Entries) (key : String) : Option Node := (es.find? fun e => e.1 == key).map Prod.snd

/-- The entries with a node at a key. -/
def set (es : Entries) (key : String) (n : Node) : Entries :=
  if es.any fun e => e.1 == key then es.map fun e => if e.1 == key then (key, n) else e
  else es ++ [(key, n)]

/-- Changes the last of some tables. -/
def changeLast (f : Entries → Option Entries) : List Entries → Option (List Entries)
  | [] => none
  | [es] => (f es).map ([·])
  | es :: rest => (changeLast f rest).map (es :: ·)

/-- Whether a node is a list of values. -/
def isList : Node → Bool
  | .leaf (.list _) => true
  | _ => false

/-- Defines a key: a list replaces and is replaced, a table created in passing takes an empty
definition or swallows a value, and everything else is defined once. -/
def define (es : Entries) (key : String) (n : Node) : Option Entries :=
  match es.get? key with
  | none => some (es.set key n)
  | some old =>
    if isList old || isList n then some (es.set key n)
    else match old, n with
      | .table true inner, .leaf _ => some (es.set key (.table false inner))
      | _, _ => none

/-- Goes through the tables of a path, creating those that are missing, and changes the last one. -/
def through : List String → (Entries → Option Entries) → Entries → Option Entries
  | [], f, es => f es
  | key :: path, f, es =>
    match es.get? key with
    | none => (through path f []).map fun inner => es.set key (.table true inner)
    | some (.table p inner) => (through path f inner).map fun inner => es.set key (.table p inner)
    | some (.tables items) => (changeLast (through path f) items).map fun items => es.set key (.tables items)
    | some (.leaf _) => none

/-- Puts a value at the path of a key. A table on the way counts as defined from its second use on,
and a list on the way gives room to a table. -/
def assign : List String → Node → Entries → Option Entries
  | [], _, _ => none
  | [key], n, es => es.define key n
  | key :: next :: path, n, es =>
    match es.get? key with
    | none => (assign (next :: path) n []).map fun inner => es.set key (.table true inner)
    | some (.table _ inner) =>
      (assign (next :: path) n inner).map fun inner => es.set key (.table false inner)
    | some (.tables items) =>
      (changeLast (assign (next :: path) n) items).map fun items => es.set key (.tables items)
    | some (.leaf (.list _)) =>
      (assign (next :: path) n []).map fun inner => es.set key (.table false inner)
    | some (.leaf _) => none

/-- Defines a table without entries. -/
def defineTable (es : Entries) (key : String) : Option Entries :=
  match es.get? key with
  | none => some (es.set key (.table false []))
  | some (.table true inner) => some (es.set key (.table false inner))
  | some (.leaf (.list _)) => some (es.set key (.table false []))
  | some _ => none

/-- Adds a table to a list of tables. -/
def defineItem (es : Entries) (key : String) : Option Entries :=
  match es.get? key with
  | none => some (es.set key (.tables [[]]))
  | some (.tables items) => some (es.set key (.tables (items ++ [[]])))
  | some _ => none

end Entries

/-- Makes room for the section of a table. -/
def openTable (path : List String) (es : Entries) : Option Entries :=
  match path.getLast? with
  | some key => Entries.through path.dropLast (·.defineTable key) es
  | none => none

/-- Makes room for the section of one more table of a list. -/
def openItem (path : List String) (es : Entries) : Option Entries :=
  match path.getLast? with
  | some key => Entries.through path.dropLast (·.defineItem key) es
  | none => none

mutual

/-- The datum a node holds. -/
def Node.toDatum : Node → Datum
  | .leaf d => d
  | .table _ entries => .map (entriesToData entries)
  | .tables items => .list (itemsToData items)

/-- The data of entries. -/
def entriesToData : List (String × Node) → List (String × Datum)
  | [] => []
  | (key, n) :: es => (key, n.toDatum) :: entriesToData es

/-- The data of a list of tables. -/
def itemsToData : List (List (String × Node)) → List Datum
  | [] => []
  | es :: rest => .map (entriesToData es) :: itemsToData rest

end

end QueryCheck.Settings.Toml
