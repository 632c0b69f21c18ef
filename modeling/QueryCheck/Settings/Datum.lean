import QueryCheck.Text.Double

/-! # Data of configuration files

What a configuration file can hold at a key: texts, numbers, flags, dates, lists and maps of them,
and nothing. Data of one source lie over data of another: maps are joined key by key, all else is
replaced. -/

namespace QueryCheck.Settings

open QueryCheck.Text (Double)

/-- The single quotation mark. -/
def apostrophe : Char := Char.ofNat 39

/-- A datum of a configuration file. -/
inductive Datum where
  | null
  | bool (b : Bool)
  /-- A whole number of 64 bits, with or without a sign. -/
  | int (i : Int)
  | decimal (d : Double)
  /-- A number that is infinite or no number, by its spelling. -/
  | irregular (text : String)
  | date (text : String)
  | str (s : String)
  | list (items : List Datum)
  | map (entries : List (String × Datum))
  deriving Repr, Inhabited

/-- What a source says, key by key. -/
abbrev Layer := List (String × Datum)

namespace Layer

/-- The datum at a key. -/
def get? (l : Layer) (key : String) : Option Datum := (l.find? fun e => e.1 == key).map Prod.snd

/-- The layer with a datum at a key, in the place of the one before if there is one. -/
def set (l : Layer) (key : String) (d : Datum) : Layer :=
  if l.any fun e => e.1 == key then l.map fun e => if e.1 == key then (key, d) else e
  else l ++ [(key, d)]

end Layer

mutual

/-- The data of `over` in the place of `base`; two maps are joined. -/
def Datum.over (base : Datum) : Datum → Datum
  | .map entries =>
    match base with
    | .map old => .map (Layer.overlay old entries)
    | _ => .map entries
  | d => d

/-- The entries of `over` laid over those of a layer. -/
def Layer.overlay (base : Layer) : List (String × Datum) → Layer
  | [] => base
  | (key, d) :: rest =>
    Layer.overlay (Layer.set base key (Datum.over ((Layer.get? base key).getD .null) d)) rest

end

/-- A datum below the keys of a path. -/
def Datum.nest : List String → Datum → Datum
  | [], d => d
  | key :: path, d => .map [(key, Datum.nest path d)]

end QueryCheck.Settings
