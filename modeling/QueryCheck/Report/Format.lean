import QueryCheck.Data.Json
import QueryCheck.Data.MessagePack
import QueryCheck.Text.Lower

/-! # Output formats

The forms a result can be written in, and the rendering of a list of results in each of them: as
data in JSON or MessagePack, as one line per result, or as a table of all of them. -/

namespace QueryCheck.Report

open QueryCheck.Data

/-- The output formats. -/
inductive Format where
  | json
  | text
  | pretty
  | msgpack
  deriving DecidableEq, Repr, Inhabited

/-- What a program writes: a text, or bytes that are not meant to be read. -/
inductive Output where
  | text (s : String)
  | bytes (bs : List UInt8)
  deriving DecidableEq, Repr, Inhabited

/-- Why nothing can be written. -/
inductive FormatError where
  /-- A word that names no format. -/
  | invalid (name : String)
  /-- A format that results are not written in. -/
  | unsupported (name : String)
  /-- A format that values are not written in. -/
  | cannotEncode (name : String)
  /-- A value that is nested too deep for its format. -/
  | tooDeep (t : TooDeep)
  /-- Results of a kind that has no lines. -/
  | noText
  /-- Results of a kind that has no table. -/
  | noPretty
  deriving DecidableEq, Repr, Inhabited

/-- The wording of a failure. -/
def FormatError.message : FormatError → String
  | invalid name => "invalid format: " ++ name ++ " (valid: json, text, pretty, msgpack)"
  | unsupported name => "unsupported format: " ++ name
  | cannotEncode name => "format " ++ name ++ " cannot encode values"
  | tooDeep t => t.message
  | noText => "text format not defined for this type"
  | noPretty => "pretty format not defined for this type"

namespace Format

/-- All formats. -/
def all : List Format := [json, text, pretty, msgpack]

/-- The name of a format. -/
def name : Format → String
  | json => "json"
  | text => "text"
  | pretty => "pretty"
  | msgpack => "msgpack"

/-- The format of a name. -/
def ofName? (s : String) : Option Format := all.find? fun f => f.name == s

/-- The format of a word in any case. -/
def parse (s : String) : Except FormatError Format :=
  match ofName? (Text.lower s) with
  | some f => .ok f
  | none => .error (.invalid s)

/-- Whether the format is not meant for a terminal. -/
def binary (f : Format) : Bool := f = msgpack

end Format

/-- Writes a value in the format of a name. -/
def encode (format : String) (v : Value) : Except FormatError Output :=
  match Format.ofName? format with
  | some .json => (v.toIndentedJson?.mapError .tooDeep).map .text
  | some .msgpack => .ok (.bytes v.toMessagePack)
  | _ => .error (.cannotEncode format)

/-- Results with the ways to write them: as data, as a line each, and as a whole. -/
structure Results (α : Type) where
  items : List α
  data : α → Value
  line : Option (α → String) := none
  whole : Option (List α → String) := none

namespace Results

variable {α : Type}

/-- The results as one value; no results are no value. -/
def value (r : Results α) : Value := if r.items.isEmpty then .null else .list (r.items.map r.data)

/-- Writes results in the format of a name. -/
def render (r : Results α) (format : String) : Except FormatError Output :=
  match Format.ofName? format with
  | some .json | some .msgpack => encode format r.value
  | some .pretty =>
    match r.whole with
    | some whole => .ok (.text (whole r.items))
    | none => .error .noPretty
  | some .text =>
    match r.line with
    | some line => .ok (.text (String.intercalate "\n" (r.items.map line)))
    | none => .error .noText
  | none => .error (.unsupported format)

end Results

end QueryCheck.Report
