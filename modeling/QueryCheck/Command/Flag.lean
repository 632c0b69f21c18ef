import QueryCheck.Settings.Decode
import QueryCheck.Text.Quoted
import QueryCheck.Text.Record

/-! # Flags

The flags of a command line and their values. A flag is written `--name value`, `--name=value`, or
with its letter `-n value`, `-nvalue`, `-n=value`; letters of switches may be written together.
Flags and other arguments mix; behind `--` everything is an argument.

* `Flags.parse`: the values of the flags that are given and the other arguments. -/

namespace QueryCheck.Command

open QueryCheck.Settings (Datum Layer)
open QueryCheck.Text

/-! ### Flags and their values -/

/-- What a flag takes. -/
inductive FlagKind where
  | text
  | number
  | switch
  | list
  deriving DecidableEq, Repr, Inhabited

/-- A flag: its name, its letter and what it takes. -/
structure Flag where
  name : String
  letter : Option Char := none
  kind : FlagKind
  deriving DecidableEq, Repr, Inhabited

/-- Why a value does not suit a flag. -/
inductive ValueError where
  | number (e : NumberError)
  | switch
  | list (e : RecordError)
  deriving DecidableEq, Repr, Inhabited

/-- The wording of a failure with a value. -/
def ValueError.message (value : String) : ValueError → String
  | number e => "strconv.ParseInt: parsing " ++ quote value ++ ": " ++ e.message
  | switch => "strconv.ParseBool: parsing " ++ quote value ++ ": invalid syntax"
  | list e => e.message

/-- Why flags cannot be read. -/
inductive FlagError where
  | malformed (argument : String)
  | unknown (name : String)
  | unknownLetter (letters : String)
  | missingValue (name : String)
  | missingLetterValue (letters : String)
  | unsuitable (flag : Flag) (value : String) (e : ValueError)
  | help
  deriving DecidableEq, Repr, Inhabited

/-- The first byte of a text as a character in single quotes. -/
def firstByte (letters : String) : String :=
  let c := match letters.toUTF8.toList with
    | b :: _ => Char.ofNat b.toNat
    | [] => ' '
  let shown := if c = '"' then ['"'] else quoteChar c
  let shown := if c.toNat = 39 then ['\\', c] else shown
  String.ofList (Char.ofNat 39 :: shown ++ [Char.ofNat 39])

/-- The ways to write a flag. -/
def Flag.spelling (f : Flag) : String :=
  match f.letter with
  | some c => "-" ++ c.toString ++ ", --" ++ f.name
  | none => "--" ++ f.name

/-- The wording of a failure. -/
def FlagError.message : FlagError → String
  | malformed argument => "bad flag syntax: " ++ argument
  | unknown name => "unknown flag: --" ++ name
  | unknownLetter letters => "unknown shorthand flag: " ++ firstByte letters ++ " in -" ++ letters
  | missingValue name => "flag needs an argument: --" ++ name
  | missingLetterValue letters => "flag needs an argument: " ++ firstByte letters ++ " in -" ++ letters
  | unsuitable flag value e =>
    "invalid argument " ++ quote value ++ " for " ++ quote flag.spelling ++ " flag: " ++ e.message value
  | help => "pflag: help requested"

/-- What has been read: the values of flags by name, and the other arguments. -/
structure Given where
  values : Layer := []
  arguments : List String := []
  deriving Inhabited

namespace Given

/-- The text of a flag. -/
def text (g : Given) (name default : String) : String :=
  match g.values.get? name with
  | some (.str s) => s
  | _ => default

/-- Whether a switch is on. -/
def switch (g : Given) (name : String) : Bool :=
  match g.values.get? name with
  | some (.bool b) => b
  | _ => false

/-- Sets a flag. The values of a list flag that is given several times are joined. -/
def set (g : Given) (f : Flag) (value : String) : Except FlagError Given := do
  let d ← match f.kind with
    | .text => pure (.str value)
    | .number =>
      match readInt value with
      | .ok i => pure (.int i)
      | .error e => .error (.unsuitable f value (.number e))
    | .switch =>
      match Datum.flagWords.lookup value with
      | some b => pure (.bool b)
      | none => .error (.unsuitable f value .switch)
    | .list =>
      match firstRecord value with
      | .ok fields =>
        let before := match g.values.get? f.name with
          | some (.list ds) => ds
          | _ => []
        pure (.list (before ++ fields.map .str))
      | .error e => .error (.unsuitable f value (.list e))
  return { g with values := g.values.set f.name d }

end Given

/-! ### Reading -/

namespace Flags

/-- The flag of a name. -/
def named? (flags : List Flag) (name : String) : Option Flag := flags.find? fun f => f.name == name

/-- The flag of a letter. -/
def lettered? (flags : List Flag) (c : Char) : Option Flag := flags.find? fun f => f.letter == some c

/-- A text cut at its first equals sign. -/
def cutEquals (s : String) : String × Option String :=
  let before := s.toList.takeWhile (· ≠ '=')
  match s.toList.drop before.length with
  | _ :: after => (String.ofList before, some (String.ofList after))
  | [] => (s, none)

/-- Reads a flag by its name, with the arguments behind it. -/
def readNamed (flags : List Flag) (argument : String) (g : Given) (rest : List String) :
    Except FlagError (Given × List String) :=
  let body := (argument.drop 2).toString
  if body.startsWith "-" || body.startsWith "=" then .error (.malformed argument)
  else
    let (name, value) := cutEquals body
    match named? flags name with
    | none => .error (if name = "help" then .help else .unknown name)
    | some f =>
      match value, f.kind, rest with
      | some v, _, rest => do return (← g.set f v, rest)
      | none, .switch, rest => do return (← g.set f "true", rest)
      | none, _, v :: rest => do return (← g.set f v, rest)
      | none, _, [] => .error (.missingValue name)

/-- Reads flags by their letters, with the arguments behind them. -/
def readLetters (flags : List Flag) (g : Given) (rest : List String) :
    List Char → Except FlagError (Given × List String)
  | [] => .ok (g, rest)
  | c :: cs =>
    match lettered? flags c with
    | none => .error (if c = 'h' then .help else .unknownLetter (String.ofList (c :: cs)))
    | some f =>
      match cs with
      | '=' :: d :: ds => do return (← g.set f (String.ofList (d :: ds)), rest)
      | cs =>
        if f.kind = .switch then
          match g.set f "true" with
          | .ok g => readLetters flags g rest cs
          | .error e => .error e
        else if !cs.isEmpty then do return (← g.set f (String.ofList cs), rest)
        else match rest with
          | v :: rest => do return (← g.set f v, rest)
          | [] => .error (.missingLetterValue (String.ofList (c :: cs)))

/-- Reads the arguments one after the other. -/
def readAll (flags : List Flag) : (fuel : Nat) → Given → List String → Except FlagError Given
  | 0, g, _ => .ok g
  | _ + 1, g, [] => .ok g
  | fuel + 1, g, a :: rest =>
    if !a.startsWith "-" || a = "-" then readAll flags fuel { g with arguments := g.arguments ++ [a] } rest
    else if a = "--" then .ok { g with arguments := g.arguments ++ rest }
    else do
      let (g, rest) ←
        if a.startsWith "--" then readNamed flags a g rest
        else readLetters flags g rest (a.toList.drop 1)
      readAll flags fuel g rest

/-- Reads the arguments of a command with the given flags. -/
def parse (flags : List Flag) (arguments : List String) : Except FlagError Given :=
  readAll flags (arguments.length + 1) {} arguments

end Flags

/-! ### The flags of every command -/

/-- The flags of every command. -/
def globalFlags : List Flag :=
  [⟨"config", some 'c', .text⟩, ⟨"schema", some 's', .text⟩, ⟨"format", some 'f', .text⟩,
   ⟨"max-depth", none, .number⟩, ⟨"rules", none, .list⟩, ⟨"directives", none, .text⟩,
   ⟨"verbose", some 'v', .switch⟩, ⟨"jobs", some 'j', .number⟩]

/-- What the given flags say about settings: names with underscores in the place of hyphens. -/
def Given.layer (g : Given) : Layer :=
  g.values.map fun e => (String.ofList (e.1.toList.map fun c => if c = '-' then '_' else c), e.2)

end QueryCheck.Command
