import QueryCheck.Command.Complete
import QueryCheck.Syntax.Structured

/-! # Runs

A run of the program: the command is found, its flags are read, the settings are loaded, and the
command does its work.

* `World.run`: the outcome of a run with some arguments. -/

namespace QueryCheck.Command

open QueryCheck.Data (Value)
open QueryCheck.Report (Format Output Results encode)
open QueryCheck.Settings
open QueryCheck.Syntax
open QueryCheck.Validation

/-- What a run leaves: its output, notes beside it, and whether all documents are valid. -/
structure Outcome where
  output : Output := .text ""
  notes : String := ""
  valid : Bool := true
  deriving Inhabited

/-! ### Output -/

/-- An output with the end of a line behind a text. -/
def ended : Output → Output
  | .text s => .text (s ++ "\n")
  | .bytes bs => .bytes bs

/-- A value in a format for data. The value is not nested deep. -/
def dataOutput (format : Format) (v : Value) : Output :=
  if format.binary then .bytes v.toMessagePack else ended (.text v.toIndentedJson)

/-- Verdicts in a format. -/
def verdictOutput (format : Format) (vs : List Verdict) : Output :=
  match format with
  | .json | .msgpack => dataOutput format (reportData vs)
  | .text | .pretty => .text (reportText vs)

/-- The tree of a document in a format. -/
def treeOutput (format : Format) (locations : Bool) (doc : Node) : Except Failure Output :=
  match format with
  | .json | .msgpack =>
    let tree := if locations then doc.structured else doc.shape
    ((encode format.name tree).mapError .rendering).map ended
  | .pretty => .ok (ended (.text (outline doc).render))
  | .text => .ok (ended (.text doc.print))

/-- What is noted when no argument of a directive is chosen. -/
def nothingChosen : String := "No arguments found that match the filters.\n"

/-! ### Arguments -/

/-- Checks the number of arguments of a command. -/
def checkArguments : Name → List String → Except Failure Unit
  | .rules, a :: _ => .error (.argument .rules a)
  | .directives, a :: b :: rest => .error (.tooManyArguments 1 (a :: b :: rest).length)
  | .ast, a :: b :: rest => .error (.tooManyArguments 1 (a :: b :: rest).length)
  | .complete _, [] => .error (.tooFewArguments 1 0)
  | _, _ => .ok ()

/-- The filter of the given flags. -/
def Given.filter (g : Given) : Except Failure Filter := do
  let required := g.switch "required"
  let nullable := g.switch "nullable"
  if required && nullable then .error .contradiction
  let pattern := g.text "name-regex" ""
  let regex ← if pattern = "" then pure none else ((Text.Regex.parse pattern).mapError .regex).map some
  let glob := g.text "name" ""
  if glob ≠ "" && (Text.Glob.parse? glob).isNone then .error .glob
  return { required, nullable, hasDescription := g.switch "has-description", glob, regex }

/-! ### Commands -/

variable {m : Type → Type} [Monad m]

namespace World

/-- The format of the output: the chosen one, or one that suits where the output goes. -/
def format (w : World m) (s : Config) : Except Failure Format :=
  let word := if s.format ≠ "" then s.format else if w.terminal then Format.pretty.name else Format.text.name
  (Format.parse word).mapError .format

/-- Results in a format. -/
def list {α : Type} (r : Results α) (format : Format) : Except Failure Output :=
  ((r.render format.name).mapError .rendering).map ended

/-- Checks documents. Without paths the standard input is checked. -/
def validate (w : World m) (s : Config) (format : Format) (paths : List String) :
    ExceptT Failure m Outcome := do
  let schema ← w.schema s.schema
  let (definitions, definitionsText) ← w.definitions s.directives
  let rules ← settle ((Rule.select s.rules).mapError .rule)
  let check : Check := { schema, definitions, definitionsText, rules, maxDepth := s.maxDepth }
  let sources ← (if paths.isEmpty then [""] else paths).mapM w.source
  let verdicts := check.verdicts s.directives sources
  return { output := verdictOutput format verdicts, valid := verdicts.all Verdict.valid }

/-- Lists arguments of the known directives, or of one of them. -/
def directives (w : World m) (s : Config) (format : Format) (g : Given) :
    ExceptT Failure m Outcome := do
  let filter ← settle g.filter
  let schema ← w.schema s.schema
  let (definitions, _) ← w.definitions s.directives
  let known ← settle (presentDirectives (knownDirectives schema definitions))
  let chosen ← match g.arguments with
    | [] => pure known
    | name :: _ => settle (chosenDirective known name)
  let found := argumentsOf filter chosen
  let output ← settle (list (argumentListing found) format)
  return { output, notes := if found.isEmpty then nothingChosen else "" }

/-- Shows the tree of a document. -/
def ast (w : World m) (format : Format) (g : Given) : ExceptT Failure m Outcome := do
  let source ← w.source (g.arguments.head?.getD "")
  let doc ← settle ((parseDocument source.text).mapError (.document source.name))
  return { output := ← settle (treeOutput format (!g.switch "no-locations") doc) }

/-- Answers a shell. -/
def answerShell (w : World m) (described : Bool) (arguments : List String) : m Outcome := do
  let c ← w.complete described arguments.dropLast (arguments.getLast?.getD "")
  return { output := .text c.text, notes := c.notes }

/-- A run of a command, with what has been read from its arguments. -/
def runCommand (w : World m) (c : Name) (g : Given) : ExceptT Failure m Outcome := do
  settle (checkArguments c g.arguments)
  let loaded ← attempt .settings
    (Settings.load w.disk w.processors w.environment (g.text "config" "") g.layer)
  let s := loaded.settings
  let format ← settle (w.format s)
  match c with
  | .validate => w.validate s format g.arguments
  | .rules => return { output := ← settle (list (ruleListing (g.switch "default")) format) }
  | .directives => w.directives s format g
  | .ast => w.ast format g
  | .complete described => w.answerShell described g.arguments
  | .help | .completion => return {}

/-- A run of a command that may not be given. One that answers shells leaves its arguments as they
are; where an explanation is asked for, nothing else is done. -/
def dispatch (w : World m) (c : Option Name) (arguments : List String) : ExceptT Failure m Outcome := do
  match c with
  | some (.complete described) => w.runCommand (.complete described) { arguments }
  | c =>
    let flags := (c.map Name.flags).getD (globalFlags ++ [helpFlag])
    let g ← settle ((Flags.parse flags arguments).mapError .flags)
    match c with
    | none | some .help | some .completion => return {}
    | some c => if g.switch helpFlag.name then return {} else w.runCommand c g

/-- The outcome of a run with some arguments. -/
def run (w : World m) (arguments : List String) : m (Except Failure Outcome) :=
  ExceptT.run do
    let (c, rest) ← settle ((Name.find arguments).mapError .unknownCommand)
    w.dispatch c rest

end World

end QueryCheck.Command
