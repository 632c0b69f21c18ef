import QueryCheck.Command.Name
import QueryCheck.Report.Format
import QueryCheck.Schema.Error
import QueryCheck.Settings.Load
import QueryCheck.Text.Regex
import QueryCheck.Validation.Rule

/-! # Failures of a run

Why a run has no result, as causes with their wording. That a document is invalid is a result and no
failure. -/

namespace QueryCheck.Command

open QueryCheck.Report (FormatError)
open QueryCheck.Settings (ReadError)
open QueryCheck.Text (quote)
open QueryCheck.Text.Regex (PatternError)
open QueryCheck.Validation (Rule)
open QueryCheck.Written (SyntaxError)

/-- What a file is read for. -/
inductive FileRole where
  | schema
  | directives
  | query
  deriving DecidableEq, Repr, Inhabited

/-- The word for what a file is read for. -/
def FileRole.word : FileRole → String
  | schema => "schema"
  | directives => "directives"
  | query => "query"

/-- Why a run has no result. -/
inductive Failure where
  | unknownCommand (word : String)
  | flags (e : FlagError)
  /-- A command that takes no arguments was given one. -/
  | argument (command : Name) (given : String)
  | tooManyArguments (most given : Nat)
  | tooFewArguments (least given : Nat)
  | settings (e : Settings.LoadError)
  | format (e : FormatError)
  /-- The output cannot be written. -/
  | rendering (e : FormatError)
  | missing (role : FileRole) (path : String)
  | unreadable (role : FileRole) (path : String) (e : ReadError)
  | schema (source : String) (e : Schema.LoadError)
  | definitions (source : String) (e : SyntaxError)
  | document (source : String) (e : SyntaxError)
  | rule (e : Rule.Unknown)
  /-- Arguments cannot be both required and nullable. -/
  | contradiction
  | regex (e : PatternError)
  | glob
  | unknownDirective (name : String) (closest : Option String)
  /-- A directive is to be listed that is not found under its name. -/
  | absentDirective
  deriving Inhabited

namespace Failure

/-- The suggestion of commands behind the wording of an unknown one. -/
def suggestion (commands : List Name) : String :=
  if commands.isEmpty then ""
  else commands.foldl (fun text c => text ++ "\t" ++ c.word ++ "\n") "\n\nDid you mean this?\n"

/-- The wording of a failure. -/
def message : Failure → String
  | unknownCommand word =>
    "unknown command " ++ quote word ++ " for " ++ quote program ++ suggestion (Name.similar word)
  | flags e => e.message
  | argument command given =>
    "unknown command " ++ quote given ++ " for " ++ quote (program ++ " " ++ command.word)
  | tooManyArguments most given =>
    "accepts at most " ++ toString most ++ " arg(s), received " ++ toString given
  | tooFewArguments least given =>
    "requires at least " ++ toString least ++ " arg(s), only received " ++ toString given
  | settings e => e.message
  | format e => e.message
  | rendering e => "error rendering output: " ++ e.message
  | missing role path => role.word ++ " file does not exist: " ++ path
  | unreadable role path e => "failed to read " ++ role.word ++ " file: " ++ e.message path
  | schema source e => "GraphQL schema parsing error: " ++ e.message source
  | definitions source e => "GraphQL directives parsing error: " ++ e.message source
  | document source e => e.message source
  | rule e => e.message
  | contradiction => "--required and --nullable cannot be used together"
  | regex e => "invalid regex pattern for --name-regex: " ++ e.message
  | glob => "invalid glob pattern for --name: syntax error in pattern"
  | unknownDirective name closest =>
    let known := "directive '@" ++ name ++ "' does not exist"
    match closest with
    | some other => known ++ ", did you mean '@" ++ other ++ "'?"
    | none => known
  | absentDirective => "invalid memory address or nil pointer dereference"

end Failure

end QueryCheck.Command
