import QueryCheck.Command.Failure
import QueryCheck.Command.World
import QueryCheck.Schema.Load
import QueryCheck.Syntax.Locate

/-! # What a run reads

The schema, the directive definitions and the documents of a run.

* `World.schema`, `World.definitions`: what documents are checked against;
* `World.source`: the text of a document. -/

namespace QueryCheck.Command

open QueryCheck.Settings
open QueryCheck.Syntax

/-- A text with its name. -/
structure Source where
  name : String
  text : String
  deriving DecidableEq, Repr, Inhabited

/-- The name of what is read from the standard input. -/
def inputName : String := "stdin"

variable {m : Type → Type} [Monad m]

/-- A step of a run that may fail, with its failure named. -/
def attempt {ε α : Type} (name : ε → Failure) (step : m (Except ε α)) : ExceptT Failure m α :=
  .mk (step >>= fun r => pure (r.mapError name))

/-- A step of a run that needs nothing around it. -/
def settle {α : Type} (r : Except Failure α) : ExceptT Failure m α := .mk (pure r)

namespace World

/-- The text of a file that has to be there. -/
def file (w : World m) (role : FileRole) (path : String) (shown : String) : ExceptT Failure m String :=
  attempt (fun e => if e = .missing then .missing role shown else .unreadable role path e)
    (w.disk.read path)

/-- The schema at a path; an empty path stands for none. -/
def schema (w : World m) (path : String) : ExceptT Failure m (Option Schema) := do
  if path = "" then return none
  let full := Path.absolute w.disk.directory path
  let text ← w.file .schema full path
  let s ← settle ((Schema.load text).mapError (.schema (Path.base full)))
  return some s

/-- The directive definitions at a path and the text they were read from; an empty path stands for
none. -/
def definitions (w : World m) (path : String) : ExceptT Failure m (List Node × String) := do
  if path = "" then return ([], "")
  let text ← w.file .directives path path
  let ds ← settle ((parseDirectiveDefinitions text).mapError (.definitions (Path.base path)))
  return (ds, text)

/-- The text of a document at a path; an empty path stands for the standard input. -/
def source (w : World m) (path : String) : ExceptT Failure m Source := do
  if path = "" then return ⟨inputName, ← w.input⟩
  return ⟨path, ← attempt (.unreadable .query path) (w.disk.read path)⟩

end World

end QueryCheck.Command
