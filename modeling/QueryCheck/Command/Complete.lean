import QueryCheck.Command.Listing

/-! # Completion

Answers to a shell that asks how the last word of a command line may go on: one offer per line, then
a number that tells the shell what else to do. Directive names are offered for the command that
lists directives; settings other than the flags in front of the word do not count.

* `World.complete`: the offers for a word behind some arguments;
* `Completion.text`: the answer to the shell. -/

namespace QueryCheck.Command

open QueryCheck.Schema (Directive)
open QueryCheck.Text (lower)

/-- What a shell does besides showing the offers. -/
inductive Hint where
  /-- Offers files, if there is nothing else. -/
  | files
  /-- Reports an error. -/
  | error
  /-- Offers no files. -/
  | noFiles
  deriving DecidableEq, Repr, Inhabited

namespace Hint

/-- The number a shell is told. -/
def code : Hint → Nat
  | files => 0
  | error => 1
  | noFiles => 4

/-- The word a reader is told. -/
def word : Hint → String
  | files => "ShellCompDirectiveDefault"
  | error => "ShellCompDirectiveError"
  | noFiles => "ShellCompDirectiveNoFileComp"

end Hint

/-- Offers, with what a shell does besides showing them. -/
structure Completion where
  offers : List String := []
  hint : Hint := .files
  deriving DecidableEq, Repr, Inhabited

namespace Completion

/-- The answer to the shell. -/
def text (c : Completion) : String :=
  c.offers.foldr (fun offer rest => offer ++ "\n" ++ rest) (":" ++ toString c.hint.code ++ "\n")

/-- The answer to a reader. -/
def notes (c : Completion) : String := "Completion ended with directive: " ++ c.hint.word ++ "\n"

end Completion

/-! ### Command names -/

/-- The commands that are offered, in the order of their words. -/
def offered : List Name := [.ast, .completion, .directives, .help, .rules, .validate]

/-- The offer of a command. -/
def commandOffer (described : Bool) (c : Name) : String :=
  if described then c.word ++ "\t" ++ c.purpose else c.word

/-- The commands that begin with a word. -/
def completeCommand (described : Bool) (word : String) : Completion where
  offers := (offered.filter fun c => c.word.startsWith word).map (commandOffer described)
  hint := .noFiles

/-! ### Directive names -/

/-- Whether some characters occur in others. -/
def occursIn (needle : List Char) : List Char → Bool
  | [] => needle.isEmpty
  | c :: cs => needle.isPrefixOf (c :: cs) || occursIn needle cs

/-- The names of directives in which a word occurs, in any case; a sign in front of the word does
not count. -/
def completeDirective (ds : List Directive) (word : String) : Completion where
  offers :=
    let bare := if word.startsWith "@" then (word.drop 1).toString else word
    (ds.map Directive.name).filter fun n => occursIn (lower bare).toList (lower n).toList
  hint := .noFiles

/-! ### Flags -/

/-- Whether an argument is a flag without its value. -/
def isOpenFlag (a : String) : Bool :=
  a.startsWith "-" && a ≠ "-" && a ≠ "--" && !a.toList.contains '='

/-- The flag an argument ends with. -/
def lastFlag? (flags : List Flag) (a : String) : Option Flag :=
  if a.startsWith "--" then
    match (a.drop 2).toString.toList with
    | [c] => Flags.lettered? flags c
    | cs => Flags.named? flags (String.ofList cs)
  else a.toList.getLast?.bind (Flags.lettered? flags)

/-- Whether a word is the value of a flag, or would be that of an unknown one. -/
def isValue (flags : List Flag) (before : List String) (word : String) : Bool :=
  if word.startsWith "-" then word.toList.contains '='
  else match before.getLast? with
    | some a => isOpenFlag a && !isSwitch (lastFlag? flags a)
    | none => false

/-! ### Answers -/

variable {m : Type → Type} [Monad m]

namespace World

/-- The directives that the given flags ask for. -/
def givenDirectives (w : World m) (g : Given) : ExceptT Failure m (List Directive) := do
  let s ← w.schema (g.text "schema" Settings.defaultSchema)
  let (definitions, _) ← w.definitions (g.text "directives" "")
  settle (presentDirectives (knownDirectives s definitions))

/-- The offers for a word of a command, behind arguments whose flags have been read. -/
def completeWord (w : World m) (described : Bool) (c : Option Name) (g : Given) (word : String) :
    m Completion := do
  match c with
  | none => return if g.arguments.isEmpty then completeCommand described word else {}
  | some .directives =>
    match ← (w.givenDirectives g).run with
    | .ok ds => return completeDirective ds word
    | .error _ => return { hint := .error }
  | some _ => return {}

/-- The offers for a word behind some arguments. Values of flags are not completed. -/
def complete (w : World m) (described : Bool) (before : List String) (word : String) : m Completion := do
  match Name.find before with
  | .error _ => return {}
  | .ok (c, before) =>
    let flags := (c.map Name.flags).getD (globalFlags ++ [helpFlag])
    let closed := before.contains "--"
    if !closed && isValue flags before word then return {}
    match Flags.parse flags before with
    | .error _ => return {}
    | .ok g =>
      if g.switch helpFlag.name || !closed && word.startsWith "-" then return { hint := .noFiles }
      w.completeWord described c g word

end World

end QueryCheck.Command
