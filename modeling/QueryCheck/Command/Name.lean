import QueryCheck.Command.Flag
import QueryCheck.Text.Distance
import QueryCheck.Text.Lower

/-! # The commands

The commands of the program, the flags each of them takes, and finding the command of a command
line: it is the first argument that is neither a flag nor the value of one.

* `Name.find`: the command of some arguments, and the arguments without its name;
* `Name.similar`: the commands an unknown word may have been meant for. -/

namespace QueryCheck.Command

open QueryCheck.Text (lower editDistance)

/-- The commands of the program. -/
inductive Name where
  | validate
  | rules
  | directives
  | ast
  /-- Explains the commands. -/
  | help
  /-- Writes scripts for shells. -/
  | completion
  /-- Answers a shell that asks how a command line may go on, with descriptions or without. -/
  | complete (described : Bool)
  deriving DecidableEq, Repr, Inhabited

/-- The name of the program. -/
def program : String := "gqlcheck"

namespace Name

/-- The word of a command. -/
def word : Name → String
  | validate => "validate"
  | rules => "rules"
  | directives => "directives"
  | ast => "ast"
  | help => "help"
  | completion => "completion"
  | complete true => "__complete"
  | complete false => "__completeNoDesc"

/-- All commands. -/
def all : List Name :=
  [validate, rules, directives, ast, help, completion, complete true, complete false]

/-- The command of a word. -/
def ofWord? (w : String) : Option Name := all.find? fun c => c.word == w

/-- What a command does, in a few words. -/
def purpose : Name → String
  | validate => "Check GraphQL documents against the schema"
  | rules => "Lists the validation rules."
  | directives => "Lists arguments of the known directives."
  | ast => "Prints the syntax tree of a GraphQL document."
  | help => "Help about any command"
  | completion => "Generate the autocompletion script for the specified shell"
  | complete _ => "Request shell completion choices for the specified command-line"

/-- The flags of a command that no other command has. -/
def ownFlags : Name → List Flag
  | rules => [⟨"default", none, .switch⟩]
  | directives =>
    [⟨"required", none, .switch⟩, ⟨"nullable", none, .switch⟩, ⟨"name", none, .text⟩,
     ⟨"name-regex", none, .text⟩, ⟨"has-description", none, .switch⟩]
  | ast => [⟨"no-locations", none, .switch⟩]
  | _ => []

end Name

/-- The flag that asks for an explanation. -/
def helpFlag : Flag := ⟨"help", some 'h', .switch⟩

/-- The flags a command takes. -/
def Name.flags (c : Name) : List Flag := globalFlags ++ c.ownFlags ++ [helpFlag]

/-! ### Unknown words -/

/-- How many bytes have to change, at most, for a word to count as a command spelled wrongly. -/
def similarLimit : Nat := 2

/-- The bytes of a text. -/
def bytesOf (s : String) : List UInt8 := s.toUTF8.toList

/-- The bytes of a text as characters of one byte each. -/
def byteChars (s : String) : List Char := (bytesOf s).map fun b => Char.ofNat b.toNat

/-- Whether a word may have been meant for a command: few bytes differ, or the command begins with
it. -/
def Name.resembles (w : String) (c : Name) : Bool :=
  editDistance (byteChars (lower w)) (byteChars (lower c.word)) ≤ similarLimit
    || (lower c.word).startsWith (lower w)

/-- The commands that are suggested. -/
def Name.suggested : List Name := [validate, rules, directives, ast, completion]

/-- The commands a word may have been meant for. -/
def Name.similar (w : String) : List Name := suggested.filter (resembles w)

/-! ### Finding the command -/

/-- Whether a flag needs no value. -/
def isSwitch : Option Flag → Bool
  | some f => f.kind = .switch
  | none => false

/-- Whether the next argument is the value of this one. A flag that is not known to every command
counts as one with a value. -/
def takesNext (a : String) : Bool :=
  a.startsWith "-" && !a.toList.contains '=' &&
    if a.startsWith "--" then !isSwitch (Flags.named? globalFlags (a.drop 2).toString)
    else match a.toList with
      | [_, c] => c.utf8Size = 1 && !isSwitch (Flags.lettered? globalFlags c)
      | _ => false

/-- The arguments that are neither flags nor values of flags. The value of a flag that is the last
argument but one ends them. -/
def words : List String → List String
  | [] => []
  | [a] => if a = "--" || takesNext a || a = "" || a.startsWith "-" then [] else [a]
  | a :: b :: rest =>
    if a = "--" then []
    else if takesNext a then if rest.isEmpty then [] else words rest
    else if a = "" || a.startsWith "-" then words (b :: rest)
    else a :: words (b :: rest)

/-- The arguments without the first that is the given word. -/
def withoutWord (w : String) : List String → List String
  | [] => []
  | [a] => if a = w && !a.startsWith "-" then [] else [a]
  | a :: b :: rest =>
    if a = "--" then a :: b :: rest
    else if takesNext a then a :: b :: withoutWord w rest
    else if a = w && !a.startsWith "-" then b :: rest
    else a :: withoutWord w (b :: rest)

/-- The command of some arguments, if they name one, and the arguments without its name. A word that
is no command is an error. -/
def Name.find (arguments : List String) : Except String (Option Name × List String) :=
  match words arguments with
  | [] => .ok (none, arguments)
  | w :: _ =>
    match ofWord? w with
    | some c => .ok (some c, withoutWord w arguments)
    | none => .error w

end QueryCheck.Command
