import QueryCheck.Settings.Files

/-! # The world of a run

What a run of the program finds around it: files, variables of the environment and the standard
input. Runs work in any monad that can answer a `World`; `World.ofTree` answers it without
effects. -/

namespace QueryCheck.Command

open QueryCheck.Settings (Disk Tree)

/-- The surroundings of a run. -/
structure World (m : Type → Type) where
  disk : Disk m
  /-- The variables of the environment. -/
  environment : List (String × String)
  /-- How many documents are validated at once unless a number is chosen. -/
  processors : Int
  /-- Whether the output is shown on a terminal. -/
  terminal : Bool
  /-- What is left of the standard input. -/
  input : m String

/-- A world of a tree of files. Its state is what is left of the standard input, which can be read
once. -/
def World.ofTree (t : Tree) (environment : List (String × String)) (processors : Int) :
    World (StateM String) where
  disk :=
    { directory := t.directory
      read := fun path => pure (t.read path)
      present := fun path => pure (t.present path) }
  environment
  processors
  terminal := false
  input := modifyGet fun rest => (rest, "")

end QueryCheck.Command
