import QueryCheck.Syntax.Node

/-! # Visitors

A visitor gives handlers for entering and for leaving nodes of each kind. A handler looks at a node
and at the state of the walk, changes the state and says how to go on. Several visitors share one
walk: a table holds, kind by kind, the handlers of all of them in order.

* `runHandlers` runs handlers in order: stopping wins at once, skipping counts after all have run.
* `Visitor.merge` folds several visitors into one.
* `Table.ofVisitors` collects visitors into a table. -/

namespace QueryCheck.Walk

open QueryCheck.Syntax (Kind Node)

/-- How a walk goes on after a handler. -/
inductive Action where
  /-- Go on to the children of the node. -/
  | proceed
  /-- Leave the children of the node out. -/
  | skip
  /-- End the walk. -/
  | stop
  deriving DecidableEq, Repr, Inhabited

namespace Action

/-- The action with the given number; other numbers mean to proceed. -/
def ofCode : Int → Action
  | 1 => skip
  | 2 => stop
  | _ => proceed

/-- The name of an action. -/
def toName : Action → String
  | proceed => "continue"
  | skip => "skip"
  | stop => "stop"

/-- The name of the action with the given number; a number without an action is shown as it is. -/
def nameOfCode (n : Int) : String :=
  if 0 ≤ n ∧ n ≤ 2 then (ofCode n).toName else "Action(" ++ toString n ++ ")"

end Action

/-- A handler of a walk with state `σ`. -/
abbrev Handler (σ : Type) := Node → σ → Action × σ

/-- Runs handlers in order on a node. One that stops ends the run at once; otherwise the outcome is
to skip when any of them skips. -/
def runHandlers {σ : Type} (n : Node) : List (Handler σ) → σ → Action × σ
  | [], s => (.proceed, s)
  | h :: hs, s =>
    match h n s with
    | (.stop, s') => (.stop, s')
    | (.skip, s') =>
      match runHandlers n hs s' with
      | (.proceed, s'') => (.skip, s'')
      | r => r
    | (.proceed, s') => runHandlers n hs s'

/-- The handlers of one kind of node. -/
structure Handlers (σ : Type) where
  enter : Option (Handler σ) := none
  leave : Option (Handler σ) := none

instance {σ : Type} : Inhabited (Handlers σ) := ⟨{}⟩

/-- A visitor: handlers for each kind of node. -/
abbrev Visitor (σ : Type) := Kind → Handlers σ

/-- A kind number that names no kind. -/
structure InvalidKind where
  code : Nat
  deriving DecidableEq, Repr, Inhabited

/-- The message of a kind number that names no kind. -/
def InvalidKind.message (e : InvalidKind) : String :=
  "visitor: invalid node kind " ++ toString e.code

namespace Visitor

variable {σ : Type}

/-- The visitor without handlers. -/
def none : Visitor σ := fun _ => {}

/-- The visitor with the given handlers for one kind and none for others. -/
def single (k : Kind) (hs : Handlers σ) : Visitor σ := fun k' => if k' = k then hs else {}

/-- The visitor with handlers given by kind number. -/
def ofCodes : List (Nat × Handlers σ) → Except InvalidKind (Visitor σ)
  | [] => .ok none
  | (code, hs) :: rest =>
    match Kind.ofCode? code with
    | .none => .error ⟨code⟩
    | some k => do
      let v ← ofCodes rest
      return fun k' => if k' = k then hs else v k'

/-- One handler that runs the given ones in order; none for no handlers. -/
def chain : List (Handler σ) → Option (Handler σ)
  | [] => .none
  | [h] => some h
  | hs => some fun n s => runHandlers n hs s

/-- One visitor whose handlers run those of the given visitors in order. -/
def merge (vs : List (Visitor σ)) : Visitor σ := fun k =>
  { enter := chain (vs.filterMap fun v => (v k).enter)
    leave := chain (vs.filterMap fun v => (v k).leave) }

end Visitor

/-- The handlers of a walk for each kind, in order. -/
structure Table (σ : Type) where
  enter : Kind → List (Handler σ)
  leave : Kind → List (Handler σ)

namespace Table

variable {σ : Type}

/-- The table without handlers. -/
def empty : Table σ := ⟨fun _ => [], fun _ => []⟩

/-- Adds the handlers of a visitor after those already there. -/
def add (t : Table σ) (v : Visitor σ) : Table σ :=
  ⟨fun k => t.enter k ++ (v k).enter.toList, fun k => t.leave k ++ (v k).leave.toList⟩

/-- The table of the handlers of some visitors, in order. -/
def ofVisitors (vs : List (Visitor σ)) : Table σ := vs.foldl add empty

/-- The numbers of handlers for entering and for leaving nodes of a kind. -/
def count (t : Table σ) (k : Kind) : Nat × Nat := ((t.enter k).length, (t.leave k).length)

end Table

end QueryCheck.Walk
