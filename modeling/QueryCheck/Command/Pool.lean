import QueryCheck.Command.Check

/-! # Documents checked at the same time

The documents of a run are read and checked by tasks, one for each path, of which only so many may
be at work at once. A task is started, reads its text, and stores the verdict on it in a slot of its
own; when a text cannot be read its task ends, and the run keeps the failure unless it has one.
Nothing stops the other tasks. Which task gets on next is left open: a list of events says it.

* `Pool.step`: what one event makes of the tasks;
* `Pool.run`: the tasks after some events;
* `Pool.result`: what is returned when all tasks have ended. -/

namespace QueryCheck.Command

/-- How far a task has come. -/
inductive Stage where
  | waiting
  | reading
  | checking (s : Source)
  | ended
  deriving Inhabited

/-- A task: the path of its text, and the slot for the verdict on it. -/
structure Task where
  path : String
  stage : Stage := .waiting
  slot : Option Verdict := none
  deriving Inhabited

namespace Task

/-- Whether a task is at work. -/
def active (t : Task) : Bool :=
  match t.stage with
  | .reading | .checking _ => true
  | .waiting | .ended => false

/-- Whether a task has ended. -/
def done (t : Task) : Bool :=
  match t.stage with
  | .ended => true
  | _ => false

end Task

/-- One step of a task, which is told by its number. -/
inductive Event where
  | start (i : Nat)
  | read (i : Nat)
  | store (i : Nat)
  deriving DecidableEq, Repr, Inhabited

/-- The tasks of a run, the state of the world they read from, and the first failure. -/
structure Pool (σ : Type) where
  world : σ
  tasks : List Task
  failure : Option Failure := none

namespace Pool

variable {σ : Type}

/-- The tasks for some paths before any has been started. -/
def initial (world : σ) (paths : List String) : Pool σ :=
  { world, tasks := paths.map fun path => { path } }

/-- The number of tasks at work. -/
def load (p : Pool σ) : Nat := p.tasks.countP Task.active

/-- Changes the task with the given number. -/
def put (p : Pool σ) (i : Nat) (t : Task) : Pool σ := { p with tasks := p.tasks.set i t }

/-- What an event makes of the tasks, of which at most `jobs` may be at work; nothing if it cannot
happen. -/
def step (w : World (StateM σ)) (c : Check) (jobs : Int) (p : Pool σ) : Event → Option (Pool σ)
  | .start i => do
    let t ← p.tasks[i]?
    match t.stage with
    | .waiting => if p.load < jobs then some (p.put i { t with stage := .reading }) else none
    | _ => none
  | .read i => do
    let t ← p.tasks[i]?
    match t.stage with
    | .reading =>
      match (w.source t.path).run.run p.world with
      | (.ok s, world) => some { p.put i { t with stage := .checking s } with world }
      | (.error e, world) =>
        some { p.put i { t with stage := .ended } with world, failure := p.failure <|> some e }
    | _ => none
  | .store i => do
    let t ← p.tasks[i]?
    match t.stage with
    | .checking s => some (p.put i { t with stage := .ended, slot := some (c.document s) })
    | _ => none

/-- The tasks after some events; nothing if one of them cannot happen. -/
def run (w : World (StateM σ)) (c : Check) (jobs : Int) (p : Pool σ) (events : List Event) :
    Option (Pool σ) :=
  events.foldlM (step w c jobs) p

/-- Whether all tasks have ended. -/
def finished (p : Pool σ) : Bool := p.tasks.all Task.done

/-- What is returned when all tasks have ended: the slots in the order of the paths, or the
failure. -/
def result (p : Pool σ) : Except Failure (List (Option Verdict)) :=
  match p.failure with
  | some e => .error e
  | none => .ok (p.tasks.map Task.slot)

end Pool

end QueryCheck.Command
