import QueryCheck.Proofs.Walk.Calls
import QueryCheck.Typing.Frame

/-! # Type contexts along a walk

The frames of a walk are kept by its tracker: entering a node that bears on types lays a frame on
top, leaving it takes that frame off. Handlers read the frames and cannot change them (`Observers`),
so the frames a handler reads depend on the nodes it stands in and on nothing else.

* `framesAt`, `frameAt`: the frames and the innermost frame of a path, by recursion on the path
  alone.
* `walk_bracketed`: the calls of every walk are bracketed, and a walk leaves the frames as it found
  them.
* `walk_frames_eq`: every handler of a walk reads the frames of the path to its node. -/

namespace QueryCheck.Typing

open QueryCheck.Schema
open QueryCheck.Syntax
open QueryCheck.Walk

/-! ### The frames of a path -/

section Path

variable (s : Option Schema) (lookup : String → Option Directive)

/-- The nodes of a path that bear on types. -/
def bearing (path : List Node) : List Node := path.filter fun n => tracked n.kind

/-- The innermost frame of a path, innermost node first: what its nodes that bear on types make of
the empty frame, from the outermost to the innermost. -/
def frameAt (path : List Node) : Frame := (bearing path).foldr (Frame.enter s lookup) {}

/-- The frames of a path, innermost first. -/
def framesAt (path : List Node) : Frames := path.foldr (Frames.enter s lookup) []

theorem bearing_cons (n : Node) (path : List Node) :
    bearing (n :: path) = if tracked n.kind then n :: bearing path else bearing path := by
  rw [bearing, List.filter_cons]
  rfl

theorem framesAt_cons (n : Node) (path : List Node) :
    framesAt s lookup (n :: path) = (framesAt s lookup path).enter s lookup n := rfl

theorem length_framesAt : ∀ path :
    List Node, (framesAt s lookup path).length = (bearing path).length
  | [] => rfl
  | n :: path => by
    rw [framesAt_cons, bearing_cons, Frames.enter]
    split_ifs
    · rw [List.length_cons, List.length_cons, length_framesAt path]
    · exact length_framesAt path

theorem top_framesAt : ∀ path : List Node, (framesAt s lookup path).top = frameAt s lookup path
  | [] => rfl
  | n :: path => by
    rw [framesAt_cons, frameAt, bearing_cons, Frames.enter]
    split_ifs
    · rw [List.foldr_cons, ← frameAt, ← top_framesAt path]
      rfl
    · exact top_framesAt path

theorem leave_enter (n : Node) (fs : Frames) : (fs.enter s lookup n).leave n = fs := by
  unfold Frames.enter Frames.leave
  split_ifs <;> rfl

end Path

/-! ### Handlers that read frames -/

/-- Handlers for each kind that read the frames of the walk and change a state of their own. -/
structure Observers (τ : Type) where
  enter : Kind → List (Frames → Handler τ)
  leave : Kind → List (Frames → Handler τ)

variable {τ : Type}

/-- A handler that reads the frames, on a state that holds both. -/
def reading (h : Frames → Handler τ) : Handler (Frames × τ) := fun n x =>
  let r := h x.1 n x.2
  (r.1, x.1, r.2)

/-- The table of handlers that read the frames. -/
def Observers.table (o : Observers τ) : Table (Frames × τ) :=
  ⟨fun k => (o.enter k).map reading, fun k => (o.leave k).map reading⟩

/-- The tracker that keeps the frames. The directives it knows may depend on the state of the
handlers. -/
def frameTracker (s : Option Schema) (lookup : τ → String → Option Directive) :
    Tracker (Frames × τ) :=
  ⟨fun n x => (x.1.enter s (lookup x.2) n, x.2), fun n x => (x.1.leave n, x.2)⟩

/-- The walk of handlers that read the frames. -/
def framePlan (s : Option Schema) (lookup : τ → String → Option Directive) (o : Observers τ)
    (maxDepth : Int) :
    Plan (Frames × τ) :=
  { table := o.table, tracker := frameTracker s lookup, maxDepth }

/-- What depends on the frames alone is kept by handlers that only read them. -/
theorem pathInvariant_framePlan {s : Option Schema} {lookup : τ → String → Option Directive}
    {o : Observers τ} {maxDepth : Int} {I : List Node → Frames → Prop}
    (enter : ∀ above n fs x, I above fs → I (n :: above) (fs.enter s (lookup x) n))
    (leave : ∀ above n fs, I (n :: above) fs → I above (fs.leave n)) :
    PathInvariant (framePlan s lookup o maxDepth) (fun path x => I path x.1) where
  enter above n x hx := enter above n x.1 x.2 hx
  entering k h hh path n x hx := by
    obtain ⟨g, -, rfl⟩ := List.mem_map.mp hh
    exact hx
  leaving k h hh path n x hx := by
    obtain ⟨g, -, rfl⟩ := List.mem_map.mp hh
    exact hx
  leave above n x hx := leave above n x.1 hx

/-! ### Balance -/

/-- Frames of a path laid on top of others, one for every node that bears on types. -/
def LaidOn (base : Frames) (path : List Node) (fs : Frames) : Prop :=
  ∃ own : Frames, fs = own ++ base ∧ own.length = (bearing path).length

theorem LaidOn.enter {base : Frames} {above : List Node} {fs : Frames} (s : Option Schema)
    (lookup : String → Option Directive) (n : Node) (h : LaidOn base above fs) :
    LaidOn base (n :: above) (fs.enter s lookup n) := by
  obtain ⟨own, rfl, hlen⟩ := h
  unfold LaidOn
  rw [bearing_cons, Frames.enter]
  split_ifs
  · exact ⟨_ :: own, rfl, by rw [List.length_cons, List.length_cons, hlen]⟩
  · exact ⟨own, rfl, hlen⟩

theorem LaidOn.leave {base : Frames} {above : List Node} {n : Node} {fs : Frames}
    (h : LaidOn base (n :: above) fs) : LaidOn base above (fs.leave n) := by
  obtain ⟨own, rfl, hlen⟩ := h
  rw [bearing_cons] at hlen
  rw [Frames.leave]
  split_ifs at hlen ⊢
  · match own, hlen with
    | _ :: own, hlen => exact ⟨own, rfl, by simpa using hlen⟩
  · exact ⟨own, rfl, hlen⟩

/-- Only the frames below a path are laid on the empty path. -/
theorem LaidOn.eq {base fs : Frames} (h : LaidOn base [] fs) : fs = base := by
  obtain ⟨own, rfl, hlen⟩ := h
  rw [List.length_eq_zero_iff.mp hlen, List.nil_append]

/-- **The calls of every walk are bracketed**: the tracker is told about leaving each node it was
told about entering, after all calls for the nodes below and once, and the handlers of the node run
in between, however the walk goes on after any of them. A walk that keeps frames leaves them as it
found them. -/
theorem walk_bracketed :
    (∀ {σ : Type} (p : Plan σ) (n : Node) (s : σ),
      ∃ calls, walk p.logged n (s, []) = (walk p n s).withLog calls ∧
        Visit p (fun _ _ => True) [] n.rose calls) ∧
    ∀ {τ : Type} (s : Option Schema) (lookup : τ → String → Option Directive) (o : Observers τ)
      (maxDepth : Int) (n : Node) (fs : Frames) (x : τ),
      (walk (framePlan s lookup o maxDepth) n (fs, x)).state.1 = fs := by
  constructor
  · intro σ p n s
    have hI : PathInvariant p fun _ _ => True :=
      ⟨fun _ _ _ _ => trivial, fun _ _ _ _ _ _ _ => trivial, fun _ _ _ _ _ _ _ => trivial,
        fun _ _ _ _ => trivial⟩
    obtain ⟨calls, hrun, -, hvis⟩ := walk_logged hI n s trivial
    exact ⟨calls, hrun, hvis⟩
  · intro τ s lookup o maxDepth n fs x
    have hI : PathInvariant (framePlan s lookup o maxDepth) fun path x => LaidOn fs path x.1 :=
      pathInvariant_framePlan (fun _ n _ x h => h.enter s (lookup x) n) fun _ _ _ h => h.leave
    obtain ⟨-, -, hinv, -⟩ := walk_logged hI n (fs, x) ⟨[], rfl, rfl⟩
    exact hinv.eq

/-! ### The frames a handler reads -/

/-- **The frames a handler reads are those of its path.** Whenever a handler of a walk from no
frames runs, there is one frame for every node that bears on types on the path from the root to its
node, and the innermost is the frame of that path. -/
theorem walk_frames_eq {τ : Type} (s : Option Schema) (lookup : String → Option Directive)
    (o : Observers τ) (maxDepth : Int) (doc : Node) (x : τ) :
    ∃ calls, walk (framePlan s (fun _ => lookup) o maxDepth).logged doc (([], x), []) =
        (walk (framePlan s (fun _ => lookup) o maxDepth) doc ([], x)).withLog calls ∧
      Visit (framePlan s (fun _ => lookup) o maxDepth)
        (fun path y => y.1.length = (bearing path).length ∧ y.1.top = frameAt s lookup path)
          [] doc.rose calls := by
  have hI : PathInvariant (framePlan s (fun _ => lookup) o maxDepth)
      fun path y => y.1 = framesAt s lookup path := by
    refine pathInvariant_framePlan (I := fun path fs => fs = framesAt s lookup path) ?_ ?_
    · rintro above n _ _ rfl
      rfl
    · rintro above n _ rfl
      exact leave_enter s lookup n _
  obtain ⟨calls, hrun, -, hvis⟩ := walk_logged hI doc ([], x) rfl
  refine ⟨calls, hrun, hvis.mono ?_⟩
  rintro path ⟨_, y⟩ rfl
  exact ⟨length_framesAt s lookup path, top_framesAt s lookup path⟩

end QueryCheck.Typing
