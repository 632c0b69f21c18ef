import QueryCheck.Walk.Visitor

/-! # Walks

A walk visits a tree of nodes once. At every node the tracker is told first, then the handlers for
entering run, then the children are walked in order, then the handlers for leaving run, and the
tracker is told last. A handler may have the children left out, or end the walk; the tracker is told
about leaving every node it was told about entering, however the walk ends. A walk also ends at the
first node below the depth limit.

* `Walk.run` walks a tree of nodes.
* `walk` walks a node and everything below it. -/

namespace QueryCheck.Walk

open QueryCheck.Syntax (Node Rose)

/-- Nesting allowed when no other limit is given. -/
def defaultMaxDepth : Int := 512

/-- What is told about every node before its handlers run and after they have run. -/
structure Tracker (σ : Type) where
  enter : Node → σ → σ
  leave : Node → σ → σ

/-- The tracker that does nothing. -/
def Tracker.none {σ : Type} : Tracker σ := ⟨fun _ s => s, fun _ s => s⟩

/-- How a walk is done: its handlers, its tracker and the depth it may reach. A limit of zero or
less is none. -/
structure Plan (σ : Type) where
  table : Table σ
  tracker : Tracker σ := .none
  maxDepth : Int := defaultMaxDepth

/-- Whether a depth is past the limit of a plan. -/
def Plan.exceeded {σ : Type} (p : Plan σ) (depth : Nat) : Bool :=
  decide (0 < p.maxDepth) && decide (p.maxDepth < (depth : Int))

/-- How far a walk has come: its state, whether it has ended early, and the first node below the
depth limit. -/
structure Progress (σ : Type) where
  state : σ
  stopped : Bool
  tooDeep : Option Node

/-- A walk that goes on. -/
def Progress.going {σ : Type} (s : σ) : Progress σ := ⟨s, false, none⟩

mutual

/-- Walks a tree whose root is at the given depth. -/
def runAt {σ : Type} (p : Plan σ) (depth : Nat) (s : σ) : Rose Node → Progress σ
  | .mk n branches =>
    if p.exceeded depth then ⟨s, true, some n⟩
    else
      let inside : Progress σ :=
        match runHandlers n (p.table.enter n.kind) (p.tracker.enter n s) with
        | (.stop, s') => ⟨s', true, none⟩
        | (.skip, s') => .going s'
        | (.proceed, s') => runAll p (depth + 1) s' branches
      if inside.stopped then { inside with state := p.tracker.leave n inside.state }
      else
        let left := runHandlers n (p.table.leave n.kind) inside.state
        ⟨p.tracker.leave n left.2, left.1 == .stop, none⟩

/-- Walks trees at the given depth one after the other, until the walk ends. -/
def runAll {σ : Type} (p : Plan σ) (depth : Nat) (s : σ) : List (Rose Node) → Progress σ
  | [] => .going s
  | t :: ts =>
    let first := runAt p depth s t
    if first.stopped then first else runAll p depth first.state ts

end

/-- Walks a node and everything below it; the node is at depth one. -/
def walk {σ : Type} (p : Plan σ) (n : Node) (s : σ) : Progress σ := runAt p 1 s n.rose

/-- The message of a walk that met its depth limit. -/
def depthMessage (maxDepth : Int) : String :=
  "document is too deeply nested (maximum depth " ++ toString maxDepth ++ ")"

end QueryCheck.Walk
