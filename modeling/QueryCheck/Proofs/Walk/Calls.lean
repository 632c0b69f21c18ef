import QueryCheck.Proofs.Syntax.Tree
import QueryCheck.Walk.Basic

/-! # The calls of a walk

A walk is told apart only by its final state, so its calls are made visible by a second walk that
keeps a record: `Plan.logged p` does what `p` does and writes down every call of the tracker and of
the handlers, a call of a handler together with the state the handler is given.

The record of a visit is bracketed (`Visit`): the tracker is told first, then handlers for entering
run, then come the records of some first part of the branches, then handlers for leaving run, and
the tracker is told last. The state every handler is given satisfies the invariant of the path it
stands on (`PathInvariant`).

* `runAt_logged`: what a visit does, and that its record is bracketed.
* `walk_logged`: the same for a whole walk, which always enters its root. -/

namespace QueryCheck.Walk

open QueryCheck.Syntax (Kind Node Rose)

/-- A call made during a walk. A handler is told by its place among those of its kind, and comes
with the state it is given. -/
inductive Call (σ : Type) where
  | enter (n : Node)
  | entering (n : Node) (place : Nat) (given : σ)
  | leaving (n : Node) (place : Nat) (given : σ)
  | leave (n : Node)

variable {σ : Type}

/-! ### Keeping a record -/

/-- The handler that does the same and records its call. -/
def Handler.logged (call : Node → Nat → σ → Call σ) (h : Handler σ) (place : Nat) :
    Handler (σ × List (Call σ)) := fun n x =>
  let r := h n x.1
  (r.1, r.2, x.2 ++ [call n place x.1])

/-- The handlers that do the same and record their calls; the first has the given place. -/
def loggedFrom (call : Node → Nat → σ → Call σ) (place : Nat) (hs : List (Handler σ)) :
    List (Handler (σ × List (Call σ))) :=
  (hs.zipIdx place).map fun h => Handler.logged call h.1 h.2

/-- The tracker that does the same and records what it is told. -/
def Tracker.logged (tr : Tracker σ) : Tracker (σ × List (Call σ)) :=
  ⟨fun n x => (tr.enter n x.1, x.2 ++ [.enter n]), fun n x => (tr.leave n x.1, x.2 ++ [.leave n])⟩

/-- The plan that does the same and records every call. -/
def Plan.logged (p : Plan σ) : Plan (σ × List (Call σ)) where
  table := ⟨fun k => loggedFrom .entering 0 (p.table.enter k),
    fun k => loggedFrom .leaving 0 (p.table.leave k)⟩
  tracker := p.tracker.logged
  maxDepth := p.maxDepth

/-- The progress of a walk that has also made the given record. -/
def Progress.withLog (w : Progress σ) (calls : List (Call σ)) : Progress (σ × List (Call σ)) :=
  ⟨(w.state, calls), w.stopped, w.tooDeep⟩

/-! ### Bracketed records -/

/-- The calls of handlers that were given certain states, the first at the given place. -/
def callsFrom (call : Node → Nat → σ → Call σ) (n : Node) (place : Nat) (given : List σ) :
    List (Call σ) :=
  (given.zipIdx place).map fun x => call n x.2 x.1

mutual

/-- **The record of a visit** of a tree below a path, innermost node first. All calls for nodes of
the tree stand between the two calls of the tracker for its root, and every state a handler is given
satisfies `I` on the path to its node. -/
inductive Visit (p : Plan σ) (I : List Node → σ → Prop) :
    List Node → Rose Node → List (Call σ) → Prop
  | intro {above : List Node} {n : Node} {ts : List (Rose Node)} {before after : List σ}
    {inner : List (Call σ)}
      (some_entering : before.length ≤ (p.table.enter n.kind).length)
      (some_leaving : after.length ≤ (p.table.leave n.kind).length)
      (entering : ∀ s ∈ before, I (n :: above) s) (leaving : ∀ s ∈ after, I (n :: above) s)
      (branches : Visits p I (n :: above) ts inner) :
      Visit p I above (.mk n ts)
        (.enter n :: callsFrom .entering n 0 before ++ inner ++ callsFrom .leaving n 0 after ++
          [.leave n])

/-- The record of the visits of a first part of some trees, one after the other. -/
inductive Visits (p : Plan σ) (I : List Node → σ → Prop) :
    List Node → List (Rose Node) → List (Call σ) → Prop
  | done {above : List Node} {ts : List (Rose Node)} : Visits p I above ts []
  | next {above : List Node} {t : Rose Node} {ts : List (Rose Node)} {first rest : List (Call σ)}
      (head : Visit p I above t first) (tail : Visits p I above ts rest) :
        Visits p I above (t :: ts) (first ++ rest)

end

mutual

theorem Visit.mono {p : Plan σ} {I J : List Node → σ → Prop} (hIJ : ∀ path s, I path s → J path s) :
    ∀ {above : List Node} {t : Rose Node} {calls : List (Call σ)}, Visit p I above t calls →
      Visit p J above t calls
  | _, _, _, .intro he hl entering leaving branches =>
    .intro he hl (fun s hs => hIJ _ s (entering s hs)) (fun s hs => hIJ _ s (leaving s hs))
      (branches.mono hIJ)

theorem Visits.mono {p : Plan σ} {I J : List Node → σ → Prop}
    (hIJ : ∀ path s, I path s → J path s) :
    ∀ {above : List Node} {ts : List (Rose Node)} {calls : List (Call σ)},
      Visits p I above ts calls → Visits p J above ts calls
  | _, _, _, .done => .done
  | _, _, _, .next head tail => .next (head.mono hIJ) (tail.mono hIJ)

end

/-- What holds of the state on every path: the tracker passes from the path above a node to the path
with it and back, and handlers stay on their path. -/
structure PathInvariant (p : Plan σ) (I : List Node → σ → Prop) : Prop where
  enter : ∀ above n s, I above s → I (n :: above) (p.tracker.enter n s)
  entering : ∀ k, ∀ h ∈ p.table.enter k, ∀ path n s, I path s → I path (h n s).2
  leaving : ∀ k, ∀ h ∈ p.table.leave k, ∀ path n s, I path s → I path (h n s).2
  leave : ∀ above n s, I (n :: above) s → I above (p.tracker.leave n s)

/-! ### Handlers -/

section Handlers

variable {n : Node} {h : Handler σ} {hs : List (Handler σ)} {s s' : σ}

/-- The outcome of handlers after one that skips. -/
def Action.afterSkip : Action → Action
  | .proceed => .skip
  | a => a

theorem runHandlers_stop (ha : h n s = (.stop, s')) : runHandlers n (h :: hs) s = (.stop, s') := by
  rw [runHandlers, ha]

theorem runHandlers_proceed (ha : h n s = (.proceed, s')) :
    runHandlers n (h :: hs) s = runHandlers n hs s' := by
  rw [runHandlers, ha]

theorem runHandlers_skip (ha : h n s = (.skip, s')) :
    runHandlers n (h :: hs) s = ((runHandlers n hs s').1.afterSkip, (runHandlers n hs s').2) := by
  rw [runHandlers, ha]
  rcases hr : runHandlers n hs s' with ⟨a, s''⟩
  cases a <;> simp [hr, Action.afterSkip]

theorem Handler.logged_eq (call : Node → Nat → σ → Call σ) (place : Nat) (log : List (Call σ))
    {a : Action}
    (ha : h n s = (a, s')) : h.logged call place n (s, log) = (a, s', log ++ [call n place s]) := by
  rw [Handler.logged, ha]

end Handlers

theorem loggedFrom_cons (call : Node → Nat → σ → Call σ) (place : Nat) (h : Handler σ)
    (hs : List (Handler σ)) :
    loggedFrom call place (h :: hs) = h.logged call place :: loggedFrom call (place + 1) hs := by
  simp [loggedFrom, List.zipIdx_cons]

theorem callsFrom_cons (call : Node → Nat → σ → Call σ) (n : Node) (place : Nat) (s : σ)
    (given : List σ) :
    callsFrom call n place (s :: given) = call n place s :: callsFrom call n (place + 1) given := by
  simp [callsFrom, List.zipIdx_cons]

/-- Handlers that keep `P` and record their calls do what they do without a record, and add the
calls of a first part of them. -/
theorem runHandlers_logged (call : Node → Nat → σ → Call σ) (n : Node) {P : σ → Prop} :
    ∀ (hs : List (Handler σ)) (place : Nat) (s : σ) (log : List (Call σ)), P s →
      (∀ h ∈ hs, ∀ s, P s → P (h n s).2) →
      ∃ given : List σ, given.length ≤ hs.length ∧ (∀ x ∈ given, P x) ∧ P (runHandlers n hs s).2 ∧
        runHandlers n (loggedFrom call place hs) (s, log) =
          ((runHandlers n hs s).1, (runHandlers n hs s).2, log ++ callsFrom call n place given)
  | [], place, s, log, hs, _ =>
    ⟨[], by simp, by simp, hs, by simp [runHandlers, loggedFrom, callsFrom]⟩
  | h :: hs, place, s, log, hPs, hP => by
    rcases ha : h n s with ⟨a, s'⟩
    have hl := Handler.logged_eq call place log ha
    have hPs' : P s' := by
      have := hP h (by simp) s hPs
      rwa [ha] at this
    obtain ⟨given, hlen, hgiven, hres, heq⟩ := runHandlers_logged call n hs (place + 1) s'
      (log ++ [call n place s]) hPs' fun g hg => hP g (by simp [hg])
    have hall : ∀ x ∈ s :: given, P x := fun x hx => by
      rcases List.mem_cons.mp hx with rfl | hx
      · exact hPs
      · exact hgiven x hx
    rw [loggedFrom_cons]
    cases a with
    | stop =>
      rw [runHandlers_stop ha, runHandlers_stop hl]
      exact ⟨[s], by simp, by simpa using hPs, hPs', rfl⟩
    | skip =>
      rw [runHandlers_skip ha, runHandlers_skip hl, heq]
      exact ⟨s :: given, by simpa using hlen, hall, hres, by simp [callsFrom_cons]⟩
    | proceed =>
      rw [runHandlers_proceed ha, runHandlers_proceed hl, heq]
      exact ⟨s :: given, by simpa using hlen, hall, hres, by simp [callsFrom_cons]⟩

/-! ### Visits -/

/-- A visit after its root was entered, up to the handlers for leaving. -/
def runInside (p : Plan σ) (depth : Nat) (n : Node) (ts : List (Rose Node)) (s : σ) : Progress σ :=
  match runHandlers n (p.table.enter n.kind) s with
  | (.stop, s') => ⟨s', true, none⟩
  | (.skip, s') => .going s'
  | (.proceed, s') => runAll p (depth + 1) s' ts

/-- The end of a visit: handlers for leaving run unless the walk has ended. -/
def runFinish (p : Plan σ) (n : Node) (w : Progress σ) : Progress σ :=
  if w.stopped then { w with state := p.tracker.leave n w.state }
  else
    let left := runHandlers n (p.table.leave n.kind) w.state
    ⟨p.tracker.leave n left.2, left.1 == .stop, none⟩

theorem runAt_mk (p : Plan σ) (depth : Nat) (s : σ) (n : Node) (ts : List (Rose Node)) :
    runAt p depth s (.mk n ts) =
      if p.exceeded depth then ⟨s, true, some n⟩
      else runFinish p n (runInside p depth n ts (p.tracker.enter n s)) := by
  rw [runAt]
  rfl

theorem runAll_cons (p : Plan σ) (depth : Nat) (s : σ) (t : Rose Node) (ts : List (Rose Node)) :
    runAll p depth s (t :: ts) =
      if (runAt p depth s t).stopped then runAt p depth s t
        else runAll p depth (runAt p depth s t).state ts := by
  rw [runAll]

section Logged

variable {p : Plan σ} {I : List Node → σ → Prop}

theorem exceeded_logged (p : Plan σ) (depth : Nat) : p.logged.exceeded depth = p.exceeded depth :=
  rfl

theorem runInside_logged (hI : PathInvariant p I) (depth : Nat) (n : Node) (ts : List (Rose Node))
    (above : List Node) (s : σ) (log : List (Call σ)) (hs : I (n :: above) s)
    (ih : ∀ s log, I (n :: above) s →
      ∃ inner, runAll p.logged (depth + 1) (s, log) ts =
          (runAll p (depth + 1) s ts).withLog (log ++ inner) ∧
        I (n :: above) (runAll p (depth + 1) s ts).state ∧ Visits p I (n :: above) ts inner) :
    ∃ before inner, before.length ≤ (p.table.enter n.kind).length ∧
      (∀ x ∈ before, I (n :: above) x) ∧
      Visits p I (n :: above) ts inner ∧ I (n :: above) (runInside p depth n ts s).state ∧
      runInside p.logged depth n ts (s, log) =
        (runInside p depth n ts s).withLog (log ++ callsFrom .entering n 0 before ++ inner) := by
  obtain ⟨before, hlen, hgiven, hres, heq⟩ :=
    runHandlers_logged .entering n (p.table.enter n.kind) 0 s log hs
    fun h hh s hs => hI.entering n.kind h hh _ n s hs
  rcases hr : runHandlers n (p.table.enter n.kind) s with ⟨a, s'⟩
  rw [hr] at hres heq
  unfold runInside
  rw [show p.logged.table.enter n.kind = loggedFrom .entering 0 (p.table.enter n.kind) from rfl,
    heq, hr]
  cases a with
  | stop => exact ⟨before, [], hlen, hgiven, .done, hres, by simp [Progress.withLog]⟩
  | skip =>
    exact ⟨before, [], hlen, hgiven, .done, hres, by simp [Progress.withLog, Progress.going]⟩
  | proceed =>
    obtain ⟨inner, hrun, hinv, hvis⟩ := ih s' (log ++ callsFrom .entering n 0 before) hres
    exact ⟨before, inner, hlen, hgiven, hvis, hinv, hrun⟩

theorem runFinish_logged (hI : PathInvariant p I) (n : Node) (above : List Node) (w : Progress σ)
    (log : List (Call σ)) (hw : I (n :: above) w.state) :
    ∃ after : List σ, after.length ≤ (p.table.leave n.kind).length ∧
      (∀ x ∈ after, I (n :: above) x) ∧
      I above (runFinish p n w).state ∧
      runFinish p.logged n (w.withLog log) =
        (runFinish p n w).withLog (log ++ callsFrom .leaving n 0 after ++ [.leave n]) := by
  obtain ⟨after, hlen, hgiven, hres, heq⟩ :=
    runHandlers_logged .leaving n (p.table.leave n.kind) 0 w.state log hw
    fun h hh s hs => hI.leaving n.kind h hh _ n s hs
  unfold runFinish
  rw [show (w.withLog log).stopped = w.stopped from rfl]
  by_cases hstop : w.stopped = true
  · rw [if_pos hstop, if_pos hstop]
    refine ⟨[], by simp, by simp, hI.leave _ n _ hw, ?_⟩
    simp [Progress.withLog, Plan.logged, Tracker.logged, callsFrom]
  · rw [if_neg hstop, if_neg hstop]
    refine ⟨after, hlen, hgiven, hI.leave _ n _ hres, ?_⟩
    rw [show runHandlers n (p.logged.table.leave n.kind) (w.withLog log).state = _ from heq]
    rfl

mutual

/-- **A visit** that keeps a record does what it does without, keeps the invariant of the path above
the tree, and its record is bracketed; nothing is recorded below the depth limit. -/
theorem runAt_logged (hI : PathInvariant p I) :
    ∀ (t : Rose Node) (depth : Nat) (above : List Node) (s : σ) (log : List (Call σ)), I above s →
      ∃ calls, runAt p.logged depth (s, log) t = (runAt p depth s t).withLog (log ++ calls) ∧
        I above (runAt p depth s t).state ∧
        if p.exceeded depth then calls = [] ∧ (runAt p depth s t).stopped = true
          else Visit p I above t calls
  | .mk n ts, depth, above, s, log, hs => by
    rw [runAt_mk, runAt_mk, exceeded_logged]
    by_cases hd : p.exceeded depth = true
    · simp only [if_pos hd]
      exact ⟨[], by simp [Progress.withLog], hs, rfl, trivial⟩
    · simp only [if_neg hd]
      obtain ⟨before, inner, hlen, hgiven, hvis, hinv, hrun⟩ := runInside_logged hI depth n ts above
        (p.tracker.enter n s) (log ++ [.enter n]) (hI.enter above n s hs)
        fun s log hs => runAll_logged hI ts (depth + 1) (n :: above) s log hs
      obtain ⟨after, hlen', hgiven', hinv', hrun'⟩ := runFinish_logged hI n above
        (runInside p depth n ts (p.tracker.enter n s)) (log ++ [.enter n] ++
          callsFrom .entering n 0 before ++ inner)
        hinv
      refine ⟨_, ?_, hinv', .intro hlen hlen' hgiven hgiven' hvis⟩
      rw [show p.logged.tracker.enter n (s, log) = (p.tracker.enter n s, log ++ [.enter n])
        from rfl, hrun, hrun']
      simp

theorem runAll_logged (hI : PathInvariant p I) :
    ∀ (ts : List (Rose Node)) (depth : Nat) (above : List Node) (s : σ) (log : List (Call σ)),
      I above s →
      ∃ calls, runAll p.logged depth (s, log) ts = (runAll p depth s ts).withLog (log ++ calls) ∧
        I above (runAll p depth s ts).state ∧ Visits p I above ts calls
  | [], depth, above, s, log, hs =>
    ⟨[], by simp [runAll, Progress.withLog, Progress.going], hs, .done⟩
  | t :: ts, depth, above, s, log, hs => by
    obtain ⟨first, hrun, hinv, hvis⟩ := runAt_logged hI t depth above s log hs
    rw [runAll_cons, runAll_cons, hrun, show ((runAt p depth s t).withLog (log ++ first)).stopped =
      (runAt p depth s t).stopped from rfl]
    by_cases hstop : (runAt p depth s t).stopped = true
    · simp only [if_pos hstop]
      refine ⟨first, rfl, hinv, ?_⟩
      by_cases hd : p.exceeded depth = true
      · rw [if_pos hd] at hvis
        rw [hvis.1]
        exact .done
      · rw [if_neg hd] at hvis
        rw [← List.append_nil first]
        exact .next hvis .done
    · simp only [if_neg hstop]
      have hd : ¬ p.exceeded depth = true := fun hd => by
        rw [if_pos hd] at hvis
        exact hstop hvis.2
      rw [if_neg hd] at hvis
      obtain ⟨rest, hrun', hinv', hvis'⟩ :=
        runAll_logged hI ts depth above (runAt p depth s t).state (log ++ first) hinv
      refine ⟨first ++ rest, ?_, hinv', .next hvis hvis'⟩
      rw [← List.append_assoc, ← hrun']
      rfl

end

theorem exceeded_one (p : Plan σ) : p.exceeded 1 = false := by
  unfold Plan.exceeded
  by_cases h : 0 < p.maxDepth
  · simp [show ¬ p.maxDepth < 1 by omega]
  · simp [h]

/-- **A walk** that keeps a record does what it does without, and enters and leaves its root. -/
theorem walk_logged (hI : PathInvariant p I) (n : Node) (s : σ) (hs : I [] s) :
    ∃ calls, walk p.logged n (s, []) = (walk p n s).withLog calls ∧ I [] (walk p n s).state ∧
      Visit p I [] n.rose calls := by
  obtain ⟨calls, hrun, hinv, hvis⟩ := runAt_logged hI n.rose 1 [] s [] hs
  rw [exceeded_one] at hvis
  exact ⟨calls, hrun, hinv, hvis⟩

end Logged

end QueryCheck.Walk
