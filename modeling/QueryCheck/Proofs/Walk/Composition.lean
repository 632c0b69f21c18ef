import QueryCheck.Proofs.Walk.Route

/-! # Compositions of visitors

Visitors can be handed to a walk one after the other, or be merged into one first, and merged
visitors can be merged again (`Nesting`). Merging puts several handlers into one, whose outcome is
judged once more by whoever runs it; the outcome of handlers in a row is put together by
`followedBy`, which is associative, and so the nesting does not matter.

* `runHandlers_append`, `runHandlers_chain`: handlers in two parts, and several handlers in one.
* `walk_map`: a walk whose handlers and tracker mean, under a view of the state, what those of
  another walk mean.
* `walk_nesting`: nested visitors make the same walk, call by call, as the visitors in a row. -/

namespace QueryCheck.Walk

open QueryCheck.Syntax (Kind Node Rose)

variable {σ τ : Type}

/-! ### Handlers in a row -/

/-- The outcome of handlers that are followed by others: the others run unless the first stop, and
the first skip for both. -/
def followedBy (first : Action × σ) (rest : σ → Action × σ) : Action × σ :=
  match first with
  | (.stop, s) => (.stop, s)
  | (.skip, s) => ((rest s).1.afterSkip, (rest s).2)
  | (.proceed, s) => rest s

theorem runHandlers_cons (n : Node) (h : Handler σ) (hs : List (Handler σ)) (s : σ) :
    runHandlers n (h :: hs) s = followedBy (h n s) (runHandlers n hs) := by
  rcases ha : h n s with ⟨a, s'⟩
  cases a with
  | stop => exact runHandlers_stop ha
  | skip => exact runHandlers_skip ha
  | proceed => exact runHandlers_proceed ha

theorem followedBy_assoc (r : Action × σ) (f g : σ → Action × σ) :
    followedBy (followedBy r f) g = followedBy r fun s => followedBy (f s) g := by
  obtain ⟨a, s⟩ := r
  cases a with
  | stop => rfl
  | proceed => rfl
  | skip =>
    rcases hf : f s with ⟨b, s'⟩
    cases b with
    | stop => simp [followedBy, hf, Action.afterSkip]
    | proceed => simp [followedBy, hf, Action.afterSkip]
    | skip =>
      -- two handlers skip: skipping once more changes nothing
      rcases hg : g s' with ⟨c, s''⟩
      cases c <;> simp [followedBy, hf, hg, Action.afterSkip]

theorem followedBy_nil (n : Node) (r : Action × σ) : followedBy r (runHandlers n []) = r := by
  obtain ⟨a, s⟩ := r
  cases a <;> rfl

theorem runHandlers_append (n : Node) (hs gs : List (Handler σ)) (s : σ) :
    runHandlers n (hs ++ gs) s = followedBy (runHandlers n hs s) (runHandlers n gs) := by
  induction hs generalizing s with
  | nil => rfl
  | cons h hs ih =>
    rw [List.cons_append, runHandlers_cons, runHandlers_cons, followedBy_assoc]
    exact congrArg (followedBy (h n s)) (funext ih)

/-- **The handler that stands for several** does what they do in a row. -/
theorem runHandlers_chain (n : Node) (hs : List (Handler σ)) (s : σ) :
    runHandlers n (Visitor.chain hs).toList s = runHandlers n hs s := by
  match hs with
  | [] => rfl
  | [_] => rfl
  | h :: g :: hs =>
    rw [chain_cons_cons, Option.toList_some, runHandlers_cons, followedBy_nil]

/-! ### Walks that mean the same -/

/-- The progress of a walk under a view of its state. -/
def Progress.map (view : τ → σ) (w : Progress τ) : Progress σ :=
  ⟨view w.state, w.stopped, w.tooDeep⟩

/-- The outcome of handlers under a view of the state. -/
def viewed (view : τ → σ) (r : Action × τ) : Action × σ := (r.1, view r.2)

theorem viewed_followedBy {view : τ → σ} {r : Action × τ} {f : τ → Action × τ} {g : σ → Action × σ}
    (h : ∀ t, viewed view (f t) = g (view t)) :
    viewed view (followedBy r f) = followedBy (viewed view r) g := by
  obtain ⟨a, t⟩ := r
  cases a with
  | stop => rfl
  | proceed => exact h t
  | skip =>
    have ht : g (view t) = viewed view (f t) := (h t).symm
    simp [followedBy, viewed, ht]

/-- A walk whose handlers and tracker do, under a view of the state, what those of another walk
do. -/
structure Plan.Means (q : Plan τ) (view : τ → σ) (p : Plan σ) : Prop where
  enter : ∀ k n t, viewed view (runHandlers n (q.table.enter k) t) =
    runHandlers n (p.table.enter k) (view t)
  leave : ∀ k n t, viewed view (runHandlers n (q.table.leave k) t) =
    runHandlers n (p.table.leave k) (view t)
  tracker_enter : ∀ n t, view (q.tracker.enter n t) = p.tracker.enter n (view t)
  tracker_leave : ∀ n t, view (q.tracker.leave n t) = p.tracker.leave n (view t)
  maxDepth : q.maxDepth = p.maxDepth

section Means

variable {q : Plan τ} {view : τ → σ} {p : Plan σ}

theorem runInside_map (h : q.Means view p) (depth : Nat) (n : Node) (ts : List (Rose Node)) (t : τ)
    (ih : ∀ t, (runAll q (depth + 1) t ts).map view = runAll p (depth + 1) (view t) ts) :
    (runInside q depth n ts t).map view = runInside p depth n ts (view t) := by
  have he := h.enter n.kind n t
  unfold runInside
  rw [← he]
  rcases runHandlers n (q.table.enter n.kind) t with ⟨a, t'⟩
  cases a with
  | stop => rfl
  | skip => rfl
  | proceed => exact ih t'

theorem runFinish_map (h : q.Means view p) (n : Node) (w : Progress τ) :
    (runFinish q n w).map view = runFinish p n (w.map view) := by
  have hl := h.leave n.kind n w.state
  unfold runFinish
  rw [show (w.map view).stopped = w.stopped from rfl,
    show (w.map view).state = view w.state from rfl, ← hl]
  by_cases hstop : w.stopped = true
  · rw [if_pos hstop, if_pos hstop, ← h.tracker_leave]
    rfl
  · rw [if_neg hstop, if_neg hstop]
    simp only [Progress.map, viewed, h.tracker_leave]

mutual

theorem runAt_map (h : q.Means view p) : ∀ (r : Rose Node) (depth : Nat) (t : τ),
    (runAt q depth t r).map view = runAt p depth (view t) r
  | .mk n ts, depth, t => by
    rw [runAt_mk, runAt_mk, show q.exceeded depth = p.exceeded depth by
      unfold Plan.exceeded; rw [h.maxDepth]]
    by_cases hd : p.exceeded depth = true
    · rw [if_pos hd, if_pos hd]
      rfl
    · rw [if_neg hd, if_neg hd, runFinish_map h, runInside_map h, h.tracker_enter]
      exact fun t => runAll_map h ts (depth + 1) t

theorem runAll_map (h : q.Means view p) : ∀ (ts : List (Rose Node)) (depth : Nat) (t : τ),
    (runAll q depth t ts).map view = runAll p depth (view t) ts
  | [], depth, t => by
    rw [runAll, runAll]
    rfl
  | r :: ts, depth, t => by
    have hr := runAt_map h r depth t
    rw [runAll_cons, runAll_cons, ← hr, show ((runAt q depth t r).map view).stopped =
      (runAt q depth t r).stopped from rfl]
    by_cases hstop : (runAt q depth t r).stopped = true
    · rw [if_pos hstop, if_pos hstop]
    · rw [if_neg hstop, if_neg hstop]
      exact runAll_map h ts depth _

end

/-- **Walks that mean the same** come equally far and leave states of the same view. -/
theorem walk_map (h : q.Means view p) (n : Node) (t : τ) :
    (walk q n t).map view = walk p n (view t) := runAt_map h n.rose 1 t

end Means

/-! ### Nested visitors -/

/-- A nesting: one thing by itself, or several nestings merged in order. -/
inductive Nesting (α : Type) where
  | leaf (a : α)
  | merge (parts : List (Nesting α))

namespace Nesting

variable {α : Type}

mutual

/-- The leaves of a nesting from left to right. -/
def leaves : Nesting α → List α
  | leaf a => [a]
  | merge parts => leavesOfAll parts

/-- The leaves of some nestings from left to right. -/
def leavesOfAll : List (Nesting α) → List α
  | [] => []
  | m :: ms => leaves m ++ leavesOfAll ms

end

mutual

/-- The visitor of a nesting: its leaves stand for visitors, its mergers are mergers of them. -/
def visitor (f : α → Visitor σ) : Nesting α → Visitor σ
  | leaf a => f a
  | merge parts => Visitor.merge (visitors f parts)

/-- The visitors of some nestings. -/
def visitors (f : α → Visitor σ) : List (Nesting α) → List (Visitor σ)
  | [] => []
  | m :: ms => visitor f m :: visitors f ms

end

section Side

variable (side : Handlers σ → Option (Handler σ)) (f : α → Visitor σ) (k : Kind) (n : Node)

/-- Visitors merged into one run their handlers in a row. -/
theorem runHandlers_merge (hside : ∀ (vs : List (Visitor σ)) (k : Kind),
      side (Visitor.merge vs k) = Visitor.chain (vs.filterMap fun v => side (v k)))
    (vs : List (Visitor σ)) (s : σ) :
    runHandlers n (side (Visitor.merge vs k)).toList s =
      runHandlers n (vs.flatMap fun v => (side (v k)).toList) s := by
  rw [hside, runHandlers_chain, List.filterMap_eq_flatMap_toList]

mutual

/-- The handlers of a nesting, those for entering or those for leaving, do what the handlers of its
leaves do in a row. -/
theorem runHandlers_visitor (hside : ∀ (vs : List (Visitor σ)) (k : Kind),
      side (Visitor.merge vs k) = Visitor.chain (vs.filterMap fun v => side (v k))) :
    ∀ (m : Nesting α) (s : σ),
      runHandlers n (side (m.visitor f k)).toList s =
        runHandlers n (m.leaves.flatMap fun a => (side (f a k)).toList) s
  | leaf a, s => by rw [visitor, leaves, List.flatMap_singleton]
  | merge parts, s => by
    rw [visitor, leaves, runHandlers_merge side k n hside, runHandlers_visitors hside parts]

theorem runHandlers_visitors (hside : ∀ (vs : List (Visitor σ)) (k : Kind),
      side (Visitor.merge vs k) = Visitor.chain (vs.filterMap fun v => side (v k))) :
    ∀ (ms : List (Nesting α)) (s : σ),
      runHandlers n ((visitors f ms).flatMap fun v => (side (v k)).toList) s =
        runHandlers n ((leavesOfAll ms).flatMap fun a => (side (f a k)).toList) s
  | [], _ => rfl
  | m :: ms, s => by
    rw [visitors, leavesOfAll, List.flatMap_cons, List.flatMap_append, runHandlers_append,
      runHandlers_append, runHandlers_visitor hside m s]
    exact congrArg _ (funext (runHandlers_visitors hside ms))

end

end Side

end Nesting

/-! ### Records of visitors -/

/-- The visitor that does the same and records the calls of its handlers under a number. -/
def Visitor.logged (number : Nat) (v : Visitor σ) : Visitor (σ × List (Call σ)) := fun k =>
  { enter := (v k).enter.map fun h => h.logged .entering number
    leave := (v k).leave.map fun h => h.logged .leaving number }

/-- The walk of some visitors. -/
def visitorPlan (vs : List (Visitor σ)) (tracker : Tracker σ) (maxDepth : Int) : Plan σ :=
  { table := .ofVisitors vs, tracker, maxDepth }

theorem viewed_logged (call : Node → Nat → σ → Call σ) (number : Nat) (h? : Option (Handler σ))
    (n : Node) (x : σ × List (Call σ)) :
    viewed Prod.fst (runHandlers n (h?.map fun h => h.logged call number).toList x) =
      runHandlers n h?.toList x.1 := by
  cases h? with
  | none => rfl
  | some h =>
    rw [Option.map_some, Option.toList_some, Option.toList_some, runHandlers_cons,
      runHandlers_cons, followedBy_nil, followedBy_nil]
    rfl

/-- Visitors that record their calls do what they do without a record. -/
theorem viewed_flatMap_logged {α : Type} (call : Node → Nat → σ → Call σ) (number : α → Nat)
    (h? : α → Option (Handler σ)) (n : Node) : ∀ (as : List α) (x : σ × List (Call σ)),
    viewed Prod.fst (runHandlers n (as.flatMap fun a =>
        ((h? a).map fun h => h.logged call (number a)).toList) x) =
      runHandlers n (as.flatMap fun a => (h? a).toList) x.1
  | [], _ => rfl
  | a :: as, x => by
    rw [List.flatMap_cons, List.flatMap_cons, runHandlers_append, runHandlers_append,
      viewed_followedBy (viewed_flatMap_logged call number h? n as), viewed_logged]

theorem means_logged (vs : List (Nat × Visitor σ)) (tracker : Tracker σ) (maxDepth : Int) :
    (visitorPlan (vs.map fun v => v.2.logged v.1) tracker.logged maxDepth).Means Prod.fst
      (visitorPlan (vs.map Prod.snd) tracker maxDepth) where
  enter k n x := by
    simp only [visitorPlan, enter_ofVisitors, List.flatMap_map]
    exact viewed_flatMap_logged .entering Prod.fst (fun v => (v.2 k).enter) n vs x
  leave k n x := by
    simp only [visitorPlan, leave_ofVisitors, List.flatMap_map]
    exact viewed_flatMap_logged .leaving Prod.fst (fun v => (v.2 k).leave) n vs x
  tracker_enter _ _ := rfl
  tracker_leave _ _ := rfl
  maxDepth := rfl

/-- The walk of visitors that record their calls does what their walk does without a record. -/
theorem exists_walk_logged (vs : List (Nat × Visitor σ)) (tracker : Tracker σ) (maxDepth : Int)
    (n : Node) (s : σ) :
    ∃ calls, walk (visitorPlan (vs.map fun v => v.2.logged v.1) tracker.logged maxDepth) n (s, []) =
      (walk (visitorPlan (vs.map Prod.snd) tracker maxDepth) n s).withLog calls := by
  have hforget : _ = walk (visitorPlan (vs.map Prod.snd) tracker maxDepth) n s :=
    walk_map (means_logged vs tracker maxDepth) n (s, [])
  rw [← hforget]
  exact ⟨_, rfl⟩

/-- A nesting means its leaves. -/
theorem means_leaves {α : Type} (f : α → Visitor σ) (m : Nesting α) (tracker : Tracker σ)
    (maxDepth : Int) :
    (visitorPlan [m.visitor f] tracker maxDepth).Means id
      (visitorPlan (m.leaves.map f) tracker maxDepth) where
  enter k n s := by
    simp only [visitorPlan, enter_ofVisitors, List.flatMap_map, List.flatMap_singleton]
    exact Nesting.runHandlers_visitor Handlers.enter f k n (fun _ _ => rfl) m s
  leave k n s := by
    simp only [visitorPlan, leave_ofVisitors, List.flatMap_map, List.flatMap_singleton]
    exact Nesting.runHandlers_visitor Handlers.leave f k n (fun _ _ => rfl) m s
  tracker_enter _ _ := rfl
  tracker_leave _ _ := rfl
  maxDepth := rfl

/-- The walk of a nesting is the walk of its leaves. -/
theorem walk_leaves {α : Type} (f : α → Visitor σ) (m : Nesting α) (tracker : Tracker σ)
    (maxDepth : Int) (n : Node) (s : σ) :
    walk (visitorPlan [m.visitor f] tracker maxDepth) n s =
      walk (visitorPlan (m.leaves.map f) tracker maxDepth) n s :=
  walk_map (means_leaves f m tracker maxDepth) n s

/-- **Every way of composing visitors is the same walk.** For visitors with handlers that do
anything, told apart by numbers, the walk of their nesting and the walk of the visitors in a row end
in the same state, stop alike and meet the same node as too deep; and when the visitors and the
tracker record their calls, which changes nothing else, the records are the same. -/
theorem walk_nesting (m : Nesting (Nat × Visitor σ)) (tracker : Tracker σ) (maxDepth : Int)
    (n : Node) (s : σ) :
    walk (visitorPlan [m.visitor Prod.snd] tracker maxDepth) n s =
        walk (visitorPlan (m.leaves.map Prod.snd) tracker maxDepth) n s ∧
      ∃ calls,
        walk (visitorPlan [m.visitor fun v => v.2.logged v.1] tracker.logged maxDepth) n (s, []) =
            (walk (visitorPlan [m.visitor Prod.snd] tracker maxDepth) n s).withLog calls ∧
          walk (visitorPlan (m.leaves.map fun v => v.2.logged v.1) tracker.logged maxDepth) n
              (s, []) =
            (walk (visitorPlan (m.leaves.map Prod.snd) tracker maxDepth) n s).withLog calls := by
  obtain ⟨calls, hcalls⟩ := exists_walk_logged m.leaves tracker maxDepth n s
  refine ⟨walk_leaves Prod.snd m tracker maxDepth n s, calls, ?_, hcalls⟩
  rw [walk_leaves, walk_leaves, hcalls]

end QueryCheck.Walk
