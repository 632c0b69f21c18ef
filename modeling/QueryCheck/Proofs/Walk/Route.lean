import QueryCheck.Proofs.Walk.Calls

/-! # Routes

When no handler changes the course of a walk, the walk takes the same way through a tree whatever
its handlers and its state are: its route. The route depends on the tree and on the depth limit
only, and the walk carries its state along the route step by step.

* `route`: the steps of a walk through a tree, and the first node below the depth limit.
* `walk_eq_route`: a walk whose handlers all proceed is a fold over its route.
* `threads_route`, `node_mem_of_mem_route`: the paths and the nodes of a route. -/

namespace QueryCheck.Walk

open QueryCheck.Syntax (Kind Node Rose)

/-- A step of a walk, with the nodes above its node, innermost first. A node is abandoned when the
walk has ended below it. -/
inductive Step where
  | enter (n : Node) (above : List Node)
  | leave (n : Node) (above : List Node)
  | abandon (n : Node) (above : List Node)

/-- The way of a walk: its steps, and the first node below the depth limit. -/
structure Route where
  steps : List Step := []
  tooDeep : Option Node := none

/-- Whether a depth is past a limit. -/
def pastLimit (maxDepth : Int) (depth : Nat) : Bool :=
  decide (0 < maxDepth) && decide (maxDepth < (depth : Int))

mutual

/-- The route through a tree below some nodes. -/
def route (maxDepth : Int) (above : List Node) : Rose Node → Route
  | .mk n ts =>
    if pastLimit maxDepth (above.length + 1) then ⟨[], some n⟩
    else
      let inner := routeAll maxDepth (n :: above) ts
      let last : Step := if inner.tooDeep.isSome then .abandon n above else .leave n above
      ⟨.enter n above :: inner.steps ++ [last], inner.tooDeep⟩

/-- The route through trees one after the other, up to the first node below the depth limit. -/
def routeAll (maxDepth : Int) (above : List Node) : List (Rose Node) → Route
  | [] => {}
  | t :: ts =>
    let first := route maxDepth above t
    if first.tooDeep.isSome then first
    else
      let rest := routeAll maxDepth above ts
      ⟨first.steps ++ rest.steps, rest.tooDeep⟩

end

/-- The route through more trees goes on where it has not ended. -/
theorem routeAll_append (maxDepth : Int) (above : List Node) (us : List (Rose Node)) :
    ∀ ts : List (Rose Node), routeAll maxDepth above (ts ++ us) =
      if (routeAll maxDepth above ts).tooDeep.isSome then routeAll maxDepth above ts
      else ⟨(routeAll maxDepth above ts).steps ++ (routeAll maxDepth above us).steps,
        (routeAll maxDepth above us).tooDeep⟩
  | [] => by
    rw [List.nil_append, show routeAll maxDepth above [] = {} by rw [routeAll]]
    rfl
  | t :: ts => by
    have ih := routeAll_append maxDepth above us ts
    rw [List.cons_append, routeAll, routeAll, ih]
    cases hfirst : (route maxDepth above t).tooDeep with
    | some n => simp [hfirst]
    | none => cases hrest : (routeAll maxDepth above ts).tooDeep <;> simp [hrest]

variable {σ : Type}

/-! ### Handlers that proceed -/

/-- What handlers do to the state one after the other, whatever they say about the course of the
walk. -/
def effect (n : Node) (hs : List (Handler σ)) (s : σ) : σ := hs.foldl (fun s h => (h n s).2) s

theorem effect_append (n : Node) (hs gs : List (Handler σ)) (s : σ) :
    effect n (hs ++ gs) s = effect n gs (effect n hs s) := List.foldl_append

/-- Handlers that never change the course of a walk. -/
def Proceeding (hs : List (Handler σ)) : Prop := ∀ h ∈ hs, ∀ n s, (h n s).1 = .proceed

theorem Proceeding.runHandlers_eq (n : Node) :
    ∀ {hs : List (Handler σ)}, Proceeding hs → ∀ s, runHandlers n hs s = (.proceed, effect n hs s)
  | [], _, _ => rfl
  | h :: hs, hp, s => by
    have hh : h n s = (.proceed, (h n s).2) := Prod.ext (hp h (by simp) n s) rfl
    have hs' : Proceeding hs := fun g hg => hp g (by simp [hg])
    rw [runHandlers_proceed hh, hs'.runHandlers_eq n]
    rfl

theorem chain_cons_cons (h g : Handler σ) (hs : List (Handler σ)) :
    Visitor.chain (h :: g :: hs) = some fun n s => runHandlers n (h :: g :: hs) s := rfl

/-- The handler that stands for several proceeding ones does what they do. -/
theorem effect_chain (n : Node) {hs : List (Handler σ)} (hp : Proceeding hs) (s : σ) :
    effect n (Visitor.chain hs).toList s = effect n hs s := by
  match hs with
  | [] => rfl
  | [_] => rfl
  | h :: g :: hs =>
    have hr := hp.runHandlers_eq n s
    rw [chain_cons_cons, Option.toList_some]
    exact congrArg Prod.snd hr

theorem proceeding_chain {hs : List (Handler σ)} (hp : Proceeding hs) :
    Proceeding (Visitor.chain hs).toList := by
  match hs with
  | [] => exact hp
  | [_] => exact hp
  | h :: g :: hs =>
    intro f hf n s
    rw [chain_cons_cons, Option.mem_toList] at hf
    obtain rfl := Option.some.inj hf
    exact congrArg Prod.fst (hp.runHandlers_eq n s)

theorem foldl_add_enter (k : Kind) : ∀ (vs : List (Visitor σ)) (t : Table σ),
    (vs.foldl Table.add t).enter k = t.enter k ++ vs.flatMap fun v => (v k).enter.toList
  | [], t => (List.append_nil (t.enter k)).symm
  | v :: vs, t => by
    rw [List.foldl_cons, foldl_add_enter k vs, List.flatMap_cons, ← List.append_assoc]
    rfl

theorem foldl_add_leave (k : Kind) : ∀ (vs : List (Visitor σ)) (t : Table σ),
    (vs.foldl Table.add t).leave k = t.leave k ++ vs.flatMap fun v => (v k).leave.toList
  | [], t => (List.append_nil (t.leave k)).symm
  | v :: vs, t => by
    rw [List.foldl_cons, foldl_add_leave k vs, List.flatMap_cons, ← List.append_assoc]
    rfl

/-- A table holds the handlers of its visitors in order. -/
theorem enter_ofVisitors (vs : List (Visitor σ)) (k : Kind) :
    (Table.ofVisitors vs).enter k = vs.flatMap fun v => (v k).enter.toList :=
  foldl_add_enter k vs .empty

theorem leave_ofVisitors (vs : List (Visitor σ)) (k : Kind) :
    (Table.ofVisitors vs).leave k = vs.flatMap fun v => (v k).leave.toList :=
  foldl_add_leave k vs .empty

/-! ### Walks along routes -/

/-- What a walk does to its state in one step. -/
def Plan.step (p : Plan σ) (s : σ) : Step → σ
  | .enter n _ => effect n (p.table.enter n.kind) (p.tracker.enter n s)
  | .leave n _ => p.tracker.leave n (effect n (p.table.leave n.kind) s)
  | .abandon n _ => p.tracker.leave n s

/-- The progress of a walk that has gone along a route. -/
def Plan.along (p : Plan σ) (r : Route) (s : σ) : Progress σ :=
  ⟨r.steps.foldl p.step s, r.tooDeep.isSome, r.tooDeep⟩

/-- A plan none of whose handlers changes the course of the walk. -/
structure Plan.Steady (p : Plan σ) : Prop where
  enter : ∀ k, Proceeding (p.table.enter k)
  leave : ∀ k, Proceeding (p.table.leave k)

namespace Plan.Steady

variable {p : Plan σ}

theorem runInside_eq (hp : p.Steady) (depth : Nat) (n : Node) (ts : List (Rose Node)) (s : σ) :
    runInside p depth n ts s = runAll p (depth + 1) (effect n (p.table.enter n.kind) s) ts := by
  rw [runInside, (hp.enter n.kind).runHandlers_eq n]

theorem runFinish_eq (hp : p.Steady) (n : Node) (w : Progress σ) :
    runFinish p n w =
      if w.stopped then { w with state := p.tracker.leave n w.state }
      else .going (p.tracker.leave n (effect n (p.table.leave n.kind) w.state)) := by
  rw [runFinish, (hp.leave n.kind).runHandlers_eq n]
  rfl

mutual

theorem runAt_eq (hp : p.Steady) : ∀ (t : Rose Node) (above : List Node) (s : σ),
    runAt p (above.length + 1) s t = p.along (route p.maxDepth above t) s
  | .mk n ts, above, s => by
    have ih := runAll_eq hp ts (n :: above)
    rw [runAt_mk, route, show p.exceeded (above.length + 1) = pastLimit p.maxDepth
      (above.length + 1) from rfl]
    by_cases hd : pastLimit p.maxDepth (above.length + 1) = true
    · rw [if_pos hd, if_pos hd]
      rfl
    · rw [if_neg hd, if_neg hd, hp.runInside_eq, hp.runFinish_eq, ← List.length_cons (a := n), ih]
      obtain ⟨steps, deep⟩ := routeAll p.maxDepth (n :: above) ts
      cases deep <;> simp [along, Progress.going, step]

theorem runAll_eq (hp : p.Steady) : ∀ (ts : List (Rose Node)) (above : List Node) (s : σ),
    runAll p (above.length + 1) s ts = p.along (routeAll p.maxDepth above ts) s
  | [], above, s => by
    rw [runAll, routeAll]
    rfl
  | t :: ts, above, s => by
    have ih := runAll_eq hp ts above
    rw [runAll_cons, routeAll, runAt_eq hp t above s]
    obtain ⟨steps, deep⟩ := route p.maxDepth above t
    cases deep <;> simp [along, ih]

end

/-- **A walk whose handlers all proceed** goes along the route of its tree. -/
theorem walk_eq_route (hp : p.Steady) (n : Node) (s : σ) :
    walk p n s = p.along (route p.maxDepth [] n.rose) s := hp.runAt_eq n.rose [] s

end Plan.Steady

/-! ### The paths of a route -/

/-- The path on which a step starts. -/
def Step.source : Step → List Node
  | .enter _ above => above
  | .leave n above => n :: above
  | .abandon n above => n :: above

/-- The path on which a step ends. -/
def Step.target : Step → List Node
  | .enter n above => n :: above
  | .leave _ above => above
  | .abandon _ above => above

/-- Steps that lead from one path to another, each starting where the one before it ends. -/
def Threads (path : List Node) : List Step → List Node → Prop
  | [], last => path = last
  | st :: steps, last => st.source = path ∧ Threads st.target steps last

theorem Threads.append {path mid last : List Node} : ∀ {first rest : List Step},
    Threads path first mid → Threads mid rest last → Threads path (first ++ rest) last
  | [], _, h, h' => by
    rw [show path = mid from h]
    exact h'
  | _ :: _, _, h, h' => ⟨h.1, Threads.append h.2 h'⟩

mutual

/-- The route through a tree ends on the path it starts on. -/
theorem threads_route (maxDepth : Int) : ∀ (t : Rose Node) (above : List Node),
    Threads above (route maxDepth above t).steps above
  | .mk n ts, above => by
    rw [route]
    split_ifs
    · rfl
    · refine ⟨rfl, (threads_routeAll maxDepth ts (n :: above)).append ?_⟩
      split_ifs <;> exact ⟨rfl, rfl⟩

theorem threads_routeAll (maxDepth : Int) : ∀ (ts : List (Rose Node)) (above : List Node),
    Threads above (routeAll maxDepth above ts).steps above
  | [], above => by
    rw [routeAll]
    rfl
  | t :: ts, above => by
    have ht := threads_route maxDepth t above
    have hts := threads_routeAll maxDepth ts above
    rw [routeAll]
    dsimp only
    split_ifs
    · exact ht
    · exact ht.append hts

end

/-! ### The nodes of a route -/

/-- The node of a step. -/
def Step.node : Step → Node
  | .enter n _ => n
  | .leave n _ => n
  | .abandon n _ => n

mutual

/-- The steps of a route are at labels of its tree. -/
theorem node_mem_of_mem_route (maxDepth : Int) : ∀ (t : Rose Node) (above : List Node),
    ∀ st ∈ (route maxDepth above t).steps, st.node ∈ t.labels
  | .mk n ts, above, st, hst => by
    rw [Rose.labels, List.mem_cons]
    rw [route] at hst
    split_ifs at hst
    · cases hst
    · rw [List.mem_append, List.mem_cons, List.mem_singleton] at hst
      rcases hst with (rfl | hst) | rfl
      · exact .inl rfl
      · exact .inr (node_mem_of_mem_routeAll maxDepth ts (n :: above) st hst)
      · left
        split_ifs <;> rfl

theorem node_mem_of_mem_routeAll (maxDepth : Int) : ∀ (ts : List (Rose Node)) (above : List Node),
    ∀ st ∈ (routeAll maxDepth above ts).steps, st.node ∈ Rose.labelsOfAll ts
  | [], above, st, hst => by
    rw [routeAll] at hst
    cases hst
  | t :: ts, above, st, hst => by
    rw [Rose.labelsOfAll, List.mem_append]
    rw [routeAll] at hst
    dsimp only at hst
    split_ifs at hst
    · exact .inl (node_mem_of_mem_route maxDepth t above st hst)
    · rcases List.mem_append.mp hst with hst | hst
      · exact .inl (node_mem_of_mem_route maxDepth t above st hst)
      · exact .inr (node_mem_of_mem_routeAll maxDepth ts above st hst)

end

mutual

/-- The node at which a route ends early is a label of its tree. -/
theorem tooDeep_mem_route (maxDepth : Int) : ∀ (t : Rose Node) (above : List Node),
    ∀ n ∈ (route maxDepth above t).tooDeep, n ∈ t.labels
  | .mk m ts, above, n, hn => by
    rw [Rose.labels, List.mem_cons]
    rw [route] at hn
    split_ifs at hn
    · exact .inl (Option.some.inj hn).symm
    · exact .inr (tooDeep_mem_routeAll maxDepth ts (m :: above) n hn)

theorem tooDeep_mem_routeAll (maxDepth : Int) : ∀ (ts : List (Rose Node)) (above : List Node),
    ∀ n ∈ (routeAll maxDepth above ts).tooDeep, n ∈ Rose.labelsOfAll ts
  | [], above, n, hn => by
    rw [routeAll] at hn
    cases hn
  | t :: ts, above, n, hn => by
    rw [Rose.labelsOfAll, List.mem_append]
    rw [routeAll] at hn
    dsimp only at hn
    split_ifs at hn
    · exact .inl (tooDeep_mem_route maxDepth t above n hn)
    · exact .inr (tooDeep_mem_routeAll maxDepth ts above n hn)

end

end QueryCheck.Walk
