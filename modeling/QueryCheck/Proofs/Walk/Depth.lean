import QueryCheck.Proofs.Walk.Route

/-! # Routes under a depth limit

A depth limit does not change the route of a walk but for its end: the route under a limit is the
route without one up to the first node below the limit, and from there on every node the walk is in
is abandoned.

* `Rose.height`, `Rose.leveled`: how deep a tree is, and its labels with their depths in the order
  of a walk.
* `cut_route`: a route under a limit is the whole route or is cut at the first node below the limit.
* `tooDeep_routeAll_eq_none_iff`: which of both depends on the heights of the trees.
* `firstAt`, `firstBelow`, `tooDeep_routeAll_eq`: the node at which it is cut, level by level.
* `exists_leave_mem_routeAll`: a route that is not cut leaves every node.
* `Plan.noting`: the walk that notes, before it enters a node, something about its state;
  `walk_noting` finds the notes along the route. -/

namespace QueryCheck.Syntax.Rose

variable {α : Type}

mutual

/-- The number of labels on the longest way from the root down. -/
def height : Rose α → Nat
  | mk _ ts => heightOfAll ts + 1

/-- The greatest height of some trees. -/
def heightOfAll : List (Rose α) → Nat
  | [] => 0
  | t :: ts => max (height t) (heightOfAll ts)

end

mutual

/-- All labels with their depths, every one before those below it, where the root is at the given
depth. -/
def leveled (depth : Nat) : Rose α → List (Nat × α)
  | mk a ts => (depth, a) :: leveledAll (depth + 1) ts

/-- All labels of some trees with their depths, in order. -/
def leveledAll (depth : Nat) : List (Rose α) → List (Nat × α)
  | [] => []
  | t :: ts => leveled depth t ++ leveledAll depth ts

end

end QueryCheck.Syntax.Rose

namespace QueryCheck.Walk

open QueryCheck.Syntax (Kind Node Rose)
open QueryCheck.Syntax.Rose

/-! ### The nodes a route enters -/

/-- The nodes that are entered in some steps, with their depths. -/
def entered (steps : List Step) : List (Nat × Node) :=
  steps.filterMap fun
    | .enter n above => some (above.length + 1, n)
    | _ => none

theorem entered_append (first rest : List Step) :
    entered (first ++ rest) = entered first ++ entered rest := List.filterMap_append

theorem entered_enter (n : Node) (above : List Node) (steps : List Step) :
    entered (.enter n above :: steps) = (above.length + 1, n) :: entered steps := rfl

/-! ### Routes without a limit -/

theorem pastLimit_of_nonpos {off : Int} (hoff : off ≤ 0) (depth : Nat) :
    pastLimit off depth = false := by
  simp [pastLimit, show ¬ 0 < off by omega]

theorem pastLimit_natCast {limit : Nat} (h : 0 < limit) (depth : Nat) :
    pastLimit limit depth = decide (limit < depth) := by
  simp [pastLimit, h]

mutual

theorem tooDeep_route_of_nonpos {off : Int} (hoff : off ≤ 0) :
    ∀ (t : Rose Node) (above : List Node), (route off above t).tooDeep = none
  | .mk n ts, above => by
    rw [route, if_neg (by rw [pastLimit_of_nonpos hoff]; exact Bool.false_ne_true)]
    exact tooDeep_routeAll_of_nonpos hoff ts (n :: above)

theorem tooDeep_routeAll_of_nonpos {off : Int} (hoff : off ≤ 0) :
    ∀ (ts : List (Rose Node)) (above : List Node), (routeAll off above ts).tooDeep = none
  | [], _ => by rw [routeAll]
  | t :: ts, above => by
    rw [routeAll, tooDeep_route_of_nonpos hoff t]
    exact tooDeep_routeAll_of_nonpos hoff ts above

end

theorem route_mk_of_nonpos {off : Int} (hoff : off ≤ 0) (n : Node) (ts : List (Rose Node))
    (above : List Node) :
    route off above (.mk n ts) =
      ⟨.enter n above :: (routeAll off (n :: above) ts).steps ++ [.leave n above], none⟩ := by
  simp [route, pastLimit_of_nonpos hoff, tooDeep_routeAll_of_nonpos hoff]

theorem routeAll_cons_of_nonpos {off : Int} (hoff : off ≤ 0) (t : Rose Node)
    (ts : List (Rose Node)) (above : List Node) :
    routeAll off above (t :: ts) =
      ⟨(route off above t).steps ++ (routeAll off above ts).steps, none⟩ := by
  simp [routeAll, tooDeep_route_of_nonpos hoff, tooDeep_routeAll_of_nonpos hoff]

mutual

/-- All limits of zero or less are the same. -/
theorem route_of_nonpos {off off' : Int} (hoff : off ≤ 0) (hoff' : off' ≤ 0) :
    ∀ (t : Rose Node) (above : List Node), route off above t = route off' above t
  | .mk n ts, above => by
    rw [route_mk_of_nonpos hoff, route_mk_of_nonpos hoff', routeAll_of_nonpos hoff hoff' ts]

theorem routeAll_of_nonpos {off off' : Int} (hoff : off ≤ 0) (hoff' : off' ≤ 0) :
    ∀ (ts : List (Rose Node)) (above : List Node), routeAll off above ts = routeAll off' above ts
  | [], above => by rw [routeAll, routeAll]
  | t :: ts, above => by
    rw [routeAll_cons_of_nonpos hoff, routeAll_cons_of_nonpos hoff', route_of_nonpos hoff hoff' t,
      routeAll_of_nonpos hoff hoff' ts]

end

mutual

/-- A route without a limit enters every node of the tree, in order. -/
theorem entered_route {off : Int} (hoff : off ≤ 0) : ∀ (t : Rose Node) (above : List Node),
    entered (route off above t).steps = t.leveled (above.length + 1)
  | .mk n ts, above => by
    rw [route_mk_of_nonpos hoff, leveled, List.cons_append, entered_enter, entered_append,
      entered_routeAll hoff ts (n :: above)]
    simp [entered]

theorem entered_routeAll {off : Int} (hoff : off ≤ 0) :
    ∀ (ts : List (Rose Node)) (above : List Node),
      entered (routeAll off above ts).steps = leveledAll (above.length + 1) ts
  | [], _ => by
    rw [routeAll, leveledAll]
    rfl
  | t :: ts, above => by
    rw [routeAll_cons_of_nonpos hoff, leveledAll, entered_append, entered_route hoff t above,
      entered_routeAll hoff ts above]

end

/-! ### Routes cut short -/

/-- A route next to the steps of the route without a limit: it is the same and enters no node below
the limit, or it is cut before the step that enters the first such node, and abandons the nodes it
is in. -/
inductive CutAt (limit : Nat) (full : List Step) : Route → Prop
  | whole (within : ∀ x ∈ entered full, x.1 ≤ limit) : CutAt limit full ⟨full, none⟩
  | short {before after abandoned : List Step} {n : Node} {path : List Node}
      (steps : full = before ++ .enter n path :: after) (depth : path.length = limit)
      (within : ∀ x ∈ entered before, x.1 ≤ limit)
      (abandons : ∀ st ∈ abandoned, ∃ n above, st = .abandon n above) :
      CutAt limit full ⟨before ++ abandoned, some n⟩

/-- The route through a tree next to the routes through the trees below its root. -/
theorem CutAt.node {limit : Nat} {full : List Step} {inner : Route} (n : Node) {above : List Node}
    (h : CutAt limit full inner) (habove : above.length < limit) :
    CutAt limit (.enter n above :: full ++ [.leave n above])
      ⟨.enter n above :: inner.steps ++
        [if inner.tooDeep.isSome then .abandon n above else .leave n above], inner.tooDeep⟩ := by
  have henter : ∀ {steps : List Step}, (∀ x ∈ entered steps, x.1 ≤ limit) →
      ∀ x ∈ entered (.enter n above :: steps), x.1 ≤ limit := by
    intro steps hsteps x hx
    rcases List.mem_cons.mp hx with rfl | hx
    · exact habove
    · exact hsteps x hx
  cases h with
  | whole within =>
    refine .whole fun x hx => ?_
    rw [entered_append] at hx
    exact henter within x (by simpa [entered] using hx)
  | @short before after abandoned m path steps depth within abandons =>
    have hsteps : .enter n above :: full ++ [.leave n above] =
        (.enter n above :: before) ++ .enter m path :: (after ++ [.leave n above]) := by
      rw [steps]
      simp
    have habandons : ∀ st ∈ abandoned ++ [.abandon n above],
        ∃ n above, st = Step.abandon n above := by
      intro st hst
      rcases List.mem_append.mp hst with hst | hst
      · exact abandons st hst
      · exact ⟨n, above, List.mem_singleton.mp hst⟩
    simpa using CutAt.short hsteps depth (henter within) habandons

/-- The route through several trees next to the routes through the first and through the others. -/
theorem CutAt.append {limit : Nat} {full full' : List Step} {first rest : Route}
    (h : CutAt limit full first) (h' : CutAt limit full' rest) :
    CutAt limit (full ++ full')
      (if first.tooDeep.isSome then first else ⟨first.steps ++ rest.steps, rest.tooDeep⟩) := by
  cases h with
  | @short before after abandoned m path steps depth within abandons =>
    have hsteps : full ++ full' = before ++ .enter m path :: (after ++ full') := by
      rw [steps]
      simp
    exact .short hsteps depth within abandons
  | whole within =>
    have happend : ∀ {steps : List Step}, (∀ x ∈ entered steps, x.1 ≤ limit) →
        ∀ x ∈ entered (full ++ steps), x.1 ≤ limit := by
      intro steps hsteps x hx
      rw [entered_append] at hx
      rcases List.mem_append.mp hx with hx | hx
      · exact within x hx
      · exact hsteps x hx
    cases h' with
    | whole within' => exact .whole (happend within')
    | @short before after abandoned m path steps depth within' abandons =>
      have hsteps : full ++ full' = (full ++ before) ++ .enter m path :: after := by
        rw [steps]
        simp
      simpa using CutAt.short hsteps depth (happend within') abandons

mutual

/-- **A route under a limit** is the whole route, or it is cut at the first node below the
limit. -/
theorem cut_route {off : Int} (hoff : off ≤ 0) {limit : Nat} (hlimit : 0 < limit) :
    ∀ (t : Rose Node) (above : List Node), above.length ≤ limit →
      CutAt limit (route off above t).steps (route limit above t)
  | .mk n ts, above, habove => by
    rw [route_mk_of_nonpos hoff, route, pastLimit_natCast hlimit]
    by_cases hd : above.length + 1 ≤ limit
    · rw [if_neg (by simpa using hd)]
      exact (cut_routeAll hoff hlimit ts (n :: above) hd).node n hd
    · rw [if_pos (by simpa using hd)]
      have hdepth : above.length = limit := by omega
      have hcut : ∀ after, CutAt limit (.enter n above :: after) ⟨[] ++ [], some n⟩ := fun after =>
        .short rfl hdepth (by simp [entered]) (by simp)
      exact hcut _

theorem cut_routeAll {off : Int} (hoff : off ≤ 0) {limit : Nat} (hlimit : 0 < limit) :
    ∀ (ts : List (Rose Node)) (above : List Node), above.length ≤ limit →
      CutAt limit (routeAll off above ts).steps (routeAll limit above ts)
  | [], above, _ => by
    rw [routeAll, routeAll]
    exact .whole (by simp [entered])
  | t :: ts, above, habove => by
    rw [routeAll_cons_of_nonpos hoff, routeAll]
    exact (cut_route hoff hlimit t above habove).append (cut_routeAll hoff hlimit ts above habove)

end

/-- The steps of a route before the one that enters the first node below a limit. -/
structure Crossing (full : List Step) (limit : Nat) (before : List Step) (n : Node) : Prop where
  steps : ∃ path after, full = before ++ .enter n path :: after ∧ path.length = limit
  within : ∀ x ∈ entered before, x.1 ≤ limit

theorem Crossing.entered_eq {full before : List Step} {limit : Nat} {n : Node}
    (h : Crossing full limit before n) :
    ∃ rest, entered full = entered before ++ (limit + 1, n) :: rest := by
  obtain ⟨path, after, hfull, hpath⟩ := h.steps
  exact ⟨entered after, by rw [hfull, entered_append, entered_enter, hpath]⟩

/-- The first node below a greater limit is not met earlier. -/
theorem Crossing.isPrefix {full before before' : List Step} {limit limit' : Nat} {n n' : Node}
    (h : Crossing full limit before n) (h' : Crossing full limit' before' n')
    (hle : limit ≤ limit') : before <+: before' := by
  obtain ⟨path, after, hfull, hpath⟩ := h.steps
  obtain ⟨path', after', hfull', hpath'⟩ := h'.steps
  have hb : before <+: full := ⟨_, hfull.symm⟩
  have hb' : before' <+: full := ⟨_, hfull'.symm⟩
  rcases List.prefix_or_prefix_of_prefix hb hb' with hpre | ⟨rest, hrest⟩
  · exact hpre
  · -- otherwise the node below the greater limit is entered before the one below the lesser
    cases rest with
    | nil => exact ⟨[], by rw [List.append_nil, ← hrest, List.append_nil]⟩
    | cons st rest =>
      have hst : st = .enter n' path' := by
        rw [hfull', ← hrest, List.append_assoc, List.append_cancel_left_eq] at hfull
        exact (List.cons.inj hfull).1.symm
      have hmem : (path'.length + 1, n') ∈ entered before := by
        rw [← hrest, entered_append, hst, entered_enter]
        simp
      have := h.within _ hmem
      omega

mutual

/-- No label of a tree is deeper than a limit exactly when the tree is no higher. -/
theorem leveled_le_iff {α : Type} (limit : Nat) : ∀ (t : Rose α) (depth : Nat),
    (∀ x ∈ t.leveled depth, x.1 ≤ limit) ↔ depth + t.height ≤ limit + 1
  | .mk a ts, depth => by
    rw [leveled, List.forall_mem_cons, height]
    by_cases hd : depth ≤ limit
    · rw [leveledAll_le_iff limit ts (depth + 1) (by omega)]
      constructor
      · rintro ⟨-, hall⟩
        omega
      · intro h
        exact ⟨hd, by omega⟩
    · constructor
      · rintro ⟨hroot, -⟩
        exact absurd hroot hd
      · intro h
        omega

theorem leveledAll_le_iff {α : Type} (limit : Nat) : ∀ (ts : List (Rose α)) (depth : Nat),
    depth ≤ limit + 1 →
      ((∀ x ∈ leveledAll depth ts, x.1 ≤ limit) ↔ depth + heightOfAll ts ≤ limit + 1)
  | [], depth, hd => by
    rw [leveledAll, heightOfAll]
    exact ⟨fun _ => hd, fun _ x hx => absurd hx (by simp)⟩
  | t :: ts, depth, hd => by
    rw [leveledAll, List.forall_mem_append, leveled_le_iff limit t,
      leveledAll_le_iff limit ts depth hd, heightOfAll]
    omega

end

/-- **A route is not cut** exactly when no tree is higher than the limit allows. -/
theorem tooDeep_routeAll_eq_none_iff {limit : Nat} (hlimit : 0 < limit) (ts : List (Rose Node))
    (above : List Node) (habove : above.length ≤ limit) :
    (routeAll limit above ts).tooDeep = none ↔ above.length + heightOfAll ts ≤ limit := by
  have hoff : (0 : Int) ≤ 0 := Int.le_refl 0
  have hlevels := leveledAll_le_iff limit ts (above.length + 1) (by omega)
  rw [← entered_routeAll hoff ts above] at hlevels
  have hcut := cut_routeAll hoff hlimit ts above habove
  generalize routeAll limit above ts = r at hcut ⊢
  cases hcut with
  | whole within =>
    have := hlevels.mp within
    exact ⟨fun _ => by omega, fun _ => rfl⟩
  | @short before after abandoned n path steps depth within abandons =>
    refine ⟨nofun, fun h => ?_⟩
    have hmem : (path.length + 1, n) ∈ entered (routeAll 0 above ts).steps := by
      rw [steps, entered_append, entered_enter]
      simp
    have := hlevels.mpr (by omega) _ hmem
    omega

/-- The first node that is some levels below given ones. -/
def firstAt : Nat → List Node → Option Node
  | 0, ns => ns.head?
  | k + 1, ns => ns.findSome? fun n => firstAt k n.children

theorem exists_child_of_firstAt {k : Nat} {ns : List Node} {m : Node}
    (h : firstAt (k + 1) ns = some m) : ∃ n ∈ ns, firstAt k n.children = some m :=
  List.exists_of_findSome?_eq_some h

theorem firstAt_eq_none {k : Nat} {ns : List Node} (h : firstAt (k + 1) ns = none) :
    ∀ n ∈ ns, firstAt k n.children = none :=
  List.findSome?_eq_none_iff.mp h

theorem mem_labels_of_firstAt : ∀ {k : Nat} {ns : List Node} {m : Node},
    firstAt k ns = some m → ∃ n ∈ ns, m ∈ n.rose.labels
  | 0, ns, m, h => ⟨m, List.mem_of_mem_head? h, m.mem_labels_self⟩
  | k + 1, ns, m, h => by
    obtain ⟨n, hn, h⟩ := exists_child_of_firstAt h
    obtain ⟨n', hn', hm⟩ := mem_labels_of_firstAt h
    exact ⟨n, hn, Node.mem_labels_of_child hn' m hm⟩

/-- Below the last level that has nodes there are none. -/
theorem firstAt_succ_eq_none : ∀ {k : Nat} {ns : List Node}, firstAt k ns = none →
    firstAt (k + 1) ns = none
  | 0, ns, h => by rw [List.head?_eq_none_iff.mp h]; rfl
  | k + 1, ns, h => List.findSome?_eq_none_iff.mpr fun n hn =>
      firstAt_succ_eq_none (firstAt_eq_none h n hn)

theorem firstAt_append (k : Nat) (ns ms : List Node) :
    firstAt (k + 1) (ns ++ ms) = (firstAt (k + 1) ns).or (firstAt (k + 1) ms) :=
  List.findSome?_append

theorem firstAt_nil : ∀ k : Nat, firstAt k [] = none
  | 0 => rfl
  | _ + 1 => rfl

theorem firstAt_of_leaves (k : Nat) {ns : List Node} (h : ∀ n ∈ ns, n.children = []) :
    firstAt (k + 1) ns = none :=
  List.findSome?_eq_none_iff.mpr fun n hn => by rw [h n hn, firstAt_nil]

/-- The first node a level below the nodes that are found from others. -/
theorem firstAt_flatMap (k : Nat) {f : Node → List Node} : ∀ {ns : List Node},
    (∀ n ∈ ns, firstAt (k + 1) n.children = firstAt (k + 1) (f n)) →
    firstAt (k + 2) ns = firstAt (k + 1) (ns.flatMap f)
  | [], _ => rfl
  | n :: ns, h => by
    rw [List.forall_mem_cons] at h
    rw [List.flatMap_cons, firstAt_append, ← h.1, ← firstAt_flatMap k h.2, firstAt,
      List.findSome?_cons]
    cases firstAt (k + 1) n.children <;> rfl

/-- **A route is cut at the first node below the limit,** level by level. -/
theorem tooDeep_routeAll_eq {limit : Nat} (hlimit : 0 < limit) : ∀ (k : Nat) (ns above : List Node),
    above.length + k = limit → (routeAll limit above (ns.map Node.rose)).tooDeep = firstAt k ns
  | 0, [], _, _ => by rw [List.map_nil, routeAll]; rfl
  | 0, n :: ns, above, h => by
    have hpast : pastLimit limit (above.length + 1) = true := by
      rw [pastLimit_natCast hlimit, decide_eq_true_iff]
      omega
    rw [List.map_cons, Node.rose_eq, routeAll, route, if_pos hpast]
    rfl
  | k + 1, [], _, _ => by rw [List.map_nil, routeAll]; rfl
  | k + 1, n :: ns, above, h => by
    have hwithin : ¬ pastLimit limit (above.length + 1) = true := by
      rw [pastLimit_natCast hlimit, decide_eq_true_iff]
      omega
    have hinner := tooDeep_routeAll_eq hlimit k n.children (n :: above)
      (by rw [List.length_cons]; omega)
    have hrest := tooDeep_routeAll_eq hlimit (k + 1) ns above h
    rw [List.map_cons, Node.rose_eq, routeAll, route, if_neg hwithin, firstAt, List.findSome?_cons]
    dsimp only
    rw [hinner]
    cases hfirst : firstAt k n.children with
    | some m => rfl
    | none => exact hrest

/-- The first node below a depth limit, in the nodes right below the root of a document. -/
def firstBelow (maxDepth : Int) (ns : List Node) : Option Node :=
  if 0 < maxDepth then firstAt (maxDepth.toNat - 1) ns else none

theorem tooDeep_routeAll_singleton (maxDepth : Int) (n : Node) (ns : List Node) :
    (routeAll maxDepth [n] (ns.map Node.rose)).tooDeep = firstBelow maxDepth ns := by
  unfold firstBelow
  split_ifs with hpos
  · obtain ⟨limit, rfl⟩ := Int.eq_ofNat_of_zero_le (Int.le_of_lt hpos)
    have hlimit : 0 < limit := by omega
    exact tooDeep_routeAll_eq hlimit _ ns [n] (by simp; omega)
  · exact tooDeep_routeAll_of_nonpos (by omega) _ _

mutual

/-- **A route that is not cut** leaves every node of the tree. -/
theorem exists_leave_mem_route (maxDepth : Int) : ∀ (t : Rose Node) (above : List Node),
    (route maxDepth above t).tooDeep = none →
    ∀ n ∈ t.labels, ∃ path, .leave n path ∈ (route maxDepth above t).steps
  | .mk m ts, above, hnone, n, hn => by
    rw [route] at hnone ⊢
    split_ifs at hnone ⊢ with hpast
    dsimp only at hnone ⊢
    rw [labels, List.mem_cons] at hn
    rcases hn with rfl | hn
    · exact ⟨above, by simp [hnone]⟩
    · obtain ⟨path, hpath⟩ := exists_leave_mem_routeAll maxDepth ts (m :: above) hnone n hn
      exact ⟨path, by simp [hpath]⟩

theorem exists_leave_mem_routeAll (maxDepth : Int) : ∀ (ts : List (Rose Node)) (above : List Node),
    (routeAll maxDepth above ts).tooDeep = none →
    ∀ n ∈ labelsOfAll ts, ∃ path, .leave n path ∈ (routeAll maxDepth above ts).steps
  | [], above, _, n, hn => by
    rw [labelsOfAll] at hn
    cases hn
  | t :: ts, above, hnone, n, hn => by
    rw [routeAll] at hnone ⊢
    dsimp only at hnone ⊢
    split_ifs at hnone ⊢ with hfirst
    · rw [hnone] at hfirst
      cases hfirst
    · rw [labelsOfAll, List.mem_append] at hn
      rcases hn with hn | hn
      · obtain ⟨path, hpath⟩ := exists_leave_mem_route maxDepth t above
          (Option.not_isSome_iff_eq_none.mp hfirst) n hn
        exact ⟨path, List.mem_append_left _ hpath⟩
      · obtain ⟨path, hpath⟩ := exists_leave_mem_routeAll maxDepth ts above hnone n hn
        exact ⟨path, List.mem_append_right _ hpath⟩

end

theorem Threads.of_append {path last : List Node} : ∀ {first rest : List Step},
    Threads path (first ++ rest) last → ∃ mid, Threads path first mid ∧ Threads mid rest last
  | [], _, h => ⟨path, rfl, h⟩
  | _ :: _, _, ⟨hsrc, h⟩ => by
    obtain ⟨mid, hfirst, hrest⟩ := Threads.of_append h
    exact ⟨mid, ⟨hsrc, hfirst⟩, hrest⟩

/-! ### Notes on the way -/

variable {σ α : Type}

/-- The handler that leaves the notes beside the state as they are. -/
def Handler.besideNotes (h : Handler σ) : Handler (σ × List (Node × α)) := fun n x =>
  let r := h n x.1
  (r.1, r.2, x.2)

/-- The plan that does the same and notes something about the state before it enters a node. -/
def Plan.noting (p : Plan σ) (view : σ → α) : Plan (σ × List (Node × α)) where
  table := ⟨fun k => (p.table.enter k).map .besideNotes,
    fun k => (p.table.leave k).map .besideNotes⟩
  tracker := ⟨fun n x => (p.tracker.enter n x.1, x.2 ++ [(n, view x.1)]),
    fun n x => (p.tracker.leave n x.1, x.2)⟩
  maxDepth := p.maxDepth

/-- The notes of some steps. -/
def Plan.notes (p : Plan σ) (view : σ → α) : List Step → σ → List (Node × α)
  | [], _ => []
  | st :: steps, s =>
    (entered [st]).map (fun x => (x.2, view s)) ++ p.notes view steps (p.step s st)

theorem effect_besideNotes (n : Node) : ∀ (hs : List (Handler σ)) (x : σ × List (Node × α)),
    effect n (hs.map .besideNotes) x = (effect n hs x.1, x.2)
  | [], _ => rfl
  | h :: hs, x => effect_besideNotes n hs (Handler.besideNotes h n x).2

theorem step_noting (p : Plan σ) (view : σ → α) (x : σ × List (Node × α)) (st : Step) :
    (p.noting view).step x st =
      (p.step x.1 st, x.2 ++ (entered [st]).map fun y => (y.2, view x.1)) := by
  cases st with
  | enter n above => exact effect_besideNotes n _ _
  | leave n above =>
    have h := effect_besideNotes n (p.table.leave n.kind) x
    simp [Plan.step, Plan.noting, h, entered]
  | abandon n above => simp [Plan.step, Plan.noting, entered]

theorem foldl_step_noting (p : Plan σ) (view : σ → α) : ∀ (steps : List Step)
    (x : σ × List (Node × α)),
    steps.foldl (p.noting view).step x = (steps.foldl p.step x.1, x.2 ++ p.notes view steps x.1)
  | [], x => by simp [Plan.notes]
  | st :: steps, x => by
    rw [List.foldl_cons, step_noting, foldl_step_noting p view steps, Plan.notes]
    simp

theorem notes_append (p : Plan σ) (view : σ → α) : ∀ (first rest : List Step) (s : σ),
    p.notes view (first ++ rest) s =
      p.notes view first s ++ p.notes view rest (first.foldl p.step s)
  | [], _, _ => rfl
  | st :: first, rest, s => by
    rw [List.cons_append, Plan.notes, Plan.notes, notes_append p view first, List.append_assoc]
    rfl

theorem length_notes (p : Plan σ) (view : σ → α) : ∀ (steps : List Step) (s : σ),
    (p.notes view steps s).length = (entered steps).length
  | [], _ => rfl
  | st :: steps, s => by
    rw [Plan.notes, List.length_append, List.length_map, length_notes p view steps,
      ← List.length_append, ← entered_append]
    rfl

theorem Plan.Steady.noting {p : Plan σ} (hp : p.Steady) (view : σ → α) :
    (p.noting view).Steady := by
  have hproceed : ∀ {hs : List (Handler σ)}, Proceeding hs →
      Proceeding (hs.map (Handler.besideNotes (α := α))) := by
    intro hs hhs h hh n x
    obtain ⟨g, hg, rfl⟩ := List.mem_map.mp hh
    exact hhs g hg n x.1
  exact ⟨fun k => hproceed (hp.enter k), fun k => hproceed (hp.leave k)⟩

/-- **The notes of a walk** whose handlers all proceed are those of its route. -/
theorem walk_noting {p : Plan σ} (hp : p.Steady) (view : σ → α) (n : Node) (s : σ) :
    (walk (p.noting view) n (s, [])).state.2 =
      p.notes view (route p.maxDepth [] n.rose).steps s := by
  rw [(hp.noting view).walk_eq_route, Plan.along, foldl_step_noting]
  rfl

end QueryCheck.Walk
