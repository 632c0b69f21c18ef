import QueryCheck.Proofs.Syntax.Whole
import QueryCheck.Proofs.Walk.Depth

/-! # Spots

A node may stand in several places of a document. A spot is a node together with the nodes above it,
and the spots of a tree come in the order in which a walk enters them. Without a depth limit a walk
enters and leaves every spot once, so what is collected along its route can be collected from the
spots.

* `Node.spots`, `Node.spots_eq`: the spots of a tree.
* `Lineage`, `lineage_of_mem_spots`: every node of a spot is owned by the next one.
* `Visit.lineage`: the paths on which a walk calls its handlers are lineages.
* `flatMap_route_entering`: what a walk collects where nodes are entered.
* `flatMap_route_leaving`: what it collects where nodes are left, if the nodes that matter are not
  below each other. -/

namespace QueryCheck.Syntax

namespace Rose

variable {α : Type}

mutual

/-- All labels with the labels above them, innermost first, every one before those below it. -/
def spots (above : List α) : Rose α → List (α × List α)
  | mk a ts => (a, above) :: spotsOfAll (a :: above) ts

/-- All labels of some trees with the labels above them, in order. -/
def spotsOfAll (above : List α) : List (Rose α) → List (α × List α)
  | [] => []
  | t :: ts => spots above t ++ spotsOfAll above ts

end

theorem spotsOfAll_eq (above : List α) : ∀ ts : List (Rose α),
    spotsOfAll above ts = ts.flatMap (spots above)
  | [] => rfl
  | t :: ts => by rw [spotsOfAll, spotsOfAll_eq above ts, List.flatMap_cons]

end Rose

namespace Node

/-- The nodes below a node, itself included, with the nodes above them. -/
def spots (above : List Node) (n : Node) : List (Node × List Node) := n.rose.spots above

/-- The spots of a node are its own and those of its children. -/
theorem spots_eq (n : Node) (above : List Node) :
    n.spots above = (n, above) :: n.children.flatMap (spots (n :: above)) := by
  rw [spots, rose_eq, Rose.spots, Rose.spotsOfAll_eq, List.flatMap_map]
  rfl

/-- The nodes of the spots are the nodes of the tree. -/
theorem map_fst_spots (n : Node) : ∀ above, (n.spots above).map Prod.fst = n.rose.labels := by
  induction n using induct with
  | step n ih =>
    intro above
    rw [spots_eq, labels_eq, List.map_cons, List.map_flatMap]
    exact congrArg (n :: ·) (List.flatMap_congr fun m hm => ih m hm (n :: above))

theorem mem_labels_of_mem_spots {n : Node} {above : List Node} {x : Node × List Node}
    (h : x ∈ n.spots above) : x.1 ∈ n.rose.labels := by
  rw [← map_fst_spots n above]
  exact List.mem_map_of_mem h

theorem flatMap_spots_fst {β : Type} (f : Node → List β) (n : Node) (above : List Node) :
    (n.spots above).flatMap (fun x => f x.1) = n.rose.labels.flatMap f := by
  rw [← map_fst_spots n above, List.flatMap_map]

/-- What passes a test, collected from all spots, is what passes it of all that is collected. -/
theorem flatMap_spots_filter {α β : Type} (f : Node → List α) (test : α → Bool) (g : α → β)
    (n : Node) (above : List Node) :
    ((n.spots above).flatMap fun x => ((f x.1).filter test).map g) =
      ((n.rose.labels.flatMap f).filter test).map g := by
  rw [flatMap_spots_fst (fun m => ((f m).filter test).map g), List.filter_flatMap,
    List.map_flatMap]

/-- **A lineage**: nodes each of which is owned by the next one, up to the root. -/
inductive Lineage (root : Node) : List Node → Prop
  | root : Lineage root [root]
  | child {m n : Node} {above : List Node} (owned : m ∈ n.children)
      (rest : Lineage root (n :: above)) : Lineage root (m :: n :: above)

theorem Lineage.all {P : Node → Prop} {root : Node} (h : root.All P) {path : List Node}
    (hpath : Lineage root path) : ∀ n ∈ path, n.All P := by
  induction hpath with
  | root => simpa using h
  | @child m n above owned rest ih =>
    rw [List.forall_mem_cons]
    exact ⟨(all_iff.mp (ih n List.mem_cons_self)).2 m owned, ih⟩

theorem lineage_spots {root : Node} (n : Node) : ∀ {above : List Node}, Lineage root (n :: above) →
    ∀ x ∈ n.spots above, Lineage root (x.1 :: x.2) := by
  induction n using induct with
  | step n ih =>
    intro above h x hx
    rw [spots_eq, List.mem_cons, List.mem_flatMap] at hx
    rcases hx with rfl | ⟨m, hm, hx⟩
    · exact h
    · exact ih m hm (.child hm h) x hx

/-- **The spots of a tree** are lineages that lead up to its root. -/
theorem lineage_of_mem_spots {root : Node} {x : Node × List Node} (h : x ∈ root.spots []) :
    Lineage root (x.1 :: x.2) := lineage_spots root .root x h

end Node

end QueryCheck.Syntax

namespace QueryCheck.Walk

open QueryCheck.Syntax (Kind Node Rose)
open QueryCheck.Syntax.Node

/-! ### Visits of lineages -/

mutual

/-- The paths on which a visit calls its handlers are lineages. -/
theorem Visit.lineage {σ : Type} {p : Plan σ} {I : List Node → σ → Prop} {root : Node} :
    ∀ {above : List Node} {t : Rose Node} {calls : List (Call σ)}, Visit p I above t calls →
      ∀ {n : Node}, t = n.rose → Lineage root (n :: above) →
        Visit p (fun path s => Lineage root path ∧ I path s) above t calls
  | above, _, _, .intro (n := m) he hl entering leaving branches, n, ht, hn => by
    rw [rose_eq] at ht
    injection ht with hm hts
    subst hm
    exact .intro he hl (fun s hs => ⟨hn, entering s hs⟩) (fun s hs => ⟨hn, leaving s hs⟩)
      (branches.lineage hts fun k hk => .child hk hn)

theorem Visits.lineage {σ : Type} {p : Plan σ} {I : List Node → σ → Prop} {root : Node} :
    ∀ {above : List Node} {ts : List (Rose Node)} {calls : List (Call σ)},
      Visits p I above ts calls → ∀ {ms : List Node}, ts = ms.map Node.rose →
        (∀ m ∈ ms, Lineage root (m :: above)) →
        Visits p (fun path s => Lineage root path ∧ I path s) above ts calls
  | _, _, _, .done, _, _, _ => .done
  | _, _, _, .next head tail, [], hts, _ => by cases hts
  | _, _, _, .next head tail, m :: ms, hts, hms => by
    obtain ⟨ht, hts⟩ := List.cons.inj hts
    rw [List.forall_mem_cons] at hms
    exact .next (head.lineage ht hms.1) (tail.lineage hts hms.2)

end

/-! ### Routes through all spots -/

section Steps

variable {β : Type}

/-- What is collected at a step that enters a node; nothing is at the others. -/
def Step.entering (f : Node → List Node → List β) : Step → List β
  | .enter n above => f n above
  | _ => []

/-- What is collected at a step that leaves a node; nothing is at the others. -/
def Step.leaving (g : Node → List β) : Step → List β
  | .leave n _ => g n
  | _ => []

end Steps

section Route

variable {off : Int} (hoff : off ≤ 0)

include hoff

theorem steps_routeAll_of_nonpos (above : List Node) : ∀ ts : List (Rose Node),
    (routeAll off above ts).steps = ts.flatMap fun t => (route off above t).steps
  | [] => by
    rw [routeAll]
    rfl
  | t :: ts => by
    rw [routeAll_cons_of_nonpos hoff, List.flatMap_cons, steps_routeAll_of_nonpos above ts]

/-- The route through a node enters it, goes through its children and leaves it. -/
theorem steps_route_of_nonpos (n : Node) (above : List Node) :
    (route off above n.rose).steps =
      .enter n above :: (n.children.flatMap fun m => (route off (n :: above) m.rose).steps) ++
        [.leave n above] := by
  rw [rose_eq, route_mk_of_nonpos hoff, steps_routeAll_of_nonpos hoff, List.flatMap_map]

variable {β : Type}

/-- **What a walk collects where nodes are entered**, it collects from the spots in order. -/
theorem flatMap_route_entering (f : Node → List Node → List β) (n : Node) :
    ∀ above, (route off above n.rose).steps.flatMap (Step.entering f) =
      (n.spots above).flatMap fun x => f x.1 x.2 := by
  induction n using Node.induct with
  | step n ih =>
    intro above
    have hleave : Step.entering f (.leave n above) = [] := rfl
    rw [steps_route_of_nonpos hoff, spots_eq, List.cons_append, List.flatMap_cons,
      List.flatMap_append, List.flatMap_singleton, hleave, List.append_nil, List.flatMap_assoc,
      List.flatMap_cons, List.flatMap_assoc]
    exact congrArg _ (List.flatMap_congr fun m hm => ih m hm (n :: above))

/-- **What a walk collects where nodes are left**, it collects from the nodes in the order in which
they are entered, if nothing is collected below a node from which something is. -/
theorem flatMap_route_leaving {g : Node → List β} (n : Node)
    (hbelow : n.All fun m => g m ≠ [] → ∀ k ∈ m.children, ∀ x ∈ k.rose.labels, g x = []) :
    ∀ above, (route off above n.rose).steps.flatMap (Step.leaving g) =
      n.rose.labels.flatMap g := by
  induction n using Node.induct with
  | step n ih =>
    intro above
    obtain ⟨hn, hchildren⟩ := all_iff.mp hbelow
    have henter : Step.leaving g (.enter n above) = [] := rfl
    have hleave : Step.leaving g (.leave n above) = g n := rfl
    have hinner : (n.children.flatMap fun m => (route off (n :: above) m.rose).steps).flatMap
        (Step.leaving g) = n.children.flatMap fun m => m.rose.labels.flatMap g := by
      rw [List.flatMap_assoc]
      exact List.flatMap_congr fun m hm => ih m hm (hchildren m hm) (n :: above)
    rw [steps_route_of_nonpos hoff, labels_eq, List.cons_append, List.flatMap_cons,
      List.flatMap_append, List.flatMap_singleton, henter, List.nil_append, hinner, hleave,
      List.flatMap_cons, List.flatMap_assoc]
    by_cases hg : g n = []
    · rw [hg, List.append_nil, List.nil_append]
    · -- below a node that matters there is nothing to put in order
      have hnil : (n.children.flatMap fun m => m.rose.labels.flatMap g) = [] := by
        rw [List.flatMap_eq_nil_iff]
        intro k hk
        rw [List.flatMap_eq_nil_iff]
        exact fun x hx => hn hg k hk x hx
      rw [hnil, List.nil_append, List.append_nil]

end Route

/-- A route without a limit enters the spots of the tree and no others. -/
theorem enter_mem_route_iff {off : Int} (hoff : off ≤ 0) {n m : Node} {above path : List Node} :
    .enter m path ∈ (route off above n.rose).steps ↔ (m, path) ∈ n.spots above := by
  have hall := flatMap_route_entering hoff (fun n above => [(n, above)]) n above
  have hspots : ((n.spots above).flatMap fun x => [(x.1, x.2)]) = n.spots above :=
    List.flatMap_singleton' _
  rw [← hspots, ← hall, List.mem_flatMap]
  constructor
  · exact fun h => ⟨_, h, List.mem_singleton_self _⟩
  · rintro ⟨st, hst, hmem⟩
    cases st with
    | enter n' above' =>
      obtain ⟨rfl, rfl⟩ := Prod.mk.inj (List.mem_singleton.mp hmem)
      exact hst
    | _ => cases hmem

end QueryCheck.Walk
