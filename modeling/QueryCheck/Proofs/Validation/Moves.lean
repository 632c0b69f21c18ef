import Mathlib.Logic.Relation
import QueryCheck.Proofs.Syntax.Whole
import QueryCheck.Proofs.Validation.Findings

/-! # What rules may do

Whatever a rule does when a walk comes to a node, it does in a few sorts of moves: it reports a
problem of the node or of a fragment name it remembers, it remembers a name, it has a table made,
and it may break down at a node that is not whole or states a type without an answer. What these
moves preserve, every rule preserves.

* `Shown`: a place that a problem of a node shows.
* `Move`: one move of a rule at a node.
* `Rule.moves_atEnter`, `Rule.moves_atLeave`: rules make no other moves.
* `Moves.preserves`, `act_preserves`: what every move preserves is preserved. -/

namespace QueryCheck.Validation

open QueryCheck.Schema
open QueryCheck.Syntax
open QueryCheck.Typing
open QueryCheck.Walk
open Context

/-! ### Places below a node -/

/-- A place that holds one of some nodes, or none at all. -/
def PointsInto (ms : List Node) (x : Child Node) : Prop := ∀ m ∈ x.toOption, m ∈ ms

theorem pointsInto_self (n : Node) : PointsInto n.rose.labels (.node n) := by
  rintro m ⟨⟩
  exact n.mem_labels_self

section Slots

variable {k : Kind} {ss : List (Slot Node)} {l : Option Location} {c : Child Node}

theorem pointsInto_one (h : .one c ∈ ss) : PointsInto (Node.mk k ss l).rose.labels c := by
  intro m hm
  have hchild : m ∈ (Node.mk k ss l).children :=
    Node.mem_children_mk.mpr ⟨_, h, by simpa [Slot.children] using hm⟩
  exact Node.mem_labels_of_child hchild m m.mem_labels_self

theorem pointsInto_item {cs : List (Child Node)} (h : .many cs ∈ ss) (hc : c ∈ cs) :
    PointsInto (Node.mk k ss l).rose.labels c := by
  intro m hm
  have hchild : m ∈ (Node.mk k ss l).children :=
    Node.mem_children_mk.mpr ⟨_, h, List.mem_filterMap.mpr ⟨c, hc, hm⟩⟩
  exact Node.mem_labels_of_child hchild m m.mem_labels_self

end Slots

namespace PointsInto

variable {ms : List Node} {x : Child Node}

theorem mono {ms' : List Node} (h : PointsInto ms x) (hms : ms ⊆ ms') : PointsInto ms' x :=
  fun m hm => hms (h m hm)

theorem namePlace (h : PointsInto ms x) : PointsInto ms (Rule.namePlace x) := by
  cases x with
  | node m => exact h
  | _ => nofun

end PointsInto

/-! ### Places that problems show -/

/-- A place that a problem of a node shows: it points below the node, and it holds a node unless the
name of a fragment is missing. -/
structure Shown (n : Node) (x : Child Node) : Prop where
  below : PointsInto n.rose.labels x
  filled : n.named = true → x.toOption.isSome = true

namespace Shown

variable {n m : Node} {x : Child Node}

theorem node (h : PointsInto n.rose.labels (.node m)) : Shown n (.node m) := ⟨h, fun _ => rfl⟩

theorem self (n : Node) : Shown n (.node n) := .node (pointsInto_self n)

theorem namePlace (h : PointsInto n.rose.labels x) (hx : n.named = x.toOption.isSome) :
    Shown n (Rule.namePlace x) := by
  refine ⟨h.namePlace, fun hn => ?_⟩
  rw [hx] at hn
  cases x with
  | node m => rfl
  | _ => cases hn

end Shown

/-! ### Moves -/

/-- One move of the rule with the given number at a node. -/
inductive Move (slot : Nat) (n : Node) : Context → Context → Prop
  | report (c : Context) (r : Rule) (message : String) {nodes : List (Child Node)}
      (hne : nodes ≠ []) (places : ∀ x ∈ nodes, Shown n x ∨
        ∃ name, Rule.firstMet? slot name c.metNames = some x) :
      Move slot n c (c.report (r.problem message nodes))
  | remember (c : Context) (name : String) {place : Child Node} (h : Shown n place) :
      Move slot n c { c with metNames := c.metNames ++ [(slot, name, place)] }
  | fragments (c : Context) : Move slot n c c.withFragments
  | directives (c : Context) : Move slot n c c.withDirectives
  | breakDown (c : Context) (h : ¬ (n.Whole ∧ resolvable c.schema n = true)) :
      Move slot n c c.breakDown

/-- Moves of the rule with the given number at a node, one after the other. -/
abbrev Moves (slot : Nat) (n : Node) : Context → Context → Prop :=
  Relation.ReflTransGen (Move slot n)

namespace Moves

variable {slot : Nat} {n : Node}

/-- **What every move preserves** is preserved. -/
theorem preserves {I : Context → Prop} (hI : ∀ c c', Move slot n c c' → I c → I c')
    {c c' : Context} (h : Moves slot n c c') (hc : I c) : I c' := by
  induction h with
  | refl => exact hc
  | tail _ hmove ih => exact hI _ _ hmove ih

/-- A problem of one place below the node. -/
theorem report (c : Context) (r : Rule) (message : String) {x : Child Node}
    (h : Shown n x) : Moves slot n c (c.report (r.problem message [x])) :=
  .single (.report c r message (List.cons_ne_nil _ _)
    fun y hy => .inl (by rwa [List.mem_singleton.mp hy]))

/-- Such a problem, unless all is well. -/
theorem report_unless (b : Bool) (c : Context) (r : Rule) (message : String) {x : Child Node}
    (h : Shown n x) :
    Moves slot n c (if b then c else c.report (r.problem message [x])) := by
  cases b with
  | true => exact .refl
  | false => exact report c r message h

theorem foldl {α : Type} {f : Context → α → Context} : ∀ {as : List α} (c : Context),
    (∀ a ∈ as, ∀ c, Moves slot n c (f c a)) → Moves slot n c (as.foldl f c)
  | [], _, _ => .refl
  | a :: as, c, hf => by
    rw [List.forall_mem_cons] at hf
    rw [List.foldl_cons]
    exact (hf.1 c).trans (foldl _ hf.2)

end Moves

/-! ### The moves of rules -/

theorem isSome_mapM_iff {α β : Type} {f : α → Option β} : ∀ {as : List α},
    (as.mapM f).isSome ↔ ∀ a ∈ as, (f a).isSome
  | [] => by simp
  | a :: as => by
    rw [List.mapM_cons, List.forall_mem_cons, ← isSome_mapM_iff]
    cases f a <;> cases as.mapM f <;> simp

theorem isSome_mapM {α β : Type} {f : α → Option β} {as : List α}
    (h : ∀ a ∈ as, (f a).isSome) : (as.mapM f).isSome := isSome_mapM_iff.mpr h

namespace Rule

theorem moves_checkTypeName (s : Schema) (n : Node) (slot : Nat) (c : Context) :
    Moves slot n c (checkTypeName s n c) := by
  unfold checkTypeName
  split
  · exact Moves.report_unless _ c _ _ (.self _)
  · exact .refl

/-- A condition that is looked at where the node states it. -/
theorem moves_checkConditionOf {n cond : Node} (hstated : statedType n = .node cond)
    (hcond : PointsInto n.rose.labels (.node cond)) (fragment : String) (slot : Nat) (c : Context) :
    Moves slot n c (checkConditionOf fragment cond c) := by
  unfold checkConditionOf
  split
  · next hnone =>
    refine .single (.breakDown c fun h => ?_)
    simp [resolvable, hstated, Child.toOption, hnone] at h
  · exact Moves.report_unless _ c _ _ (.node hcond)

theorem moves_checkCondition (n : Node) (slot : Nat) (c : Context) :
    Moves slot n c (checkCondition n c) := by
  unfold checkCondition
  split
  · exact moves_checkConditionOf rfl (pointsInto_one (List.mem_cons_self ..)) _ slot c
  · exact moves_checkConditionOf rfl (pointsInto_one (by simp)) _ slot c
  · exact .refl

theorem moves_checkUnique (n : Node) (slot : Nat) (c : Context) :
    Moves slot n c (checkUnique slot n c) := by
  unfold checkUnique
  split
  · next name vars cond dirs sel l =>
    have hname : PointsInto (Node.fragmentDefinition name vars cond dirs sel l).rose.labels name :=
      pointsInto_one (by simp)
    dsimp only
    split
    · next first hfirst =>
      refine .single (.report c _ _ (List.cons_ne_nil _ _) fun x hx => ?_)
      rcases List.mem_pair.mp hx with rfl | rfl
      · exact .inr ⟨_, hfirst⟩
      · exact .inl (.namePlace hname rfl)
    · exact .single (.remember c _ (.namePlace hname rfl))
  · exact .refl

theorem moves_checkSpread (n : Node) (slot : Nat) (c : Context) :
    Moves slot n c (checkSpread n c) := by
  unfold checkSpread Context.fragment
  split
  · dsimp only
    split <;> rename_i heq <;> obtain ⟨-, rfl⟩ := Prod.mk.inj heq
    · exact .single (.fragments c)
    · exact (Relation.ReflTransGen.single (.fragments c)).trans
        (Moves.report _ _ _ (.namePlace (pointsInto_one (by simp)) rfl))
  · exact .refl

theorem moves_checkFieldArgument (n : Node) (slot : Nat) (c : Context) :
    Moves slot n c (checkFieldArgument n c) := by
  unfold checkFieldArgument
  split
  · exact Moves.report_unless _ c _ _ (.self _)
  · exact .refl

/-- The items of the arguments of a whole directive are arguments. -/
theorem exists_argument_of_mem {name : Child Node} {args : List (Child Node)}
    {l : Option Location} (hn : (Node.directive name args l).Whole) {a : Child Node}
    (ha : a ∈ args) : ∃ name value l, a = .node (.argument name value l) := by
  obtain ⟨_, _, _, ⟨⟩, hargs⟩ := Node.eq_directive_of_fits hn.fits rfl
  obtain ⟨m, rfl, hm⟩ := hargs a ha
  have hwhole : m.Whole := hn.below m (pointsInto_item (by simp) ha m rfl)
  obtain ⟨name, value, l, rfl⟩ := Node.eq_argument_of_fits hwhole.fits hm
  exact ⟨name, value, l, rfl⟩

theorem moves_checkDirectiveArguments (n : Node) (slot : Nat) (c : Context) :
    Moves slot n c (checkDirectiveArguments n c) := by
  unfold checkDirectiveArguments Context.directive
  split
  · dsimp only
    split <;> rename_i heq <;> obtain ⟨-, rfl⟩ := Prod.mk.inj heq
    · refine (Relation.ReflTransGen.single (.directives c)).trans (Moves.foldl _ fun a ha c => ?_)
      unfold checkDirectiveArgument
      split
      · exact Moves.report_unless _ c _ _ (.node (pointsInto_item (by simp) ha))
      · next hno =>
        refine .single (.breakDown c fun ⟨hn, _⟩ => ?_)
        obtain ⟨name, value, l, rfl⟩ := exists_argument_of_mem hn ha
        exact hno name value l rfl
    · exact .single (.directives c)
  · exact .refl

theorem moves_checkProvided (table : List (String × Required)) (n : Node) (slot : Nat)
    (c : Context) : Moves slot n c (checkProvided table n c) := by
  unfold checkProvided
  split
  · next name args l =>
    dsimp only
    split
    · exact .refl
    · split
      · next hnames =>
        refine .single (.breakDown c fun ⟨hn, _⟩ => ?_)
        have hsome : (args.mapM argumentName?).isSome := isSome_mapM fun a ha => by
          obtain ⟨name, value, l, rfl⟩ := exists_argument_of_mem hn ha
          rfl
        rw [hnames] at hsome
        cases hsome
      · exact Moves.foldl _ fun r _ c => Moves.report c _ _ (.self _)
  · exact .refl

/-- **Rules make no other moves** when a node is entered. -/
theorem moves_atEnter (r : Rule) (n : Node) (slot : Nat) (c : Context) :
    Moves slot n c (r.atEnter n slot c) := by
  cases r with
  | fragmentsOnCompositeTypes => exact moves_checkCondition n slot c
  | knownArgumentNames =>
    exact (moves_checkDirectiveArguments n slot c).trans (moves_checkFieldArgument n slot _)
  | knownArgumentNamesOnDirectives => exact moves_checkDirectiveArguments n slot c
  | knownFragmentNames => exact moves_checkSpread n slot c
  | knownTypeNames =>
    unfold atEnter
    cases c.schema with
    | none => exact .refl
    | some s => exact moves_checkTypeName s n slot c
  | providedRequiredArgumentsOnDirectives => exact .refl
  | uniqueFragmentNames => exact moves_checkUnique n slot c

/-- **Rules make no other moves** when a node is left. -/
theorem moves_atLeave (r : Rule) (n : Node) (slot : Nat) (c : Context) :
    Moves slot n c (r.atLeave n slot c) := by
  cases r with
  | providedRequiredArgumentsOnDirectives => exact moves_checkProvided _ n slot c
  | _ => exact .refl

end Rule

/-- **What every move at the node of a step preserves** holds of what a rule makes of the step, if
it holds of the states in which rules act alone. -/
theorem act_preserves {s : Option Schema} {doc : Node} {st : Step} {x : Rule × Memory}
    {I : Context → Prop} (hI : ∀ c c', Move 0 st.node c c' → I c → I c')
    (halone : ∀ fs, I (alone s doc fs x.2)) : I (act s doc st x) := by
  cases st with
  | enter n above => exact (x.1.moves_atEnter n 0 _).preserves hI (halone _)
  | leave n above => exact (x.1.moves_atLeave n 0 _).preserves hI (halone _)
  | abandon n above => exact halone _

end QueryCheck.Validation
