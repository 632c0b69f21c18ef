import QueryCheck.Proofs.Validation.Isolation

/-! # The handlers of rules

A rule gives a visitor whose handlers never change the course of the walk. What the handlers of a
rule do to the state at a node is what the rule does there, since a check leaves the nodes alone
that its visitor does not show it.

* `Rule.effect_visitor_enter`, `Rule.effect_visitor_leave`: what the handlers of a rule do.
* `Rule.proceeding_visitor_enter`, `Rule.proceeding_visitor_leave`: they never change the course of
  the walk. -/

namespace QueryCheck.Validation

open QueryCheck.Schema
open QueryCheck.Syntax
open QueryCheck.Walk

namespace Rule

/-! ### Visitors that look at one kind of nodes -/

theorem proceeding_observing (f : Node → Context → Context) : Proceeding [observing f] := by
  intro h hh n c
  rw [List.mem_singleton] at hh
  rw [hh]
  rfl

theorem enter_onEnter (k k' : Kind) (f : Node → Context → Context) :
    ((onEnter k f) k').enter.toList = if k' = k then [observing f] else [] := by
  unfold onEnter Visitor.single
  split_ifs <;> rfl

theorem leave_onEnter (k k' : Kind) (f : Node → Context → Context) :
    ((onEnter k f) k').leave = none := by
  unfold onEnter Visitor.single
  split_ifs <;> rfl

theorem proceeding_onEnter (k k' : Kind) (f : Node → Context → Context) :
    Proceeding ((onEnter k f) k').enter.toList := by
  rw [enter_onEnter]
  split_ifs
  · exact proceeding_observing f
  · simp [Proceeding]

/-- A check that leaves nodes of other kinds alone. -/
def OnlyAt (k : Kind) (f : Node → Context → Context) : Prop := ∀ n c, n.kind ≠ k → f n c = c

/-- A check that leaves nodes of other kinds alone is what its visitor does. -/
theorem effect_onEnter {k : Kind} {f : Node → Context → Context} (hf : OnlyAt k f) (n : Node)
    (c : Context) :
    effect n ((onEnter k f) n.kind).enter.toList c = f n c := by
  rw [enter_onEnter]
  split_ifs with hk
  · rfl
  · exact (hf n c hk).symm

theorem enter_merge (v w : Visitor Context) (k : Kind) :
    ((Visitor.merge [v, w]) k).enter = Visitor.chain ((v k).enter.toList ++
      (w k).enter.toList) := by
  rcases hv : (v k).enter with _ | h <;> rcases hw :
    (w k).enter with _ | g <;> simp [Visitor.merge, hv, hw]

theorem leave_merge (v w : Visitor Context) (k : Kind) :
    ((Visitor.merge [v, w]) k).leave = Visitor.chain ((v k).leave.toList ++
      (w k).leave.toList) := by
  rcases hv : (v k).leave with _ | h <;> rcases hw :
    (w k).leave with _ | g <;> simp [Visitor.merge, hv, hw]

theorem proceeding_append {hs gs : List (Handler Context)} (hh : Proceeding hs)
    (hg : Proceeding gs) :
    Proceeding (hs ++ gs) := fun f hf => by
  rcases List.mem_append.mp hf with h | h
  · exact hh f h
  · exact hg f h

/-- The checks of two visitors merged into one run one after the other. -/
theorem effect_merge (k k' : Kind) (f g : Node → Context → Context) (n : Node) (c : Context) :
    effect n ((Visitor.merge [onEnter k f, onEnter k' g]) n.kind).enter.toList c =
      effect n ((onEnter k' g) n.kind).enter.toList
        (effect n ((onEnter k f) n.kind).enter.toList c) := by
  rw [enter_merge, effect_chain n (proceeding_append (proceeding_onEnter k _ f)
    (proceeding_onEnter k' _ g)),
    effect_append]

/-! ### Checks -/

theorem onlyAt_checkTypeName (s : Schema) : OnlyAt .namedType (checkTypeName s) := by
  intro n c h
  unfold checkTypeName
  split
  · exact absurd rfl h
  · rfl

theorem onlyAt_checkUnique (slot : Nat) : OnlyAt .fragmentDefinition (checkUnique slot) := by
  intro n c h
  unfold checkUnique
  split
  · exact absurd rfl h
  · rfl

theorem onlyAt_checkSpread : OnlyAt .fragmentSpread checkSpread := by
  intro n c h
  unfold checkSpread
  split
  · exact absurd rfl h
  · rfl

theorem onlyAt_checkFieldArgument : OnlyAt .argument checkFieldArgument := by
  intro n c h
  unfold checkFieldArgument
  split
  · exact absurd rfl h
  · rfl

theorem onlyAt_checkDirectiveArguments : OnlyAt .directive checkDirectiveArguments := by
  intro n c h
  unfold checkDirectiveArguments
  split
  · exact absurd rfl h
  · rfl

theorem onlyAt_checkProvided (table : List (String × Required)) :
    OnlyAt .directive (checkProvided table) := by
  intro n c h
  unfold checkProvided
  split
  · exact absurd rfl h
  · rfl

/-! ### The handlers of a rule -/

/-- Conditions are checked at two kinds of nodes. -/
theorem effect_conditions (n : Node) (c : Context) :
    effect n ((Visitor.merge [onEnter .inlineFragment checkCondition,
      onEnter .fragmentDefinition checkCondition]) n.kind).enter.toList c = checkCondition n c := by
  rw [effect_merge, enter_onEnter, enter_onEnter]
  by_cases hi : n.kind = .inlineFragment
  · rw [if_pos hi, if_neg (by rw [hi]; decide)]
    rfl
  · rw [if_neg hi]
    by_cases hf : n.kind = .fragmentDefinition
    · rw [if_pos hf]
      rfl
    · rw [if_neg hf]
      unfold checkCondition
      split
      · exact absurd rfl hi
      · exact absurd rfl hf
      · rfl

/-- **The handlers of a rule for entering** do what the rule does when a node is entered. -/
theorem effect_visitor_enter (r : Rule) (slot : Nat) {c₀ c : Context} (hs : c.schema = c₀.schema)
    (n : Node) :
    effect n (r.visitor slot c₀ n.kind).enter.toList c = r.atEnter n slot c := by
  cases r with
  | fragmentsOnCompositeTypes => exact effect_conditions n c
  | knownArgumentNames =>
    rw [visitor, effect_merge, effect_onEnter onlyAt_checkDirectiveArguments,
      effect_onEnter onlyAt_checkFieldArgument]
    rfl
  | knownArgumentNamesOnDirectives => exact effect_onEnter onlyAt_checkDirectiveArguments n c
  | knownFragmentNames => exact effect_onEnter onlyAt_checkSpread n c
  | knownTypeNames =>
    rw [visitor, atEnter, hs]
    cases c₀.schema with
    | none => rfl
    | some s => exact effect_onEnter (onlyAt_checkTypeName s) n c
  | providedRequiredArgumentsOnDirectives =>
    rw [visitor, onLeave, Visitor.single]
    split_ifs <;> rfl
  | uniqueFragmentNames => exact effect_onEnter (onlyAt_checkUnique slot) n c

/-- **The handlers of a rule for leaving** do what the rule does when a node is left. -/
theorem effect_visitor_leave (r : Rule) (slot : Nat) {c₀ c : Context} (hs : c.schema = c₀.schema)
    (hd : c.document = c₀.document) (n : Node) :
    effect n (r.visitor slot c₀ n.kind).leave.toList c = r.atLeave n slot c := by
  have hmerge : ∀ k k' (f g : Node → Context → Context),
      ((Visitor.merge [onEnter k f, onEnter k' g]) n.kind).leave = none := fun k k' f g => by
    rw [leave_merge, leave_onEnter, leave_onEnter]
    rfl
  cases r with
  | fragmentsOnCompositeTypes =>
    rw [visitor, hmerge]
    rfl
  | knownArgumentNames =>
    rw [visitor, hmerge]
    rfl
  | knownTypeNames =>
    rw [visitor]
    cases c₀.schema with
    | none => rfl
    | some s =>
      dsimp only
      rw [leave_onEnter]
      rfl
  | providedRequiredArgumentsOnDirectives =>
    have ht : requiredTable? c₀ = requiredTable? c := by
      unfold requiredTable?
      rw [hs, hd]
    rw [visitor, onLeave, Visitor.single, atLeave, ht]
    split_ifs with hk
    · rfl
    · exact (onlyAt_checkProvided _ n c hk).symm
  | _ =>
    rw [visitor, leave_onEnter]
    rfl

theorem proceeding_visitor_enter (r : Rule) (slot : Nat) (c₀ : Context) (k : Kind) :
    Proceeding (r.visitor slot c₀ k).enter.toList := by
  cases r with
  | fragmentsOnCompositeTypes =>
    rw [visitor, enter_merge]
    exact proceeding_chain (proceeding_append (proceeding_onEnter _ _ _) (proceeding_onEnter _ _ _))
  | knownArgumentNames =>
    rw [visitor, enter_merge]
    exact proceeding_chain (proceeding_append (proceeding_onEnter _ _ _) (proceeding_onEnter _ _ _))
  | knownTypeNames =>
    rw [visitor]
    cases c₀.schema with
    | none => simp [Visitor.none, Proceeding]
    | some s => exact proceeding_onEnter _ _ _
  | providedRequiredArgumentsOnDirectives =>
    rw [visitor, onLeave, Visitor.single]
    split_ifs <;> simp [Proceeding]
  | _ => exact proceeding_onEnter _ _ _

theorem proceeding_visitor_leave (r : Rule) (slot : Nat) (c₀ : Context) (k : Kind) :
    Proceeding (r.visitor slot c₀ k).leave.toList := by
  cases r with
  | fragmentsOnCompositeTypes =>
    rw [visitor, leave_merge, leave_onEnter, leave_onEnter]
    simp [Visitor.chain, Proceeding]
  | knownArgumentNames =>
    rw [visitor, leave_merge, leave_onEnter, leave_onEnter]
    simp [Visitor.chain, Proceeding]
  | knownTypeNames =>
    rw [visitor]
    cases c₀.schema with
    | none => simp [Visitor.none, Proceeding]
    | some s => simp [leave_onEnter, Proceeding]
  | providedRequiredArgumentsOnDirectives =>
    rw [visitor, onLeave, Visitor.single]
    split_ifs
    · exact proceeding_observing _
    · simp [Proceeding]
  | _ => simp [visitor, leave_onEnter, Proceeding]

end Rule

end QueryCheck.Validation
