import QueryCheck.Proofs.Validation.Findings

/-! # Who reports a problem

A problem is signed with the name of a rule. The checks of a rule sign with its own name, but for
the arguments of directives, which two rules check in the name of one of them. So the rule that
found a problem, the node it was found at and the check that found it can be told from its
signature.

* `Context.Only`: a state all of whose problems have a property, and which checks keep it so.
* `Rule.Signs`, `signs_act`: what a rule finds is signed by it.
* `exists_act_of_mem_found`: every problem was found by a rule at a node of the document.
* `signs_of_mem_found`: every problem of a validation but for the depth is signed by one of its
  rules. -/

namespace QueryCheck.Validation

open QueryCheck.Schema
open QueryCheck.Syntax
open QueryCheck.Walk

variable {c : Context} {I : Problem → Prop}

/-! ### States whose problems have a property -/

namespace Context

/-- A state all of whose problems have a property. -/
def Only (I : Problem → Prop) (c : Context) : Prop := ∀ p ∈ c.problems, I p

theorem only_alone (s : Option Schema) (doc : Node) (fs : Typing.Frames) (memory : Memory) :
    (alone s doc fs memory).Only I := nofun

theorem Only.report (h : c.Only I) {p : Problem} (hp : I p) : (c.report p).Only I :=
  List.forall_mem_append.mpr ⟨h, List.forall_mem_singleton.mpr hp⟩

theorem Only.withDirectives (h : c.Only I) : c.withDirectives.Only I := by
  unfold Only
  rw [withDirectives_fields c]
  exact h

theorem Only.foldl {α : Type} {f : Context → α → Context}
    (hf : ∀ a c, Only I c → (f c a).Only I) : ∀ (as : List α) {c : Context}, c.Only I →
    (as.foldl f c).Only I
  | [], _, h => h
  | a :: as, _, h => foldl hf as (hf a _ h)

end Context

/-! ### Checks -/

namespace Rule

open Context

/-- A problem of one node that is no string, in the name of a rule. -/
def OfNode (r : Rule) (I : Problem → Prop) : Prop :=
  ∀ message (m : Node), m.kind ≠ .stringValue → I (r.problem message [.node m])

theorem only_checkTypeName (s : Schema) (n : Node) (hI : knownTypeNames.OfNode I) (h : c.Only I) :
    (checkTypeName s n c).Only I := by
  unfold checkTypeName
  split
  · dsimp only
    split_ifs
    · exact h
    · exact h.report (hI _ _ nofun)
  · exact h

theorem only_checkConditionOf (fragment : String) (cond : Node)
    (hI : ∀ message nodes, I (fragmentsOnCompositeTypes.problem message nodes)) (h : c.Only I) :
    (checkConditionOf fragment cond c).Only I := by
  unfold checkConditionOf
  split
  · exact h
  · split_ifs
    · exact h
    · exact h.report (hI _ _)

theorem only_checkCondition (n : Node)
    (hI : ∀ message nodes, I (fragmentsOnCompositeTypes.problem message nodes)) (h : c.Only I) :
    (checkCondition n c).Only I := by
  unfold checkCondition
  split
  · exact only_checkConditionOf _ _ hI h
  · exact only_checkConditionOf _ _ hI h
  · exact h

theorem only_checkUnique (slot : Nat) (n : Node)
    (hI : ∀ message nodes, I (uniqueFragmentNames.problem message nodes)) (h : c.Only I) :
    (checkUnique slot n c).Only I := by
  unfold checkUnique
  split
  · dsimp only
    split
    · exact h.report (hI _ _)
    · exact h
  · exact h

theorem only_checkFieldArgument (n : Node) (hI : knownArgumentNames.OfNode I) (h : c.Only I) :
    (checkFieldArgument n c).Only I := by
  unfold checkFieldArgument
  split
  · split_ifs
    · exact h
    · exact h.report (hI _ _ nofun)
  · exact h

theorem only_checkDirectiveArguments (n : Node) (hI : knownArgumentNamesOnDirectives.OfNode I)
    (h : c.Only I) : (checkDirectiveArguments n c).Only I := by
  unfold checkDirectiveArguments Context.directive
  split
  · dsimp only
    split <;> rename_i heq <;> obtain ⟨-, rfl⟩ := Prod.mk.inj heq
    · refine Only.foldl (fun a c hc => ?_) _ h.withDirectives
      unfold checkDirectiveArgument
      split
      · dsimp only
        split_ifs
        · exact hc
        · exact hc.report (hI _ _ nofun)
      · exact hc
    · exact h.withDirectives
  · exact h

theorem only_checkProvided (table : List (String × Required)) (n : Node)
    (hI : providedRequiredArgumentsOnDirectives.OfNode I) (h : c.Only I) :
    (checkProvided table n c).Only I := by
  unfold checkProvided
  split
  · dsimp only
    split
    · exact h
    · split
      · exact h
      · exact Only.foldl (fun r c hc => hc.report (hI _ _ (by rintro ⟨⟩))) _ h
  · exact h

/-! ### Signatures -/

/-- The rules in whose names the checks of a rule report. -/
def signers : Rule → List Rule
  | knownArgumentNames => [knownArgumentNames, knownArgumentNamesOnDirectives]
  | r => [r]

/-- A problem is signed by a rule. -/
def Signs (r : Rule) (p : Problem) : Prop := p.rule ∈ r.signers.map Rule.name

theorem signs_problem {r r' : Rule} (h : r' ∈ r.signers) (message : String)
    (nodes : List (Child Node)) : r.Signs (r'.problem message nodes) :=
  List.mem_map_of_mem h

theorem only_checkSpread (n : Node) (hI : ∀ message nodes, I (knownFragmentNames.problem message nodes))
    (h : c.Only I) : (checkSpread n c).Only I := by
  have hmade : c.withFragments.Only I := by
    unfold Only
    rw [withFragments_fields c]
    exact h
  unfold checkSpread Context.fragment
  split
  · dsimp only
    split <;> rename_i heq <;> obtain ⟨-, rfl⟩ := Prod.mk.inj heq
    · exact hmade
    · exact hmade.report (hI _ _)
  · exact h

theorem signs_atEnter (r : Rule) (n : Node) (slot : Nat) (h : c.Only r.Signs) :
    (r.atEnter n slot c).Only r.Signs := by
  cases r with
  | fragmentsOnCompositeTypes => exact only_checkCondition n (signs_problem (by decide)) h
  | knownArgumentNames =>
    have hdirective := only_checkDirectiveArguments n
      (fun message m _ => signs_problem (r := knownArgumentNames) (by decide) message _) h
    exact only_checkFieldArgument n (fun message m _ => signs_problem (by decide) message _) hdirective
  | knownArgumentNamesOnDirectives =>
    exact only_checkDirectiveArguments n (fun message m _ => signs_problem (by decide) message _) h
  | knownFragmentNames => exact only_checkSpread n (signs_problem (by decide)) h
  | knownTypeNames =>
    unfold atEnter
    cases c.schema with
    | none => exact h
    | some s =>
      exact only_checkTypeName s n (fun message m _ => signs_problem (by decide) message _) h
  | providedRequiredArgumentsOnDirectives => exact h
  | uniqueFragmentNames => exact only_checkUnique slot n (signs_problem (by decide)) h

theorem signs_atLeave (r : Rule) (n : Node) (slot : Nat) (h : c.Only r.Signs) :
    (r.atLeave n slot c).Only r.Signs := by
  cases r with
  | providedRequiredArgumentsOnDirectives =>
    exact only_checkProvided _ n (fun message m _ => signs_problem (by decide) message _) h
  | _ => exact h

end Rule

/-! ### Problems of a walk -/

section Walk

variable {s : Option Schema} {doc : Node}

/-- **What a rule finds is signed by it.** -/
theorem signs_act (st : Step) (x : Rule × Memory) : (act s doc st x).Only x.1.Signs := by
  cases st with
  | enter n above => exact x.1.signs_atEnter n 0 (Context.only_alone _ _ _ _)
  | leave n above => exact x.1.signs_atLeave n 0 (Context.only_alone _ _ _ _)
  | abandon n above => exact Context.only_alone _ _ _ _

/-- Every problem of a document was found by one of the rules at a node of it. -/
theorem exists_act_of_mem_found {rules : List Rule} {off : Int} {p : Problem}
    (hp : p ∈ found s doc rules off) : ∃ st : Step, st.node ∈ doc.rose.labels ∧
      ∃ r ∈ rules, ∃ memory, p ∈ (act s doc st (r, memory)).problems := by
  obtain ⟨st, hst, r, hr, hact⟩ := exists_act_of_mem_findings hp
  rw [fresh, List.map_map] at hr
  exact ⟨st, node_mem_of_mem_route off doc.rose [] st hst, r, by simpa using hr, hact⟩

/-- **Every problem but for the depth** is signed by one of the rules. -/
theorem signs_of_mem_found {rules : List Rule} {off : Int} {p : Problem}
    (hp : p ∈ found s doc rules off) : ∃ r ∈ rules, r.Signs p := by
  obtain ⟨st, -, r, hr, memory, hact⟩ := exists_act_of_mem_found hp
  exact ⟨r, hr, signs_act st (r, memory) p hact⟩

end Walk

end QueryCheck.Validation
