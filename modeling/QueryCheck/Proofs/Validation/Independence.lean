import Mathlib.Data.List.Perm.Basic
import QueryCheck.Proofs.Validation.Moves

/-! # Rules that share a walk are independent

Since every rule works for itself, a validation with several rules is woven from validations with
fewer rules. The problems of a part of the rules stand among those of all rules in the same order,
and a problem of the other rules stands between them.

* `Interleaving`: a list woven from two lists, each in its own order.
* `interleaving_findings`: what some rules find is woven from what a part of them and the others
  find.
* `validate_independent`: validations with chosen rules, with parts of them, and with the same rules
  in other orders. -/

namespace QueryCheck.Validation

open QueryCheck.Schema
open QueryCheck.Syntax
open QueryCheck.Typing
open QueryCheck.Walk
open Context

/-! ### Interleavings -/

/-- The third list is woven from the first two, each in its own order. -/
inductive Interleaving {α : Type} : List α → List α → List α → Prop
  | nil : Interleaving [] [] []
  | left (a : α) {as bs cs : List α} : Interleaving as bs cs → Interleaving (a :: as) bs (a :: cs)
  | right (b : α) {as bs cs : List α} : Interleaving as bs cs → Interleaving as (b :: bs) (b :: cs)

namespace Interleaving

variable {α : Type} {as bs cs as' bs' cs' : List α}

theorem append (h : Interleaving as bs cs) (h' : Interleaving as' bs' cs') :
    Interleaving (as ++ as') (bs ++ bs') (cs ++ cs') := by
  induction h with
  | nil => exact h'
  | left a _ ih => exact .left a ih
  | right b _ ih => exact .right b ih

theorem onlyLeft : ∀ as : List α, Interleaving as [] as
  | [] => .nil
  | a :: as => .left a (onlyLeft as)

theorem onlyRight : ∀ bs : List α, Interleaving [] bs bs
  | [] => .nil
  | b :: bs => .right b (onlyRight bs)

end Interleaving

/-! ### Some rules among others -/

theorem fresh_append (rs rs' : List Rule) : fresh (rs ++ rs') = fresh rs ++ fresh rs' :=
  List.map_append

section Parts

variable (s : Option Schema) (doc : Node)

/-- **What rules find is woven** from what those in the middle find and what the others find. -/
theorem interleaving_findings : ∀ (steps : List Step) (front middle back : List (Rule × Memory)),
    Interleaving (findings s doc steps middle) (findings s doc steps (front ++ back))
      (findings s doc steps (front ++ middle ++ back))
  | [], _, _, _ => .nil
  | st :: steps, front, middle, back => by
    simp only [findings, List.flatMap_append, List.map_append]
    refine .append ?_ (interleaving_findings steps _ _ _)
    have h := ((Interleaving.onlyRight (front.flatMap fun x => (act s doc st x).problems)).append
      (.onlyLeft (middle.flatMap fun x => (act s doc st x).problems))).append
      (.onlyRight (back.flatMap fun x => (act s doc st x).problems))
    simpa using h

/-- Rules in another order find the same problems in another order. -/
theorem perm_findings : ∀ (steps : List Step) {crew crew' : List (Rule × Memory)}, crew.Perm crew' →
    (findings s doc steps crew).Perm (findings s doc steps crew')
  | [], _, _, _ => .nil
  | _ :: steps, _, _, h => (h.flatMap_right _).append (perm_findings steps (h.map _))

/-- Fewer rules do not break down where more do not. -/
theorem breaking_of_subset : ∀ (steps : List Step) {crew crew' : List (Rule × Memory)},
    crew ⊆ crew' →
    breaking s doc steps crew' = false → breaking s doc steps crew = false
  | [], _, _, _, _ => rfl
  | st :: steps, crew, crew', h, hb => by
    simp only [breaking, Bool.or_eq_false_iff, List.any_eq_false] at hb ⊢
    obtain ⟨⟨hl, hany⟩, hrest⟩ := hb
    refine ⟨⟨hl, fun x hx => hany x (h hx)⟩, breaking_of_subset steps (List.map_subset _ h) hrest⟩

variable {s doc}

theorem fails_of_subset {rules rules' : List Rule} (h : rules ⊆ rules') {maxDepth : Int}
    (hf : fails s doc rules' maxDepth = false) : fails s doc rules maxDepth = false := by
  simp only [fails, Bool.or_eq_false_iff, List.any_eq_false] at hf ⊢
  exact ⟨fun r hr => hf.1 r (h hr), breaking_of_subset s doc _ (List.map_subset _ h) hf.2⟩

end Parts

/-! ### Who reports a problem -/

/-- All problems so far were reported by rules. -/
def Signed (c : Context) : Prop := ∀ p ∈ c.problems, ∃ r : Rule, p.rule = r.name

theorem signed_alone (s : Option Schema) (doc : Node) (fs : Frames) (memory : Memory) :
    Signed (alone s doc fs memory) := fun _ h => by cases h

theorem Signed.move {slot : Nat} {n : Node} {c c' : Context} (hmove : Move slot n c c')
    (h : Signed c) : Signed c' := by
  cases hmove with
  | report r message =>
    intro p hp
    rcases List.mem_append.mp hp with hp | hp
    · exact h p hp
    · exact ⟨r, by rw [List.mem_singleton.mp hp]; rfl⟩
  | fragments =>
    rw [withFragments_fields c]
    exact h
  | directives =>
    rw [withDirectives_fields c]
    exact h
  | _ => exact h

theorem signed_act (s : Option Schema) (doc : Node) (st : Step) (x : Rule × Memory) :
    Signed (act s doc st x) :=
  act_preserves (fun _ _ => Signed.move) fun fs => signed_alone s doc fs x.2

theorem Rule.name_ne_maxDepthRule (r : Rule) : r.name ≠ maxDepthRule := by
  cases r <;> decide

/-- Every problem found along a route is the problem of a rule, not of the depth. -/
theorem rule_ne_of_mem_findings (s : Option Schema) (doc : Node) (steps : List Step)
    (crew : List (Rule × Memory)) : ∀ p ∈ findings s doc steps crew, p.rule ≠ maxDepthRule := by
  intro p hp
  obtain ⟨st, -, x, -, memory, hact⟩ := exists_act_of_mem_findings hp
  obtain ⟨r, hr⟩ := signed_act s doc st (x, memory) p hact
  rw [hr]
  exact r.name_ne_maxDepthRule

/-! ### Validations with parts of the rules -/

/-- A validation with some rules finds some problems of rules, and after them the problem that a
node is nested too deep, if there is such a node. -/
structure Reports (s : Option Schema) (doc : Node) (rules : List Rule) (maxDepth : Int)
    (es : List Problem) (deep : Option Node) : Prop where
  validate_eq :
    validate s doc rules maxDepth = some (es ++ (deep.map (depthProblem maxDepth)).toList)
  rule_ne : ∀ e ∈ es, e.rule ≠ maxDepthRule

theorem reports_found {s : Option Schema} {doc : Node} {rules : List Rule} {maxDepth : Int}
    (h : fails s doc rules maxDepth = false) :
    Reports s doc rules maxDepth (found s doc rules maxDepth)
      (route maxDepth [] doc.rose).tooDeep where
  validate_eq := by
    rw [validate_eq, h]
    rfl
  rule_ne := rule_ne_of_mem_findings s doc _ _

/-- **Rules that share a walk do not interfere.** When a validation with two lists of rules has a
result, so have the validations with either list, all three report the same node as too deep or
none, and what the rules of both lists find is woven from what those of the first and those of the
second find. The same rules in another order find the same problems in another order, and without
one of the rules exactly the problems it finds alone are missing. -/
theorem validate_independent (s : Option Schema) (doc : Node) (maxDepth : Int) (rs₁ rs₂ : List Rule)
    (h : (validate s doc (rs₁ ++ rs₂) maxDepth).isSome) :
    ∃ (deep : Option Node) (es es₁ es₂ : List Problem),
      Reports s doc (rs₁ ++ rs₂) maxDepth es deep ∧ Reports s doc rs₁ maxDepth es₁ deep ∧
        Reports s doc rs₂ maxDepth es₂ deep ∧ Interleaving es₁ es₂ es ∧
      (∀ rules, rules.Perm (rs₁ ++ rs₂) →
        ∃ es', Reports s doc rules maxDepth es' deep ∧ es'.Perm es) ∧
      ∀ front r back, rs₁ ++ rs₂ = front ++ r :: back →
        ∃ own rest, Reports s doc [r] maxDepth own deep ∧
          Reports s doc (front ++ back) maxDepth rest deep ∧
          Interleaving own rest es := by
  have hf : fails s doc (rs₁ ++ rs₂) maxDepth = false := by
    rw [validate_eq] at h
    cases hf : fails s doc (rs₁ ++ rs₂) maxDepth with
    | false => rfl
    | true => simp [hf] at h
  refine ⟨(route maxDepth [] doc.rose).tooDeep, found s doc (rs₁ ++ rs₂) maxDepth,
    found s doc rs₁ maxDepth, found s doc rs₂ maxDepth, reports_found hf,
    reports_found (fails_of_subset (by simp) hf), reports_found (fails_of_subset (by simp) hf), ?_, ?_, ?_⟩
  · have hw := interleaving_findings s doc (route maxDepth [] doc.rose).steps [] (fresh rs₁)
      (fresh rs₂)
    rwa [List.nil_append, List.nil_append, ← fresh_append] at hw
  · intro rules hp
    exact ⟨_, reports_found (fails_of_subset hp.subset hf), perm_findings s doc _ (hp.map _)⟩
  · intro front r back he
    rw [he] at hf ⊢
    refine ⟨_, _, reports_found (fails_of_subset (by simp) hf),
      reports_found (fails_of_subset (by simp) hf), ?_⟩
    have hw := interleaving_findings s doc (route maxDepth [] doc.rose).steps (fresh front)
      (fresh [r]) (fresh back)
    rwa [← fresh_append, ← fresh_append, ← fresh_append, List.append_assoc] at hw

/-- Two fragments of one name that both spread a fragment that is not defined. -/
def twinFragments : Node :=
  let spread : Node := .fragmentSpread (.node (.name "G" none)) [] none
  let twin : Node :=
    .fragmentDefinition (.node (.name "F" none)) []
      (.node (.namedType (.node (.name "T" none)) none)) []
      (.node (.selectionSet [.node spread] none)) none
  .document [.node twin, .node twin] none

theorem validate_independent_twinFragments :
    (validate none twinFragments ([.uniqueFragmentNames] ++ [.knownFragmentNames]) 0).isSome ∧
      ∃ deep es es₁ es₂,
        Reports none twinFragments ([.uniqueFragmentNames] ++ [.knownFragmentNames]) 0 es deep ∧
          Reports none twinFragments [.uniqueFragmentNames] 0 es₁ deep ∧
          Reports none twinFragments [.knownFragmentNames] 0 es₂ deep ∧
            Interleaving es₁ es₂ es := by
  have h :
      (validate none twinFragments ([.uniqueFragmentNames] ++ [.knownFragmentNames]) 0).isSome := by
    decide
  obtain ⟨deep, es, es₁, es₂, hall, h₁, h₂, hw, -, -⟩ :=
    validate_independent none twinFragments 0 _ _ h
  exact ⟨h, deep, es, es₁, es₂, hall, h₁, h₂, hw⟩

end QueryCheck.Validation
