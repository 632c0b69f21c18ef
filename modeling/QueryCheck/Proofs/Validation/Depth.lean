import QueryCheck.Proofs.Validation.Independence
import QueryCheck.Proofs.Walk.Depth

/-! # Validations under a depth limit

A depth limit truncates a validation and does nothing else. A document no higher than the limit is
validated as without one; of any other the validation finds what it would find without a limit
before it enters the first node below the limit, and after that the depth problem of this node.

* `findings_append`, `breaking_append`: what rules find in two parts of a route.
* `entrances`: the nodes of a document in the order of the walk, each with the problems reported
  before it is entered.
* `validate_limit`: validations of one document under different limits. -/

namespace QueryCheck.Validation

open QueryCheck.Schema
open QueryCheck.Syntax
open QueryCheck.Typing
open QueryCheck.Walk
open Context

/-! ### Parts of a route -/

section Parts

variable (s : Option Schema) (doc : Node)

/-- Rules with what they remember after some steps. -/
def rememberAll (steps : List Step) (crew : List (Rule × Memory)) : List (Rule × Memory) :=
  steps.foldl (fun crew st => crew.map (remember s doc st)) crew

theorem findings_append : ∀ (first rest : List Step) (crew : List (Rule × Memory)),
    findings s doc (first ++ rest) crew =
      findings s doc first crew ++ findings s doc rest (rememberAll s doc first crew)
  | [], _, _ => rfl
  | st :: first, rest, crew => by
    rw [List.cons_append, findings, findings, findings_append first rest, List.append_assoc]
    rfl

theorem breaking_append : ∀ (first rest : List Step) (crew : List (Rule × Memory)),
    breaking s doc (first ++ rest) crew =
      (breaking s doc first crew || breaking s doc rest (rememberAll s doc first crew))
  | [], _, _ => rfl
  | st :: first, rest, crew => by
    rw [List.cons_append, breaking, breaking, breaking_append first rest, ← Bool.or_assoc]
    rfl

variable {s doc}

/-- Nothing is found where nodes are abandoned. -/
theorem findings_abandon : ∀ {steps : List Step} (crew : List (Rule × Memory)),
    (∀ st ∈ steps, ∃ n above, st = .abandon n above) → findings s doc steps crew = []
  | [], _, _ => rfl
  | st :: steps, crew, h => by
    obtain ⟨n, above, rfl⟩ := h st (by simp)
    rw [findings, findings_abandon _ fun st hst => h st (by simp [hst])]
    simp [act, alone]

theorem breaking_abandon : ∀ {steps : List Step} (crew : List (Rule × Memory)),
    (∀ st ∈ steps, ∃ n above, st = .abandon n above) → breaking s doc steps crew = false
  | [], _, _ => rfl
  | st :: steps, crew, h => by
    obtain ⟨n, above, rfl⟩ := h st (by simp)
    rw [breaking, breaking_abandon _ fun st hst => h st (by simp [hst])]
    simp [act, alone, lacksPart]

end Parts

/-! ### The problems before a node -/

/-- The state of a validation before its walk. -/
def prepared (s : Option Schema) (doc : Node) (rules : List Rule) : Context :=
  rules.foldl (fun c r => r.prepare c) { schema := s, document := doc }

theorem stands_prepared (s : Option Schema) (doc : Node) (rules : List Rule) :
    Stands s doc [] (prepared s doc rules) := by
  rw [prepared, foldl_prepare]
  exact ⟨rfl, rfl, rfl, ⟨nofun, nofun⟩⟩

theorem problems_prepared (s : Option Schema) (doc : Node) (rules : List Rule) :
    (prepared s doc rules).problems = [] := by
  rw [prepared, foldl_prepare]

theorem standing_prepared (s : Option Schema) (doc : Node) (rules : List Rule) :
    standing rules (prepared s doc rules) = fresh rules :=
  standing_of_metNames_nil rules (by rw [prepared, foldl_prepare])

/-- The nodes of a document in the order in which a validation enters them, each with the problems
that were reported before. -/
def entrances (s : Option Schema) (doc : Node) (rules : List Rule) (maxDepth : Int) :
    List (Node × List Problem) :=
  let c := prepared s doc rules
  (walk ((rulePlan rules c maxDepth).noting Context.problems) doc (c, [])).state.2

/-- The problems before a node are what the rules find before the step that enters it. -/
theorem getElem?_entrances (s : Option Schema) (doc : Node) (rules : List Rule) {off : Int}
    {limit : Nat} {before : List Step} {n : Node}
    (h : Crossing (route off [] doc.rose).steps limit before n) :
    (entrances s doc rules off)[(entered before).length]? =
      some (n, findings s doc before (fresh rules)) := by
  obtain ⟨path, after, hsteps, -⟩ := h.steps
  have hst := stands_prepared s doc rules
  have hth := threads_route off doc.rose []
  rw [hsteps] at hth
  obtain ⟨mid, hbefore, -⟩ := hth.of_append
  have hfound := (foldl_step_eq rules hst.schema hst.document off before _ hbefore hst).1
  rw [problems_prepared, standing_prepared, List.nil_append] at hfound
  unfold entrances
  rw [walk_noting (steady_rulePlan rules _ off), show (rulePlan rules (prepared s doc rules)
    off).maxDepth = off from rfl, hsteps, notes_append, List.getElem?_append_right
    (Nat.le_of_eq (length_notes _ _ _ _)), length_notes, Nat.sub_self, Plan.notes, hfound]
  rfl

/-! ### Limits -/

section Limits

variable {s : Option Schema} {doc : Node} {rules : List Rule} {off : Int} {es : List Problem}

theorem validate_of_nonpos {off' : Int} (hoff : off ≤ 0) (hoff' : off' ≤ 0) :
    validate s doc rules off = validate s doc rules off' := by
  rw [validate_eq, validate_eq, fails, fails, found, found, tooDeep, tooDeep,
    route_of_nonpos hoff hoff', tooDeep_route_of_nonpos hoff']
  rfl

/-- Without a limit a validation finds what the rules find. -/
theorem eq_found_of_validate (hoff : off ≤ 0) (h : validate s doc rules off = some es) :
    fails s doc rules off = false ∧ es = found s doc rules off := by
  rw [validate_eq, tooDeep, tooDeep_route_of_nonpos hoff] at h
  cases hf : fails s doc rules off with
  | true => simp [hf] at h
  | false =>
    refine ⟨rfl, ?_⟩
    simpa [hf] using h.symm

/-- **A validation under a limit** is the one without, or it is cut at the first node below the
limit. -/
theorem validate_cut (hoff : off ≤ 0) {limit : Nat} (hlimit : 0 < limit)
    (h : validate s doc rules off = some es) :
    (doc.rose.height ≤ limit ∧ validate s doc rules limit = some es) ∨
      ∃ before n, Crossing (route off [] doc.rose).steps limit before n ∧
        findings s doc before (fresh rules) <+: es ∧
        validate s doc rules limit =
          some (findings s doc before (fresh rules) ++ [depthProblem limit n]) := by
  obtain ⟨hf, hes⟩ := eq_found_of_validate hoff h
  have hcut := cut_route hoff hlimit doc.rose [] (Nat.zero_le limit)
  rw [fails, Bool.or_eq_false_iff] at hf
  rw [found] at hes
  rw [validate_eq, fails, found, tooDeep, hf.1, Bool.false_or]
  generalize route limit [] doc.rose = r at hcut ⊢
  cases hcut with
  | whole within =>
    rw [entered_route hoff] at within
    have hheight := (leveled_le_iff limit doc.rose _).mp within
    rw [List.length_nil] at hheight
    refine .inl ⟨by omega, ?_⟩
    rw [hf.2, hes]
    simp
  | @short before after abandoned n path steps depth within abandons =>
    rw [steps, breaking_append, Bool.or_eq_false_iff] at hf
    rw [steps, findings_append] at hes
    refine .inr ⟨before, n, ⟨⟨path, after, steps, depth⟩, within⟩, ⟨_, hes.symm⟩, ?_⟩
    rw [breaking_append, hf.2.1, breaking_abandon _ abandons, findings_append,
      findings_abandon _ abandons]
    simp

/-- A node below a limit, first in the order of the walk, with the problems that a validation
without a limit reports before it enters the node. -/
def MetFirst (s : Option Schema) (doc : Node) (rules : List Rule) (off : Int) (limit : Nat)
    (n : Node) (before : List Problem) : Prop :=
  ∃ i, (doc.rose.leveled 1)[i]? = some (limit + 1, n) ∧
    (∀ x ∈ (doc.rose.leveled 1).take i, x.1 ≤ limit) ∧
    (entrances s doc rules off)[i]? = some (n, before)

theorem metFirst_of_crossing (hoff : off ≤ 0) {limit : Nat} {before : List Step} {n : Node}
    (h : Crossing (route off [] doc.rose).steps limit before n) :
    MetFirst s doc rules off limit n (findings s doc before (fresh rules)) := by
  obtain ⟨rest, hrest⟩ := h.entered_eq
  have hlevels : doc.rose.leveled 1 = entered before ++ (limit + 1, n) :: rest := by
    rw [← hrest, entered_route hoff]
    rfl
  refine ⟨(entered before).length, ?_, ?_, getElem?_entrances s doc rules h⟩
  · rw [hlevels, List.getElem?_append_right (Nat.le_refl _), Nat.sub_self]
    rfl
  · rw [hlevels, List.take_left]
    exact h.within

theorem MetFirst.lt_height {limit : Nat} {n : Node} {before : List Problem}
    (h : MetFirst s doc rules off limit n before) : limit < doc.rose.height := by
  obtain ⟨i, hi, -, -⟩ := h
  by_contra hle
  have := (leveled_le_iff limit doc.rose 1).mpr (by omega) _ (List.mem_of_getElem? hi)
  exact absurd this (by simp)

/-- The problems of a list that do not say that a document is nested too deep. -/
def besidesDepth (es : List Problem) : List Problem := es.filter fun e => e.rule ≠ maxDepthRule

theorem besidesDepth_of_forall (hes : ∀ e ∈ es, e.rule ≠ maxDepthRule) : besidesDepth es = es :=
  List.filter_eq_self.mpr fun e he => decide_eq_true (hes e he)

theorem besidesDepth_append (es es' : List Problem) :
    besidesDepth (es ++ es') = besidesDepth es ++ besidesDepth es' := List.filter_append ..

theorem besidesDepth_depthProblem (m : Int) (n : Node) : besidesDepth [depthProblem m n] = [] :=
  List.filter_cons_of_neg (by rw [decide_eq_true_iff]; exact fun h => h rfl)

/-- **A depth limit is exact and only truncates.** Let a validation without a limit have a result.
A limit that is none, or that the document keeps to, leaves the result as it is. Under any other
limit the result is what was reported before the first node below the limit was entered, and after
that the depth problem of this one node; the former is a first part of the result without a limit,
which itself has no depth problem. And a greater limit finds no less. -/
theorem validate_limit (s : Option Schema) (doc : Node) (rules : List Rule) (off : Int)
    (es : List Problem) (hoff : off ≤ 0) (h : validate s doc rules off = some es) :
    (∀ e ∈ es, e.rule ≠ maxDepthRule) ∧
    (∀ m : Int, m ≤ 0 ∨ doc.rose.height ≤ m → validate s doc rules m = some es) ∧
    (∀ limit : Nat, 0 < limit → limit < doc.rose.height →
      ∃ n before, MetFirst s doc rules off limit n before ∧ before <+: es ∧
        validate s doc rules limit = some (before ++ [depthProblem limit n])) ∧
    ∀ limit limit' : Nat, 0 < limit → limit ≤ limit' →
      ∃ es₁ es₂, validate s doc rules limit = some es₁ ∧ validate s doc rules limit' = some es₂ ∧
        besidesDepth es₁ <+: besidesDepth es₂ := by
  have hrule : ∀ e ∈ es, e.rule ≠ maxDepthRule := by
    rw [(eq_found_of_validate hoff h).2]
    exact rule_ne_of_mem_findings s doc _ _
  refine ⟨hrule, ?_, ?_, ?_⟩
  · intro m hm
    by_cases hpos : m ≤ 0
    · rwa [validate_of_nonpos hpos hoff]
    · obtain ⟨limit, rfl⟩ := Int.eq_ofNat_of_zero_le (show 0 ≤ m by omega)
      have hlimit : 0 < limit := by omega
      rcases validate_cut hoff hlimit h with ⟨-, hv⟩ | ⟨before, n, hc, -, -⟩
      · exact hv
      · have hfirst : MetFirst s doc rules off limit n _ := metFirst_of_crossing hoff hc
        have := hfirst.lt_height
        omega
  · intro limit hlimit hlt
    rcases validate_cut hoff hlimit h with ⟨hle, -⟩ | ⟨before, n, hc, hpre, hv⟩
    · omega
    · exact ⟨n, _, metFirst_of_crossing hoff hc, hpre, hv⟩
  · intro limit limit' hlimit hle
    have hbefore : ∀ {steps : List Step}, besidesDepth (findings s doc steps (fresh rules)) =
        findings s doc steps (fresh rules) := fun {steps} =>
      besidesDepth_of_forall (rule_ne_of_mem_findings s doc steps _)
    rcases validate_cut hoff hlimit h with ⟨hheight, hv⟩ | ⟨before, n, hc, hpre, hv⟩
    · rcases validate_cut hoff (Nat.lt_of_lt_of_le hlimit hle) h with
        ⟨-, hv'⟩ | ⟨before', n', hc', -, -⟩
      · exact ⟨_, _, hv, hv', List.prefix_refl _⟩
      · have hfirst : MetFirst s doc rules off limit' n' _ := metFirst_of_crossing hoff hc'
        have := hfirst.lt_height
        omega
    · rcases validate_cut hoff (Nat.lt_of_lt_of_le hlimit hle) h with
        ⟨-, hv'⟩ | ⟨before', n', hc', -, hv'⟩
      · refine ⟨_, _, hv, hv', ?_⟩
        rw [besidesDepth_append, besidesDepth_depthProblem, List.append_nil, hbefore,
          besidesDepth_of_forall hrule]
        exact hpre
      · refine ⟨_, _, hv, hv', ?_⟩
        obtain ⟨rest, rfl⟩ := hc.isPrefix hc' hle
        rw [besidesDepth_append, besidesDepth_append, besidesDepth_depthProblem,
          besidesDepth_depthProblem, List.append_nil, List.append_nil, hbefore, hbefore,
          findings_append]
        exact List.prefix_append _ _

end Limits

/-- Two fragments that spread an unknown one, validated down to the spreads: the name of the first
spread is the first node below the limit, and the problem of the second is left out. -/
theorem validate_limit_twinFragments :
    (0 : Int) ≤ 0 ∧ ∃ es, validate none twinFragments [.knownFragmentNames] 0 = some es ∧
      es.length = 2 ∧
      ∃ n before, MetFirst none twinFragments [.knownFragmentNames] 0 4 n before ∧
        before.length = 1 ∧
        validate none twinFragments [.knownFragmentNames] (4 : Nat) =
          some (before ++ [depthProblem (4 : Nat) n]) := by
  have hcount : (validate none twinFragments [.knownFragmentNames] 0).map List.length = some 2 := by
    decide
  obtain ⟨es, hes, hlen⟩ := Option.map_eq_some_iff.mp hcount
  obtain ⟨-, -, hcut, -⟩ :=
    validate_limit none twinFragments [.knownFragmentNames] 0 es (Int.le_refl 0) hes
  obtain ⟨n, before, hfirst, -, hv⟩ := hcut 4 (by decide) (by decide)
  have hcount' : (validate none twinFragments [.knownFragmentNames] (4 : Nat)).map List.length =
      some 2 := by
    decide
  rw [hv] at hcount'
  exact ⟨Int.le_refl 0, es, hes, hlen, n, before, hfirst, by simpa using hcount', hv⟩

end QueryCheck.Validation
