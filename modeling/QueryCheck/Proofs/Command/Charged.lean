import QueryCheck.Proofs.Command.Verdicts
import QueryCheck.Proofs.Syntax.Described
import QueryCheck.Proofs.Validation.Reports

/-! # Problems of the definitions that are charged to documents

Problems that lie in the directive definitions are not charged to the documents they stand behind.
Where a problem lies is told by the location of its nodes, and descriptions have none. A description
can be the first node below the depth limit, and then the document is charged with it; this takes a
limit of two or three and a document without definitions, as any other document is itself nested
deeper than that.

* `Problem.OfNode`, `ofNode_findings`: what rules find in definitions is about a node that is no
  string.
* `Check.mem_run_definitions_iff`: the problems of the definitions that are not dropped.
* `uncharged_iff`: when a document is charged with no problem of the definitions. -/

namespace QueryCheck.Validation

open QueryCheck.Syntax
open QueryCheck.Walk

/-! ### What rules find in definitions -/

/-- A problem about one node, which is no string. -/
def Problem.OfNode (p : Problem) : Prop := ∃ m, p.nodes = [.node m] ∧ m.kind ≠ .stringValue

/-- A state in which all problems are about one node that is no string. -/
def Context.Plain (c : Context) : Prop := ∀ p ∈ c.problems, p.OfNode

namespace Rule

variable {c : Context} {n : Node}

theorem ofNode_problem (r : Rule) : r.OfNode Problem.OfNode := fun _ m hm => ⟨m, rfl, hm⟩

theorem checkCondition_of_definitional (hn : definitional n.kind = true) :
    checkCondition n c = c := by
  unfold checkCondition
  split
  · cases hn
  · cases hn
  · rfl

theorem plain_atEnter (r : Rule) (hn : definitional n.kind = true) (slot : Nat) (h : c.Plain) :
    (r.atEnter n slot c).Plain := by
  cases r with
  | fragmentsOnCompositeTypes =>
    rw [atEnter, checkCondition_of_definitional hn]
    exact h
  | knownArgumentNames =>
    have hdirective := only_checkDirectiveArguments n (ofNode_problem _) h
    exact only_checkFieldArgument n (ofNode_problem _) hdirective
  | knownArgumentNamesOnDirectives => exact only_checkDirectiveArguments n (ofNode_problem _) h
  | knownFragmentNames =>
    have hk : n.kind ≠ .fragmentSpread := fun hk => by simp [hk, definitional] at hn
    rw [atEnter, onlyAt_checkSpread n _ hk]
    exact h
  | knownTypeNames =>
    unfold atEnter
    cases c.schema with
    | none => exact h
    | some s => exact only_checkTypeName s n (ofNode_problem _) h
  | providedRequiredArgumentsOnDirectives => exact h
  | uniqueFragmentNames =>
    have hk : n.kind ≠ .fragmentDefinition := fun hk => by simp [hk, definitional] at hn
    rw [atEnter, onlyAt_checkUnique slot n _ hk]
    exact h

theorem plain_atLeave (r : Rule) (n : Node) (slot : Nat) (h : c.Plain) :
    (r.atLeave n slot c).Plain := by
  cases r with
  | providedRequiredArgumentsOnDirectives => exact only_checkProvided _ n (ofNode_problem _) h
  | _ => exact h

end Rule

theorem plain_act {s : Option Schema} {doc : Node} {st : Step}
    (hst : definitional st.node.kind = true) (x : Rule × Memory) : (act s doc st x).Plain := by
  have halone : ∀ fs, (Context.alone s doc fs x.2).Plain := fun _ => nofun
  cases st with
  | enter n above => exact x.1.plain_atEnter hst 0 (halone _)
  | leave n above => exact x.1.plain_atLeave n 0 (halone _)
  | abandon n above => exact halone _

/-- **What rules find in definitions** is about one node, which is no string. -/
theorem ofNode_findings {s : Option Schema} {doc : Node} {steps : List Step}
    {crew : List (Rule × Memory)} (hsteps : ∀ st ∈ steps, definitional st.node.kind = true) :
    ∀ p ∈ findings s doc steps crew, p.OfNode := by
  intro p hp
  obtain ⟨st, hst, r, -, memory, hact⟩ := exists_act_of_mem_findings hp
  exact plain_act (hsteps st hst) (r, memory) p hact

end QueryCheck.Validation

/-! ### Problems that are charged -/

namespace QueryCheck.Command

open QueryCheck.Syntax
open QueryCheck.Validation
open QueryCheck.Walk

namespace Check

variable {c : Check} {definitionsText text : String} {doc : Node}

/-- No problem of a document is first of all about a node of the directive definitions. -/
def Uncharged (c : Check) (doc : Node) : Prop :=
  ∀ p ∈ c.problems doc, ∀ m, p.nodes.head? = some (.node m) →
    m ∉ c.definitions.flatMap fun d => d.rose.labels

/-- The first node of the definitions below the depth limit is a description. -/
def DescriptionFirst (c : Check) : Prop :=
  c.maxDepth = 2 ∧ c.definitions.head?.any Node.described = true ∨
  c.maxDepth = 3 ∧ (c.definitions.flatMap Node.argumentDefinitions).head?.any Node.described = true

section Definitions

variable (hdefs : parseDirectiveDefinitions definitionsText = .ok c.definitions)
include hdefs

theorem run_documentOf : c.run (documentOf c.definitions) =
    findings c.schema (documentOf c.definitions)
      (routeInside c.maxDepth c.definitions none).steps (fresh c.rules) ++
      ((firstBelow c.maxDepth c.definitions).map (depthProblem c.maxDepth)).toList := by
  have hread := read_parseDirectiveDefinitions hdefs
  have h := validate_documentWith c.schema c.rules c.maxDepth c.definitions none
    (fun d hd => ⟨by rw [(hread d hd).1]; decide, (hread d hd).2.whole⟩)
    (Typing.resolvable_of_typeNamed _ (Node.typeNamed_document fun d hd =>
      (hread d hd).2.typeNamed))
  rw [run, documentOf, placesFor, h, routeInside, tooDeep_routeAll_singleton]
  rfl

/-- A problem about a node of the definitions lies in them if the node is located. -/
theorem inDefinitions_eq {p : Problem} {m : Node} (hnodes : p.nodes = [.node m])
    (hm : m ∈ c.definitions.flatMap fun d => d.rose.labels) : inDefinitions p = m.loc.isSome := by
  obtain ⟨d, hd, hm⟩ := List.mem_flatMap.mp hm
  have hfirst : firstLocation? p = m.loc := by
    rw [firstLocation?, hnodes, List.findSome?_singleton]
    rfl
  unfold inDefinitions
  rw [hfirst]
  cases hl : m.loc with
  | none => rfl
  | some l =>
    have horigin := ((read_parseDirectiveDefinitions hdefs d hd).2 m hm).2.2 l hl
    exact decide_eq_true horigin

/-- What rules find in the definitions lies in them. -/
theorem inDefinitions_of_mem_findings {p : Problem}
    (hp : p ∈ findings c.schema (documentOf c.definitions)
      (routeInside c.maxDepth c.definitions none).steps (fresh c.rules)) :
    inDefinitions p = true := by
  have hread := read_parseDirectiveDefinitions hdefs
  have hdefinitional : ∀ st ∈ (routeInside c.maxDepth c.definitions none).steps,
      definitional st.node.kind = true := by
    intro st hst
    obtain ⟨d, hd, hmem⟩ := node_mem_of_mem_steps hst
    exact definitional_of_mem_labels (hread d hd).1 (hread d hd).2.whole _ hmem
  obtain ⟨m, hnodes, hkind⟩ := ofNode_findings hdefinitional p hp
  have hpoints := pointsInto_front c.schema c.rules c.maxDepth (documentOf c.definitions)
    [documentWith c.definitions none] p (List.mem_append_left _ hp)
  have hm : m ∈ c.definitions.flatMap fun d => d.rose.labels :=
    hpoints (.node m) (by rw [hnodes]; exact List.mem_singleton_self _) m rfl
  rw [inDefinitions_eq hdefs hnodes hm]
  obtain ⟨d, hd, hm⟩ := List.mem_flatMap.mp hm
  exact (placed_parseDirectiveDefinitions hdefs d hd).located m hm hkind

omit hdefs in
theorem mem_labels_of_firstBelow {m : Node} (hm : m ∈ firstBelow c.maxDepth c.definitions) :
    m ∈ c.definitions.flatMap fun d => d.rose.labels := by
  unfold firstBelow at hm
  split_ifs at hm
  · exact List.mem_flatMap.mpr (mem_labels_of_firstAt hm)
  · cases hm

/-- **The problems of the definitions that are not dropped**: that the first node below the depth
limit is too deep, if it has no location. -/
theorem mem_run_definitions_iff {p : Problem} :
    p ∈ c.run (documentOf c.definitions) ∧ inDefinitions p = false ↔
      ∃ m ∈ firstBelow c.maxDepth c.definitions, m.loc = none ∧ p = depthProblem c.maxDepth m := by
  rw [run_documentOf hdefs, List.mem_append, Option.mem_toList]
  constructor
  · rintro ⟨hp | hp, hkept⟩
    · rw [inDefinitions_of_mem_findings hdefs hp] at hkept
      cases hkept
    · obtain ⟨m, hm, rfl⟩ := Option.map_eq_some_iff.mp hp
      rw [inDefinitions_eq hdefs rfl (mem_labels_of_firstBelow hm)] at hkept
      exact ⟨m, hm, Option.isNone_iff_eq_none.mp (Option.isSome_eq_false_iff.mp hkept), rfl⟩
  · rintro ⟨m, hm, hloc, rfl⟩
    refine ⟨.inr (Option.mem_map_of_mem _ hm), ?_⟩
    rw [inDefinitions_eq hdefs rfl (mem_labels_of_firstBelow hm), hloc]
    rfl

/-- The nodes of a document and of the definitions are told apart by their locations. -/
theorem not_mem_definitions (hdoc : parseDocument text = .ok doc) {m : Node}
    (hm : m ∈ doc.children.flatMap fun n => n.rose.labels) :
    m ∉ c.definitions.flatMap fun d => d.rose.labels := by
  intro hmem
  obtain ⟨d, hd, hmd⟩ := List.mem_flatMap.mp hmem
  obtain ⟨n, hn, hmn⟩ := List.mem_flatMap.mp hm
  cases hl : m.loc with
  | some l =>
    have hdocument := origin_of_parseDocument hdoc m hm l hl
    have hdefinitions := ((read_parseDirectiveDefinitions hdefs d hd).2 m hmd).2.2 l hl
    rw [hdocument] at hdefinitions
    cases hdefinitions
  | none =>
    -- Only descriptions have no location in the definitions, and strings have one in a document.
    have hunlocated : ¬ m.loc.isSome = true := by simp [hl]
    have hstring : m.kind = .stringValue := by
      by_contra hkind
      exact hunlocated ((placed_parseDirectiveDefinitions hdefs d hd).located m hmd hkind)
    exact hunlocated
      (strings_parseDocument hdoc m (Node.mem_labels_of_child hn m hmn) hstring)

theorem exists_unlocated_iff :
    (∃ m ∈ firstBelow c.maxDepth c.definitions, m.loc = none) ↔ c.DescriptionFirst :=
  firstBelow_unlocated_iff (placed_parseDirectiveDefinitions hdefs) c.maxDepth

/-- Behind an empty document a description below the limit is charged. -/
theorem charged_of_descriptionFirst (hdoc : parseDocument text = .ok doc)
    (hempty : doc.children = []) (hfirst : c.DescriptionFirst) : ¬ c.Uncharged doc := by
  intro huncharged
  obtain ⟨m, hm, hloc⟩ := (exists_unlocated_iff hdefs).mpr hfirst
  obtain ⟨hmem, hkept⟩ := (mem_run_definitions_iff hdefs).mpr ⟨m, hm, hloc, rfl⟩
  obtain ⟨own, -, -, h⟩ := exists_front (read_parseDirectiveDefinitions hdefs) hdoc
  have hnone : firstBelow c.maxDepth doc.children = none := by
    rw [hempty, firstBelow, firstAt_nil, ite_self]
  have hrun : depthProblem c.maxDepth m ∈ c.run (c.extended doc) := by
    rcases h with ⟨hdeep, -⟩ | ⟨-, hrun⟩
    · rw [hnone] at hdeep
      cases hdeep
    · rw [hrun]
      exact List.mem_append_right _ hmem
  have hproblem : depthProblem c.maxDepth m ∈ c.problems doc :=
    List.mem_filter.mpr ⟨hrun, by rw [hkept]; rfl⟩
  exact huncharged _ hproblem m rfl (mem_labels_of_firstBelow hm)

omit hdefs in
/-- At such a limit, a document that is not itself too deep has no definitions. -/
theorem children_eq_nil_of_descriptionFirst (hdoc : parseDocument text = .ok doc)
    (hfirst : c.DescriptionFirst) (hnone : firstBelow c.maxDepth doc.children = none) :
    doc.children = [] := by
  by_contra hne
  refine firstAt_two_of_parseDocument hdoc hne ?_
  rcases hfirst with ⟨hlimit, -⟩ | ⟨hlimit, -⟩ <;> rw [hlimit] at hnone
  · exact firstAt_succ_eq_none hnone
  · exact hnone

/-- Otherwise nothing is charged. -/
theorem uncharged_of_not (hdoc : parseDocument text = .ok doc)
    (hnot : ¬ (doc.children = [] ∧ c.DescriptionFirst)) : c.Uncharged doc := by
  intro p hp m hfirst hm
  obtain ⟨hp, hkept⟩ := List.mem_filter.mp hp
  have hkept : inDefinitions p = false := by simpa using hkept
  obtain ⟨own, hown, -, h⟩ := exists_front (read_parseDirectiveDefinitions hdefs) hdoc
  have hnotOwn : p ∉ own := fun hp =>
    not_mem_definitions hdefs hdoc (hown p hp _ (List.mem_of_mem_head? hfirst) m rfl) hm
  rcases h with ⟨-, hrun⟩ | ⟨hnone, hrun⟩ <;> rw [hrun] at hp
  · exact hnotOwn hp
  · have hp : p ∈ c.run (documentOf c.definitions) :=
      (List.mem_append.mp hp).resolve_left hnotOwn
    obtain ⟨m, hm, hloc, -⟩ := (mem_run_definitions_iff hdefs).mp ⟨hp, hkept⟩
    have hdescription := (exists_unlocated_iff hdefs).mp ⟨m, hm, hloc⟩
    exact hnot ⟨children_eq_nil_of_descriptionFirst hdoc hdescription hnone, hdescription⟩

end Definitions

end Check

/-- **When a document is charged with no problem of the definitions.** No problem of a document is
first of all about a node of the directive definitions behind it, unless the document has no
definitions and the first node of the directive definitions below the depth limit is a description:
that of the first definition at a limit of two, and that of the first argument at a limit of
three. -/
theorem uncharged_iff (c : Check) (definitionsText text : String) (doc : Node)
    (hdefs : parseDirectiveDefinitions definitionsText = .ok c.definitions)
    (hdoc : parseDocument text = .ok doc) :
    c.Uncharged doc ↔ ¬ (doc.definitions = [] ∧ c.DescriptionFirst) := by
  have hempty : doc.definitions = [] ↔ doc.children = [] := by
    obtain ⟨ns, l, rfl, -⟩ := read_parseDocument hdoc
    rw [Node.children_document]
    exact List.map_eq_nil_iff
  rw [hempty]
  exact ⟨fun h ⟨hnil, hfirst⟩ => Check.charged_of_descriptionFirst hdefs hdoc hnil hfirst h,
    Check.uncharged_of_not hdefs hdoc⟩

/-- A directive definition with a description. -/
def describedDefinitions : String := "\"doc\" directive @d on FIELD"

/-- What documents are checked with where the limit is two. -/
def describedCheck (definitions : List Node) : Check where
  schema := none
  definitions
  definitionsText := describedDefinitions
  rules := Rule.specified
  maxDepth := 2

/-- A query that is nested deeper than the limit is charged with that and nothing else. -/
theorem uncharged_deepQuery : ∃ (c : Check) (doc : Node),
    parseDirectiveDefinitions describedDefinitions = .ok c.definitions ∧
    parseDocument "\x7b a \x7d" = .ok doc ∧ c.DescriptionFirst ∧ (c.problems doc).length = 1 ∧
    c.Uncharged doc := by
  obtain ⟨defs, doc, hdefs, hdoc, hfacts⟩ := exists_parsed describedDefinitions "\x7b a \x7d"
    (f := fun defs doc => (defs.head?.any Node.described, doc.definitions.isEmpty,
      ((describedCheck defs).problems doc).length)) (b := (true, false, 1)) (by decide +kernel)
  simp only [Prod.mk.injEq] at hfacts
  obtain ⟨hdescribed, hdefinitions, hcount⟩ := hfacts
  refine ⟨describedCheck defs, doc, hdefs, hdoc, .inl ⟨rfl, hdescribed⟩, hcount,
    (uncharged_iff (describedCheck defs) _ _ doc hdefs hdoc).mpr fun ⟨hempty, _⟩ => ?_⟩
  rw [hempty] at hdefinitions
  cases hdefinitions

/-- An empty document is charged with the description. -/
theorem charged_emptyQuery : ∃ (c : Check) (doc : Node),
    parseDirectiveDefinitions describedDefinitions = .ok c.definitions ∧
    parseDocument "" = .ok doc ∧
    (c.problems doc).map Problem.message = ["Document is too deeply nested (maximum depth 2)."] ∧
    ¬ c.Uncharged doc := by
  obtain ⟨defs, doc, hdefs, hdoc, hfacts⟩ := exists_parsed describedDefinitions ""
    (f := fun defs doc => (defs.head?.any Node.described, doc.children.isEmpty,
      ((describedCheck defs).problems doc).map Problem.message))
    (b := (true, true, ["Document is too deeply nested (maximum depth 2)."])) (by decide +kernel)
  simp only [Prod.mk.injEq] at hfacts
  obtain ⟨hdescribed, hempty, hmessages⟩ := hfacts
  exact ⟨describedCheck defs, doc, hdefs, hdoc, hmessages,
    Check.charged_of_descriptionFirst hdefs hdoc (List.isEmpty_iff.mp hempty)
      (.inl ⟨rfl, hdescribed⟩)⟩

end QueryCheck.Command
