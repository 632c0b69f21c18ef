import QueryCheck.Proofs.Validation.Depth
import QueryCheck.Proofs.Validation.Whole

/-! # Directive definitions behind a document

A document may be validated with directive definitions behind its own definitions. What is found in
them is what is found when they are validated by themselves: no rule that looks at the nodes of a
directive definition asks for the fragments, or remembers any, and the document around a definition
bears on no types. What is found before is about nodes of the document.

* `Alike`, `alikeRoutes`: the steps through the same trees below other nodes.
* `Context.within`: a state of the validation of another document.
* `Rule.atEnter_within`, `Rule.atLeave_within`: what a rule does at a node of a directive
  definition, in another document.
* `About`, `about_route`: a state all of whose places have a property, and what is found along a
  route.
* `validate_appended`: the validation of a document with directive definitions behind it. -/

namespace QueryCheck.Validation

open QueryCheck.Schema
open QueryCheck.Syntax
open QueryCheck.Typing
open QueryCheck.Walk
open Context

/-! ### Routes below other nodes -/

section Alike

variable (s : Option Schema) (lookup : String → Option Directive)

/-- Steps at one node that stand in the same frames. -/
inductive Alike : Step → Step → Prop
  | enter (n : Node) {above above' : List Node}
      (h : framesAt s lookup above = framesAt s lookup above') :
      Alike (.enter n above) (.enter n above')
  | leave (n : Node) {above above' : List Node}
      (h : framesAt s lookup above = framesAt s lookup above') :
      Alike (.leave n above) (.leave n above')
  | abandon (n : Node) {above above' : List Node}
      (h : framesAt s lookup above = framesAt s lookup above') :
      Alike (.abandon n above) (.abandon n above')

/-- Routes that are alike step by step and end at the same node. -/
structure AlikeRoutes (r r' : Route) : Prop where
  steps : List.Forall₂ (Alike s lookup) r.steps r'.steps
  tooDeep : r.tooDeep = r'.tooDeep

variable {s lookup}

mutual

/-- The routes through a tree below nodes of the same number and the same frames. -/
theorem alikeRoutes (maxDepth : Int) : ∀ (t : Rose Node) {above above' : List Node},
    above.length = above'.length → framesAt s lookup above = framesAt s lookup above' →
    AlikeRoutes s lookup (route maxDepth above t) (route maxDepth above' t)
  | .mk n ts, above, above', hlen, hframes => by
    have hlen' : (n :: above).length = (n :: above').length := congrArg (· + 1) hlen
    have hframes' : framesAt s lookup (n :: above) = framesAt s lookup (n :: above') := by
      rw [framesAt_cons, framesAt_cons, hframes]
    have hinner := alikeRoutesAll maxDepth ts hlen' hframes'
    rw [route, route, hlen]
    dsimp only
    rw [hinner.tooDeep]
    split_ifs
    · exact ⟨.nil, rfl⟩
    · have hlast : Alike s lookup (.abandon n above) (.abandon n above') := .abandon n hframes
      exact ⟨.cons (.enter n hframes) (List.rel_append hinner.steps (.cons hlast .nil)), rfl⟩
    · have hlast : Alike s lookup (.leave n above) (.leave n above') := .leave n hframes
      exact ⟨.cons (.enter n hframes) (List.rel_append hinner.steps (.cons hlast .nil)), rfl⟩

theorem alikeRoutesAll (maxDepth : Int) : ∀ (ts : List (Rose Node)) {above above' : List Node},
    above.length = above'.length → framesAt s lookup above = framesAt s lookup above' →
    AlikeRoutes s lookup (routeAll maxDepth above ts) (routeAll maxDepth above' ts)
  | [], above, above', _, _ => by
    rw [routeAll, routeAll]
    exact ⟨.nil, rfl⟩
  | t :: ts, above, above', hlen, hframes => by
    have ht := alikeRoutes maxDepth t hlen hframes
    have hts := alikeRoutesAll maxDepth ts hlen hframes
    rw [routeAll, routeAll]
    dsimp only
    rw [ht.tooDeep]
    split_ifs
    · exact ht
    · exact ⟨List.rel_append ht.steps hts.steps, hts.tooDeep⟩

end

end Alike

/-! ### The nodes of directive definitions -/

/-- Whether nodes of a kind may stand in a directive definition. -/
def definitional : Kind → Bool
  | .document | .operationDefinition | .variableDefinition | .selectionSet | .field
  | .fragmentSpread | .inlineFragment | .fragmentDefinition => false
  | _ => true

theorem definitional_of_admits : ∀ k, definitional k = true → ∀ d ∈ k.declared, ∀ k',
    d.2.admits k' = true → definitional k' = true := by
  -- Read off the table of declared fields, field by field.
  intro k
  cases k <;> simp [Kind.declared, Shape.admits, Wanted.admits, Family.kinds, definitional]

theorem definitional_of_mem_labels {d : Node} (hk : d.kind = .directiveDefinition) (h : d.Whole) :
    ∀ m ∈ d.rose.labels, definitional m.kind = true :=
  Node.Typed.all_kind definitional_of_admits d h.typed (by rw [hk]; rfl)

/-! ### Rules at definitions in another document -/

/-- The state of the validation of another document, as far as fragments do not matter. -/
def Context.within (doc : Node) (c : Context) : Context :=
  { c with document := doc, fragmentTable := none, metNames := [] }

namespace Rule

section Within

variable {doc : Node} {c : Context}

theorem checkTypeName_within (s : Schema) (n : Node) :
    checkTypeName s n (c.within doc) = (checkTypeName s n c).within doc := by
  unfold checkTypeName
  split
  · dsimp only
    split_ifs <;> rfl
  · rfl

theorem checkConditionOf_within (fragment : String) (cond : Node) :
    checkConditionOf fragment cond (c.within doc) =
      (checkConditionOf fragment cond c).within doc := by
  unfold checkConditionOf
  rw [show (c.within doc).schema = c.schema from rfl]
  split
  · rfl
  · split_ifs <;> rfl

theorem checkCondition_within (n : Node) :
    checkCondition n (c.within doc) = (checkCondition n c).within doc := by
  unfold checkCondition
  split
  · exact checkConditionOf_within _ _
  · exact checkConditionOf_within _ _
  · rfl

theorem checkFieldArgument_within (n : Node) :
    checkFieldArgument n (c.within doc) = (checkFieldArgument n c).within doc := by
  unfold checkFieldArgument
  rw [show (c.within doc).top = c.top from rfl]
  split
  · split_ifs <;> rfl
  · rfl

theorem checkDirectiveArgument_within (d : Directive) (c : Context) (a : Child Node) :
    checkDirectiveArgument d (c.within doc) a = (checkDirectiveArgument d c a).within doc := by
  unfold checkDirectiveArgument
  split
  · dsimp only
    split_ifs <;> rfl
  · rfl

theorem checkProvided_within (table : List (String × Required)) (n : Node) :
    checkProvided table n (c.within doc) = (checkProvided table n c).within doc := by
  unfold checkProvided
  split
  · dsimp only
    split
    · rfl
    · split
      · rfl
      · exact List.foldl_hom (Context.within doc) fun _ _ => rfl
  · rfl

variable (hdirs : placesOf .directiveDefinition doc = placesOf .directiveDefinition c.document)
include hdirs

theorem directive_within (name : String) :
    (c.within doc).directive name = ((c.directive name).1, (c.directive name).2.within doc) := by
  have htable : directiveTable? c.schema doc = directiveTable? c.schema c.document := by
    unfold directiveTable?
    rw [hdirs]
  have hwith : (c.within doc).withDirectives = c.withDirectives.within doc := by
    unfold withDirectives
    cases ht : c.directiveTable with
    | some t => simp [within, ht]
    | none =>
      cases hd : directiveTable? c.schema c.document <;>
        simp [within, ht, htable, hd, Context.breakDown]
  rw [Context.directive, Context.directive, hwith]
  rfl

theorem checkDirectiveArguments_within (n : Node) :
    checkDirectiveArguments n (c.within doc) = (checkDirectiveArguments n c).within doc := by
  unfold checkDirectiveArguments
  split
  · next name args _ =>
    rw [directive_within hdirs]
    obtain ⟨found, c'⟩ := c.directive name.nameText
    cases found with
    | none => rfl
    | some d => exact List.foldl_hom (Context.within doc) (checkDirectiveArgument_within d)
  · rfl

theorem requiredTable?_within : requiredTable? (c.within doc) = requiredTable? c := by
  unfold requiredTable?
  rw [show (c.within doc).document = doc from rfl, hdirs]
  rfl

/-- **What a rule does at a node of a directive definition** that is entered in another document. -/
theorem atEnter_within (r : Rule) {n : Node} (hn : definitional n.kind = true) (slot : Nat) :
    r.atEnter n slot (c.within doc) = (r.atEnter n slot c).within doc := by
  cases r with
  | fragmentsOnCompositeTypes => exact checkCondition_within n
  | knownArgumentNames =>
    rw [atEnter, atEnter, checkDirectiveArguments_within hdirs, checkFieldArgument_within]
  | knownArgumentNamesOnDirectives => exact checkDirectiveArguments_within hdirs n
  | knownFragmentNames =>
    have hk : n.kind ≠ .fragmentSpread := fun hk => by simp [hk, definitional] at hn
    rw [atEnter, atEnter, onlyAt_checkSpread n _ hk, onlyAt_checkSpread n _ hk]
  | knownTypeNames =>
    rw [atEnter, atEnter, show (c.within doc).schema = c.schema from rfl]
    cases c.schema with
    | none => rfl
    | some s => exact checkTypeName_within s n
  | providedRequiredArgumentsOnDirectives => rfl
  | uniqueFragmentNames =>
    have hk : n.kind ≠ .fragmentDefinition := fun hk => by simp [hk, definitional] at hn
    rw [atEnter, atEnter, onlyAt_checkUnique slot n _ hk, onlyAt_checkUnique slot n _ hk]

/-- **What a rule does at a node of a directive definition** that is left in another document. -/
theorem atLeave_within (r : Rule) (n : Node) (slot : Nat) :
    r.atLeave n slot (c.within doc) = (r.atLeave n slot c).within doc := by
  cases r with
  | providedRequiredArgumentsOnDirectives =>
    rw [atLeave, atLeave, requiredTable?_within hdirs, checkProvided_within]
  | _ => rfl

end Within

end Rule

/-! ### What is found in definitions -/

section Definitions

variable {s : Option Schema} {doc doc' : Node}
variable (hdirs : placesOf .directiveDefinition doc' = placesOf .directiveDefinition doc)
include hdirs

theorem lookupIn_eq : lookupIn s doc' = lookupIn s doc := by
  unfold lookupIn directivesOf directiveTable?
  rw [hdirs]

/-- **What a rule makes of a step in a directive definition**, in another document. -/
theorem act_within {st st' : Step} (h : Alike s (lookupIn s doc) st st')
    (hst : definitional st.node.kind = true) (x : Rule × Memory) :
    act s doc' st' (x.1, []) = (act s doc st x).within doc' := by
  have halone : ∀ (n : Node) {above above' : List Node},
      framesAt s (lookupIn s doc) above = framesAt s (lookupIn s doc) above' →
      alone s doc' (framesAt s (lookupIn s doc') (n :: above')) [] =
        (alone s doc (framesAt s (lookupIn s doc) (n :: above)) x.2).within doc' := by
    intro n above above' hframes
    rw [lookupIn_eq hdirs, framesAt_cons, framesAt_cons, hframes]
    rfl
  cases h with
  | enter n hframes =>
    exact (congrArg (x.1.atEnter n 0) (halone n hframes)).trans (x.1.atEnter_within hdirs hst 0)
  | leave n hframes =>
    exact (congrArg (x.1.atLeave n 0) (halone n hframes)).trans (x.1.atLeave_within hdirs n 0)
  | abandon n hframes => exact halone n hframes

/-- Rules remember nothing of a directive definition. -/
theorem remember_within {st st' : Step} (h : Alike s (lookupIn s doc) st st')
    (hst : definitional st.node.kind = true) (rules : List Rule) :
    (fresh rules).map (remember s doc' st') = fresh rules := by
  rw [fresh, List.map_map]
  refine List.map_congr_left fun r _ => ?_
  rw [Function.comp_apply, remember, act_within hdirs h hst (r, [])]
  rfl

/-- **What is found in directive definitions** does not depend on the document they stand in, nor on
what rules remember of it. -/
theorem findings_alike {steps steps' : List Step}
    (h : List.Forall₂ (Alike s (lookupIn s doc)) steps steps') :
    (∀ st ∈ steps, definitional st.node.kind = true) → ∀ crew : List (Rule × Memory),
      findings s doc steps crew = findings s doc' steps' (fresh (crew.map Prod.fst)) := by
  induction h with
  | nil => exact fun _ _ => rfl
  | @cons st st' steps steps' hstep hsteps ih =>
    intro hdef crew
    rw [List.forall_mem_cons] at hdef
    have hproblems : (fresh (crew.map Prod.fst)).flatMap (fun x => (act s doc' st' x).problems) =
        crew.flatMap fun x => (act s doc st x).problems := by
      rw [fresh, List.map_map, List.flatMap_map]
      refine List.flatMap_congr fun x _ => ?_
      rw [Function.comp_apply, act_within hdirs hstep hdef.1 x]
      rfl
    have hrules : (crew.map (remember s doc st)).map Prod.fst = crew.map Prod.fst := by
      rw [List.map_map]
      rfl
    rw [findings, findings, hproblems, remember_within hdirs hstep hdef.1, ih hdef.2, hrules]

/-- A rule breaks down in directive definitions where it does so in another document. -/
theorem breaking_alike {steps steps' : List Step}
    (h : List.Forall₂ (Alike s (lookupIn s doc)) steps steps') :
    (∀ st ∈ steps, definitional st.node.kind = true) → ∀ crew : List (Rule × Memory),
      breaking s doc steps crew = breaking s doc' steps' (fresh (crew.map Prod.fst)) := by
  induction h with
  | nil => exact fun _ _ => rfl
  | @cons st st' steps steps' hstep hsteps ih =>
    intro hdef crew
    rw [List.forall_mem_cons] at hdef
    have hlacks : lacksPart s doc' st' = lacksPart s doc st := by
      have htable : directiveTable? s doc' = directiveTable? s doc := by
        unfold directiveTable?
        rw [hdirs]
      cases hstep <;> simp only [lacksPart, htable]
    have hany : ((fresh (crew.map Prod.fst)).any fun x => (act s doc' st' x).broken) =
        crew.any fun x => (act s doc st x).broken := by
      rw [fresh, List.map_map, List.any_map]
      refine congrArg crew.any (funext fun x => ?_)
      rw [Function.comp_apply, Function.comp_apply, act_within hdirs hstep hdef.1 x]
      rfl
    have hrules : (crew.map (remember s doc st)).map Prod.fst = crew.map Prod.fst := by
      rw [List.map_map]
      rfl
    rw [breaking, breaking, hlacks, hany, remember_within hdirs hstep hdef.1, ih hdef.2, hrules]

end Definitions

/-! ### What is found in front of definitions -/

/-- A state all of whose places have a property, and all of whose problems have places. -/
structure About (A : Child Node → Prop) (c : Context) : Prop where
  problems : ∀ p ∈ c.problems, p.nodes ≠ [] ∧ ∀ x ∈ p.nodes, A x
  memory : ∀ m ∈ c.metNames, A m.2.2

theorem About.move {A : Child Node → Prop} {slot : Nat} {n : Node} (hn : ∀ x, Shown n x → A x)
    {c c' : Context} (hmove : Move slot n c c') (h : About A c) : About A c' := by
  cases hmove with
  | report r message hne places =>
    refine ⟨fun p hp => ?_, h.memory⟩
    rcases List.mem_append.mp hp with hp | hp
    · exact h.problems p hp
    · rw [List.mem_singleton.mp hp]
      refine ⟨hne, fun x hx => ?_⟩
      rcases places x hx with hx | ⟨name, hfirst⟩
      · exact hn x hx
      · obtain ⟨m, hm, rfl⟩ := Option.map_eq_some_iff.mp hfirst
        exact h.memory m (List.mem_of_find?_eq_some hm)
  | remember name hplace =>
    refine ⟨h.problems, fun m hm => ?_⟩
    rcases List.mem_append.mp hm with hm | hm
    · exact h.memory m hm
    · rw [List.mem_singleton.mp hm]
      exact hn _ hplace
  | fragments =>
    rw [withFragments_fields c]
    exact ⟨h.problems, h.memory⟩
  | directives =>
    rw [withDirectives_fields c]
    exact ⟨h.problems, h.memory⟩
  | breakDown => exact ⟨h.problems, h.memory⟩

section Front

variable {s : Option Schema} {doc : Node} {A : Child Node → Prop}

theorem about_act {st : Step} (hst : ∀ x, Shown st.node x → A x) {x : Rule × Memory}
    (hx : ∀ m ∈ x.2, A m.2.2) : About A (act s doc st x) :=
  act_preserves (fun _ _ => About.move hst) fun _ => ⟨nofun, hx⟩

theorem About.memoryOf {c : Context} (h : About A c) (slot : Nat) :
    ∀ m ∈ c.memoryOf slot, A m.2.2 := by
  intro m hm
  obtain ⟨m', hm', rfl⟩ := List.mem_map.mp hm
  exact h.memory m' (List.mem_of_mem_filter hm')

/-- **What rules find along some steps** is about places that the nodes of the steps show, and about
what they remember. -/
theorem about_findings : ∀ {steps : List Step} {crew : List (Rule × Memory)},
    (∀ st ∈ steps, ∀ x, Shown st.node x → A x) → (∀ x ∈ crew, ∀ m ∈ x.2, A m.2.2) →
    ∀ p ∈ findings s doc steps crew, p.nodes ≠ [] ∧ ∀ x ∈ p.nodes, A x
  | [], _, _, _, p, hp => by cases hp
  | st :: steps, crew, hsteps, hcrew, p, hp => by
    rw [List.forall_mem_cons] at hsteps
    rcases List.mem_append.mp hp with hp | hp
    · obtain ⟨x, hx, hp⟩ := List.mem_flatMap.mp hp
      exact (about_act hsteps.1 (hcrew x hx)).problems p hp
    · refine about_findings hsteps.2 (fun y hy => ?_) p hp
      obtain ⟨x, hx, rfl⟩ := List.mem_map.mp hy
      exact (about_act hsteps.1 (hcrew x hx)).memoryOf 0

end Front

/-! ### Documents with definitions behind them -/

/-- The document with the given definitions. -/
abbrev documentWith (ns : List Node) (l : Option Location) : Node := .document (ns.map .node) l

/-- The route through the definitions of a document. -/
def routeInside (maxDepth : Int) (ns : List Node) (l : Option Location) : Route :=
  routeAll maxDepth [documentWith ns l] (ns.map Node.rose)

section Documents

variable (s : Option Schema) (rules : List Rule) (maxDepth : Int) (ns : List Node)
  (l : Option Location)

theorem route_documentWith : route maxDepth [] (documentWith ns l).rose =
    ⟨.enter (documentWith ns l) [] :: (routeInside maxDepth ns l).steps ++
      [if (routeInside maxDepth ns l).tooDeep.isSome then .abandon (documentWith ns l) []
        else .leave (documentWith ns l) []], (routeInside maxDepth ns l).tooDeep⟩ := by
  have hlimit : pastLimit maxDepth (([] : List Node).length + 1) = false := by
    rw [pastLimit, Bool.and_eq_false_iff, decide_eq_false_iff_not, decide_eq_false_iff_not,
      List.length_nil]
    omega
  rw [Node.rose_eq, Node.children_document, route, hlimit]
  rfl

/-- No rule does anything at a document itself. -/
theorem act_document (doc : Node) {st : Step} (hst : st.node = documentWith ns l)
    (x : Rule × Memory) :
    (act s doc st x).problems = [] ∧ (act s doc st x).metNames = x.2 := by
  obtain ⟨r, memory⟩ := x
  cases st with
  | enter n above =>
    obtain rfl : n = documentWith ns l := hst
    cases r with
    | knownTypeNames => cases s <;> exact ⟨rfl, rfl⟩
    | _ => exact ⟨rfl, rfl⟩
  | leave n above =>
    obtain rfl : n = documentWith ns l := hst
    cases r <;> exact ⟨rfl, rfl⟩
  | abandon n above => exact ⟨rfl, rfl⟩

theorem remember_document :
    (fresh rules).map (remember s (documentWith ns l) (.enter (documentWith ns l) [])) =
      fresh rules := by
  rw [fresh, List.map_map]
  refine List.map_congr_left fun r _ => ?_
  rw [Function.comp_apply, remember, Context.memoryOf, (act_document s ns l _ rfl _).2]
  rfl

/-- **What is found in a document** is found in its definitions. -/
theorem found_documentWith : found s (documentWith ns l) rules maxDepth =
    findings s (documentWith ns l) (routeInside maxDepth ns l).steps (fresh rules) := by
  have hproblems : ∀ {st : Step} (crew : List (Rule × Memory)), st.node = documentWith ns l →
      (crew.flatMap fun x => (act s (documentWith ns l) st x).problems) = [] :=
    fun crew hst => List.flatMap_eq_nil_iff.mpr fun x _ => (act_document s ns l _ hst x).1
  rw [found, route_documentWith, List.cons_append, findings, hproblems _ rfl, remember_document,
    List.nil_append, findings_append, findings, hproblems]
  · simp [findings]
  · split_ifs <;> rfl

/-- Whether the validation of a document has a result is told in its definitions. -/
theorem fails_documentWith : fails s (documentWith ns l) rules maxDepth =
    (rules.any (unprepared s (documentWith ns l)) ||
      breaking s (documentWith ns l) (routeInside maxDepth ns l).steps (fresh rules)) := by
  have hquiet : ∀ {st : Step} (crew : List (Rule × Memory)), st.node = documentWith ns l →
      (lacksPart s (documentWith ns l) st ||
        crew.any fun x => (act s (documentWith ns l) st x).broken) = false := by
    intro st crew hst
    rw [Bool.or_eq_false_iff, List.any_eq_false]
    cases st with
    | enter n above =>
      obtain rfl : n = documentWith ns l := hst
      refine ⟨rfl, fun ⟨r, memory⟩ _ => ?_⟩
      cases r with
      | knownTypeNames => cases s <;> exact Bool.false_ne_true
      | _ => exact Bool.false_ne_true
    | leave n above =>
      obtain rfl : n = documentWith ns l := hst
      refine ⟨rfl, fun ⟨r, memory⟩ _ => ?_⟩
      cases r <;> exact Bool.false_ne_true
    | abandon n above => exact ⟨rfl, fun _ _ => Bool.false_ne_true⟩
  rw [fails, route_documentWith, List.cons_append, breaking, hquiet _ rfl, remember_document,
    Bool.false_or, breaking_append]
  congr 1
  rw [breaking, breaking, hquiet, Bool.or_false, Bool.or_false]
  split_ifs <;> rfl

theorem validate_documentWith (hns : ∀ n ∈ ns, n.kind ∈ Family.definition.kinds ∧ n.Whole)
    (htypes : Resolvable s (documentWith ns l)) :
    validate s (documentWith ns l) rules maxDepth =
      some (findings s (documentWith ns l) (routeInside maxDepth ns l).steps (fresh rules) ++
        ((routeInside maxDepth ns l).tooDeep.map (depthProblem maxDepth)).toList) := by
  rw [validate_of_whole s (Node.whole_document hns) htypes, found_documentWith, tooDeep,
    route_documentWith]

end Documents

/-- The directive definitions of a document that has them behind others. -/
theorem placesOf_documentWith {ns defs : List Node} (l : Option Location)
    (hns : ∀ n ∈ ns, n.kind ≠ .directiveDefinition)
    (hdefs : ∀ d ∈ defs, d.kind = .directiveDefinition) :
    placesOf .directiveDefinition (documentWith (ns ++ defs) l) = defs.map .node := by
  rw [placesOf, Node.definitions, List.map_append, List.filter_append, List.filter_map,
    List.filter_map, List.filter_eq_nil_iff.mpr, List.filter_eq_self.mpr]
  · rfl
  · exact fun d hd => beq_iff_eq.mpr (hdefs d hd)
  · exact fun n hn => by simpa using hns n hn

theorem node_mem_of_mem_steps {maxDepth : Int} {above : List Node} {ns : List Node} {st : Step}
    (hst : st ∈ (routeAll maxDepth above (ns.map Node.rose)).steps) :
    ∃ n ∈ ns, st.node ∈ n.rose.labels := by
  have hmem := node_mem_of_mem_routeAll maxDepth _ above st hst
  rw [Node.labelsOfAll_eq, List.flatMap_map] at hmem
  exact List.mem_flatMap.mp hmem

theorem map_fst_rememberAll (s : Option Schema) (doc : Node) : ∀ (steps : List Step)
    (crew : List (Rule × Memory)),
    (rememberAll s doc steps crew).map Prod.fst = crew.map Prod.fst
  | [], _ => rfl
  | st :: steps, crew => by
    rw [rememberAll, List.foldl_cons, ← rememberAll, map_fst_rememberAll, List.map_map]
    rfl

section Appended

variable (s : Option Schema) (rules : List Rule) (maxDepth : Int) {ns defs : List Node}

/-- What is found in definitions is about places that the nodes there show. -/
theorem about_route {A : Child Node → Prop} (doc : Node) (above : List Node)
    (hA : ∀ n ∈ ns, ∀ m ∈ n.rose.labels, ∀ x, Shown m x → A x) :
    ∀ p ∈ findings s doc (routeAll maxDepth above (ns.map Node.rose)).steps (fresh rules) ++
      ((routeAll maxDepth above (ns.map Node.rose)).tooDeep.map (depthProblem maxDepth)).toList,
    p.nodes ≠ [] ∧ ∀ x ∈ p.nodes, A x := by
  intro p hp
  rcases List.mem_append.mp hp with hp | hp
  · refine about_findings (fun st hst => ?_) (fun x hx => ?_) p hp
    · obtain ⟨n, hn, hmem⟩ := node_mem_of_mem_steps hst
      exact hA n hn st.node hmem
    · obtain ⟨r, -, rfl⟩ := List.mem_map.mp hx
      nofun
  · obtain ⟨m, hm, rfl⟩ := Option.map_eq_some_iff.mp (Option.mem_toList.mp hp)
    have hmem := tooDeep_mem_routeAll maxDepth _ above m hm
    rw [Node.labelsOfAll_eq, List.flatMap_map] at hmem
    obtain ⟨n, hn, hmem⟩ := List.mem_flatMap.mp hmem
    exact ⟨List.cons_ne_nil _ _, List.forall_mem_singleton.mpr (hA n hn m hmem _ (.self m))⟩

/-- What is found in front of other definitions is about the nodes there. -/
theorem pointsInto_front (doc : Node) (above : List Node) :
    ∀ p ∈ findings s doc (routeAll maxDepth above (ns.map Node.rose)).steps (fresh rules) ++
      ((routeAll maxDepth above (ns.map Node.rose)).tooDeep.map (depthProblem maxDepth)).toList,
    ∀ x ∈ p.nodes, PointsInto (ns.flatMap fun n => n.rose.labels) x := by
  refine fun p hp => (about_route s rules maxDepth doc above (fun n hn m hm x hx => ?_) p hp).2
  exact hx.below.mono fun y hy => List.mem_flatMap.mpr ⟨n, hn, Node.labels_subset hm hy⟩

variable (hns : ∀ n ∈ ns, n.kind ∈ Family.definition.kinds ∧ n.Whole)
  (hothers : ∀ n ∈ ns, n.kind ≠ .directiveDefinition)
  (hdefs : ∀ d ∈ defs, d.kind = .directiveDefinition ∧ d.Whole)
  (htypes : ∀ n ∈ ns ++ defs, n.All fun m => m.typeNamed = true)
include hns hothers hdefs htypes

/-- **Directive definitions behind a document** are validated as if they stood alone. What is found
before is about nodes of the document; after it comes what is found when the definitions are
validated by themselves, unless the document itself is nested too deep. -/
theorem validate_appended (l l' : Option Location) :
    ∃ own : List Problem,
      (∀ p ∈ own, ∀ x ∈ p.nodes, PointsInto (ns.flatMap fun n => n.rose.labels) x) ∧
      ((firstBelow maxDepth ns).isSome = true ∧
          validate s (documentWith (ns ++ defs) l) rules maxDepth = some own ∨
        firstBelow maxDepth ns = none ∧
          ∃ es, validate s (documentWith defs l') rules maxDepth = some es ∧
            validate s (documentWith (ns ++ defs) l) rules maxDepth = some (own ++ es)) := by
  have hkinds : ∀ d ∈ defs, d.kind ∈ Family.definition.kinds ∧ d.Whole := fun d hd =>
    ⟨by rw [(hdefs d hd).1]; decide, (hdefs d hd).2⟩
  set doc := documentWith (ns ++ defs) l with hdoc
  set front := routeAll maxDepth [doc] (ns.map Node.rose)
  set back := routeAll maxDepth [doc] (defs.map Node.rose)
  refine ⟨findings s doc front.steps (fresh rules) ++
    (front.tooDeep.map (depthProblem maxDepth)).toList,
    pointsInto_front s rules maxDepth doc [doc], ?_⟩
  have hinside : routeInside maxDepth (ns ++ defs) l =
      if front.tooDeep.isSome then front else ⟨front.steps ++ back.steps, back.tooDeep⟩ := by
    rw [routeInside, List.map_append, routeAll_append]
  rw [validate_documentWith s rules maxDepth _ l (List.forall_mem_append.mpr ⟨hns, hkinds⟩)
    (resolvable_of_typeNamed s (Node.typeNamed_document htypes)),
    ← tooDeep_routeAll_singleton maxDepth doc ns]
  cases hdeep : front.tooDeep with
  | some n =>
    left
    rw [hinside, hdeep, Option.isSome_some, if_pos rfl, hdeep]
    exact ⟨rfl, rfl⟩
  | none =>
    right
    have hdefsTypes := Node.typeNamed_document (l := l') (List.forall_mem_append.mp htypes).2
    refine ⟨rfl, _, validate_documentWith s rules maxDepth defs l' hkinds
      (resolvable_of_typeNamed s hdefsTypes), ?_⟩
    have hplaces : placesOf .directiveDefinition (documentWith defs l') =
        placesOf .directiveDefinition doc := by
      rw [placesOf_documentWith l hothers fun d hd => (hdefs d hd).1, ← List.nil_append defs]
      exact placesOf_documentWith l' (by simp) fun d hd => (hdefs d hd).1
    -- The document at the bottom of every path bears on no types.
    have halike : AlikeRoutes s (lookupIn s doc) back (routeInside maxDepth defs l') :=
      alikeRoutesAll maxDepth _ rfl rfl
    have hdefinitional : ∀ st ∈ back.steps, definitional st.node.kind = true := by
      intro st hst
      obtain ⟨d, hd, hmem⟩ := node_mem_of_mem_steps hst
      exact definitional_of_mem_labels (hdefs d hd).1 (hdefs d hd).2 _ hmem
    have hrules : (rememberAll s doc front.steps (fresh rules)).map Prod.fst = rules := by
      rw [map_fst_rememberAll, fresh, List.map_map]
      exact List.map_id rules
    rw [hinside, hdeep, Option.isSome_none, if_neg Bool.false_ne_true, findings_append,
      findings_alike hplaces halike.steps hdefinitional, hrules, halike.tooDeep]
    simp [hdoc]

end Appended

end QueryCheck.Validation
