import QueryCheck.Proofs.Syntax.Equality
import QueryCheck.Proofs.Syntax.Read
import QueryCheck.Proofs.Validation.Independence
import QueryCheck.Proofs.Validation.Whole

/-! # Validations do not look at locations

What a validation reads from a node is the same for a clone of the node. So the validation of a
clone makes the same steps, and each step makes of the state without locations what the step of the
validation of the node makes of the state, without locations. Whole documents that are equal have
one clone, and so the same is wrong with them.

* `Context.unlocated`: a state without the locations of its nodes.
* `Rule.atEnter_unlocated`, `Rule.atLeave_unlocated`: what a rule does at a clone.
* `route_cloneDeep`: the route through a clone.
* `validate_cloneDeep`: the validation of a clone finds clones of the problems.
* `validate_equal`: validation depends only on the structure of documents. -/

namespace QueryCheck.Syntax

open Node

/-! ### Reading clones -/

theorem Child.nameText_map_cloneDeep (c : Child Node) :
    (c.map cloneDeep).nameText = c.nameText := by
  rcases c with _ | _ | ⟨k, ss, l⟩
  · rfl
  · rfl
  · rw [map_node, cloneDeep_mk]
    cases k
    case name => rcases ss with _ | ⟨_ | _ | _ | _, _ | _⟩ <;> rfl
    all_goals rfl

theorem Child.isName_map_cloneDeep (c : Child Node) : (c.map cloneDeep).isName = c.isName := by
  rcases c with _ | _ | ⟨k, ss, l⟩
  · rfl
  · rfl
  · rw [map_node, cloneDeep_mk]
    cases k
    case name => rcases ss with _ | ⟨_ | _ | _ | _, _ | _⟩ <;> rfl
    all_goals rfl

theorem Child.isFilled_map {α β : Type} (f : α → β) (c : Child α) :
    (c.map f).isFilled = c.isFilled := by
  cases c <;> rfl

theorem Node.definitions_cloneDeep (n : Node) :
    n.cloneDeep.definitions = n.definitions.map (Child.map cloneDeep) := by
  obtain ⟨k, ss, l⟩ := n
  rw [cloneDeep_mk]
  cases k
  case document => rcases ss with _ | ⟨_ | _ | _ | _, _ | _⟩ <;> rfl
  all_goals rfl

end QueryCheck.Syntax

namespace QueryCheck.Typing

open QueryCheck.Schema
open QueryCheck.Syntax
open Node

theorem refOf_cloneDeep (n : Node) : refOf n.cloneDeep = refOf n := by
  induction n using induct with
  | step n ih =>
    obtain ⟨k, ss, l⟩ := n
    rw [cloneDeep_mk]
    cases k
    case namedType =>
      rcases ss with _ | ⟨_ | _ | name | _, _ | _⟩ <;> try rfl
      exact congrArg (some ∘ TypeRef.named) name.nameText_map_cloneDeep
    case listType =>
      rcases ss with _ | ⟨_ | _ | (_ | _ | t) | _, _ | _⟩ <;> try rfl
      exact congrArg (some ∘ TypeRef.list) (ih t (by simp))
    case nonNullType =>
      rcases ss with _ | ⟨_ | _ | (_ | _ | t) | _, _ | _⟩ <;> try rfl
      exact congrArg (some ∘ TypeRef.nonNull) (ih t (by simp))
    all_goals rfl

theorem resolve?_cloneDeep (s : Option Schema) (n : Node) :
    resolve? s n.cloneDeep = resolve? s n := by
  induction n using induct with
  | step n ih =>
    obtain ⟨k, ss, l⟩ := n
    rw [cloneDeep_mk]
    cases k
    case namedType =>
      rcases ss with _ | ⟨_ | _ | name | _, _ | _⟩ <;> try rfl
      simp only [List.map_cons, List.map_nil, Slot.map, resolve?, name.nameText_map_cloneDeep,
        name.isName_map_cloneDeep]
    case listType =>
      rcases ss with _ | ⟨_ | _ | (_ | _ | t) | _, _ | _⟩ <;> try rfl
      exact congrArg (Option.map _) (ih t (by simp))
    case nonNullType =>
      rcases ss with _ | ⟨_ | _ | (_ | _ | t) | _, _ | _⟩ <;> try rfl
      exact congrArg (Option.map _) (ih t (by simp))
    all_goals rfl

theorem resolve_cloneDeep (s : Option Schema) (n : Node) :
    resolve s n.cloneDeep = resolve s n := by
  rw [resolve, resolve, resolve?_cloneDeep]

theorem refIn_map_cloneDeep (c : Child Node) : refIn (c.map cloneDeep) = refIn c := by
  cases c with
  | node n => exact refOf_cloneDeep n
  | _ => rfl

theorem resolveIn_map_cloneDeep (s : Option Schema) (c : Child Node) :
    resolveIn s (c.map cloneDeep) = resolveIn s c := by
  cases c with
  | node n => exact resolve_cloneDeep s n
  | _ => rfl

theorem statedType_cloneDeep (n : Node) :
    statedType n.cloneDeep = (statedType n).map cloneDeep := by
  obtain ⟨k, ss, l⟩ := n
  rw [cloneDeep_mk]
  cases k
  case inlineFragment =>
    rcases ss with _ | ⟨_ | _ | t | _, ss⟩ <;> try rfl
    rcases ss with _ | ⟨_ | _ | _ | dirs, ss⟩ <;> try rfl
    rcases ss with _ | ⟨_ | _ | sel | _, _ | _⟩ <;> rfl
  case fragmentDefinition =>
    rcases ss with _ | ⟨_ | _ | name | _, ss⟩ <;> try rfl
    rcases ss with _ | ⟨_ | _ | _ | vars, ss⟩ <;> try rfl
    rcases ss with _ | ⟨_ | _ | t | _, ss⟩ <;> try rfl
    rcases ss with _ | ⟨_ | _ | _ | dirs, ss⟩ <;> try rfl
    rcases ss with _ | ⟨_ | _ | sel | _, _ | _⟩ <;> rfl
  case variableDefinition =>
    rcases ss with _ | ⟨_ | _ | var | _, ss⟩ <;> try rfl
    rcases ss with _ | ⟨_ | _ | t | _, ss⟩ <;> try rfl
    rcases ss with _ | ⟨_ | _ | default | _, ss⟩ <;> try rfl
    rcases ss with _ | ⟨_ | _ | _ | dirs, _ | _⟩ <;> rfl
  all_goals rfl

theorem resolvable_cloneDeep (s : Option Schema) (n : Node) :
    resolvable s n.cloneDeep = resolvable s n := by
  unfold resolvable
  rw [statedType_cloneDeep, Child.toOption_map]
  cases (statedType n).toOption with
  | none => rfl
  | some t => simp [resolve?_cloneDeep]

/-- The frame inside a clone is the frame inside the node. -/
theorem Frame.enter_cloneDeep (s : Option Schema) (lookup : String → Option Directive) (n : Node)
    (f : Frame) : f.enter s lookup n.cloneDeep = f.enter s lookup n := by
  obtain ⟨k, ss, l⟩ := n
  rw [cloneDeep_mk]
  have hname := Child.nameText_map_cloneDeep
  have htype := resolveIn_map_cloneDeep s
  cases k
  case operationDefinition =>
    rcases ss with _ | ⟨op | _ | _ | _, ss⟩ <;> try rfl
    rcases ss with _ | ⟨_ | _ | name | _, ss⟩ <;> try rfl
    rcases ss with _ | ⟨_ | _ | _ | vars, ss⟩ <;> try rfl
    rcases ss with _ | ⟨_ | _ | _ | dirs, ss⟩ <;> try rfl
    rcases ss with _ | ⟨_ | _ | sel | _, _ | _⟩ <;> try rfl
  case variableDefinition =>
    rcases ss with _ | ⟨_ | _ | var | _, ss⟩ <;> try rfl
    rcases ss with _ | ⟨_ | _ | type | _, ss⟩ <;> try rfl
    rcases ss with _ | ⟨_ | _ | default | _, ss⟩ <;> try rfl
    rcases ss with _ | ⟨_ | _ | _ | dirs, _ | _⟩ <;> try rfl
    simp only [List.map_cons, List.map_nil, Slot.map, enter, htype]
  case selectionSet => rcases ss with _ | ⟨_ | _ | _ | _, _ | _⟩ <;> rfl
  case field =>
    rcases ss with _ | ⟨_ | _ | key | _, ss⟩ <;> try rfl
    rcases ss with _ | ⟨_ | _ | name | _, ss⟩ <;> try rfl
    rcases ss with _ | ⟨_ | _ | _ | args, ss⟩ <;> try rfl
    rcases ss with _ | ⟨_ | _ | _ | dirs, ss⟩ <;> try rfl
    rcases ss with _ | ⟨_ | _ | sel | _, _ | _⟩ <;> try rfl
    simp only [List.map_cons, List.map_nil, Slot.map, enter, hname]
  case argument =>
    rcases ss with _ | ⟨_ | _ | name | _, ss⟩ <;> try rfl
    rcases ss with _ | ⟨_ | _ | value | _, _ | _⟩ <;> try rfl
    simp only [List.map_cons, List.map_nil, Slot.map, enter, hname]
  case inlineFragment =>
    rcases ss with _ | ⟨_ | _ | (_ | _ | t) | _, ss⟩ <;> try rfl
    all_goals rcases ss with _ | ⟨_ | _ | _ | dirs, ss⟩ <;> try rfl
    all_goals rcases ss with _ | ⟨_ | _ | sel | _, _ | _⟩ <;> try rfl
    exact congrArg (fun t => { f with type := t }) (resolve_cloneDeep s t)
  case fragmentDefinition =>
    rcases ss with _ | ⟨_ | _ | name | _, ss⟩ <;> try rfl
    rcases ss with _ | ⟨_ | _ | _ | vars, ss⟩ <;> try rfl
    rcases ss with _ | ⟨_ | _ | cond | _, ss⟩ <;> try rfl
    rcases ss with _ | ⟨_ | _ | _ | dirs, ss⟩ <;> try rfl
    rcases ss with _ | ⟨_ | _ | sel | _, _ | _⟩ <;> try rfl
    simp only [List.map_cons, List.map_nil, Slot.map, enter, htype]
  case directive =>
    rcases ss with _ | ⟨_ | _ | name | _, ss⟩ <;> try rfl
    rcases ss with _ | ⟨_ | _ | _ | args, _ | _⟩ <;> try rfl
    simp only [List.map_cons, List.map_nil, Slot.map, enter, hname]
  case listValue => rcases ss with _ | ⟨_ | _ | _ | _, _ | _⟩ <;> rfl
  case objectField =>
    rcases ss with _ | ⟨_ | _ | name | _, ss⟩ <;> try rfl
    rcases ss with _ | ⟨_ | _ | value | _, _ | _⟩ <;> try rfl
    simp only [List.map_cons, List.map_nil, Slot.map, enter, hname]
  all_goals rfl

/-- The frames of a path of clones. -/
theorem framesAt_cloneDeep (s : Option Schema) (lookup : String → Option Directive) :
    ∀ path : List Node, framesAt s lookup (path.map cloneDeep) = framesAt s lookup path
  | [] => rfl
  | n :: path => by
    rw [List.map_cons, framesAt_cons, framesAt_cons, framesAt_cloneDeep s lookup path]
    unfold Frames.enter
    rw [kind_cloneDeep, Frame.enter_cloneDeep]

end QueryCheck.Typing

namespace QueryCheck.Validation

open QueryCheck.Schema
open QueryCheck.Syntax
open QueryCheck.Typing
open QueryCheck.Walk
open Node Context

/-! ### States without locations -/

/-- A problem without the locations of its nodes. -/
def Problem.unlocated (p : Problem) : Problem :=
  { p with nodes := p.nodes.map (Child.map cloneDeep) }

/-- What a rule remembers without the locations. -/
def unlocatedMemory (memory : Memory) : Memory :=
  memory.map fun m => (m.1, m.2.1, m.2.2.map cloneDeep)

/-- A state without the locations of its nodes. -/
def Context.unlocated (c : Context) : Context :=
  { c with
    document := c.document.cloneDeep
    fragmentTable := c.fragmentTable.map (List.map fun f => (f.1, f.2.cloneDeep))
    problems := c.problems.map Problem.unlocated
    metNames := unlocatedMemory c.metNames }

namespace Context

theorem report_unlocated (c : Context) (p : Problem) :
    c.unlocated.report p.unlocated = (c.report p).unlocated := by
  simp [unlocated, report]

end Context

/-! ### Tables of clones -/

theorem placesOf_cloneDeep (k : Kind) (doc : Node) :
    placesOf k doc.cloneDeep = (placesOf k doc).map (Child.map cloneDeep) := by
  unfold placesOf
  rw [definitions_cloneDeep, List.filter_map]
  congr 2
  funext c
  cases c with
  | node n => exact congrArg (· == k) (kind_cloneDeep n)
  | _ => rfl

theorem descriptionOf_map_cloneDeep (c : Child Node) :
    descriptionOf (c.map cloneDeep) = descriptionOf c := by
  rcases c with _ | _ | ⟨k, ss, l⟩
  · rfl
  · rfl
  · rw [Child.map_node, cloneDeep_mk]
    cases k
    case stringValue =>
      rcases ss with _ | ⟨_ | _ | _ | _, _ | ⟨_ | _ | _ | _, _ | _⟩⟩ <;> rfl
    all_goals rfl

/-- The text of what stands in a place. -/
theorem print_place_cloneDeep (c : Child Node) :
    ((c.map cloneDeep).toOption.map print).getD "" = (c.toOption.map print).getD "" := by
  cases c with
  | node n => exact print_cloneDeep n
  | _ => rfl

theorem argumentOf?_map_cloneDeep (c : Child Node) :
    argumentOf? (c.map cloneDeep) = argumentOf? c := by
  rcases c with _ | _ | ⟨k, ss, l⟩
  · rfl
  · rfl
  · rw [Child.map_node, cloneDeep_mk]
    cases k
    case inputValueDefinition =>
      rcases ss with _ | ⟨_ | _ | desc | _, ss⟩ <;> try rfl
      rcases ss with _ | ⟨_ | _ | name | _, ss⟩ <;> try rfl
      rcases ss with _ | ⟨_ | _ | type | _, ss⟩ <;> try rfl
      rcases ss with _ | ⟨_ | _ | default | _, ss⟩ <;> try rfl
      rcases ss with _ | ⟨_ | _ | _ | dirs, _ | _⟩ <;> try rfl
      simp only [List.map_cons, List.map_nil, Slot.map, argumentOf?, Child.nameText_map_cloneDeep,
        descriptionOf_map_cloneDeep, refIn_map_cloneDeep, Child.isFilled_map,
        print_place_cloneDeep]
    all_goals rfl

theorem mapM_map_cloneDeep {β : Type} {f : Child Node → Option β}
    (h : ∀ c, f (c.map cloneDeep) = f c) (cs : List (Child Node)) :
    (cs.map (Child.map cloneDeep)).mapM f = cs.mapM f := by
  rw [List.mapM_map]
  exact congrArg (cs.mapM ·) (funext h)

theorem directiveOf?_map_cloneDeep (c : Child Node) :
    directiveOf? (c.map cloneDeep) = directiveOf? c := by
  rcases c with _ | _ | ⟨k, ss, l⟩
  · rfl
  · rfl
  · rw [Child.map_node, cloneDeep_mk]
    cases k
    case directiveDefinition =>
      rcases ss with _ | ⟨_ | _ | desc | _, ss⟩ <;> try rfl
      rcases ss with _ | ⟨_ | _ | name | _, ss⟩ <;> try rfl
      rcases ss with _ | ⟨_ | _ | _ | args, ss⟩ <;> try rfl
      rcases ss with _ | ⟨_ | repeatable | _ | _, ss⟩ <;> try rfl
      rcases ss with _ | ⟨_ | _ | _ | locs, _ | _⟩ <;> try rfl
      simp only [List.map_cons, List.map_nil, Slot.map, directiveOf?, Child.nameText_map_cloneDeep,
        descriptionOf_map_cloneDeep, mapM_map_cloneDeep argumentOf?_map_cloneDeep, List.map_map,
        Function.comp_def]
    all_goals rfl

theorem directiveTable?_cloneDeep (s : Option Schema) (doc : Node) :
    directiveTable? s doc.cloneDeep = directiveTable? s doc := by
  unfold directiveTable?
  rw [placesOf_cloneDeep, mapM_map_cloneDeep directiveOf?_map_cloneDeep]

theorem lookupIn_cloneDeep (s : Option Schema) (doc : Node) :
    lookupIn s doc.cloneDeep = lookupIn s doc := by
  unfold lookupIn directivesOf
  rw [directiveTable?_cloneDeep]

theorem fragmentName?_cloneDeep (n : Node) : fragmentName? n.cloneDeep = fragmentName? n := by
  obtain ⟨k, ss, l⟩ := n
  rw [cloneDeep_mk]
  cases k
  case fragmentDefinition =>
    rcases ss with _ | ⟨_ | _ | (_ | _ | ⟨k, ns, _⟩) | _, ss⟩ <;> try rfl
    simp only [List.map_cons, Slot.map, Child.map_node, cloneDeep_mk]
    cases k
    case name =>
      rcases ns with _ | ⟨_ | _ | _ | _, _ | _⟩ <;> try rfl
      rcases ss with _ | ⟨_ | _ | _ | vars, ss⟩ <;> try rfl
      rcases ss with _ | ⟨_ | _ | cond | _, ss⟩ <;> try rfl
      rcases ss with _ | ⟨_ | _ | _ | dirs, ss⟩ <;> try rfl
      rcases ss with _ | ⟨_ | _ | sel | _, _ | _⟩ <;> try rfl
    all_goals rfl
  all_goals rfl

theorem mapM_toOption_cloneDeep : ∀ cs : List (Child Node),
    (cs.map (Child.map cloneDeep)).mapM Child.toOption =
      (cs.mapM Child.toOption).map (List.map cloneDeep)
  | [] => rfl
  | c :: cs => by
    have ih := mapM_toOption_cloneDeep cs
    cases c with
    | node n =>
      rw [List.map_cons, List.mapM_cons, List.mapM_cons, ih]
      cases cs.mapM Child.toOption <;> rfl
    | _ => rfl

theorem fragmentTable?_cloneDeep (doc : Node) :
    fragmentTable? doc.cloneDeep =
      (fragmentTable? doc).map (List.map fun f => (f.1, f.2.cloneDeep)) := by
  unfold fragmentTable?
  rw [placesOf_cloneDeep, mapM_toOption_cloneDeep]
  cases (placesOf .fragmentDefinition doc).mapM Child.toOption with
  | none => rfl
  | some ns =>
    simp [List.filterMap_map, List.map_filterMap, Function.comp_def, fragmentName?_cloneDeep]

namespace Context

theorem withFragments_unlocated (c : Context) :
    c.unlocated.withFragments = c.withFragments.unlocated := by
  have hdoc := fragmentTable?_cloneDeep c.document
  cases ht : c.fragmentTable with
  | some t => simp [withFragments, unlocated, ht]
  | none =>
    cases hd : fragmentTable? c.document <;>
      simp [withFragments, unlocated, ht, hdoc, hd, breakDown]

theorem withDirectives_unlocated (c : Context) :
    c.unlocated.withDirectives = c.withDirectives.unlocated := by
  have hdoc := directiveTable?_cloneDeep c.schema c.document
  cases ht : c.directiveTable with
  | some t => simp [withDirectives, unlocated, ht]
  | none =>
    cases hd : directiveTable? c.schema c.document <;>
      simp [withDirectives, unlocated, ht, hdoc, hd, breakDown]

theorem lookup_map_cloneDeep (name : String) : ∀ table : List (String × Node),
    (table.map fun f => (f.1, f.2.cloneDeep)).lookup name = (table.lookup name).map cloneDeep
  | [] => rfl
  | (m, n) :: table => by
    rw [List.map_cons, List.lookup_cons, List.lookup_cons, lookup_map_cloneDeep name table]
    cases name == m <;> rfl

theorem fragment_unlocated (c : Context) (name : String) :
    c.unlocated.fragment name =
      ((c.fragment name).1.map cloneDeep, (c.fragment name).2.unlocated) := by
  rw [fragment, fragment, withFragments_unlocated]
  refine Prod.ext ?_ rfl
  cases ht : c.withFragments.fragmentTable with
  | none => simp [unlocated, ht]
  | some table => simpa [unlocated, ht] using lookup_map_cloneDeep name table

theorem directive_unlocated (c : Context) (name : String) :
    c.unlocated.directive name = ((c.directive name).1, (c.directive name).2.unlocated) := by
  rw [directive, directive, withDirectives_unlocated]
  rfl

end Context

/-! ### What rules do at clones -/

namespace Rule

open Context

/-- A problem of a node, reported for its clone. -/
theorem report_clone (c : Context) (r : Rule) (message : String) (n : Node) :
    c.unlocated.report (r.problem message [.node n.cloneDeep]) =
      (c.report (r.problem message [.node n])).unlocated :=
  c.report_unlocated (r.problem message [.node n])

theorem namePlace_map_cloneDeep (c : Child Node) :
    namePlace (c.map cloneDeep) = (namePlace c).map cloneDeep := by
  cases c <;> rfl

theorem checkTypeName_unlocated (s : Schema) (n : Node) (c : Context) :
    checkTypeName s n.cloneDeep c.unlocated = (checkTypeName s n c).unlocated := by
  have hreport := fun message => report_clone c knownTypeNames message n
  obtain ⟨k, ss, l⟩ := n
  rw [cloneDeep_mk] at hreport ⊢
  cases k
  case namedType =>
    rcases ss with _ | ⟨_ | _ | name | _, _ | _⟩ <;> try rfl
    simp only [List.map_cons, List.map_nil, Slot.map, checkTypeName,
      name.nameText_map_cloneDeep] at hreport ⊢
    split_ifs
    · rfl
    · exact hreport _
  all_goals rfl

theorem checkConditionOf_unlocated (fragment : String) (cond : Node) (c : Context) :
    checkConditionOf fragment cond.cloneDeep c.unlocated =
      (checkConditionOf fragment cond c).unlocated := by
  unfold checkConditionOf
  rw [show c.unlocated.schema = c.schema from rfl, resolve?_cloneDeep, print_cloneDeep]
  cases resolve? c.schema cond with
  | none => rfl
  | some ref =>
    dsimp only
    split_ifs
    · rfl
    · exact report_clone c _ _ cond

theorem checkCondition_unlocated (n : Node) (c : Context) :
    checkCondition n.cloneDeep c.unlocated = (checkCondition n c).unlocated := by
  obtain ⟨k, ss, l⟩ := n
  rw [cloneDeep_mk]
  cases k
  case inlineFragment =>
    rcases ss with _ | ⟨_ | _ | (_ | _ | cond) | _, ss⟩ <;> try rfl
    rcases ss with _ | ⟨_ | _ | _ | dirs, ss⟩ <;> try rfl
    rcases ss with _ | ⟨_ | _ | sel | _, _ | _⟩ <;> try rfl
    exact checkConditionOf_unlocated "Fragment" cond c
  case fragmentDefinition =>
    rcases ss with _ | ⟨_ | _ | name | _, ss⟩ <;> try rfl
    rcases ss with _ | ⟨_ | _ | _ | vars, ss⟩ <;> try rfl
    rcases ss with _ | ⟨_ | _ | (_ | _ | cond) | _, ss⟩ <;> try rfl
    rcases ss with _ | ⟨_ | _ | _ | dirs, ss⟩ <;> try rfl
    rcases ss with _ | ⟨_ | _ | sel | _, _ | _⟩ <;> try rfl
    simp only [List.map_cons, List.map_nil, Slot.map, Child.map_node, checkCondition,
      name.nameText_map_cloneDeep]
    exact checkConditionOf_unlocated ("Fragment " ++ Text.quote name.nameText) cond c
  all_goals rfl

theorem firstMet?_unlocated (slot : Nat) (name : String) (memory : Memory) :
    firstMet? slot name (unlocatedMemory memory) =
      (firstMet? slot name memory).map (Child.map cloneDeep) := by
  unfold firstMet? unlocatedMemory
  rw [List.find?_map, Option.map_map, Option.map_map]
  rfl

theorem checkUnique_unlocated (slot : Nat) (n : Node) (c : Context) :
    checkUnique slot n.cloneDeep c.unlocated = (checkUnique slot n c).unlocated := by
  obtain ⟨k, ss, l⟩ := n
  rw [cloneDeep_mk]
  cases k
  case fragmentDefinition =>
    rcases ss with _ | ⟨_ | _ | name | _, ss⟩ <;> try rfl
    rcases ss with _ | ⟨_ | _ | _ | vars, ss⟩ <;> try rfl
    rcases ss with _ | ⟨_ | _ | cond | _, ss⟩ <;> try rfl
    rcases ss with _ | ⟨_ | _ | _ | dirs, ss⟩ <;> try rfl
    rcases ss with _ | ⟨_ | _ | sel | _, _ | _⟩ <;> try rfl
    simp only [List.map_cons, List.map_nil, Slot.map, checkUnique, name.nameText_map_cloneDeep,
      namePlace_map_cloneDeep, show c.unlocated.metNames = unlocatedMemory c.metNames from rfl,
      firstMet?_unlocated]
    cases firstMet? slot name.nameText c.metNames with
    | some first => exact report_unlocated c (uniqueFragmentNames.problem _ [first, namePlace name])
    | none => simp [unlocated, unlocatedMemory]
  all_goals rfl

theorem checkSpread_unlocated (n : Node) (c : Context) :
    checkSpread n.cloneDeep c.unlocated = (checkSpread n c).unlocated := by
  obtain ⟨k, ss, l⟩ := n
  rw [cloneDeep_mk]
  cases k
  case fragmentSpread =>
    rcases ss with _ | ⟨_ | _ | name | _, ss⟩ <;> try rfl
    rcases ss with _ | ⟨_ | _ | _ | dirs, _ | _⟩ <;> try rfl
    simp only [List.map_cons, List.map_nil, Slot.map, checkSpread, name.nameText_map_cloneDeep,
      namePlace_map_cloneDeep, fragment_unlocated]
    obtain ⟨found, c'⟩ := c.fragment name.nameText
    cases found with
    | some _ => rfl
    | none => exact report_unlocated c' (knownFragmentNames.problem _ [namePlace name])
  all_goals rfl

theorem checkFieldArgument_unlocated (n : Node) (c : Context) :
    checkFieldArgument n.cloneDeep c.unlocated = (checkFieldArgument n c).unlocated := by
  have hreport := fun message => report_clone c knownArgumentNames message n
  obtain ⟨k, ss, l⟩ := n
  rw [cloneDeep_mk] at hreport ⊢
  cases k
  case argument =>
    rcases ss with _ | ⟨_ | _ | name | _, ss⟩ <;> try rfl
    rcases ss with _ | ⟨_ | _ | value | _, _ | _⟩ <;> try rfl
    unfold checkFieldArgument
    rw [show c.unlocated.top = c.top from rfl]
    simp only [List.map_cons, List.map_nil, Slot.map] at hreport ⊢
    cases c.top.field with
    | none => rfl
    | some field =>
      cases c.top.parent with
      | none => rfl
      | some parent =>
        dsimp only
        rw [name.nameText_map_cloneDeep]
        split_ifs
        · rfl
        · exact hreport _
  all_goals rfl

theorem checkDirectiveArgument_unlocated (d : Directive) (c : Context) (arg : Child Node) :
    checkDirectiveArgument d c.unlocated (arg.map cloneDeep) =
      (checkDirectiveArgument d c arg).unlocated := by
  rcases arg with _ | _ | n
  · rfl
  · rfl
  · have hreport := fun message => report_clone c knownArgumentNamesOnDirectives message n
    obtain ⟨k, ss, l⟩ := n
    rw [Child.map_node, cloneDeep_mk] at *
    cases k
    case argument =>
      rcases ss with _ | ⟨_ | _ | name | _, ss⟩ <;> try rfl
      rcases ss with _ | ⟨_ | _ | value | _, _ | _⟩ <;> try rfl
      simp only [List.map_cons, List.map_nil, Slot.map, checkDirectiveArgument,
        name.nameText_map_cloneDeep] at hreport ⊢
      split_ifs
      · rfl
      · exact hreport _
    all_goals rfl

theorem checkDirectiveArguments_unlocated (n : Node) (c : Context) :
    checkDirectiveArguments n.cloneDeep c.unlocated = (checkDirectiveArguments n c).unlocated := by
  obtain ⟨k, ss, l⟩ := n
  rw [cloneDeep_mk]
  cases k
  case directive =>
    rcases ss with _ | ⟨_ | _ | name | _, ss⟩ <;> try rfl
    rcases ss with _ | ⟨_ | _ | _ | args, _ | _⟩ <;> try rfl
    simp only [List.map_cons, List.map_nil, Slot.map, checkDirectiveArguments,
      name.nameText_map_cloneDeep, directive_unlocated]
    obtain ⟨found, c'⟩ := c.directive name.nameText
    cases found with
    | none => rfl
    | some d =>
      dsimp only
      rw [List.foldl_map]
      exact List.foldl_hom unlocated fun c a => checkDirectiveArgument_unlocated d c a
  all_goals rfl

/-! ### Required arguments -/

theorem isNonNullPlace_map_cloneDeep (c : Child Node) :
    isNonNullPlace (c.map cloneDeep) = isNonNullPlace c := by
  cases c with
  | node n => exact congrArg (· == Kind.nonNullType) (kind_cloneDeep n)
  | _ => rfl

theorem requiredArgument?_map_cloneDeep (c : Child Node) :
    requiredArgument? (c.map cloneDeep) = requiredArgument? c := by
  rcases c with _ | _ | ⟨k, ss, l⟩
  · rfl
  · rfl
  · rw [Child.map_node, cloneDeep_mk]
    cases k
    case inputValueDefinition =>
      rcases ss with _ | ⟨_ | _ | desc | _, ss⟩ <;> try rfl
      rcases ss with _ | ⟨_ | _ | name | _, ss⟩ <;> try rfl
      rcases ss with _ | ⟨_ | _ | type | _, ss⟩ <;> try rfl
      rcases ss with _ | ⟨_ | _ | default | _, ss⟩ <;> try rfl
      rcases ss with _ | ⟨_ | _ | _ | dirs, _ | _⟩ <;> try rfl
      simp only [List.map_cons, List.map_nil, Slot.map, requiredArgument?,
        Child.nameText_map_cloneDeep, isNonNullPlace_map_cloneDeep, Child.isFilled_map,
        print_place_cloneDeep]
    all_goals rfl

theorem requiredInDocument?_map_cloneDeep (c : Child Node) :
    requiredInDocument? (c.map cloneDeep) = requiredInDocument? c := by
  rcases c with _ | _ | ⟨k, ss, l⟩
  · rfl
  · rfl
  · rw [Child.map_node, cloneDeep_mk]
    cases k
    case directiveDefinition =>
      rcases ss with _ | ⟨_ | _ | desc | _, ss⟩ <;> try rfl
      rcases ss with _ | ⟨_ | _ | name | _, ss⟩ <;> try rfl
      rcases ss with _ | ⟨_ | _ | _ | args, ss⟩ <;> try rfl
      rcases ss with _ | ⟨_ | repeatable | _ | _, ss⟩ <;> try rfl
      rcases ss with _ | ⟨_ | _ | _ | locs, _ | _⟩ <;> try rfl
      simp only [List.map_cons, List.map_nil, Slot.map, requiredInDocument?,
        Child.nameText_map_cloneDeep, mapM_map_cloneDeep requiredArgument?_map_cloneDeep]
    all_goals rfl

theorem requiredTable?_unlocated (c : Context) :
    requiredTable? c.unlocated = requiredTable? c := by
  unfold requiredTable?
  rw [show c.unlocated.document = c.document.cloneDeep from rfl, placesOf_cloneDeep,
    mapM_map_cloneDeep requiredInDocument?_map_cloneDeep]
  rfl

theorem argumentName?_map_cloneDeep (c : Child Node) :
    argumentName? (c.map cloneDeep) = argumentName? c := by
  rcases c with _ | _ | ⟨k, ss, l⟩
  · rfl
  · rfl
  · rw [Child.map_node, cloneDeep_mk]
    cases k
    case argument =>
      rcases ss with _ | ⟨_ | _ | name | _, ss⟩ <;> try rfl
      rcases ss with _ | ⟨_ | _ | value | _, _ | _⟩ <;> try rfl
      exact congrArg some name.nameText_map_cloneDeep
    all_goals rfl

theorem checkProvided_unlocated (table : List (String × Required)) (n : Node) (c : Context) :
    checkProvided table n.cloneDeep c.unlocated = (checkProvided table n c).unlocated := by
  have hreport := fun c message => report_clone c providedRequiredArgumentsOnDirectives message n
  obtain ⟨k, ss, l⟩ := n
  rw [cloneDeep_mk] at hreport ⊢
  cases k
  case directive =>
    rcases ss with _ | ⟨_ | _ | name | _, ss⟩ <;> try rfl
    rcases ss with _ | ⟨_ | _ | _ | args, _ | _⟩ <;> try rfl
    simp only [List.map_cons, List.map_nil, Slot.map, checkProvided, name.nameText_map_cloneDeep,
      mapM_map_cloneDeep argumentName?_map_cloneDeep] at hreport ⊢
    cases (table.reverse.lookup name.nameText).getD [] with
    | nil => rfl
    | cons r required =>
      cases args.mapM argumentName? with
      | none => rfl
      | some provided =>
        exact List.foldl_hom unlocated fun c r => hreport c _
  all_goals rfl

/-- **What a rule does at a clone** when it is entered. -/
theorem atEnter_unlocated (r : Rule) (n : Node) (slot : Nat) (c : Context) :
    r.atEnter n.cloneDeep slot c.unlocated = (r.atEnter n slot c).unlocated := by
  cases r with
  | fragmentsOnCompositeTypes => exact checkCondition_unlocated n c
  | knownArgumentNames =>
    simp only [atEnter, checkDirectiveArguments_unlocated, checkFieldArgument_unlocated]
  | knownArgumentNamesOnDirectives => exact checkDirectiveArguments_unlocated n c
  | knownFragmentNames => exact checkSpread_unlocated n c
  | knownTypeNames =>
    rw [atEnter, atEnter, show c.unlocated.schema = c.schema from rfl]
    cases c.schema with
    | none => rfl
    | some s => exact checkTypeName_unlocated s n c
  | providedRequiredArgumentsOnDirectives => rfl
  | uniqueFragmentNames => exact checkUnique_unlocated slot n c

/-- **What a rule does at a clone** when it is left. -/
theorem atLeave_unlocated (r : Rule) (n : Node) (slot : Nat) (c : Context) :
    r.atLeave n.cloneDeep slot c.unlocated = (r.atLeave n slot c).unlocated := by
  cases r with
  | providedRequiredArgumentsOnDirectives =>
    rw [atLeave, atLeave, requiredTable?_unlocated, checkProvided_unlocated]
  | _ => rfl

end Rule

/-! ### Routes through clones -/

/-- A step at the clone of its node. -/
def cloneStep : Step → Step
  | .enter n above => .enter n.cloneDeep (above.map cloneDeep)
  | .leave n above => .leave n.cloneDeep (above.map cloneDeep)
  | .abandon n above => .abandon n.cloneDeep (above.map cloneDeep)

/-- A route through clones. -/
def cloneRoute (r : Route) : Route := ⟨r.steps.map cloneStep, r.tooDeep.map cloneDeep⟩

theorem routeAll_cloneDeep (maxDepth : Int) (above : List Node) : ∀ ns : List Node,
    (∀ n ∈ ns, route maxDepth (above.map cloneDeep) n.cloneDeep.rose =
      cloneRoute (route maxDepth above n.rose)) →
    routeAll maxDepth (above.map cloneDeep) (ns.map fun n => n.cloneDeep.rose) =
      cloneRoute (routeAll maxDepth above (ns.map rose))
  | [], _ => by
    rw [List.map_nil, List.map_nil, routeAll, routeAll]
    rfl
  | n :: ns, h => by
    rw [List.forall_mem_cons] at h
    have ih := routeAll_cloneDeep maxDepth above ns h.2
    rw [List.map_cons, List.map_cons, routeAll, routeAll, h.1, ih]
    cases hdeep : (route maxDepth above n.rose).tooDeep <;> simp [cloneRoute, hdeep]

/-- **The route through a clone** is the route through the node, step by step at clones. -/
theorem route_cloneDeep (maxDepth : Int) (n : Node) : ∀ above : List Node,
    route maxDepth (above.map cloneDeep) n.cloneDeep.rose =
      cloneRoute (route maxDepth above n.rose) := by
  induction n using induct with
  | step n ih =>
    intro above
    have hinner := routeAll_cloneDeep maxDepth (n :: above) n.children fun m hm => ih m hm _
    rw [rose_eq, rose_eq n, children_cloneDeep, List.map_map, route, route, List.length_map]
    rw [List.map_cons] at hinner
    simp only [Function.comp_def, hinner]
    split_ifs with hpast hdeep hdeep' hdeep'
    all_goals simp_all [cloneRoute, cloneStep]

/-! ### Rules along routes through clones -/

/-- A rule with what it remembers, without locations. -/
def unlocatedCrew (x : Rule × Memory) : Rule × Memory := (x.1, unlocatedMemory x.2)

section Clones

variable (s : Option Schema) (doc : Node)

/-- The state in which a rule acts alone on a path of clones. -/
theorem alone_cloneDeep (path : List Node) (memory : Memory) :
    alone s doc.cloneDeep (framesAt s (lookupIn s doc.cloneDeep) (path.map cloneDeep))
        (unlocatedMemory memory) =
      (alone s doc (framesAt s (lookupIn s doc) path) memory).unlocated := by
  rw [lookupIn_cloneDeep, framesAt_cloneDeep]
  rfl

/-- **What a rule makes of a step at a clone**, without locations. -/
theorem act_unlocated (st : Step) (x : Rule × Memory) :
    act s doc.cloneDeep (cloneStep st) (unlocatedCrew x) = (act s doc st x).unlocated := by
  obtain ⟨r, memory⟩ := x
  cases st with
  | enter n above =>
    exact (congrArg (r.atEnter n.cloneDeep 0) (alone_cloneDeep s doc (n :: above) memory)).trans
      (r.atEnter_unlocated n 0 _)
  | leave n above =>
    exact (congrArg (r.atLeave n.cloneDeep 0) (alone_cloneDeep s doc (n :: above) memory)).trans
      (r.atLeave_unlocated n 0 _)
  | abandon n above => exact alone_cloneDeep s doc (n :: above) memory

theorem memoryOf_unlocated (slot : Nat) (c : Context) :
    c.unlocated.memoryOf slot = unlocatedMemory (c.memoryOf slot) := by
  unfold Context.memoryOf
  rw [show c.unlocated.metNames = unlocatedMemory c.metNames from rfl]
  simp [unlocatedMemory, List.filter_map, Function.comp_def]

theorem remember_unlocated (st : Step) (x : Rule × Memory) :
    remember s doc.cloneDeep (cloneStep st) (unlocatedCrew x) =
      unlocatedCrew (remember s doc st x) := by
  rw [remember, act_unlocated, memoryOf_unlocated]
  rfl

theorem map_remember_unlocated (st : Step) (crew : List (Rule × Memory)) :
    (crew.map unlocatedCrew).map (remember s doc.cloneDeep (cloneStep st)) =
      (crew.map (remember s doc st)).map unlocatedCrew := by
  rw [List.map_map, List.map_map]
  exact List.map_congr_left fun x _ => remember_unlocated s doc st x

theorem findings_cloneDeep : ∀ (steps : List Step) (crew : List (Rule × Memory)),
    findings s doc.cloneDeep (steps.map cloneStep) (crew.map unlocatedCrew) =
      (findings s doc steps crew).map Problem.unlocated
  | [], _ => rfl
  | st :: steps, crew => by
    rw [List.map_cons, findings, findings, map_remember_unlocated, findings_cloneDeep steps,
      List.map_append, List.flatMap_map, List.map_flatMap]
    simp only [act_unlocated]
    rfl

theorem lacksPart_cloneDeep (st : Step) :
    lacksPart s doc.cloneDeep (cloneStep st) = lacksPart s doc st := by
  cases st with
  | enter n above =>
    rw [cloneStep, lacksPart, lacksPart, kind_cloneDeep, directiveTable?_cloneDeep,
      resolvable_cloneDeep]
  | _ => rfl

theorem breaking_cloneDeep : ∀ (steps : List Step) (crew : List (Rule × Memory)),
    breaking s doc.cloneDeep (steps.map cloneStep) (crew.map unlocatedCrew) =
      breaking s doc steps crew
  | [], _ => rfl
  | st :: steps, crew => by
    rw [List.map_cons, breaking, breaking, map_remember_unlocated, breaking_cloneDeep steps,
      lacksPart_cloneDeep, List.any_map]
    simp only [Function.comp_def, act_unlocated]
    rfl

theorem unprepared_cloneDeep (r : Rule) : unprepared s doc.cloneDeep r = unprepared s doc r := by
  have h : Rule.requiredTable? (alone s doc.cloneDeep [] []) =
      Rule.requiredTable? (alone s doc [] []) :=
    Rule.requiredTable?_unlocated (alone s doc [] [])
  rw [unprepared, unprepared, h]

/-- **The validation of a clone** finds clones of the problems. -/
theorem validate_cloneDeep (rules : List Rule) (maxDepth : Int) :
    validate s doc.cloneDeep rules maxDepth =
      (validate s doc rules maxDepth).map (List.map Problem.unlocated) := by
  have hroute : route maxDepth [] doc.cloneDeep.rose = cloneRoute (route maxDepth [] doc.rose) :=
    route_cloneDeep maxDepth doc []
  have hfresh : fresh rules = (fresh rules).map unlocatedCrew := by
    rw [fresh, List.map_map]
    rfl
  have hfails : fails s doc.cloneDeep rules maxDepth = fails s doc rules maxDepth := by
    rw [fails, fails, hroute, hfresh, cloneRoute, breaking_cloneDeep, ← hfresh,
      funext (unprepared_cloneDeep s doc)]
  have hfound : found s doc.cloneDeep rules maxDepth =
      (found s doc rules maxDepth).map Problem.unlocated := by
    rw [found, found, hroute, hfresh, cloneRoute, findings_cloneDeep, ← hfresh]
  have hdeep : tooDeep doc.cloneDeep maxDepth = (tooDeep doc maxDepth).map Problem.unlocated := by
    rw [tooDeep, tooDeep, hroute, cloneRoute]
    cases (route maxDepth [] doc.rose).tooDeep <;> rfl
  rw [validate_eq, validate_eq, hfails, hfound, hdeep]
  split_ifs
  · rfl
  · rw [Option.map_some, List.map_append]

end Clones

/-! ### Equal documents -/

/-- What a problem says: its message and the rule that found it. -/
def Problem.verdict (p : Problem) : String × String := (p.message, p.rule)

theorem map_verdict_unlocated (es : List Problem) :
    (es.map Problem.unlocated).map Problem.verdict = es.map Problem.verdict :=
  List.map_map ..

/-- Two documents have results that say the same, problem by problem. -/
def SameVerdict (s : Option Schema) (rules : List Rule) (maxDepth : Int) (a b : Node) : Prop :=
  ∃ ea eb, validate s a rules maxDepth = some ea ∧ validate s b rules maxDepth = some eb ∧
    ea.map Problem.verdict = eb.map Problem.verdict

/-- Documents with the same clone get the same verdict, or none has a result. -/
theorem verdict_congr (s : Option Schema) (rules : List Rule) (maxDepth : Int) {a b : Node}
    (h : a.cloneDeep = b.cloneDeep) :
    (validate s a rules maxDepth).map (List.map Problem.verdict) =
      (validate s b rules maxDepth).map (List.map Problem.verdict) := by
  have hcopies := validate_cloneDeep s a rules maxDepth
  rw [h, validate_cloneDeep] at hcopies
  have hverdicts := congrArg (Option.map (List.map Problem.verdict)) hcopies
  simpa only [Option.map_map, Function.comp_def, map_verdict_unlocated] using hverdicts.symm

theorem sameVerdict_of_cloneDeep (s : Option Schema) (rules : List Rule) (maxDepth : Int)
    {a b : Node} (ha : a.Whole) (hb : b.Whole) (hta : Resolvable s a) (htb : Resolvable s b)
    (h : a.cloneDeep = b.cloneDeep) : SameVerdict s rules maxDepth a b := by
  have hverdict := verdict_congr s rules maxDepth h
  rw [validate_of_whole s ha hta, validate_of_whole s hb htb] at hverdict
  exact ⟨_, _, validate_of_whole s ha hta rules maxDepth, validate_of_whole s hb htb rules maxDepth,
    Option.some.inj hverdict⟩

/-- The types in a text have names, so they can be resolved. -/
theorem resolvable_of_parseDocument (s : Option Schema) {text : String} {doc : Node}
    (h : parseDocument text = .ok doc) : Resolvable s doc :=
  resolvable_of_typeNamed s (typeNamed_of_parseDocument h)

/-- **Validation depends only on the structure of documents.** Whole documents that are equal get
the same verdict, with and without a schema, for all rules and under every depth limit: if no type
of the schema has the empty name they have results of the same length that say the same, problem by
problem; and with such a type neither has a result, or both have results that say the same. The
clone of a document has a result exactly when the document has one, and it says the same. Texts that
are read as equal documents always have results, and these say the same. -/
theorem validate_equal (s : Option Schema) (rules : List Rule) (maxDepth : Int) :
    (∀ a b : Node, a.Whole → b.Whole → a.equal b = true →
      ((∀ sch ∈ s, "" ∉ sch.typeNames) → SameVerdict s rules maxDepth a b) ∧
        (validate s a rules maxDepth).map (List.map Problem.verdict) =
          (validate s b rules maxDepth).map (List.map Problem.verdict)) ∧
    (∀ doc : Node, (validate s doc.cloneDeep rules maxDepth).map (List.map Problem.verdict) =
      (validate s doc rules maxDepth).map (List.map Problem.verdict)) ∧
    ∀ text text' a b, parseDocument text = .ok a → parseDocument text' = .ok b →
      a.equal b = true → SameVerdict s rules maxDepth a b := by
  refine ⟨fun a b ha hb h => ?_, fun doc => ?_, fun text text' a b ha hb h => ?_⟩
  · have hclone := ((Node.equal_iff ha hb).mp h).1
    exact ⟨fun hs => sameVerdict_of_cloneDeep s rules maxDepth ha hb (resolvable_of_nonempty hs a)
      (resolvable_of_nonempty hs b) hclone, verdict_congr s rules maxDepth hclone⟩
  · exact verdict_congr s rules maxDepth (Node.cloneDeep_cloneDeep doc)
  · have hwhole := whole_of_parseDocument ha
    have hwhole' := whole_of_parseDocument hb
    exact sameVerdict_of_cloneDeep s rules maxDepth hwhole hwhole'
      (resolvable_of_parseDocument s ha) (resolvable_of_parseDocument s hb)
      ((Node.equal_iff hwhole hwhole').mp h).1

/-- The document `twinFragments` at another place of a text. -/
def movedTwins : Node := .mk .document twinFragments.slots (some ⟨2, 60, 1, 3, .document⟩)

theorem validate_equal_movedTwins : twinFragments ≠ movedTwins ∧ twinFragments.Whole ∧
    movedTwins.Whole ∧ twinFragments.equal movedTwins = true ∧
    (∀ sch ∈ (none : Option Schema), "" ∉ sch.typeNames) ∧
    SameVerdict none Rule.all 0 twinFragments movedTwins := by
  have hw : twinFragments.Whole := by decide
  have hw' : movedTwins.Whole := by decide
  have he : twinFragments.equal movedTwins = true :=
    (Node.equal_iff hw hw').mpr ⟨rfl, by decide⟩
  have hs : ∀ sch ∈ (none : Option Schema), "" ∉ sch.typeNames := nofun
  refine ⟨fun h => ?_, hw, hw', he, hs, ((validate_equal none Rule.all 0).1 _ _ hw hw' he).1 hs⟩
  have hloc : twinFragments.loc = movedTwins.loc := congrArg Node.loc h
  cases hloc

/-- A query with a variable whose type has no name. -/
def unnamedType : Node :=
  .document [.node (.operationDefinition "query" .absent
    [.node (.variableDefinition (.node (.var (.node (.name "v" none)) none))
      (.node (.namedType .absent none)) .absent [] none)] [] .absent none)] none

/-- The schema of one object type. -/
def oneType (name : String) : Schema := { types := [{ name, kind := .object }] }

/-- A type without a name breaks the validation down where the schema has a type of that name, and
a variable of a fragment, whose type is unknown, is not printed. -/
theorem not_sameVerdict :
    (unnamedType.Whole ∧ unnamedType.equal unnamedType = true ∧
      validate (some (oneType "")) unnamedType [] 0 = none) ∧
    ∃ doc doc', parseDocument "fragment F($x: Missing) on Query \x7b a \x7d" = .ok doc ∧
      parseDocument doc.print = .ok doc' ∧
        ¬ SameVerdict (some (oneType "Query")) [.knownTypeNames] 0 doc doc' := by
  constructor
  · have hw : unnamedType.Whole := by decide
    refine ⟨hw, (Node.equal_iff hw hw).mpr ⟨rfl, by decide⟩, ?_⟩
    have hnone : (validate (some (oneType "")) unnamedType [] 0).isNone = true := by decide +kernel
    exact Option.isNone_iff_eq_none.mp hnone
  · let found (doc : Node) : Option Nat :=
      (validate (some (oneType "Query")) doc [.knownTypeNames] 0).map List.length
    have hfound : ((parseDocument "fragment F($x: Missing) on Query \x7b a \x7d").toOption.bind
        fun doc => (parseDocument doc.print).toOption.map fun doc' => (found doc, found doc')) =
          some (some 1, some 0) := by
      decide +kernel
    obtain ⟨doc, hdoc, hfound⟩ := Option.bind_eq_some_iff.mp hfound
    obtain ⟨doc', hdoc', hfound⟩ := Option.map_eq_some_iff.mp hfound
    obtain ⟨hone, hzero⟩ := Prod.mk.inj hfound
    refine ⟨doc, doc', eq_ok_of_toOption hdoc, eq_ok_of_toOption hdoc', ?_⟩
    rintro ⟨ea, eb, ha, hb, hsame⟩
    have hea : ea.length = 1 := by simpa [found, ha] using hone
    have heb : eb.length = 0 := by simpa [found, hb] using hzero
    have hlength := congrArg List.length hsame
    rw [List.length_map, List.length_map, hea, heb] at hlength
    cases hlength

end QueryCheck.Validation
