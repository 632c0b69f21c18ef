import QueryCheck.Proofs.Validation.Single

/-! # Names of types

Two rules look at the types a document names. One looks the name of every named type up, wherever it
stands; the other resolves the condition of every fragment and asks for a composite type. A
condition that names no type at all is left to the first rule, so every condition gets one verdict.

* `namedTypes`, `typeConditions`: what the two rules look at.
* `unknownIn`, `otherIn`, `compositeIn`: what a name is in a schema.
* `validate_typeNames`: what the two rules report. -/

namespace QueryCheck.Validation

open QueryCheck.Schema
open QueryCheck.Syntax
open QueryCheck.Typing
open QueryCheck.Walk
open QueryCheck.Written (TypeKind)
open Context

/-! ### Named types and conditions -/

/-- The named types of a document, in the order in which they stand in it. -/
def namedTypes (doc : Node) : List Node := doc.rose.labels.filter fun n => n.kind == .namedType

/-- The conditions of the fragments of a document, in order. -/
def typeConditions (doc : Node) : List Node := doc.rose.labels.filterMap typeCondition?

/-- Whether a schema has no type of the given name. -/
def unknownIn (s : Schema) (name : String) : Bool := !s.typeNames.contains name

/-- Whether a name is that of an object, an interface or a union of a schema. -/
def compositeIn (s : Schema) (name : String) : Bool :=
  (s.type? name).any fun t => [.object, .interface, .union].contains t.kind

/-- Whether a name is that of a type of a schema that is neither an object nor an interface nor a
union. -/
def otherIn (s : Schema) (name : String) : Bool :=
  (s.type? name).any fun t => !([.object, .interface, .union].contains t.kind)

theorem isSome_type?_iff (s : Schema) (name : String) :
    (s.type? name).isSome ↔ name ∈ s.typeNames := by
  rw [Schema.type?, List.find?_isSome, Schema.typeNames, List.mem_map]
  simp only [beq_iff_eq]

theorem unknownIn_eq (s : Schema) (name : String) : unknownIn s name = (s.type? name).isNone := by
  rw [unknownIn, ← Option.not_isSome, Bool.not_inj_iff, Bool.eq_iff_iff, List.contains_iff_mem]
  exact (isSome_type?_iff s name).symm

/-- The conditions of a typed document are among its named types. -/
theorem mem_namedTypes_of_mem_typeConditions {doc cond : Node} (hdoc : doc.Typed)
    (h : cond ∈ typeConditions doc) : cond ∈ namedTypes doc := by
  obtain ⟨n, hn, hcond⟩ := List.mem_filterMap.mp h
  obtain ⟨hchild, name, l, rfl⟩ := exists_namedType_of_typeCondition? (hdoc.below n hn) hcond
  refine List.mem_filter.mpr ⟨Node.labels_subset hn ?_, rfl⟩
  exact Node.mem_labels_of_child hchild _ (Node.mem_labels_self _)

/-! ### The two rules -/

namespace Rule

theorem finds_checkTypeName (s : Schema) {n : Node} (hn : n.typed = true) (c : Context) :
    Finds [knownTypeNames]
      (([n].filter fun n => unknownIn s (typeNameOf n) && n.kind == .namedType).map
        fun n => [.node n]) c (checkTypeName s n c) := by
  by_cases hk : n.kind = .namedType
  · obtain ⟨name, l, rfl, -⟩ := Node.eq_namedType_of_typed hn hk
    have hplaces : (([Node.namedType name l].filter fun n =>
        unknownIn s (typeNameOf n) && n.kind == .namedType).map fun n => [Child.node n]) =
          if (s.type? name.nameText).isSome then [] else [[.node (.namedType name l)]] := by
      cases h : s.type? name.nameText <;> simp [unknownIn_eq, typeNameOf, Node.kind, h]
    rw [hplaces]
    exact .report_unless (List.mem_singleton_self _) _ _ _ c
  · rw [onlyAt_checkTypeName s n c hk, List.filter_cons_of_neg (by simp [hk])]
    exact .nothing c

/-- A condition is resolved, and it may be one if it is unknown or composite. -/
theorem exists_resolve?_condition {s : Schema} (hs : "" ∉ s.typeNames) (name : Child Node)
    (l : Option Location) : ∃ ref, resolve? (some s) (.namedType name l) = some ref ∧
      mayCondition (some s) ref = !otherIn s name.nameText := by
  have hcomposite : ∀ t : NamedType,
      t.isComposite = [.object, .interface, .union].contains t.kind := by
    intro t
    rw [NamedType.isComposite]
    cases t.kind <;> rfl
  refine ⟨_, resolve?_namedType (by simpa using hs) name l, ?_⟩
  rw [show Schema.typeOf? (some s) name.nameText = s.type? name.nameText from rfl, otherIn]
  cases h : s.type? name.nameText with
  | none => rfl
  | some t =>
    have htype : Schema.typeOf? (some s) name.nameText = some t := h
    simp [mayCondition, TypeRef.namedType, htype, hcomposite]

theorem finds_checkCondition {s : Schema} (hs : "" ∉ s.typeNames) {n : Node} (hn : n.Typed)
    {c : Context} (hc : c.schema = some s) :
    Finds [fragmentsOnCompositeTypes]
      (((typeCondition? n).toList.filter fun cond => otherIn s (typeNameOf cond)).map
        fun cond => [.node cond]) c (checkCondition n c) := by
  have hcheck : ∀ fragment cond, (∃ name l, cond = Node.namedType name l) →
      Finds [fragmentsOnCompositeTypes]
        (([cond].filter fun cond => otherIn s (typeNameOf cond)).map fun cond => [.node cond]) c
        (checkConditionOf fragment cond c) := by
    rintro fragment _ ⟨name, l, rfl⟩
    obtain ⟨ref, href, hmay⟩ := exists_resolve?_condition hs name l
    have hplaces : (([Node.namedType name l].filter fun cond =>
        otherIn s (typeNameOf cond)).map fun cond => [Child.node cond]) =
          if mayCondition (some s) ref then [] else [[.node (.namedType name l)]] := by
      rw [hmay]
      cases h : otherIn s name.nameText <;> simp [typeNameOf, h]
    rw [checkConditionOf, hc, href, hplaces]
    exact .report_unless (List.mem_singleton_self _) _ _ _ c
  unfold checkCondition
  split
  · exact hcheck _ _ (exists_namedType_of_typeCondition? hn rfl).2
  · exact hcheck _ _ (exists_namedType_of_typeCondition? hn rfl).2
  · next hinline hdefinition =>
    have hnone : typeCondition? n = none := by
      unfold typeCondition?
      split
      · exact absurd rfl (hinline _ _ _ _)
      · exact absurd rfl (hdefinition _ _ _ _ _ _)
      · rfl
    rw [hnone]
    exact .nothing c

end Rule

section Rules

variable (s : Schema) {doc : Node} (hdoc : doc.Typed)

include hdoc

/-- The rule on type names finds the named types that the schema does not have. -/
theorem looks_knownTypeNames :
    Looks (some s) doc .knownTypeNames [.knownTypeNames] fun n _ =>
      ([n].filter fun n => unknownIn s (typeNameOf n) && n.kind == .namedType).map
        fun n => [.node n] where
  leaving _ _ _ := rfl
  entering x hx _ :=
    Rule.finds_checkTypeName s (hdoc x.1 (Node.mem_labels_of_mem_spots hx)) _

/-- The rule on conditions finds those that name other types than composite ones. -/
theorem looks_fragmentsOnCompositeTypes (hs : "" ∉ s.typeNames) :
    Looks (some s) doc .fragmentsOnCompositeTypes [.fragmentsOnCompositeTypes] fun n _ =>
      ((typeCondition? n).toList.filter fun cond => otherIn s (typeNameOf cond)).map
        fun cond => [.node cond] where
  leaving _ _ _ := rfl
  entering x hx _ :=
    Rule.finds_checkCondition hs (hdoc.below x.1 (Node.mem_labels_of_mem_spots hx)) rfl

end Rules

/-- Without a schema both rules find nothing. -/
theorem looks_without_schema (doc : Node) {r : Rule}
    (hr : r ∈ [.knownTypeNames, .fragmentsOnCompositeTypes]) :
    Looks none doc r [r] fun _ _ => [] := by
  rcases List.mem_pair.mp hr with rfl | rfl
  · exact ⟨fun _ _ _ => rfl, fun _ _ _ => .nothing _⟩
  · refine ⟨fun _ _ _ => rfl, fun x _ memory => ?_⟩
    generalize hc : alone none doc (framesAt none (lookupIn none doc) (x.1 :: x.2)) memory = c
    have hcheck : ∀ fragment cond, Rule.checkConditionOf fragment cond c = c := by
      intro fragment cond
      rw [Rule.checkConditionOf, show c.schema = none from hc ▸ rfl, resolve?_none]
      rfl
    have hsame : Rule.checkCondition x.1 c = c := by
      unfold Rule.checkCondition
      split
      · exact hcheck _ _
      · exact hcheck _ _
      · rfl
    rw [Rule.atEnter, hsame]
    exact .nothing c

/-! ### Verdicts -/

/-- A name is unknown, that of a composite type or that of another type, and only one of these. -/
theorem one_verdict (s : Schema) (name : String) :
    (unknownIn s name = true ∧ otherIn s name = false ∧ compositeIn s name = false) ∨
      (unknownIn s name = false ∧ otherIn s name = true ∧ compositeIn s name = false) ∨
        (unknownIn s name = false ∧ otherIn s name = false ∧ compositeIn s name = true) := by
  rw [unknownIn_eq, otherIn, compositeIn]
  cases s.type? name with
  | none => exact .inl ⟨rfl, rfl, rfl⟩
  | some t =>
    refine .inr ?_
    simp only [Option.isNone_some, Option.any_some, true_and]
    cases [TypeKind.object, .interface, .union].contains t.kind
    · exact .inl ⟨rfl, rfl⟩
    · exact .inr ⟨rfl, rfl⟩

/-- A place is among those of some nodes if and only if its node is among them. -/
theorem mem_map_node_iff {ns : List Node} {n : Node} :
    [Child.node n] ∈ ns.map (fun m => [Child.node m]) ↔ n ∈ ns := by
  simp

/-- **Each type condition gets one verdict, each unknown type name is reported once.** The rule on
type names reports the named types of a document that the schema does not have, the rule on
fragments the conditions that name a type of the schema other than an object, an interface or a
union, both in order and once each. Every condition is reported by one of the rules or names a
composite type of the schema. No type of the schema may have the empty name. Without a schema
nothing is reported. -/
theorem validate_typeNames {doc : Node} (hdoc : doc.Typed) (hgapless : doc.Gapless)
    {rules : List Rule} (hrules : rules.Perm [.knownTypeNames, .fragmentsOnCompositeTypes])
    {maxDepth : Int} (hdepth : maxDepth ≤ 0) :
    (∀ s : Schema, "" ∉ s.typeNames → ∃ ps, validate (some s) doc rules maxDepth = some ps ∧
      (∀ p ∈ ps, p.rule = Rule.knownTypeNames.name ∨
        p.rule = Rule.fragmentsOnCompositeTypes.name) ∧
      reportedBy .knownTypeNames ps =
        ((namedTypes doc).filter fun n => unknownIn s (typeNameOf n)).map (fun n => [.node n]) ∧
      reportedBy .fragmentsOnCompositeTypes ps =
        ((typeConditions doc).filter fun n => otherIn s (typeNameOf n)).map (fun n => [.node n]) ∧
      ∀ cond ∈ typeConditions doc,
        ([.node cond] ∈ reportedBy .knownTypeNames ps ∧
          [.node cond] ∉ reportedBy .fragmentsOnCompositeTypes ps ∧
            compositeIn s (typeNameOf cond) = false) ∨
        ([.node cond] ∉ reportedBy .knownTypeNames ps ∧
          [.node cond] ∈ reportedBy .fragmentsOnCompositeTypes ps ∧
            compositeIn s (typeNameOf cond) = false) ∨
        ([.node cond] ∉ reportedBy .knownTypeNames ps ∧
          [.node cond] ∉ reportedBy .fragmentsOnCompositeTypes ps ∧
            compositeIn s (typeNameOf cond) = true)) ∧
    validate none doc rules maxDepth = some [] := by
  have hnodup : rules.Nodup := hrules.nodup_iff.mpr (by decide)
  have hmem : ∀ {r}, r ∈ rules ↔ r ∈ [.knownTypeNames, .fragmentsOnCompositeTypes] :=
    hrules.mem_iff
  have htable : ∀ s, (directiveTable? s doc).isSome := fun s =>
    (directiveTable?_isSome_iff s hdoc).mpr (complete_of_gapless hdoc hgapless)
  constructor
  · intro s hs
    have hnames := looks_knownTypeNames s hdoc
    have hconditions := looks_fragmentsOnCompositeTypes s hdoc hs
    have htypes : Resolvable (some s) doc := resolvable_of_nonempty (by simpa using hs) doc
    obtain ⟨ps, hvalidate, hsigned, hreported⟩ := exists_reportedBy hnodup hdepth (fun r hr => by
      rcases List.mem_pair.mp (hmem.mp hr) with rfl | rfl
      · exact ⟨by decide, _, hnames⟩
      · exact ⟨by decide, _, hconditions⟩) (htable (some s)) htypes
    have hknown := hreported _ (hmem.mpr (by decide)) _ hnames
    rw [Node.flatMap_spots_filter fun n => [n], List.flatMap_singleton', ← List.filter_filter,
      ← namedTypes] at hknown
    have hother := hreported _ (hmem.mpr (by decide)) _ hconditions
    rw [Node.flatMap_spots_filter fun n => (typeCondition? n).toList,
      ← List.filterMap_eq_flatMap_toList, ← typeConditions] at hother
    refine ⟨ps, hvalidate, fun p hp => ?_, hknown, hother, fun cond hcond => ?_⟩
    · obtain ⟨r, hr, hp⟩ := hsigned p hp
      rcases List.mem_pair.mp (hmem.mp hr) with rfl | rfl
      · exact .inl hp
      · exact .inr hp
    · rw [hknown, hother, mem_map_node_iff, mem_map_node_iff, List.mem_filter, List.mem_filter]
      have hnamed := mem_namedTypes_of_mem_typeConditions hdoc hcond
      simpa [hcond, hnamed] using one_verdict s (typeNameOf cond)
  · obtain ⟨ps, hvalidate, hsigned, hreported⟩ := exists_reportedBy hnodup hdepth (fun r hr => by
      refine ⟨?_, _, looks_without_schema doc (hmem.mp hr)⟩
      rcases List.mem_pair.mp (hmem.mp hr) with rfl | rfl <;> decide) (htable none)
      (resolvable_of_nonempty (by simp) doc)
    have hnil : ps = [] := by
      refine List.eq_nil_iff_forall_not_mem.mpr fun p hp => ?_
      obtain ⟨r, hr, hp'⟩ := hsigned p hp
      have hnone := hreported r hr _ (looks_without_schema doc (hmem.mp hr))
      have hin : p.nodes ∈ reportedBy r ps :=
        List.mem_map_of_mem (List.mem_filter.mpr ⟨hp, beq_iff_eq.mpr hp'⟩)
      rw [hnone, List.flatMap_eq_nil_iff.mpr fun _ _ => rfl] at hin
      cases hin
    rw [hvalidate, hnil]

/-- A reference to a named type, without a location. -/
def typeNamed (name : String) : Node := .namedType (.node (.name name none)) none

/-- A query with a variable of an unknown type and with three fragments: on a type that is not
composite, on one that is, and on an unknown one. -/
def conditionedQuery : Node :=
  let on (type : String) : Node :=
    .inlineFragment (.node (typeNamed type)) [] (.node (.selectionSet [] none)) none
  let listed : Node :=
    .variableDefinition (.node (.var (.node (.name "v" none)) none))
      (.node (.listType (.node (.nonNullType (.node (typeNamed "Gone")) none)) none)) .absent [] none
  let fragments : Node :=
    .selectionSet [.node (on "Size"), .node (on "Thing"), .node (on "Lost")] none
  .document [.node (.operationDefinition "query" .absent [.node listed] []
    (.node fragments) none)] none

/-- A schema with a composite type and another one. -/
def sizedThings : Schema :=
  { types := [{ name := "Size", kind := .scalar }, { name := "Thing", kind := .object }] }

theorem validate_typeNames_conditionedQuery :
    conditionedQuery.Typed ∧ conditionedQuery.Gapless ∧
      [Rule.fragmentsOnCompositeTypes, .knownTypeNames].Perm
        [.knownTypeNames, .fragmentsOnCompositeTypes] ∧ (0 : Int) ≤ 0 ∧
      "" ∉ sizedThings.typeNames ∧
      ∃ ps, validate (some sizedThings) conditionedQuery
          [.fragmentsOnCompositeTypes, .knownTypeNames] 0 = some ps ∧
        reportedBy .knownTypeNames ps =
          [[.node (typeNamed "Gone")], [.node (typeNamed "Lost")]] ∧
        reportedBy .fragmentsOnCompositeTypes ps = [[.node (typeNamed "Size")]] := by
  have hdoc : conditionedQuery.Typed := by decide
  have hgapless : conditionedQuery.Gapless := by decide
  have hrules : [Rule.fragmentsOnCompositeTypes, .knownTypeNames].Perm
      [.knownTypeNames, .fragmentsOnCompositeTypes] := .swap ..
  obtain ⟨hschema, -⟩ := validate_typeNames hdoc hgapless hrules (Int.le_refl 0)
  have hs : "" ∉ sizedThings.typeNames := by decide
  obtain ⟨ps, hvalidate, -, hknown, hother, -⟩ := hschema sizedThings hs
  refine ⟨hdoc, hgapless, hrules, Int.le_refl 0, hs, ps, hvalidate, ?_, ?_⟩
  · rw [hknown]
    rfl
  · rw [hother]
    rfl

end QueryCheck.Validation
