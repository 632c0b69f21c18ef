import QueryCheck.Proofs.Typing.Scope
import QueryCheck.Proofs.Validation.Single

/-! # Names of arguments

The rule on argument names looks at the arguments of a directive when it enters the directive, and
at the argument of a field when it enters the argument, with what the frames of the walk know. Taken
together it reports the arguments that are not declared where they are given, in the order in which
they stand in the document.

* `undeclared`: whether an argument is not declared where it is given.
* `flatMap_reportedAt`: what is reported at the nodes of a document.
* `validate_argumentNames`: what the rule reports. -/

namespace QueryCheck.Validation

open QueryCheck.Schema
open QueryCheck.Syntax
open QueryCheck.Syntax.Node (Lineage)
open QueryCheck.Typing
open QueryCheck.Walk
open Context

/-! ### Arguments that are not declared -/

/-- Whether a node below others is an argument that is not declared where it is given: by the
directive of the name that is used, or by the field of the scope that is selected. Directives and
fields that are not known declare nothing that an argument could miss. -/
def undeclared (s : Option Schema) (doc : Node) : Node × List Node → Bool
  | (.argument name _ _, .directive used _ _ :: _) =>
    (Context.directive { schema := s, document := doc } used.nameText).1.any fun d =>
      !(InputValue.names d.arguments).contains name.nameText
  | (.argument name _ _, .field _ field _ _ _ _ :: above) =>
    ((scopeOf s above).bind fun t => selected? s t field.nameText).any fun f =>
      !(InputValue.names f.arguments).contains name.nameText
  | _ => false

/-- Whether the innermost of some nodes is a directive. -/
def inDirective (above : List Node) : Bool := above.head?.any fun n => n.kind == .directive

theorem inDirective_cons (n : Node) (above : List Node) :
    inDirective (n :: above) = (n.kind == .directive) := rfl

/-- What the rule on argument names reports when it enters a node. The arguments of a directive are
reported with the directive. -/
def reportedAt (s : Option Schema) (doc : Node) (n : Node) (above : List Node) :
    List (List (Child Node)) :=
  if n.kind = .directive then
    (n.children.filter fun a => undeclared s doc (a, n :: above)).map fun a => [.node a]
  else if inDirective above then []
  else if undeclared s doc (n, above) then [[.node n]] else []

theorem isSome_find?_eq (values : List InputValue) (name : String) :
    (InputValue.find? values name).isSome = (InputValue.names values).contains name := by
  rw [InputValue.find?, InputValue.names, Bool.eq_iff_iff, List.find?_isSome,
    List.contains_iff_mem, List.mem_map]
  simp only [beq_iff_eq]

section Undeclared

variable {s : Option Schema} {doc : Node}

theorem undeclared_of_kind_ne {n : Node} (hk : n.kind ≠ .argument) (above : List Node) :
    undeclared s doc (n, above) = false := by
  unfold undeclared
  split
  · next h => exact absurd (congrArg (·.1.kind) h) hk
  · next h => exact absurd (congrArg (·.1.kind) h) hk
  · rfl

theorem reportedAt_of_kind_ne {n : Node} (hargument : n.kind ≠ .argument)
    (hdirective : n.kind ≠ .directive) (above : List Node) : reportedAt s doc n above = [] := by
  rw [reportedAt, if_neg hdirective, undeclared_of_kind_ne hargument]
  simp

/-- Below a part of a directive there are no arguments and no directives. -/
theorem kind_of_mem_spots_part {m : Node} {above : List Node}
    (hm : ∀ k ∈ m.children, k.All fun x => x.kind.inArgument = true) :
    ∀ x ∈ m.children.flatMap (Node.spots (m :: above)),
      x.1.kind ≠ .argument ∧ x.1.kind ≠ .directive := by
  intro x hx
  obtain ⟨k, hk, hx⟩ := List.mem_flatMap.mp hx
  have hin : x.1.kind.inArgument = true := hm k hk x.1 (Node.mem_labels_of_mem_spots hx)
  constructor <;> intro he <;> rw [he] at hin <;> cases hin

/-- All that is reported of a directive and of the nodes below it is reported with the directive. -/
theorem flatMap_reportedAt_directive {n : Node} (hn : n.Typed) (hk : n.kind = .directive)
    (above : List Node) :
    ((n.spots above).flatMap fun x => reportedAt s doc x.1 x.2) =
      ((n.spots above).filter (undeclared s doc)).map fun x => [.node x.1] := by
  have hparts := hn.below_directive hk
  have hquiet : ∀ m ∈ n.children,
      ((m.spots (n :: above)).flatMap fun x => reportedAt s doc x.1 x.2) = [] := by
    intro m hm
    obtain ⟨hpart, hbelow⟩ := hparts m hm
    have hne : m.kind ≠ .directive := by rcases hpart with h | h <;> rw [h] <;> decide
    have hin : inDirective (n :: above) = true := by simp [inDirective_cons, hk]
    rw [Node.spots_eq, List.flatMap_cons, reportedAt, if_neg hne, if_pos hin, List.nil_append,
      List.flatMap_eq_nil_iff]
    intro x hx
    obtain ⟨hargument, hdirective⟩ := kind_of_mem_spots_part hbelow x hx
    exact reportedAt_of_kind_ne hargument hdirective x.2
  -- of a part and the nodes below it only the part itself can be an argument
  have hown : ∀ m ∈ n.children, (m.spots (n :: above)).filter (undeclared s doc) =
      [(m, n :: above)].filter (undeclared s doc) := by
    intro m hm
    have hnil : (m.children.flatMap (Node.spots (m :: n :: above))).filter (undeclared s doc) = [] :=
      List.filter_eq_nil_iff.mpr fun x hx => by
        rw [undeclared_of_kind_ne (kind_of_mem_spots_part (hparts m hm).2 x hx).1 x.2]
        exact Bool.false_ne_true
    rw [Node.spots_eq, ← List.singleton_append, List.filter_append, hnil, List.append_nil]
  have hself : undeclared s doc (n, above) = false :=
    undeclared_of_kind_ne (by rw [hk]; decide) above
  rw [Node.spots_eq, List.flatMap_cons, List.flatMap_assoc, List.flatMap_eq_nil_iff.mpr hquiet,
    List.append_nil, List.filter_cons_of_neg (by simp [hself]), List.filter_flatMap,
    List.flatMap_congr hown, ← List.filter_flatMap, ← List.map_eq_flatMap, List.filter_map,
    List.map_map, reportedAt, if_pos hk]
  rfl

/-- **What is reported at the nodes of a document** are the arguments that are not declared where
they are given, in the order in which they stand in it. -/
theorem flatMap_reportedAt (n : Node) : ∀ above, n.Typed → inDirective above = false →
    ((n.spots above).flatMap fun x => reportedAt s doc x.1 x.2) =
      ((n.spots above).filter (undeclared s doc)).map fun x => [.node x.1] := by
  induction n using Node.induct with
  | step n ih =>
    intro above hn habove
    -- the arguments of a directive are reported before they are entered, so it is taken as a whole
    by_cases hk : n.kind = .directive
    · exact flatMap_reportedAt_directive hn hk above
    · have hin : inDirective (n :: above) = false := by simp [inDirective_cons, hk]
      rw [Node.spots_eq, List.flatMap_cons, List.flatMap_assoc, reportedAt, if_neg hk, habove,
        List.flatMap_congr fun m hm => ih m hm (n :: above) (hn.child hm) hin, List.filter_cons,
        List.filter_flatMap]
      cases undeclared s doc (n, above) <;> simp [List.map_flatMap]

/-! ### The rule -/

theorem undeclared_directive (given value name : Child Node) (args : List (Child Node))
    (l l' : Option Location) (above : List Node) :
    undeclared s doc (.argument given value l', .directive name args l :: above) =
      (lookupIn s doc name.nameText).any fun d =>
        !(InputValue.names d.arguments).contains given.nameText := by
  rw [← directive_fst]
  rfl

/-- What is reported at a directive is told argument by argument. -/
theorem reportedAt_directive {name : Child Node} {args : List (Child Node)} {l : Option Location}
    (hname : ∀ m ∈ name.toOption, m.kind = .name) (above : List Node) :
    reportedAt s doc (.directive name args l) above = args.flatMap fun a =>
      (a.toOption.toList.filter fun m =>
        undeclared s doc (m, .directive name args l :: above)).map fun m => [.node m] := by
  have hchildren : (Node.directive name args l).children =
      name.toOption.toList ++ args.flatMap fun a => a.toOption.toList := by
    simp [Node.children_eq, Node.slots, Slot.children, List.filterMap_eq_flatMap_toList]
  have hnone : (name.toOption.toList.filter fun m =>
      undeclared s doc (m, .directive name args l :: above)) = [] :=
    List.filter_eq_nil_iff.mpr fun m hm => by
      rw [undeclared_of_kind_ne (by rw [hname m (Option.mem_toList.mp hm)]; decide)]
      exact Bool.false_ne_true
  have hkind : (Node.directive name args l).kind = .directive := rfl
  rw [reportedAt, if_pos hkind, hchildren, List.filter_append, hnone, List.nil_append,
    List.filter_flatMap, List.map_flatMap]

/-- The check at a directive makes the table of directives and goes through the arguments, if the
directive is in it. -/
theorem checkDirectiveArguments_eq {c : Context} (hc : c.Coherent) (name : Child Node)
    (args : List (Child Node)) (l : Option Location) :
    Rule.checkDirectiveArguments (.directive name args l) c =
      match lookupIn c.schema c.document name.nameText with
      | some d => args.foldl (Rule.checkDirectiveArgument d) c.withDirectives
      | none => c.withDirectives := by
  rw [Rule.checkDirectiveArguments, directive_eq hc, lookupIn]
  cases findDirective (directivesOf c.schema c.document) name.nameText <;> rfl

/-- The check at a directive reports its arguments that are not declared. -/
theorem finds_checkDirectiveArguments (htable : (directiveTable? s doc).isSome) {n : Node}
    (hn : n.Typed) (hgapless : n.Gapless) (hk : n.kind = .directive) (above : List Node)
    {c : Context} (hc : c.Coherent) (hschema : c.schema = s) (hdocument : c.document = doc) :
    Finds [.knownArgumentNames, .knownArgumentNamesOnDirectives] (reportedAt s doc n above) c
      (Rule.checkDirectiveArguments n c) := by
  obtain ⟨name, args, l, rfl, hname, -⟩ := Node.eq_directive_of_typed hn.typed hk
  subst hschema hdocument
  have hmake : Finds [.knownArgumentNames, .knownArgumentNamesOnDirectives] [] c c.withDirectives :=
    .withDirectives hc htable
  have hform := Node.exists_argument hn hgapless
  rw [reportedAt_directive hname, checkDirectiveArguments_eq hc]
  cases hfound : lookupIn c.schema c.document name.nameText with
  | none =>
    rw [List.flatMap_eq_nil_iff.mpr]
    · exact hmake
    · intro a ha
      obtain ⟨given, value, l', rfl⟩ := hform a ha
      simp [Child.toOption, undeclared_directive, hfound]
  | some d =>
    refine hmake.trans (.foldl _ fun a ha c' => ?_)
    obtain ⟨given, value, l', rfl⟩ := hform a ha
    have hkeep : undeclared c.schema c.document
        (.argument given value l', .directive name args l :: above) =
          !(d.argument? given.nameText).isSome := by
      rw [undeclared_directive, hfound, Directive.argument?, isSome_find?_eq, Option.any_some]
    have hplaces : ((Child.node (Node.argument given value l')).toOption.toList.filter fun m =>
        undeclared c.schema c.document (m, .directive name args l :: above)).map
          (fun m => [Child.node m]) =
            if (d.argument? given.nameText).isSome then []
            else [[.node (.argument given value l')]] := by
      rw [Child.toOption, Option.toList_some, List.filter_cons, hkeep]
      cases (d.argument? given.nameText).isSome <;> rfl
    rw [hplaces]
    exact .report_unless (by decide) _ _ _ c'

/-- The check at an argument leaves those of directives alone. -/
theorem checkFieldArgument_of_inDirective {n : Node} {c : Context}
    (hc : c.top.inDirective = true) : Rule.checkFieldArgument n c = c := by
  unfold Rule.checkFieldArgument
  split
  · rw [hc, Bool.true_or, if_pos rfl]
  · rfl

/-- The check at an argument of a field reports it if the field that is selected does not declare
it. -/
theorem finds_checkFieldArgument (given value : Child Node) (l : Option Location) {c : Context}
    {scope : Option NamedType} {name : String} (houtside : c.top.inDirective = false)
    (hparent : c.top.parent = scope)
    (hfield : c.top.field = scope.bind fun t => selected? s t name)
    (hargument : c.top.argument = c.top.field.bind (·.argument? given.nameText)) :
    Finds [.knownArgumentNames, .knownArgumentNamesOnDirectives]
      (if (scope.bind fun t => selected? s t name).any fun f =>
          !(InputValue.names f.arguments).contains given.nameText
        then [[.node (.argument given value l)]] else []) c
      (Rule.checkFieldArgument (.argument given value l) c) := by
  rw [← hfield]
  cases hsel : c.top.field with
  | none =>
    have hsame : Rule.checkFieldArgument (.argument given value l) c = c := by
      simp only [Rule.checkFieldArgument, hsel]
    rw [hsame]
    exact .nothing c
  | some f =>
    obtain ⟨t, ht, -⟩ := Option.bind_eq_some_iff.mp (hfield.symm.trans hsel)
    rw [hsel] at hargument
    simp only [Rule.checkFieldArgument, hsel, hparent, ht, houtside, hargument, Bool.false_or,
      Option.bind_some, Option.any_some, Field.argument?, isSome_find?_eq]
    by_cases h : (InputValue.names f.arguments).contains given.nameText
    · rw [if_pos h, if_neg (by rw [h]; decide)]
      exact .nothing c
    · rw [if_neg h, if_pos (by rw [Bool.not_eq_true', Bool.eq_false_iff]; exact h)]
      exact .report (by decide) _ _ c

/-- The check at an argument reports what is to be reported there. -/
theorem finds_checkArgument (hs : ∀ sch ∈ s, "" ∉ sch.typeNames) (hdoc : doc.Typed)
    (hkind : doc.kind = .document) {n : Node} {above : List Node}
    (hpath : Lineage doc (n :: above)) (hk : n.kind = .argument) {c : Context}
    (hc : c.top = frameAt s (lookupIn s doc) (n :: above)) :
    Finds [.knownArgumentNames, .knownArgumentNamesOnDirectives] (reportedAt s doc n above) c
      (Rule.checkFieldArgument n c) := by
  have htyped : ∀ m ∈ n :: above, m.Typed := Lineage.all hdoc hpath
  cases hpath with
  | root =>
    rw [hk] at hkind
    cases hkind
  | @child _ owner above owned rest =>
    rw [List.forall_mem_cons, List.forall_mem_cons] at htyped
    obtain ⟨hn, howner, -⟩ := htyped
    have hne : n.kind ≠ .directive := by rw [hk]; decide
    obtain ⟨given, value, l, rfl⟩ := Node.eq_argument_of_typed hn.typed hk
    rw [reportedAt, if_neg hne, inDirective_cons]
    rcases owner_argument (hk ▸ Node.kind_mem_owners howner.typed owned) with hfield | hdirective
    · obtain ⟨key, name, args, dirs, sel, l', rfl⟩ :=
        Node.eq_field_of_typed howner.typed hfield
      obtain ⟨hparent, hfound, houtside⟩ := frameAt_field (lookupIn s doc) hs hdoc hkind rest
      refine finds_checkFieldArgument given value l (hc ▸ houtside) (hc ▸ hparent) (hc ▸ hfound) ?_
      rw [hc]
      exact if_neg (ne_true_of_eq_false houtside)
    · obtain ⟨name, args, l', rfl, -⟩ := Node.eq_directive_of_typed howner.typed hdirective
      rw [checkFieldArgument_of_inDirective (hc ▸ rfl)]
      exact .nothing c

end Undeclared

/-- **The rule on argument names** only looks. -/
theorem looks_knownArgumentNames {s : Option Schema} {doc : Node}
    (hs : ∀ sch ∈ s, "" ∉ sch.typeNames) (hdoc : doc.Typed) (hgapless : doc.Gapless)
    (hkind : doc.kind = .document) (htable : (directiveTable? s doc).isSome) :
    Looks s doc .knownArgumentNames [.knownArgumentNames, .knownArgumentNamesOnDirectives]
      (reportedAt s doc) where
  leaving _ _ _ := rfl
  entering := by
    rintro ⟨n, above⟩ hspot memory
    have hlabel := Node.mem_labels_of_mem_spots hspot
    have hpath := Node.lineage_of_mem_spots hspot
    dsimp only
    generalize hc : alone s doc (framesAt s (lookupIn s doc) (n :: above)) memory = c
    change Finds _ _ c (Rule.checkFieldArgument n (Rule.checkDirectiveArguments n c))
    by_cases hargument : n.kind = .argument
    · have hne : n.kind ≠ .directive := by rw [hargument]; decide
      rw [Rule.onlyAt_checkDirectiveArguments n c hne]
      refine finds_checkArgument hs hdoc hkind hpath hargument ?_
      rw [← hc]
      exact top_framesAt s (lookupIn s doc) (n :: above)
    · rw [Rule.onlyAt_checkFieldArgument n _ hargument]
      by_cases hdirective : n.kind = .directive
      · subst hc
        exact finds_checkDirectiveArguments htable (hdoc.below n hlabel)
          (hgapless.below n hlabel) hdirective above (coherent_alone _ _ _ _) rfl rfl
      · rw [Rule.onlyAt_checkDirectiveArguments n c hdirective,
          reportedAt_of_kind_ne hargument hdirective]
        exact .nothing c

/-- **The rule on argument names is sound and complete.** It reports the arguments that are not
declared where they are given, every one once and in the order in which they stand in the document:
those that the directive found under the name of their directive does not declare, and those that
the field of the scope of their field does not. -/
theorem validate_argumentNames {s : Option Schema} (hs : ∀ sch ∈ s, "" ∉ sch.typeNames) {doc : Node}
    (hdoc : doc.Typed) (hgapless : doc.Gapless) (hkind : doc.kind = .document) {maxDepth : Int}
    (hdepth : maxDepth ≤ 0) :
    ∃ ps, validate s doc [.knownArgumentNames] maxDepth = some ps ∧
      ps.map Problem.nodes =
        ((doc.spots []).filter (undeclared s doc)).map fun x => [.node x.1] := by
  have htable := (directiveTable?_isSome_iff s hdoc).mpr (complete_of_gapless hdoc hgapless)
  have hlooks := looks_knownArgumentNames hs hdoc hgapless hkind htable
  have hfails : fails s doc [.knownArgumentNames] maxDepth = false := by
    refine (fails_eq_false_iff hdepth (fun r hr => ?_) fun st hst r hr memory => ?_).mpr
      ⟨fun _ => htable, resolvable_of_nonempty hs doc⟩
    · exact unprepared_of_ne (by rw [List.mem_singleton.mp hr]; decide)
    · rw [List.mem_singleton.mp hr]
      exact hlooks.unbroken hdepth st hst memory
  refine ⟨_, validate_eq_found hdepth hfails, ?_⟩
  rw [hlooks.nodes_found hdepth, flatMap_reportedAt doc [] hdoc rfl]

/-- An argument that is given nothing, without a location. -/
def argumentNamed (name : String) : Node :=
  .argument (.node (.name name none)) (.node (.nullValue none)) none

/-- A query that gives arguments to a field of the root type and of the type of its items, in a
fragment without a condition, to a field that every type has, to an unknown field, and to a known
and an unknown directive. -/
def plantedQuery : Node :=
  let given (args : List String) : List (Child Node) := args.map fun a => .node (argumentNamed a)
  let selected (name : String) (args : List String) (sel : Child Node) : Child Node :=
    .node (.field .absent (.node (.name name none)) (given args) [] sel none)
  let used (name : String) (args : List String) : Child Node :=
    .node (.directive (.node (.name name none)) (given args) none)
  let fragment : Node :=
    .inlineFragment .absent [used "include" ["if", "unless"], used "lost" ["any"]]
      (.node (.selectionSet [selected "name" ["form", "shape"] .absent] none)) none
  .document [.node (.operationDefinition "" .absent [] []
    (.node (.selectionSet [selected "plants" ["first", "last"]
      (.node (.selectionSet [.node fragment, selected "gone" ["any"] .absent,
        selected "__typename" ["short"] .absent] none))] none)) none)] none

/-- A schema with a list of things at its root. -/
def garden : Schema :=
  { query := some "Garden"
    types :=
      [{ name := "Garden", kind := .object
         fields :=
          [{ name := "plants", type := some (.list (some (.nonNull (some (.named "Plant")))))
             arguments := [{ name := "first", type := some (.named "Int") }] }] },
       { name := "Plant", kind := .interface
         fields :=
          [{ name := "name", type := some (.named "String")
             arguments := [{ name := "form", type := some (.named "Int") }] }] }]
    directives := builtinDirectives }

theorem validate_argumentNames_plantedQuery :
    (∀ sch ∈ some garden, "" ∉ sch.typeNames) ∧ plantedQuery.Typed ∧ plantedQuery.Gapless ∧
      plantedQuery.kind = .document ∧ (0 : Int) ≤ 0 ∧
      ∃ ps, validate (some garden) plantedQuery [.knownArgumentNames] 0 = some ps ∧
        ps.map Problem.nodes = [[.node (argumentNamed "last")], [.node (argumentNamed "unless")],
          [.node (argumentNamed "shape")], [.node (argumentNamed "short")]] := by
  have hs : ∀ sch ∈ some garden, "" ∉ sch.typeNames := by
    rintro _ ⟨⟩
    decide
  have hdoc : plantedQuery.Typed := by decide
  have hgapless : plantedQuery.Gapless := by decide
  obtain ⟨ps, hvalidate, hnodes⟩ := validate_argumentNames hs hdoc hgapless rfl (Int.le_refl 0)
  refine ⟨hs, hdoc, hgapless, rfl, Int.le_refl 0, ps, hvalidate, ?_⟩
  rw [hnodes]
  rfl

end QueryCheck.Validation
