import Mathlib.Data.List.Sort
import Mathlib.Data.String.Basic
import QueryCheck.Command.Listing
import QueryCheck.Proofs.Command.Verdicts
import QueryCheck.Proofs.Text.Quoted
import QueryCheck.Proofs.Validation.Directives

/-! # Listed directives and directives in use

The listing of directives and the validation of documents read the same definitions in ways of their
own: the names are collected by one, the directive of a name is found by another, and what has to be
given to a directive is read off the definitions once more. They agree.

* `lookupIn_isSome_iff`: a directive is found under each of the collected names.
* `exists_knownDirectives`: no listed directive is absent; `presentDirectives_map_some`: the listing
  does not fail.
* `missingAt_bare`: what is missing where a directive is given nothing.
* `mem_missing_iff`: the arguments a validation misses are the required ones.
* `knownDirectives_agree`: listing and validation agree. -/

namespace QueryCheck.Command

open QueryCheck.Schema (Directive InputValue)
open QueryCheck.Syntax
open QueryCheck.Text (quote)
open QueryCheck.Validation
open QueryCheck.Walk

/-! ### The listed directives -/

theorem nodup_eraseDups {α : Type} [BEq α] [LawfulBEq α] : ∀ l : List α, l.eraseDups.Nodup
  | [] => .nil
  | a :: l => by
    rw [List.eraseDups_cons, List.nodup_cons]
    refine ⟨fun h => ?_, nodup_eraseDups _⟩
    have hne := (List.mem_filter.mp (List.mem_eraseDups.mp h)).2
    simp at hne
termination_by l => l.length
decreasing_by exact Nat.lt_succ_of_le (List.length_filter_le _ _)

section Known

variable {s : Option Schema} {definitions : List Node}

theorem pairwise_knownNames : (knownNames s definitions).Pairwise (· < ·) := by
  have hsorted : (knownNames s definitions).Pairwise (· ≤ ·) := List.pairwise_mergeSort' _ _
  have hnodup : (knownNames s definitions).Nodup :=
    (List.mergeSort_perm _ _).nodup_iff.mpr (nodup_eraseDups _)
  exact (hsorted.and hnodup).imp fun ⟨hle, hne⟩ => lt_of_le_of_ne hle hne

/-- The known names are those of the directives that are known without the definitions and those of
the definitions. -/
theorem mem_knownNames {name : String} : name ∈ knownNames s definitions ↔
    name ∈ (baseDirectives s).map Directive.name ∨ name ∈ definitions.map definitionName := by
  rw [knownNames, List.mem_mergeSort, List.mem_eraseDups, List.mem_append]

theorem placesOf_documentOf (h : ReadDefinitions definitions) :
    placesOf .directiveDefinition (documentOf definitions) = placesFor definitions := by
  have hplaces : placesOf .directiveDefinition (documentWith ([] ++ definitions) none) = _ :=
    placesOf_documentWith none (by simp) fun d hd => (h d hd).1
  rwa [List.nil_append] at hplaces

/-- The names of the directives that some nodes define are the names of the nodes. -/
theorem names_of_mapM_directiveOf? : ∀ {definitions : List Node} {own : List Directive},
    ReadDefinitions definitions → (placesFor definitions).mapM directiveOf? = some own →
    own.map Directive.name = definitions.map definitionName
  | [], own, _, hown => by
    obtain rfl : [] = own := Option.some.inj hown
    rfl
  | n :: definitions, own, h, hown => by
    obtain ⟨hn, hrest⟩ := List.forall_mem_cons.mp h
    obtain ⟨desc, name, args, repeatable, locs, l, rfl, -⟩ :=
      Node.eq_directiveDefinition_of_fits hn.2.whole.fits hn.1
    rw [placesFor, List.map_cons, List.mapM_cons] at hown
    obtain ⟨d, hd, hown⟩ := Option.bind_eq_some_iff.mp hown
    obtain ⟨ds, hds, hown⟩ := Option.bind_eq_some_iff.mp hown
    obtain rfl : d :: ds = own := Option.some.inj hown
    obtain ⟨as, -, has⟩ := Option.bind_eq_some_iff.mp hd
    obtain rfl := Option.some.inj has
    rw [List.map_cons, names_of_mapM_directiveOf? hrest hds]
    rfl

/-- **A directive is found under the known names** and under no others. -/
theorem lookupIn_isSome_iff (h : ReadDefinitions definitions) {name : String} :
    (lookupIn s (documentOf definitions) name).isSome ↔ name ∈ knownNames s definitions := by
  have hwhole : (documentOf definitions).Whole := Node.whole_document fun d hd =>
    ⟨by rw [(h d hd).1]; decide, (h d hd).2.whole⟩
  obtain ⟨table, htable⟩ := Option.isSome_iff_exists.mp (directiveTable?_isSome s hwhole)
  rw [mem_knownNames, lookupIn, findDirective_isSome_iff, directivesOf, htable, Option.getD_some]
  rw [directiveTable?, placesOf_documentOf h] at htable
  obtain ⟨own, hown, htable⟩ := Option.bind_eq_some_iff.mp htable
  obtain rfl := Option.some.inj htable
  rw [List.map_append, List.mem_append, names_of_mapM_directiveOf? h hown]

theorem directive_documentOf (s : Option Schema) (definitions : List Node) (name : String) :
    (Context.directive { schema := s, document := documentOf definitions } name).1 =
      lookupIn s (documentOf definitions) name :=
  congrArg Prod.fst (directive_eq (Context.coherent_alone s _ [] []) name)

/-- What is found under names that are all known: directives of these names. -/
theorem exists_map_findDirective (table : List Directive) : ∀ names : List String,
    (∀ name ∈ names, (findDirective table name).isSome) →
      ∃ ds : List Directive, names.map (findDirective table) = ds.map some ∧
        ds.map Directive.name = names
  | [], _ => ⟨[], rfl, rfl⟩
  | name :: names, h => by
    obtain ⟨d, hd⟩ := Option.isSome_iff_exists.mp (h name List.mem_cons_self)
    obtain ⟨ds, hds, hnames⟩ :=
      exists_map_findDirective table names fun x hx => h x (List.mem_cons_of_mem _ hx)
    refine ⟨d :: ds, ?_, ?_⟩
    · rw [List.map_cons, hd, hds, List.map_cons]
    · rw [List.map_cons, name_of_findDirective hd, hnames]

/-- **No listed directive is absent**, and the listed ones are those that are found under their own
names. -/
theorem exists_knownDirectives (s : Option Schema) (h : ReadDefinitions definitions) :
    ∃ ds : List Directive, knownDirectives s definitions = ds.map some ∧
      ds.map Directive.name = knownNames s definitions ∧
      ∀ d, d ∈ ds ↔ lookupIn s (documentOf definitions) d.name = some d := by
  obtain ⟨ds, hds, hnames⟩ := exists_map_findDirective (directivesOf s (documentOf definitions))
    (knownNames s definitions) fun name hname => (lookupIn_isSome_iff h).mpr hname
  have hknown : knownDirectives s definitions = ds.map some := by
    rw [knownDirectives, ← hds]
    exact List.map_congr_left fun name _ => directive_documentOf s definitions name
  refine ⟨ds, hknown, hnames, fun d => ?_⟩
  have hmem : d ∈ ds ↔ ∃ name ∈ knownNames s definitions,
      lookupIn s (documentOf definitions) name = some d := by
    rw [← List.mem_map (f := lookupIn s (documentOf definitions)), lookupIn, hds,
      List.mem_map_of_injective (Option.some_injective _)]
  rw [hmem]
  constructor
  · rintro ⟨name, -, hd⟩
    rwa [← name_of_findDirective hd] at hd
  · intro hd
    exact ⟨d.name, (lookupIn_isSome_iff h).mp (by rw [hd]; rfl), hd⟩

/-- The listing of directives never fails for want of a directive. -/
theorem presentDirectives_map_some : ∀ ds : List Directive,
    presentDirectives (ds.map some) = .ok ds
  | [] => rfl
  | d :: ds => by
    have ih := presentDirectives_map_some ds
    rw [presentDirectives] at ih ⊢
    rw [List.map_cons, List.mapM_cons, ih]
    rfl

end Known

/-! ### Missing arguments -/

/-- The problem that a directive is not given a required argument. -/
def missingArgument (n : Node) (directive argument type : String) : Problem :=
  Rule.providedRequiredArgumentsOnDirectives.problem
    ("Directive \"@" ++ directive ++ "\" argument " ++ quote argument ++ " of type " ++ quote type
      ++ " is required but not provided.") [.node n]

/-- The problem tells the node and the argument. -/
theorem missingArgument_inj {n n' : Node} {directive a a' t t' : String}
    (h : missingArgument n directive a t = missingArgument n' directive a' t') :
    n = n' ∧ a = a' := by
  have hmessage := congrArg Problem.message h
  have hnodes := congrArg Problem.nodes h
  simp only [missingArgument, Rule.problem, String.append_assoc, String.append_right_inj]
    at hmessage
  simp only [missingArgument, Rule.problem, List.cons.injEq, Child.node.injEq, and_true] at hnodes
  exact ⟨hnodes, (Text.quote_append_inj hmessage).1⟩

open Rule (Required argumentName? checkProvided requiredTable?)

/-- The problems of the arguments that a node is not given. -/
def missingAt (table : List (String × Required)) (n : Node) : List Problem :=
  match n with
  | .directive name args _ =>
    match args.mapM argumentName? with
    | none => []
    | some provided =>
      (((table.reverse.lookup name.nameText).getD []).filter fun r => !provided.contains r.1).map
        fun r => missingArgument n name.nameText r.1 r.2
  | _ => []

theorem nodes_of_mem_missingAt {table : List (String × Required)} {n : Node} {p : Problem}
    (h : p ∈ missingAt table n) : p.nodes = [.node n] := by
  unfold missingAt at h
  split at h
  · split at h
    · cases h
    · obtain ⟨r, -, rfl⟩ := List.mem_map.mp h
      rfl
  · cases h

/-- A directive that is given nothing misses all it requires. -/
theorem missingAt_bare (table : List (String × Required)) (name : Child Node)
    (l : Option Location) : missingAt table (.directive name [] l) =
      ((table.reverse.lookup name.nameText).getD []).map fun r =>
        missingArgument (.directive name [] l) name.nameText r.1 r.2 := by
  have hall : ∀ required : Required, (required.filter fun r => !([] : List String).contains r.1) =
      required := fun required => List.filter_eq_self.mpr fun _ _ => rfl
  exact congrArg (List.map _) (hall _)

theorem problems_foldl_report {α : Type} (f : α → Problem) : ∀ (as : List α) (c : Context),
    (as.foldl (fun c a => c.report (f a)) c).problems = c.problems ++ as.map f
  | [], c => (List.append_nil _).symm
  | a :: as, c => by
    rw [List.foldl_cons, problems_foldl_report f as, Context.report, List.map_cons,
      List.append_assoc]
    rfl

theorem problems_checkProvided (table : List (String × Required)) (n : Node) (c : Context) :
    (checkProvided table n c).problems = c.problems ++ missingAt table n := by
  unfold checkProvided
  split
  · next name args l =>
    unfold missingAt
    dsimp only
    generalize (table.reverse.lookup name.nameText).getD [] = required
    unfold missingArgument
    cases hargs : args.mapM argumentName? with
    | none => cases required <;> exact (List.append_nil _).symm
    | some provided =>
      cases required with
      | nil => exact (List.append_nil _).symm
      | cons r required =>
        dsimp only
        rw [problems_foldl_report]
  · next hno =>
    have hnone : missingAt table n = [] := by
      unfold missingAt
      split
      · next name args l => exact absurd rfl (hno name args l)
      · rfl
    rw [hnone, List.append_nil]

/-- **What the check for required arguments finds**, it finds where directives are left. -/
theorem mem_findings_provided {s : Option Schema} {doc : Node} {p : Problem} :
    ∀ {steps : List Step} {memory : Memory},
      p ∈ findings s doc steps [(.providedRequiredArgumentsOnDirectives, memory)] ↔
        ∃ n above, .leave n above ∈ steps ∧ p ∈ missingAt (requiredsOf s doc) n
  | [], _ => by simp [findings]
  | st :: steps, memory => by
    rw [findings, List.mem_append, List.map_cons, List.map_nil, remember, mem_findings_provided,
      List.flatMap_cons, List.flatMap_nil, List.append_nil]
    cases st with
    | enter n above => simp [act, Rule.atEnter, Context.alone]
    | abandon n above => simp [act, Context.alone]
    | leave n above =>
      have hact : (act s doc (.leave n above)
          (.providedRequiredArgumentsOnDirectives, memory)).problems =
            missingAt (requiredsOf s doc) n := problems_checkProvided _ n _
      rw [hact]
      simp only [List.mem_cons, Step.leave.injEq]
      constructor
      · rintro (h | ⟨m, path, hm, h⟩)
        · exact ⟨n, above, .inl ⟨rfl, rfl⟩, h⟩
        · exact ⟨m, path, .inr hm, h⟩
      · rintro ⟨m, path, ⟨rfl, rfl⟩ | hm, h⟩
        · exact .inl h
        · exact .inr ⟨m, path, hm, h⟩

/-! ### Directives in use -/

/-- A document of whole operations and fragments. -/
def Executable (doc : Node) : Prop :=
  ∃ ns l, doc = documentWith ns l ∧
    ∀ n ∈ ns, (n.kind = .operationDefinition ∨ n.kind = .fragmentDefinition) ∧ n.Whole

/-- Documents that are read from texts are such. -/
theorem executable_of_parseDocument {text : String} {doc : Node}
    (h : parseDocument text = .ok doc) : Executable doc := by
  obtain ⟨ns, l, rfl, -, hns⟩ := read_parseDocument h
  exact ⟨ns, l, rfl, fun n hn => ⟨(hns n hn).kind, (hns n hn).read.whole⟩⟩

/-- A document that keeps to a limit on its depth, if there is a limit. -/
def KeepsTo (maxDepth : Int) (doc : Node) : Prop := maxDepth ≤ 0 ∨ doc.rose.height ≤ maxDepth

section Use

variable {s : Option Schema} {definitions : List Node} {doc : Node} {maxDepth : Int}

/-- A walk through a document that keeps to the limit leaves every node of its definitions, also
where other definitions stand behind them. -/
theorem exists_leave_mem_routeInside {ns : List Node} (defs : List Node) {l : Option Location}
    (h : KeepsTo maxDepth (documentWith ns l)) {n m : Node} (hm : m ∈ ns)
    (hn : n ∈ m.rose.labels) :
    ∃ above, .leave n above ∈ (routeInside maxDepth (ns ++ defs) l).steps := by
  set doc := documentWith (ns ++ defs) l
  have hnone : (routeAll maxDepth [doc] (ns.map Node.rose)).tooDeep = none := by
    by_cases hpos : maxDepth ≤ 0
    · exact tooDeep_routeAll_of_nonpos hpos _ _
    · obtain ⟨limit, rfl⟩ := Int.eq_ofNat_of_zero_le (show 0 ≤ maxDepth by omega)
      have hheight : (documentWith ns l).rose.height =
          Rose.heightOfAll (ns.map Node.rose) + 1 := by
        rw [Node.rose_eq, Rose.height]
        simp [Node.children_eq, Node.slots]
      rcases h with h | h
      · exact absurd h hpos
      · rw [hheight] at h
        refine (tooDeep_routeAll_eq_none_iff (by omega) _ [doc] ?_).mpr ?_
        all_goals
          rw [List.length_singleton]
          omega
  have hlabels : n ∈ Rose.labelsOfAll (ns.map Node.rose) := by
    rw [Node.labelsOfAll_eq, List.flatMap_map]
    exact List.mem_flatMap.mpr ⟨m, hm, hn⟩
  obtain ⟨above, habove⟩ := exists_leave_mem_routeAll maxDepth _ [doc] hnone n hlabels
  refine ⟨above, ?_⟩
  rw [routeInside, List.map_append, routeAll_append, hnone, Option.isSome_none,
    if_neg Bool.false_ne_true]
  exact List.mem_append_left _ habove

/-- What is missing where a directive is given nothing: what the directive found under its name
requires. -/
theorem exists_missingArgument_iff (hdoc : doc.Whole) (name : Child Node) (l : Option Location)
    (a : String) :
    (∃ t, missingArgument (.directive name [] l) name.nameText a t ∈
        missingAt (requiredsOf s doc) (.directive name [] l)) ↔
      ∃ d ∈ lookupIn s doc name.nameText, ∃ v ∈ d.arguments, v.name = a ∧ v.isRequired = true := by
  rw [missingAt_bare, requiredsOf_eq s hdoc.typed hdoc.typeGiven, lookup_requiredOf]
  show (∃ t, _ ∈ (((lookupIn s doc name.nameText).map fun d => (Rule.requiredOf d).2).getD []).map
    _) ↔ _
  cases lookupIn s doc name.nameText with
  | none => simp
  | some d =>
    simp only [Option.map_some, Option.getD_some, Option.mem_some_iff, exists_eq_left',
      Rule.requiredOf, List.map_map, List.mem_map, List.mem_filter]
    constructor
    · rintro ⟨t, v, ⟨hv, hrequired⟩, heq⟩
      exact ⟨v, hv, (missingArgument_inj heq).2, hrequired⟩
    · rintro ⟨v, hv, rfl, hrequired⟩
      exact ⟨_, v, ⟨hv, hrequired⟩, rfl⟩

/-- **The arguments that are missing** where a directive is given nothing are those required by the
directive that is found under its name. -/
theorem mem_missing_iff (hs : ∀ sch ∈ s, "" ∉ sch.typeNames) (hdefs : ReadDefinitions definitions)
    (hdoc : Executable doc) (hdepth : KeepsTo maxDepth doc) {name : Child Node}
    {l : Option Location} (huse : .directive name [] l ∈ doc.rose.labels) (a : String) :
    (∃ es, validate s (doc.appendDefinitions (placesFor definitions))
        [.providedRequiredArgumentsOnDirectives] maxDepth = some es ∧
      ∃ t, missingArgument (.directive name [] l) name.nameText a t ∈ es) ↔
      ∃ d ∈ lookupIn s (documentOf definitions) name.nameText,
        ∃ v ∈ d.arguments, v.name = a ∧ v.isRequired = true := by
  obtain ⟨ns, dl, rfl, hns⟩ := hdoc
  set n : Node := .directive name [] l
  have hextended : (documentWith ns dl).appendDefinitions (placesFor definitions) =
      documentWith (ns ++ definitions) dl := by
    show Node.document (ns.map .node ++ definitions.map .node) dl = _
    rw [← List.map_append]
  have hall : ∀ m ∈ ns ++ definitions, m.kind ∈ Family.definition.kinds ∧ m.Whole := by
    refine List.forall_mem_append.mpr ⟨fun m hm => ⟨?_, (hns m hm).2⟩, fun m hm => ⟨?_,
      (hdefs m hm).2.whole⟩⟩
    · rcases (hns m hm).1 with hk | hk <;> rw [hk] <;> decide
    · rw [(hdefs m hm).1]
      decide
  have hlookup : lookupIn s (documentOf definitions) =
      lookupIn s (documentWith (ns ++ definitions) dl) := by
    refine lookupIn_eq ?_
    rw [placesOf_documentOf hdefs, placesOf_documentWith dl _ fun d hd => (hdefs d hd).1]
    · rfl
    · intro m hm
      rcases (hns m hm).1 with hk | hk <;> rw [hk] <;> decide
  -- The node is not the document itself, so it stands in one of the definitions.
  obtain ⟨m, hm, hnm⟩ : ∃ m ∈ ns, n ∈ m.rose.labels := by
    rw [Node.labels_eq, List.mem_cons] at huse
    rcases huse with huse | huse
    · have hkind : Kind.directive = Kind.document := congrArg Node.kind huse
      cases hkind
    · simpa [Node.children_eq, Node.slots] using huse
  obtain ⟨above, habove⟩ := exists_leave_mem_routeInside definitions hdepth hm hnm
  rw [hextended, hlookup, ← exists_missingArgument_iff (Node.whole_document hall),
    validate_documentWith s _ maxDepth _ dl hall (Typing.resolvable_of_nonempty hs _)]
  constructor
  · rintro ⟨es, hes, t, ht⟩
    obtain rfl := Option.some.inj hes
    refine ⟨t, ?_⟩
    rcases List.mem_append.mp ht with ht | ht
    · obtain ⟨n', above', -, hmem⟩ := mem_findings_provided.mp ht
      have hnode := nodes_of_mem_missingAt hmem
      obtain rfl : n = n' := Child.node.inj (List.cons.inj hnode).1
      exact hmem
    · obtain ⟨n', -, heq⟩ := Option.map_eq_some_iff.mp (Option.mem_toList.mp ht)
      have hrule : maxDepthRule = Rule.providedRequiredArgumentsOnDirectives.name :=
        congrArg Problem.rule heq
      exact absurd hrule.symm (Rule.name_ne_maxDepthRule _)
  · rintro ⟨t, ht⟩
    exact ⟨_, rfl, t, List.mem_append_left _ (mem_findings_provided.mpr ⟨n, above, habove, ht⟩)⟩

/-- An argument that is listed as a required one is an argument of the listed directive. -/
theorem mem_argumentsOf_iff {ds : List Directive}
    (hds : ∀ d, d ∈ ds ↔ lookupIn s (documentOf definitions) d.name = some d) {d : Directive}
    (hd : d ∈ ds) (a : String) :
    (∃ x ∈ argumentsOf {} ds,
      x.directive = d.name ∧ x.value.name = a ∧ x.value.isRequired = true) ↔
      ∃ v ∈ d.arguments, v.name = a ∧ v.isRequired = true := by
  constructor
  · rintro ⟨x, hx, hname, hrest⟩
    obtain ⟨d', hd', hx⟩ := List.mem_flatMap.mp hx
    obtain ⟨v, hv, rfl⟩ := List.mem_map.mp hx
    -- Directives of one name are found in one place, so they are the same.
    have hfound := (hds d').mp hd'
    have hname : d'.name = d.name := hname
    rw [hname, (hds d).mp hd] at hfound
    obtain rfl := Option.some.inj hfound
    exact ⟨v, List.mem_of_mem_filter hv, hrest⟩
  · rintro ⟨v, hv, hrest⟩
    have hadmits : ({} : Filter).admits v = true := by simp [Filter.admits, Filter.admitsName]
    exact ⟨⟨d.name, v⟩, List.mem_flatMap.mpr ⟨d, hd, List.mem_map.mpr ⟨v,
      List.mem_filter.mpr ⟨hv, hadmits⟩, rfl⟩⟩, rfl, hrest⟩

end Use

/-- **The listing of directives and the validation of documents agree.** No listed directive is
absent. They come in the strict order of their names, one for every name that is known or defined,
and they are exactly the directives that are found under their names. An argument of a listed
directive is shown as required exactly when the validation of a document that uses the directive
without arguments, with the definitions behind it, reports that it is missing there. -/
theorem knownDirectives_agree (s : Option Schema) (text : String) (definitions : List Node)
    (h : parseDirectiveDefinitions text = .ok definitions) :
    ∃ ds : List Directive, knownDirectives s definitions = ds.map some ∧
      presentDirectives (knownDirectives s definitions) = .ok ds ∧
      ds.Pairwise (fun d d' => d.name < d'.name) ∧
      (∀ name, name ∈ ds.map Directive.name ↔
        name ∈ (baseDirectives s).map Directive.name ∨ name ∈ definitions.map definitionName) ∧
      (∀ name d,
        (Context.directive { schema := s, document := documentOf definitions } name).1 = some d ↔
          d ∈ ds ∧ d.name = name) ∧
      ((∀ sch ∈ s, "" ∉ sch.typeNames) →
        ∀ d ∈ ds, ∀ (a : String) (doc : Node) (maxDepth : Int) (l l' : Option Location),
        Executable doc → KeepsTo maxDepth doc →
        .directive (.node (.name d.name l)) [] l' ∈ doc.rose.labels →
        ((∃ x ∈ argumentsOf {} ds,
          x.directive = d.name ∧ x.value.name = a ∧ x.value.isRequired = true) ↔
        ∃ es, validate s (doc.appendDefinitions (placesFor definitions))
            [.providedRequiredArgumentsOnDirectives] maxDepth = some es ∧
          ∃ t, missingArgument (.directive (.node (.name d.name l)) [] l') d.name a t ∈ es)) := by
  have hdefs : ReadDefinitions definitions := read_parseDirectiveDefinitions h
  obtain ⟨ds, hknown, hnames, hfound⟩ := exists_knownDirectives s hdefs
  refine ⟨ds, hknown, ?_, ?_, fun name => ?_, fun name d => ?_,
    fun hs d hd a doc maxDepth l l' hdoc hdepth huse => ?_⟩
  · rw [hknown, presentDirectives_map_some]
  · rw [← List.pairwise_map (f := Directive.name), hnames]
    exact pairwise_knownNames
  · rw [hnames, mem_knownNames]
  · rw [directive_documentOf, hfound]
    constructor
    · intro hd
      have hname := name_of_findDirective hd
      exact ⟨by rwa [hname], hname⟩
    · rintro ⟨hd, rfl⟩
      exact hd
  · have hmissing := mem_missing_iff (s := s) hs hdefs hdoc hdepth huse a
    simp only [Child.nameText, (hfound d).mp hd, Option.mem_some_iff, exists_eq_left'] at hmissing
    rw [mem_argumentsOf_iff hfound hd]
    exact hmissing.symm

/-- A definition of a directive with a required argument and another. -/
def guardDefinition : String := "directive @guard(role: Role!, note: String) on QUERY"

/-- A use of the directive without arguments. -/
def bareGuard : Node := .directive (.node (.name "guard" none)) [] none

/-- A query with this use. -/
def guardedQuery : Node :=
  .document [.node (.operationDefinition "query" .absent [] [.node bareGuard] .absent none)] none

theorem knownDirectives_agree_guardedQuery : ∃ definitions,
    parseDirectiveDefinitions guardDefinition = .ok definitions ∧
    Executable guardedQuery ∧ KeepsTo 0 guardedQuery ∧
    ∃ es, validate none (guardedQuery.appendDefinitions (placesFor definitions))
        [.providedRequiredArgumentsOnDirectives] 0 = some es ∧
      ∃ t, missingArgument bareGuard "guard" "role" t ∈ es := by
  have hfound : ((parseDirectiveDefinitions guardDefinition).toOption.bind fun definitions =>
      (Context.directive { schema := none, document := documentOf definitions } "guard").1.map
        fun d => d.arguments.any fun v => v.name == "role" && v.isRequired) = some true := by
    decide +kernel
  obtain ⟨definitions, hdefs, hfound⟩ := Option.bind_eq_some_iff.mp hfound
  obtain ⟨d, hd, hrole⟩ := Option.map_eq_some_iff.mp hfound
  have hdefs := eq_ok_of_toOption hdefs
  obtain ⟨ds, -, -, -, -, hlookup, hagree⟩ := knownDirectives_agree none _ definitions hdefs
  obtain ⟨hknown, hname⟩ := (hlookup "guard" d).mp hd
  have hlisted : ∃ v ∈ d.arguments, v.name = "role" ∧ v.isRequired = true := by
    simpa using hrole
  have hdoc : Executable guardedQuery := ⟨[_], none, rfl, by
    simp only [List.mem_singleton, forall_eq]
    exact ⟨.inl rfl, by decide⟩⟩
  have hdepth : KeepsTo 0 guardedQuery := .inl (Int.le_refl 0)
  have huse : bareGuard ∈ guardedQuery.rose.labels :=
    Node.mem_labels_of_child (List.mem_singleton_self _) _
      (Node.mem_labels_of_child (List.mem_singleton_self _) _ (Node.mem_labels_self _))
  refine ⟨definitions, hdefs, hdoc, hdepth, ?_⟩
  have h := hagree (by simp) d hknown "role" guardedQuery 0 none none hdoc hdepth
  rw [hname] at h
  obtain ⟨v, hv, hrole⟩ := hlisted
  have hadmits : ({} : Filter).admits v = true := by simp [Filter.admits, Filter.admitsName]
  exact (h huse).mp ⟨⟨d.name, v⟩, List.mem_flatMap.mpr ⟨d, hknown, List.mem_map.mpr ⟨v,
    List.mem_filter.mpr ⟨hv, hadmits⟩, rfl⟩⟩, hname, hrole⟩

end QueryCheck.Command
