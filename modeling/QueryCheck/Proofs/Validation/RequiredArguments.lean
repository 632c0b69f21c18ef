import QueryCheck.Proofs.Command.Listing
import QueryCheck.Proofs.Validation.Single
import QueryCheck.Proofs.Validation.Unlocated

/-! # Required arguments of directives

The rule on required arguments reads the definitions of a document into a table of its own. What it
reports agrees all the same with the directives as the validation knows them: where a directive is
used, the required arguments of the directive found under its name that are not given.

* `directive_eq_or`: the directive of a name, from the document or from before.
* `missingAt_eq`: what is missing at a directive, told by the directive found under its name.
* `validate_requiredArguments`: what the rule reports.
* `not_requiredArguments_as_written`: where no result comes, and how a type is shown. -/

namespace QueryCheck.Validation

open QueryCheck.Command (missingArgument missingAt problems_checkProvided)
open QueryCheck.Schema
open QueryCheck.Syntax
open QueryCheck.Typing
open QueryCheck.Walk
open Context

/-! ### Directives in use -/

/-- The directives used in a document, in the order in which they stand in it. -/
def directivesIn (doc : Node) : List Node := doc.rose.labels.filter fun n => n.kind == .directive

/-- The name of a directive in use. -/
def directiveNameOf : Node → String
  | .directive name _ _ => name.nameText
  | _ => ""

/-- The names of the arguments that a directive is given. -/
def givenAt : Node → List String
  | .directive _ args _ => args.filterMap Rule.argumentName?
  | _ => []

/-- The problems of a use of a directive: for every required argument that is not given one that
tells its name and its type. -/
def unprovided (d : Directive) (n : Node) : List Problem :=
  (d.arguments.filter fun a => a.isRequired && !(givenAt n).contains a.name).map fun a =>
    missingArgument n (directiveNameOf n) a.name ((a.type.map TypeRef.print).getD "")

/-- **Directives do not stand below each other.** -/
theorem kind_ne_directive {n : Node} (hn : n.Typed) (hk : n.kind = .directive) :
    ∀ m ∈ n.children, ∀ x ∈ m.rose.labels, x.kind ≠ .directive := by
  intro m hm x hx hdirective
  obtain ⟨hpart, hbelow⟩ := hn.below_directive hk m hm
  rw [Node.labels_eq, List.mem_cons, List.mem_flatMap] at hx
  rcases hx with rfl | ⟨k, hkm, hx⟩
  · rw [hdirective] at hpart
    cases hpart <;> contradiction
  · have hin : x.kind.inArgument = true := hbelow k hkm x hx
    rw [hdirective] at hin
    cases hin

/-- A directive whose lists lack no item is given arguments that have names. -/
theorem eq_directive_of_gapless {n : Node} (hn : n.Typed) (hgapless : n.Gapless)
    (hk : n.kind = .directive) :
    ∃ name args l, n = .directive name args l ∧
      args.mapM Rule.argumentName? = some (args.filterMap Rule.argumentName?) := by
  obtain ⟨name, args, l, rfl, -, -⟩ := Node.eq_directive_of_typed hn.typed hk
  refine ⟨name, args, l, rfl, mapM_eq_filterMap fun a ha => ?_⟩
  obtain ⟨given, value, l', rfl⟩ := Node.exists_argument hn hgapless a ha
  rfl

/-! ### What is missing -/

/-- **The directive of a name** is the last of the document with this name, or else the last of
those known before. -/
theorem directive_eq_or (s : Option Schema) {doc : Node} (hdoc : doc.Typed) (hgapless : doc.Gapless)
    (name : String) :
    (Context.directive { schema := s, document := doc } name).1 =
      (findDirective (doc.directiveDefinitions.filterMap fun n => directiveOf? (.node n)) name).or
        (findDirective (baseDirectives s) name) := by
  have hplaces : ∀ c ∈ placesOf .directiveDefinition doc, (directiveOf? c).isSome := fun c hc =>
    (directiveOf?_isSome_iff hdoc hc).mpr (complete_of_gapless hdoc hgapless c hc)
  have hown : (placesOf .directiveDefinition doc).filterMap directiveOf? =
      doc.directiveDefinitions.filterMap fun n => directiveOf? (.node n) := by
    rw [Node.directiveDefinitions, ← filterMap_placesOf, List.filterMap_filterMap]
    refine List.filterMap_congr fun c _ => ?_
    cases c <;> rfl
  rw [directive_fst, lookupIn, directivesOf, directiveTable?, mapM_eq_filterMap hplaces, hown]
  exact findDirective_append _ _ name

/-- **What is missing at a directive** are the required arguments of the directive found under its
name that are not given. -/
theorem missingAt_eq (s : Option Schema) {doc : Node} (hdoc : doc.Typed)
    (hgiven : doc.All fun n => n.typeGiven = true) {n : Node} (hn : n.Typed) (hgapless : n.Gapless)
    (hk : n.kind = .directive) :
    missingAt (requiredsOf s doc) n =
      ((Context.directive { schema := s, document := doc } (directiveNameOf n)).1.map
        fun d => unprovided d n).getD [] := by
  obtain ⟨name, args, l, rfl, hargs⟩ := eq_directive_of_gapless hn hgapless hk
  rw [directive_fst, directiveNameOf, lookupIn, missingAt, hargs, requiredsOf_eq s hdoc hgiven,
    lookup_requiredOf]
  cases findDirective (directivesOf s doc) name.nameText with
  | none => rfl
  | some d =>
    simp only [Option.map_some, Option.getD_some, Rule.requiredOf, unprovided, List.filter_map,
      List.filter_filter, List.map_map, Function.comp_def, givenAt, directiveNameOf, Bool.and_comm]

/-! ### The rule along a walk -/

theorem missingAt_of_kind_ne (table : List (String × Rule.Required)) {n : Node}
    (hk : n.kind ≠ .directive) : missingAt table n = [] := by
  unfold missingAt
  split
  · exact absurd rfl hk
  · rfl

/-- What is missing among some nodes is missing at the directives among them. -/
theorem flatMap_directives (table : List (String × Rule.Required)) : ∀ ns : List Node,
    ns.flatMap (missingAt table) =
      (ns.filter fun n => n.kind == .directive).flatMap (missingAt table)
  | [] => rfl
  | n :: ns => by
    rw [List.flatMap_cons, flatMap_directives table ns]
    by_cases hk : n.kind = .directive
    · rw [List.filter_cons_of_pos (by simpa using hk), List.flatMap_cons]
    · rw [List.filter_cons_of_neg (by simpa using hk), missingAt_of_kind_ne table hk,
        List.nil_append]

theorem kept_foldl_report {α : Type} (f : α → Problem) : ∀ (as : List α) (c : Context),
    (as.foldl (fun c a => c.report (f a)) c).metNames = c.metNames ∧
      (as.foldl (fun c a => c.report (f a)) c).broken = c.broken
  | [], _ => ⟨rfl, rfl⟩
  | a :: as, c => kept_foldl_report f as (c.report (f a))

/-- The check for required arguments keeps all but the problems where lists lack no item. -/
theorem kept_checkProvided (table : List (String × Rule.Required)) {n : Node} (hn : n.Typed)
    (hgapless : n.Gapless) (c : Context) :
    (Rule.checkProvided table n c).metNames = c.metNames ∧
      (Rule.checkProvided table n c).broken = c.broken := by
  by_cases hk : n.kind = .directive
  · obtain ⟨name, args, l, rfl, hargs⟩ := eq_directive_of_gapless hn hgapless hk
    unfold Rule.checkProvided
    simp only [hargs]
    split
    · exact ⟨rfl, rfl⟩
    · exact kept_foldl_report _ _ c
  · rw [Rule.onlyAt_checkProvided table n c hk]
    exact ⟨rfl, rfl⟩

section Provided

variable (s : Option Schema) {doc : Node} (hdoc : doc.Typed) (hgapless : doc.Gapless)

include hdoc hgapless

/-- What the rule makes of a step. -/
theorem act_provided {st : Step} (hst : st.node ∈ doc.rose.labels) (memory : Memory) :
    (act s doc st (.providedRequiredArgumentsOnDirectives, memory)).problems =
        st.leaving (missingAt (requiredsOf s doc)) ∧
      (act s doc st (.providedRequiredArgumentsOnDirectives, memory)).metNames = memory ∧
      (act s doc st (.providedRequiredArgumentsOnDirectives, memory)).broken = false := by
  cases st with
  | leave n above =>
    refine ⟨problems_checkProvided (requiredsOf s doc) n _, ?_⟩
    exact kept_checkProvided (requiredsOf s doc) (hdoc.below n hst) (hgapless.below n hst)
      (alone s doc (framesAt s (lookupIn s doc) (n :: above)) memory)
  | _ => exact ⟨rfl, rfl, rfl⟩

variable (hgiven : doc.All fun n => n.typeGiven = true)

include hgiven

/-- **Required arguments are those of the directives in use.** For every directive in a document, in
order, the rule on required arguments reports the required arguments of the directive found under
its name that it is not given, in the order in which they are declared and with their types. The
directive found under a name is the last that the document defines, or else the one known before. -/
theorem validate_requiredArguments (hs : ∀ sch ∈ s, "" ∉ sch.typeNames) {maxDepth : Int}
    (hdepth : maxDepth ≤ 0) :
    validate s doc [.providedRequiredArgumentsOnDirectives] maxDepth =
      some ((directivesIn doc).flatMap fun n =>
        ((Context.directive { schema := s, document := doc } (directiveNameOf n)).1.map
          fun d => unprovided d n).getD []) ∧
    ∀ name, (Context.directive { schema := s, document := doc } name).1 =
      (findDirective (doc.directiveDefinitions.filterMap fun n => directiveOf? (.node n)) name).or
        (findDirective (baseDirectives s) name) := by
  refine ⟨?_, directive_eq_or s hdoc hgapless⟩
  have hlabel : ∀ st ∈ (route maxDepth [] doc.rose).steps, st.node ∈ doc.rose.labels :=
    node_mem_of_mem_route maxDepth doc.rose []
  have htable := (directiveTable?_isSome_iff s hdoc).mpr (complete_of_gapless hdoc hgapless)
  have hprepared : ∀ r ∈ [Rule.providedRequiredArgumentsOnDirectives],
      unprepared s doc r = false := by
    intro r _
    have hrequired := requiredTable?_alone s hdoc hgiven
    refine decide_eq_false fun h => ?_
    rw [hrequired, Option.isNone_map, Option.isNone_eq_false_iff.mpr htable] at h
    exact Bool.false_ne_true h.2
  have hfails : fails s doc [.providedRequiredArgumentsOnDirectives] maxDepth = false := by
    refine (fails_eq_false_iff hdepth hprepared fun st hst r hr memory => ?_).mpr
      ⟨fun _ => htable, resolvable_of_nonempty hs doc⟩
    rw [List.mem_singleton.mp hr]
    exact (act_provided s hdoc hgapless (hlabel st hst) memory).2.2
  have hbelow : doc.All fun n => missingAt (requiredsOf s doc) n ≠ [] →
      ∀ m ∈ n.children, ∀ x ∈ m.rose.labels, missingAt (requiredsOf s doc) x = [] := by
    intro n hn hmissing m hm x hx
    have hk : n.kind = .directive := by
      by_contra hk
      exact hmissing (missingAt_of_kind_ne _ hk)
    exact missingAt_of_kind_ne _ (kind_ne_directive (hdoc.below n hn) hk m hm x hx)
  rw [validate_eq_found hdepth hfails, found,
    findings_single fun st hst => (act_provided s hdoc hgapless (hlabel st hst) []).2.1,
    List.flatMap_congr fun st hst => (act_provided s hdoc hgapless (hlabel st hst) []).1,
    flatMap_route_leaving hdepth doc hbelow, flatMap_directives]
  refine congrArg some (List.flatMap_congr fun n hn => ?_)
  obtain ⟨hmem, hk⟩ := List.mem_filter.mp hn
  exact missingAt_eq s hdoc hgiven (hdoc.below n hmem) (hgapless.below n hmem) (eq_of_beq hk)

end Provided

/-- A use of a directive without arguments. -/
def bareSkip : Node := .directive (.node (.name "skip" none)) [] none

/-- A document that defines a directive twice, in place of one that is known without it, and uses it
without arguments. Only the last definition counts, and it requires one of its two arguments. -/
def redefinedSkip : Node :=
  let name (text : String) : Child Node := .node (.name text none)
  let int : Node := .namedType (name "Int") none
  let ints : Node :=
    .nonNullType (.node (.listType (.node (.nonNullType (.node int) none)) none)) none
  let argument (text : String) (default : Child Node) : Child Node :=
    .node (.inputValueDefinition .absent (name text) (.node ints) default [] none)
  let skip (args : List (Child Node)) : Child Node :=
    .node (.directiveDefinition .absent (name "skip") args false [name "QUERY"] none)
  .document
    [skip [argument "never" .absent],
     skip [argument "at" .absent, argument "from" (.node (.listValue [] none))],
     .node (.operationDefinition "query" .absent [] [.node bareSkip]
      (.node (.selectionSet [] none)) none)] none

theorem validate_requiredArguments_redefinedSkip :
    redefinedSkip.Typed ∧ redefinedSkip.Gapless ∧
      (redefinedSkip.All fun n => n.typeGiven = true) ∧
      (∀ sch ∈ (none : Option Schema), "" ∉ sch.typeNames) ∧ (0 : Int) ≤ 0 ∧
      validate none redefinedSkip [.providedRequiredArgumentsOnDirectives] 0 =
        some [missingArgument bareSkip "skip" "at" "[Int!]!"] := by
  have hdoc : redefinedSkip.Typed := by decide
  have hgapless : redefinedSkip.Gapless := by decide
  have hgiven : redefinedSkip.All fun n => n.typeGiven = true := by
    unfold Node.All
    decide
  have hs : ∀ sch ∈ (none : Option Schema), "" ∉ sch.typeNames := by simp
  obtain ⟨hvalidate, -⟩ := validate_requiredArguments none hdoc hgapless hgiven hs (Int.le_refl 0)
  refine ⟨hdoc, hgapless, hgiven, hs, Int.le_refl 0, ?_⟩
  rw [hvalidate]
  rfl

/-- A directive with a required argument where it is used itself, without arguments. The name of the
argument's type has a quotation mark in it. -/
def markedType : Node :=
  let name (text : String) : Child Node := .node (.name text none)
  let type : Node := .nonNullType (.node (.namedType (name "A\"B") none)) none
  let use : Node := .directive (name "d") [] none
  .document [.node (.directiveDefinition .absent (name "d")
    [.node (.inputValueDefinition .absent (name "a") (.node type) .absent [.node use] none)] false
    [name "QUERY"] none)] none

/-- A variable's type without a name breaks the validation down where the schema has a type of that
name, and a type is shown quoted, which is not always how it is written. -/
theorem not_requiredArguments_as_written :
    (unnamedType.Typed ∧ unnamedType.Gapless ∧ (unnamedType.All fun n => n.typeGiven = true) ∧
      validate (some (oneType "")) unnamedType [.providedRequiredArgumentsOnDirectives] 0 = none) ∧
    markedType.Typed ∧ markedType.Gapless ∧ (markedType.All fun n => n.typeGiven = true) ∧
      (Context.directive { schema := none, document := markedType } "d").1.map
        (fun d => d.arguments.map fun a => a.type.map TypeRef.print) = some [some "A\"B!"] ∧
      (validate none markedType [.providedRequiredArgumentsOnDirectives] 0).map
        (List.map Problem.message) =
          some ["Directive \"@d\" argument \"a\" of type \"A\\\"B!\" is required "
            ++ "but not provided."] := by
  refine ⟨⟨by decide, by decide, ?_, ?_⟩, by decide, by decide, ?_, by decide +kernel,
    by decide +kernel⟩
  · unfold Node.All
    decide
  · have hnone : (validate (some (oneType "")) unnamedType
        [.providedRequiredArgumentsOnDirectives] 0).isNone = true := by decide +kernel
    exact Option.isNone_iff_eq_none.mp hnone
  · unfold Node.All
    decide

end QueryCheck.Validation
