import QueryCheck.Command.Run
import QueryCheck.Proofs.Data.Json
import QueryCheck.Proofs.Syntax.Read
import QueryCheck.Proofs.Validation.Appended

/-! # Verdicts on documents and directive definitions

Documents are checked with the directive definitions of the run behind them, and problems that lie
in the definitions are not charged to the documents. Nothing is lost by this: every problem that is
dropped is found when the definitions are checked by themselves.

* `Check.exists_front`: the problems of a document with definitions behind it are its own and those
  of the definitions.
* `Check.dropped_sublist`: the problems that are dropped are problems of the definitions.
* `Check.valid_verdicts_iff`: when nothing is wrong in a run.
* `Gives`, `World.Reads`: steps of a run that succeed.
* `encode_reportData`: the verdicts of a run can be written in every format for data.
* `verdicts_complete`: nothing that is wrong is lost in a run. -/

namespace QueryCheck.Command

open QueryCheck.Data
open QueryCheck.Report (Format encode)
open QueryCheck.Settings
open QueryCheck.Syntax
open QueryCheck.Typing (resolvable_of_typeNamed)
open QueryCheck.Validation
open QueryCheck.Walk (firstBelow)

/-! ### Verdicts as data -/

/-- An entry that is left out under a condition is nested no deeper than the entry. -/
theorem depth_le_of_mem_unless {c : Prop} [Decidable c] {e x : String × Value} {n : Nat}
    (h : x ∈ if c then [] else [e]) (he : e.2.depth ≤ n) : x.2.depth ≤ n := by
  split_ifs at h
  · cases h
  · obtain rfl := List.mem_singleton.mp h
    exact he

theorem Verdict.depth_findingData_le (f : Finding) : (findingData f).depth ≤ 3 := by
  have hplaces : (Value.list (f.places.map placeData)).depth ≤ 2 := by
    refine Value.depth_list_le_iff.mpr fun v hv => ?_
    obtain ⟨p, -, rfl⟩ := List.mem_map.mp hv
    simp [placeData, Value.depth, Value.depthEntries]
  refine Value.depth_map_le_iff.mpr fun e he => ?_
  simp only [List.mem_append, List.mem_singleton] at he
  rcases he with (rfl | he) | he
  · exact Nat.zero_le _
  · exact depth_le_of_mem_unless he (Nat.zero_le _)
  · exact depth_le_of_mem_unless he hplaces

theorem Verdict.depth_data_le (v : Verdict) (named : Bool) : (v.data named).depth ≤ 5 := by
  have hfindings : (Value.list (v.findings.map findingData)).depth ≤ 4 := by
    refine Value.depth_list_le_iff.mpr fun x hx => ?_
    obtain ⟨f, -, rfl⟩ := List.mem_map.mp hx
    exact depth_findingData_le f
  refine Value.depth_map_le_iff.mpr fun e he => ?_
  simp only [List.mem_append, List.mem_singleton] at he
  rcases he with (he | rfl) | he
  · rw [← ite_not] at he
    exact depth_le_of_mem_unless he (Nat.zero_le _)
  · exact Nat.zero_le _
  · exact depth_le_of_mem_unless he hfindings

theorem depth_reportData_le (vs : List Verdict) : (reportData vs).depth ≤ 6 := by
  unfold reportData
  split
  · next v => exact Nat.le_succ_of_le (v.depth_data_le false)
  · refine Value.depth_list_le_iff.mpr fun x hx => ?_
    obtain ⟨v, -, rfl⟩ := List.mem_map.mp hx
    exact v.depth_data_le true

/-- **The verdicts of a run can be written** in every format for data: they are not nested deep,
however many there are. -/
theorem encode_reportData {format : Format} (h : format = .json ∨ format = .msgpack)
    (vs : List Verdict) :
    (encode format.name (reportData vs)).map ended = .ok (verdictOutput format vs) := by
  rcases h with rfl | rfl
  · have hdepth : (reportData vs).depth ≤ Value.maxNesting :=
      (depth_reportData_le vs).trans (by decide)
    have hjson : encode Format.json.name (reportData vs)
        = ((reportData vs).toIndentedJson?.mapError .tooDeep).map .text := rfl
    rw [hjson, Value.toIndentedJson?_eq_ok_iff.mpr ⟨hdepth, rfl⟩]
    rfl
  · rfl

/-! ### Problems in front of the definitions -/

/-- A problem about nodes that are located in the document does not lie in the definitions. -/
theorem inDefinitions_of_pointsInto {p : Problem} {ms : List Node}
    (hms : ∀ m ∈ ms, ∀ l ∈ m.loc, l.origin = .document)
    (h : ∀ x ∈ p.nodes, PointsInto ms x) : inDefinitions p = false := by
  unfold inDefinitions
  cases hfirst : firstLocation? p with
  | none => rfl
  | some l =>
    obtain ⟨x, hx, hl⟩ := List.exists_of_findSome?_eq_some hfirst
    obtain ⟨m, hm, hl⟩ := Option.bind_eq_some_iff.mp hl
    have horigin := hms m (h x hx m hm) l hl
    simp [horigin]

/-- The nodes of a document that is read are located in the document, if anywhere. -/
theorem origin_of_parseDocument {text : String} {doc : Node} (hdoc : parseDocument text = .ok doc) :
    ∀ m ∈ doc.children.flatMap fun n => n.rose.labels, ∀ l ∈ m.loc, l.origin = .document := by
  obtain ⟨ns, l, rfl, -, hns⟩ := read_parseDocument hdoc
  intro m hm
  rw [Node.children_document] at hm
  obtain ⟨n, hn, hm⟩ := List.mem_flatMap.mp hm
  exact ((hns n hn).read m hm).2.2

/-- Directive definitions as they are read from a text. -/
def ReadDefinitions (defs : List Node) : Prop :=
  ∀ d ∈ defs, d.kind = .directiveDefinition ∧ d.Read .definitions

namespace Check

theorem extended_document (c : Check) (ns : List Node) (l : Option Location) :
    c.extended (.document (placed ns) l) = documentWith (ns ++ c.definitions) l := by
  rw [documentWith, List.map_append]
  rfl

variable {c : Check} (hdefs : ReadDefinitions c.definitions)
include hdefs

theorem validate_definitions :
    validate c.schema (documentOf c.definitions) c.rules c.maxDepth =
      some (c.run (documentOf c.definitions)) := by
  have hkinds : ∀ d ∈ c.definitions, d.kind ∈ Family.definition.kinds ∧ d.Whole := fun d hd =>
    ⟨by rw [(hdefs d hd).1]; decide, (hdefs d hd).2.whole⟩
  have htypes := Node.typeNamed_document (l := none) fun d hd => (hdefs d hd).2.typeNamed
  have h := validate_documentWith c.schema c.rules c.maxDepth c.definitions none hkinds
    (resolvable_of_typeNamed c.schema htypes)
  rw [run, documentOf, placesFor, h]
  rfl

/-- **The problems of a document with the definitions behind it** are problems of its own, and after
them those of the definitions, unless the document is nested too deep. -/
theorem exists_front {text : String} {doc : Node} (hdoc : parseDocument text = .ok doc) :
    ∃ own : List Problem,
      (∀ p ∈ own, ∀ x ∈ p.nodes, PointsInto (doc.children.flatMap fun n => n.rose.labels) x) ∧
      validate c.schema (c.extended doc) c.rules c.maxDepth = some (c.run (c.extended doc)) ∧
      ((firstBelow c.maxDepth doc.children).isSome = true ∧ c.run (c.extended doc) = own ∨
        firstBelow c.maxDepth doc.children = none ∧
          c.run (c.extended doc) = own ++ c.run (documentOf c.definitions)) := by
  obtain ⟨ns, l, rfl, -, hns⟩ := read_parseDocument hdoc
  obtain ⟨own, hown, h⟩ := validate_appended c.schema c.rules c.maxDepth
    (fun n hn => ⟨(hns n hn).kind_mem, (hns n hn).read.whole⟩)
    (fun n hn => by rcases (hns n hn).kind with hk | hk <;> rw [hk] <;> decide)
    (fun d hd => ⟨(hdefs d hd).1, (hdefs d hd).2.whole⟩)
    (List.forall_mem_append.mpr
      ⟨fun n hn => (hns n hn).read.typeNamed, fun d hd => (hdefs d hd).2.typeNamed⟩) l none
  rw [extended_document, Node.children_document]
  refine ⟨own, hown, ?_⟩
  unfold run
  rcases h with ⟨hdeep, h⟩ | ⟨hdeep, es, hes, h⟩
  · rw [h]
    exact ⟨rfl, .inl ⟨hdeep, rfl⟩⟩
  · have halone : validate c.schema (documentOf c.definitions) c.rules c.maxDepth = some es := hes
    rw [h, halone]
    exact ⟨rfl, .inr ⟨hdeep, rfl⟩⟩

/-- Problems of the document itself do not lie in the definitions. -/
theorem exists_own {text : String} {doc : Node} (hdoc : parseDocument text = .ok doc) :
    ∃ own : List Problem, (∀ p ∈ own, inDefinitions p = false) ∧
      validate c.schema (c.extended doc) c.rules c.maxDepth = some (c.run (c.extended doc)) ∧
      (c.run (c.extended doc) = own ∨
        c.run (c.extended doc) = own ++ c.run (documentOf c.definitions)) := by
  obtain ⟨own, hown, hrun, h⟩ := exists_front hdefs hdoc
  refine ⟨own, fun p hp => inDefinitions_of_pointsInto (fun m hm => ?_) (hown p hp), hrun,
    h.imp And.right And.right⟩
  exact origin_of_parseDocument hdoc m hm

/-- **The problems that are dropped** are problems of the definitions by themselves. -/
theorem dropped_sublist {text : String} {doc : Node} (hdoc : parseDocument text = .ok doc) :
    ((c.run (c.extended doc)).filter inDefinitions).Sublist (c.run (documentOf c.definitions)) := by
  obtain ⟨own, hown, -, h⟩ := exists_own hdefs hdoc
  have hnone : own.filter inDefinitions = [] :=
    List.filter_eq_nil_iff.mpr fun p hp => by simp [hown p hp]
  rcases h with h | h
  · rw [h, hnone]
    exact List.nil_sublist _
  · rw [h, List.filter_append, hnone, List.nil_append]
    exact List.filter_sublist

/-! ### Verdicts -/

theorem run_eq_nil_of_problems {text : String} {doc : Node} (hdoc : parseDocument text = .ok doc)
    (halone : c.run (documentOf c.definitions) = []) (h : c.problems doc = []) :
    c.run (c.extended doc) = [] := by
  have hdropped := dropped_sublist hdefs hdoc
  rw [halone, List.sublist_nil, List.filter_eq_nil_iff] at hdropped
  refine List.eq_nil_iff_forall_not_mem.mpr fun p hp => ?_
  have hkept := List.filter_eq_nil_iff.mp h p hp
  exact hkept (by simpa using hdropped p hp)

/-- When nothing is wrong in a text, provided that nothing is wrong with the definitions. -/
theorem valid_document_iff (halone : c.run (documentOf c.definitions) = []) (src : Source) :
    (c.document src).valid = true ↔ ∃ doc, parseDocument src.text = .ok doc ∧
      validate c.schema (c.extended doc) c.rules c.maxDepth = some [] := by
  unfold document
  cases hparse : parseDocument src.text with
  | error e => simp [Verdict.valid]
  | ok doc =>
    obtain ⟨-, -, hrun, -⟩ := exists_own hdefs hparse
    simp only [Verdict.valid, List.isEmpty_iff, List.map_eq_nil_iff, Except.ok.injEq,
      exists_eq_left', hrun, Option.some.injEq]
    refine ⟨run_eq_nil_of_problems hdefs hparse halone, fun h => ?_⟩
    rw [problems, h, List.filter_nil]

omit hdefs in
theorem run_documentOf_nil : c.run (documentOf []) = [] := by
  have htypes : (documentWith [] none).All fun m => m.typeNamed = true :=
    Node.typeNamed_document (by simp)
  have h := validate_documentWith c.schema c.rules c.maxDepth [] none (by simp)
    (resolvable_of_typeNamed c.schema htypes)
  rw [routeInside, List.map_nil, Walk.routeAll] at h
  rw [run, documentOf, placesFor, h]
  rfl

omit hdefs in
/-- The verdict on the definitions is missing when nothing is wrong with them, and else it tells
what is. -/
theorem definitionsAlone_eq (name : String) : c.definitionsAlone name =
    if c.run (documentOf c.definitions) = [] then none
    else some ⟨⟨name, c.definitionsText⟩, some (documentOf c.definitions),
      (c.run (documentOf c.definitions)).map .ofProblem⟩ := by
  unfold definitionsAlone
  cases hds : c.definitions with
  | nil => simp [run_documentOf_nil]
  | cons d ds => simp

/-- **When nothing is wrong in a run**: every text can be read and no document has a problem with
the definitions behind it, nor have the definitions by themselves. -/
theorem valid_verdicts_iff (name : String) (sources : List Source) :
    (c.verdicts name sources).all Verdict.valid = true ↔
      (∀ src ∈ sources, ∃ doc, parseDocument src.text = .ok doc ∧
        validate c.schema (c.extended doc) c.rules c.maxDepth = some []) ∧
      validate c.schema (documentOf c.definitions) c.rules c.maxDepth = some [] := by
  rw [validate_definitions hdefs, Option.some.injEq, verdicts, definitionsAlone_eq, List.all_append,
    List.all_map]
  by_cases halone : c.run (documentOf c.definitions) = []
  · simp [halone, valid_document_iff hdefs halone]
  · simp [halone, Verdict.valid]

end Check

/-! ### Runs -/

section Runs

variable {σ α β : Type}

/-- A step of a run that succeeds. -/
def Gives (step : ExceptT Failure (StateM σ) α) (before : σ) (a : α) (after : σ) : Prop :=
  step.run.run before = (.ok a, after)

theorem gives_bind {step : ExceptT Failure (StateM σ) α} {next : α → ExceptT Failure (StateM σ) β}
    {before after : σ} {b : β} : Gives (step >>= next) before b after ↔
      ∃ a mid, Gives step before a mid ∧ Gives (next a) mid b after := by
  unfold Gives
  rw [ExceptT.run_bind, StateT.run_bind]
  obtain ⟨r, mid⟩ := step.run.run before
  cases r with
  | error e =>
    refine ⟨fun h => ?_, fun ⟨a, mid', h, _⟩ => ?_⟩ <;> cases h
  | ok a =>
    refine ⟨fun h => ⟨a, mid, rfl, h⟩, fun ⟨a', mid', h, hnext⟩ => ?_⟩
    cases h
    exact hnext

theorem gives_settle {r : Except Failure α} {before after : σ} {a : α} :
    Gives (settle r) before a after ↔ r = .ok a ∧ before = after :=
  Prod.ext_iff

theorem eq_ok_of_mapError {ε ε' : Type} {f : ε → ε'} {r : Except ε α} {a : α} :
    r.mapError f = .ok a ↔ r = .ok a := by
  cases r <;> simp [Except.mapError]

/-- What can be evaluated on texts that can be read. -/
theorem exists_parsed (definitionsText text : String) {f : List Node → Node → β} {b : β}
    (h : ((parseDirectiveDefinitions definitionsText).toOption.bind fun defs =>
      (parseDocument text).toOption.map (f defs)) = some b) :
    ∃ defs doc, parseDirectiveDefinitions definitionsText = .ok defs ∧
      parseDocument text = .ok doc ∧ f defs doc = b := by
  obtain ⟨defs, hdefs, h⟩ := Option.bind_eq_some_iff.mp h
  obtain ⟨doc, hdoc, h⟩ := Option.map_eq_some_iff.mp h
  exact ⟨defs, doc, eq_ok_of_toOption hdefs, eq_ok_of_toOption hdoc, h⟩

namespace World

variable (w : World (StateM σ))

/-- The definitions of a run are read from a text, or there are none. -/
theorem readDefinitions {path : String} {before after : σ} {defs : List Node} {text : String}
    (h : Gives (w.definitions path) before (defs, text) after) : ReadDefinitions defs := by
  unfold World.definitions at h
  split_ifs at h with hpath
  · cases h
    exact nofun
  · obtain ⟨read, mid, -, h⟩ := gives_bind.mp h
    obtain ⟨ds, mid', hparse, h⟩ := gives_bind.mp h
    cases h
    exact read_parseDirectiveDefinitions (eq_ok_of_mapError.mp (gives_settle.mp hparse).1)

/-- All that a run needs can be read: what documents are checked with, and the documents. -/
def Reads (s : Config) (paths : List String) (before : σ) (c : Check) (sources : List Source)
    (after : σ) : Prop :=
  ∃ st₁ st₂, Gives (w.schema s.schema) before c.schema st₁ ∧
    Gives (w.definitions s.directives) st₁ (c.definitions, c.definitionsText) st₂ ∧
    Rule.select s.rules = .ok c.rules ∧ c.maxDepth = s.maxDepth ∧
    Gives ((if paths.isEmpty then [""] else paths).mapM w.source) st₂ sources after

/-- A run that can read all it needs leaves its verdicts. -/
theorem gives_validate {s : Config} (format : Format) {paths : List String} {before after : σ}
    {c : Check} {sources : List Source} (h : w.Reads s paths before c sources after) :
    Gives (w.validate s format paths) before
      { output := verdictOutput format (c.verdicts s.directives sources)
        valid := (c.verdicts s.directives sources).all Verdict.valid } after := by
  obtain ⟨schema, definitions, definitionsText, rules, maxDepth⟩ := c
  obtain ⟨st₁, st₂, hschema, hdefs, hrules, rfl, hsources⟩ := h
  unfold World.validate
  exact gives_bind.mpr ⟨_, _, hschema, gives_bind.mpr ⟨_, _, hdefs, gives_bind.mpr ⟨_, _,
    gives_settle.mpr ⟨eq_ok_of_mapError.mpr hrules, rfl⟩, gives_bind.mpr ⟨_, _, hsources, rfl⟩⟩⟩⟩

end World

end Runs

/-- **Nothing that is wrong is lost.** The problems of a document that are dropped, since they lie
in the directive definitions behind it, are among the problems of the definitions by themselves, in
the same order, and the verdict on the definitions tells each of them. So a run that can read all it
needs finds nothing wrong exactly when every text can be read as a document, no document has a
problem with the definitions behind it, and the definitions by themselves have none. -/
theorem verdicts_complete :
    (∀ (c : Check) (definitionsText text : String) (doc : Node),
      parseDirectiveDefinitions definitionsText = .ok c.definitions →
      parseDocument text = .ok doc →
      ((c.run (c.extended doc)).filter inDefinitions).Sublist (c.run (documentOf c.definitions)) ∧
      ∀ p ∈ (c.run (c.extended doc)).filter inDefinitions, ∀ name, ∃ v ∈ c.definitionsAlone name,
        .ofProblem p ∈ v.findings) ∧
    ∀ (σ : Type) (w : World (StateM σ)) (s : Config) (format : Format) (paths : List String)
      (before after : σ) (c : Check) (sources : List Source),
      w.Reads s paths before c sources after →
      ∃ outcome, Gives (w.validate s format paths) before outcome after ∧
        (outcome.valid = true ↔
          (∀ src ∈ sources, ∃ doc, parseDocument src.text = .ok doc ∧
            validate c.schema (c.extended doc) c.rules c.maxDepth = some []) ∧
          validate c.schema (documentOf c.definitions) c.rules c.maxDepth = some []) := by
  refine ⟨fun c definitionsText text doc hdefs hdoc => ?_,
    fun σ w s format paths before after c sources h => ⟨_, w.gives_validate format h, ?_⟩⟩
  · have hsub := Check.dropped_sublist (read_parseDirectiveDefinitions hdefs) hdoc
    refine ⟨hsub, fun p hp name => ?_⟩
    have hmem := hsub.subset hp
    rw [Check.definitionsAlone_eq, if_neg (List.ne_nil_of_mem hmem)]
    exact ⟨_, rfl, List.mem_map_of_mem hmem⟩
  · obtain ⟨_, _, -, hdefs, -⟩ := h
    exact Check.valid_verdicts_iff (w.readDefinitions hdefs) s.directives sources

/-- A directive definition in which a directive is given an argument it does not declare. -/
def flawedDefinitions : String := "directive @d(a: Int @deprecated(x: 1)) on FIELD"

/-- A query in which this also happens, and which spreads a fragment that is not defined. -/
def flawedQuery : String := "query \x7b a @d(b: 1) ...F \x7d"

/-- A run with the definitions in every file and the query as the standard input. -/
def flawedWorld : World (StateM Unit) where
  disk :=
    { directory := "/"
      read := fun _ => pure (.ok flawedDefinitions)
      present := fun _ => pure true }
  environment := []
  processors := 1
  terminal := false
  input := pure flawedQuery

/-- Settings that name a file of definitions and nothing else. -/
def flawedSettings : Config where
  schema := ""
  format := ""
  maxDepth := 0
  rules := []
  directives := "directives.graphql"
  verbose := false
  jobs := 1

/-- What the query is checked with. -/
def flawedCheck (definitions : List Node) : Check where
  schema := none
  definitions
  definitionsText := flawedDefinitions
  rules := Rule.specified
  maxDepth := 0

/-- The number of problems of a document with the definitions behind it, and how many of them are
dropped. -/
def Check.counts (c : Check) (doc : Node) : Nat × Nat :=
  ((c.run (c.extended doc)).length, ((c.run (c.extended doc)).filter inDefinitions).length)

theorem verdicts_complete_flawedDefinitions : ∃ c doc,
    parseDirectiveDefinitions flawedDefinitions = .ok c.definitions ∧
    parseDocument flawedQuery = .ok doc ∧ c.counts doc = (3, 1) ∧
    ((c.run (c.extended doc)).filter inDefinitions).Sublist (c.run (documentOf c.definitions)) ∧
    flawedWorld.Reads flawedSettings [] () c [⟨inputName, flawedQuery⟩] () ∧
    ∃ outcome, Gives (flawedWorld.validate flawedSettings .text []) () outcome () ∧
      outcome.valid = false := by
  have hcounts : ((parseDirectiveDefinitions flawedDefinitions).toOption.bind fun defs =>
      (parseDocument flawedQuery).toOption.map (flawedCheck defs).counts) = some (3, 1) := by
    decide +kernel
  cases hdefs : parseDirectiveDefinitions flawedDefinitions with
  | error e => simp [hdefs, Except.toOption] at hcounts
  | ok defs =>
    cases hdoc : parseDocument flawedQuery with
    | error e => simp [hdefs, hdoc, Except.toOption] at hcounts
    | ok doc =>
      have hcounts : (flawedCheck defs).counts doc = (3, 1) := by
        simpa [hdefs, hdoc, Except.toOption] using hcounts
      have hreads : flawedWorld.Reads flawedSettings [] () (flawedCheck defs)
          [⟨inputName, flawedQuery⟩] () := by
        refine ⟨(), (), rfl, ?_, rfl, rfl, rfl⟩
        rw [World.definitions, if_neg (by decide)]
        exact gives_bind.mpr ⟨flawedDefinitions, (), rfl, gives_bind.mpr ⟨defs, (),
          gives_settle.mpr ⟨eq_ok_of_mapError.mpr hdefs, rfl⟩, rfl⟩⟩
      refine ⟨flawedCheck defs, doc, rfl, rfl, hcounts,
        (verdicts_complete.1 (flawedCheck defs) _ _ doc hdefs hdoc).1, hreads, ?_⟩
      obtain ⟨outcome, hgives, hvalid⟩ :=
        verdicts_complete.2 Unit flawedWorld flawedSettings .text [] () () _ _ hreads
      refine ⟨outcome, hgives, Bool.eq_false_iff.mpr fun h => ?_⟩
      obtain ⟨doc', hdoc', hnone⟩ := (hvalid.mp h).1 _ (List.mem_singleton_self _)
      obtain rfl : doc = doc' := Except.ok.inj (hdoc.symm.trans hdoc')
      simp [Check.counts, Check.run, hnone] at hcounts

end QueryCheck.Command
