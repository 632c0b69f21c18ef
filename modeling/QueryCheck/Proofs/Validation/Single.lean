import QueryCheck.Proofs.Typing.References
import QueryCheck.Proofs.Validation.Depth
import QueryCheck.Proofs.Validation.Tables
import QueryCheck.Proofs.Walk.Spots

/-! # What one rule finds

Most checks only look: they add problems to the state and keep all else. What a rule of such checks
finds in a document is told node by node, in the order in which a walk enters the nodes, and the
problems of one rule among those of several are told by the name they are signed with.

* `Finds`: a check adds problems about given places and keeps all else.
* `Looks`, `Looks.nodes_found`: a rule that only looks, and what it finds in a document.
* `fails_eq_false_iff`: rules that do not break down have a result if the walk has all it needs, and
  only then.
* `filter_found`: the problems of one rule among those of several. -/

namespace QueryCheck.Validation

open QueryCheck.Schema
open QueryCheck.Syntax
open QueryCheck.Typing
open QueryCheck.Walk
open Context

/-! ### Checks that only look -/

/-- A check has added problems about the given places, all signed by some of the given rules. It has
kept what rules remember and has not broken down. -/
structure Finds (signers : List Rule) (places : List (List (Child Node)))
    (before after : Context) : Prop where
  problems : ∃ ps, after.problems = before.problems ++ ps ∧ ps.map Problem.nodes = places ∧
    ∀ p ∈ ps, p.rule ∈ signers.map Rule.name
  memory : after.metNames = before.metNames
  broken : after.broken = before.broken

namespace Finds

variable {signers : List Rule} {places places' : List (List (Child Node))} {c c' c'' : Context}

theorem nothing (c : Context) : Finds signers [] c c :=
  ⟨⟨[], (List.append_nil _).symm, rfl, nofun⟩, rfl, rfl⟩

theorem report {r : Rule} (hr : r ∈ signers) (message : String) (nodes : List (Child Node))
    (c : Context) : Finds signers [nodes] c (c.report (r.problem message nodes)) := by
  refine ⟨⟨[r.problem message nodes], rfl, rfl, fun p hp => ?_⟩, rfl, rfl⟩
  rw [List.mem_singleton.mp hp]
  exact List.mem_map_of_mem hr

/-- A problem, unless all is well. -/
theorem report_unless {r : Rule} (hr : r ∈ signers) (ok : Bool) (message : String)
    (nodes : List (Child Node)) (c : Context) :
    Finds signers (if ok then [] else [nodes]) c
      (if ok then c else c.report (r.problem message nodes)) := by
  cases ok with
  | true => exact nothing c
  | false => exact report hr message nodes c

theorem trans (h : Finds signers places c c') (h' : Finds signers places' c' c'') :
    Finds signers (places ++ places') c c'' := by
  obtain ⟨ps, hps, hnodes, hsigned⟩ := h.problems
  obtain ⟨ps', hps', hnodes', hsigned'⟩ := h'.problems
  refine ⟨⟨ps ++ ps', ?_, ?_, ?_⟩, h'.memory.trans h.memory, h'.broken.trans h.broken⟩
  · rw [hps', hps, List.append_assoc]
  · rw [List.map_append, hnodes, hnodes']
  · exact List.forall_mem_append.mpr ⟨hsigned, hsigned'⟩

theorem foldl {α : Type} {f : Context → α → Context} {g : α → List (List (Child Node))} :
    ∀ {as : List α} (c : Context), (∀ a ∈ as, ∀ c, Finds signers (g a) c (f c a)) →
      Finds signers (as.flatMap g) c (as.foldl f c)
  | [], c, _ => nothing c
  | a :: as, c, h => by
    rw [List.forall_mem_cons] at h
    rw [List.flatMap_cons, List.foldl_cons]
    exact (h.1 c).trans (foldl _ h.2)

theorem withFragments (hc : c.Coherent) (h : (fragmentTable? c.document).isSome) :
    Finds signers [] c c.withFragments := by
  have hbroken := (withFragments_eq hc).2
  rw [Option.isNone_eq_false_iff.mpr h, Bool.or_false] at hbroken
  have hfields := withFragments_fields c
  refine ⟨⟨[], ?_, rfl, nofun⟩, ?_, hbroken⟩
  · rw [hfields, List.append_nil]
  · rw [hfields]

theorem withDirectives (hc : c.Coherent) (h : (directiveTable? c.schema c.document).isSome) :
    Finds signers [] c c.withDirectives := by
  have hbroken := (withDirectives_eq hc).2
  rw [Option.isNone_eq_false_iff.mpr h, Bool.or_false] at hbroken
  have hfields := withDirectives_fields c
  refine ⟨⟨[], ?_, rfl, nofun⟩, ?_, hbroken⟩
  · rw [hfields, List.append_nil]
  · rw [hfields]

end Finds

/-! ### A rule along a route -/

section Route

variable {s : Option Schema} {doc : Node}

/-- A rule that remembers nothing finds what it finds at the single steps. -/
theorem findings_single {r : Rule} : ∀ {steps : List Step},
    (∀ st ∈ steps, (act s doc st (r, [])).metNames = []) →
      findings s doc steps (fresh [r]) = steps.flatMap fun st => (act s doc st (r, [])).problems
  | [], _ => rfl
  | st :: steps, h => by
    rw [List.forall_mem_cons] at h
    have hmemory : (fresh [r]).map (remember s doc st) = fresh [r] := by
      simp [fresh, remember, memoryOf, h.1]
    rw [findings, hmemory, findings_single h.2, List.flatMap_cons]
    simp [fresh]

/-- Rules that do not break down at any step have a result unless a step lacks what it needs. -/
theorem breaking_eq {rules : List Rule} : ∀ {steps : List Step} {crew : List (Rule × Memory)},
    (∀ st ∈ steps, ∀ r ∈ rules, ∀ memory, (act s doc st (r, memory)).broken = false) →
      (∀ x ∈ crew, x.1 ∈ rules) → breaking s doc steps crew = steps.any (lacksPart s doc)
  | [], _, _, _ => rfl
  | st :: steps, crew, h, hcrew => by
    rw [List.forall_mem_cons] at h
    have hany : (crew.any fun x => (act s doc st x).broken) = false :=
      List.any_eq_false.mpr fun x hx => by simp [h.1 x.1 (hcrew x hx) x.2]
    have hcrew' : ∀ x ∈ crew.map (remember s doc st), x.1 ∈ rules :=
      List.forall_mem_map.mpr hcrew
    rw [breaking, hany, Bool.or_false, breaking_eq h.2 hcrew', List.any_cons]

/-- **Without a depth limit no step lacks what it needs** if and only if the table of directives can
be made, unless there are no directives, and the types of the document can be resolved. -/
theorem any_lacksPart_eq_false_iff {off : Int} (hoff : off ≤ 0) :
    (route off [] doc.rose).steps.any (lacksPart s doc) = false ↔
      ((∃ n ∈ doc.rose.labels, n.kind = .directive) → (directiveTable? s doc).isSome) ∧
        Resolvable s doc := by
  rw [List.any_eq_false]
  constructor
  · intro h
    have hentered : ∀ n ∈ doc.rose.labels,
        ¬ (n.kind = .directive ∧ directiveTable? s doc = none) ∧ resolvable s n = true := by
      intro n hn
      rw [← Node.map_fst_spots doc [], List.mem_map] at hn
      obtain ⟨⟨m, above⟩, hspot, rfl⟩ := hn
      have hstep := h (.enter m above) ((enter_mem_route_iff hoff).mpr hspot)
      simpa [lacksPart] using hstep
    constructor
    · rintro ⟨n, hn, hk⟩
      exact Option.isSome_iff_ne_none.mpr fun hnone => (hentered n hn).1 ⟨hk, hnone⟩
    · exact fun n hn => (hentered n hn).2
  · rintro ⟨htable, htypes⟩ st hst
    have hn := node_mem_of_mem_route off doc.rose [] st hst
    cases st with
    | enter n above =>
      have htype : resolvable s n = true := htypes n hn
      by_cases hk : n.kind = .directive
      · simp [lacksPart, htype, Option.isNone_eq_false_iff.mpr (htable ⟨n, hn, hk⟩)]
      · simp [lacksPart, htype, hk]
    | _ => simp [lacksPart]

theorem unprepared_of_ne {r : Rule} (h : r ≠ .providedRequiredArgumentsOnDirectives) :
    unprepared s doc r = false := decide_eq_false fun hr => h hr.1

/-- **Rules that do not break down** have a result if and only if the walk has all it needs. -/
theorem fails_eq_false_iff {rules : List Rule} {off : Int} (hoff : off ≤ 0)
    (hprepared : ∀ r ∈ rules, unprepared s doc r = false)
    (h : ∀ st ∈ (route off [] doc.rose).steps, ∀ r ∈ rules, ∀ memory,
      (act s doc st (r, memory)).broken = false) :
    fails s doc rules off = false ↔
      ((∃ n ∈ doc.rose.labels, n.kind = .directive) → (directiveTable? s doc).isSome) ∧
        Resolvable s doc := by
  have hfresh : ∀ x ∈ fresh rules, x.1 ∈ rules := List.forall_mem_map.mpr fun r hr => hr
  have hany : rules.any (unprepared s doc) = false :=
    List.any_eq_false.mpr fun r hr => by simp [hprepared r hr]
  rw [fails, hany, Bool.false_or, breaking_eq h hfresh, any_lacksPart_eq_false_iff hoff]

/-- Without a depth limit a validation that has a result finds what its rules find. -/
theorem validate_eq_found {rules : List Rule} {off : Int} (hoff : off ≤ 0)
    (h : fails s doc rules off = false) :
    validate s doc rules off = some (found s doc rules off) := by
  rw [validate_eq, h, tooDeep, tooDeep_route_of_nonpos hoff]
  simp

end Route

/-! ### Rules that only look -/

/-- A rule that only looks at the nodes of a document where they are entered, and what it finds at a
node below others. -/
structure Looks (s : Option Schema) (doc : Node) (r : Rule) (signers : List Rule)
    (places : Node → List Node → List (List (Child Node))) : Prop where
  leaving : ∀ n slot c, r.atLeave n slot c = c
  entering : ∀ x ∈ doc.spots [], ∀ memory,
    Finds signers (places x.1 x.2) (alone s doc (framesAt s (lookupIn s doc) (x.1 :: x.2)) memory)
      (r.atEnter x.1 0 (alone s doc (framesAt s (lookupIn s doc) (x.1 :: x.2)) memory))

namespace Looks

variable {s : Option Schema} {doc : Node} {r : Rule} {signers : List Rule}
  {places : Node → List Node → List (List (Child Node))} {off : Int}

/-- What a rule that only looks finds at a step. -/
theorem act (h : Looks s doc r signers places) (hoff : off ≤ 0) :
    ∀ st ∈ (route off [] doc.rose).steps, ∀ memory, ∃ fs,
      Finds signers (st.entering places) (alone s doc fs memory)
        (Validation.act s doc st (r, memory)) := by
  intro st hst memory
  cases st with
  | enter n above => exact ⟨_, h.entering (n, above) ((enter_mem_route_iff hoff).mp hst) memory⟩
  | leave n above =>
    refine ⟨framesAt s (lookupIn s doc) (n :: above), ?_⟩
    rw [Validation.act, h.leaving]
    exact .nothing _
  | abandon n above => exact ⟨_, .nothing _⟩

theorem unbroken (h : Looks s doc r signers places) (hoff : off ≤ 0) :
    ∀ st ∈ (route off [] doc.rose).steps, ∀ memory,
      (Validation.act s doc st (r, memory)).broken = false := by
  intro st hst memory
  obtain ⟨fs, hfinds⟩ := h.act hoff st hst memory
  exact hfinds.broken

theorem found_eq (h : Looks s doc r signers places) (hoff : off ≤ 0) :
    found s doc [r] off = (route off [] doc.rose).steps.flatMap fun st =>
      (Validation.act s doc st (r, [])).problems := by
  refine findings_single fun st hst => ?_
  obtain ⟨fs, hfinds⟩ := h.act hoff st hst []
  exact hfinds.memory

/-- **What a rule that only looks finds** in a document without a depth limit, in the order in which
the nodes are entered. -/
theorem nodes_found (h : Looks s doc r signers places) (hoff : off ≤ 0) :
    (found s doc [r] off).map Problem.nodes =
      (doc.spots []).flatMap fun x => places x.1 x.2 := by
  rw [h.found_eq hoff, List.map_flatMap, ← flatMap_route_entering hoff]
  refine List.flatMap_congr fun st hst => ?_
  obtain ⟨fs, hfinds⟩ := h.act hoff st hst []
  obtain ⟨ps, hps, hnodes, -⟩ := hfinds.problems
  rw [hps, ← hnodes]
  rfl

theorem rule_found (h : Looks s doc r signers places) (hoff : off ≤ 0) :
    ∀ p ∈ found s doc [r] off, p.rule ∈ signers.map Rule.name := by
  intro p hp
  rw [h.found_eq hoff, List.mem_flatMap] at hp
  obtain ⟨st, hst, hp⟩ := hp
  obtain ⟨fs, hfinds⟩ := h.act hoff st hst []
  obtain ⟨ps, hps, -, hsigned⟩ := hfinds.problems
  rw [hps] at hp
  exact hsigned p hp

end Looks

/-! ### One rule among several -/

theorem Rule.name_injective : Function.Injective Rule.name := by
  intro r r' h
  cases r <;> cases r' <;> first | rfl | exact absurd h (by decide)

namespace Interleaving

variable {α : Type} {as bs cs : List α}

theorem mem_iff (h : Interleaving as bs cs) (a : α) : a ∈ cs ↔ a ∈ as ∨ a ∈ bs := by
  induction h with
  | nil => simp
  | left b _ ih => rw [List.mem_cons, List.mem_cons, ih, or_assoc]
  | right b _ ih => rw [List.mem_cons, List.mem_cons, ih, or_left_comm]

/-- What holds of all members of the first list and of none of the second tells the first. -/
theorem filter_eq (h : Interleaving as bs cs) {p : α → Bool} (has : ∀ a ∈ as, p a = true)
    (hbs : ∀ b ∈ bs, p b = false) : cs.filter p = as := by
  induction h with
  | nil => rfl
  | left a _ ih =>
    rw [List.forall_mem_cons] at has
    rw [List.filter_cons_of_pos has.1, ih has.2 hbs]
  | right b _ ih =>
    rw [List.forall_mem_cons] at hbs
    rw [List.filter_cons_of_neg (by simp [hbs.1]), ih has hbs.2]

end Interleaving

/-- The places that the problems of one rule show, problem by problem. -/
def reportedBy (r : Rule) (ps : List Problem) : List (List (Child Node)) :=
  (ps.filter fun p => p.rule == r.name).map Problem.nodes

section Several

variable {s : Option Schema} {doc : Node} {off : Int}

/-- What several rules find is woven from what one of them and the others find. -/
theorem interleaving_found (front : List Rule) (r : Rule) (back : List Rule) :
    Interleaving (found s doc [r] off) (found s doc (front ++ back) off)
      (found s doc (front ++ r :: back) off) := by
  have h := interleaving_findings s doc (route off [] doc.rose).steps (fresh front) (fresh [r])
    (fresh back)
  rwa [← fresh_append, ← fresh_append, ← fresh_append, List.append_assoc] at h

/-- Every problem that several rules find is found by one of them alone. -/
theorem exists_rule_of_mem_found : ∀ {rules : List Rule} {p : Problem}, p ∈ found s doc rules off →
    ∃ r ∈ rules, p ∈ found s doc [r] off
  | [], p, hp => by
    have hnil : ∀ steps, findings s doc steps [] = [] := fun steps => by
      induction steps with
      | nil => rfl
      | cons st steps ih => exact ih
    rw [found, show fresh [] = [] from rfl, hnil] at hp
    cases hp
  | r :: rules, p, hp => by
    rcases ((interleaving_found [] r rules).mem_iff p).mp hp with hown | hrest
    · exact ⟨r, List.mem_cons_self, hown⟩
    · obtain ⟨r', hr', hp'⟩ := exists_rule_of_mem_found hrest
      exact ⟨r', List.mem_cons_of_mem _ hr', hp'⟩

/-- **The problems of one rule among those of several** are what it finds alone, if every rule signs
with its own name. -/
theorem filter_found {rules : List Rule} (hnodup : rules.Nodup)
    (hsigned : ∀ r ∈ rules, ∀ p ∈ found s doc [r] off, p.rule = r.name) {r : Rule} (hr : r ∈ rules) :
    (found s doc rules off).filter (fun p => p.rule == r.name) = found s doc [r] off := by
  obtain ⟨front, back, rfl⟩ := List.append_of_mem hr
  refine (interleaving_found front r back).filter_eq (fun p hp => ?_) fun p hp => ?_
  · rw [hsigned r hr p hp]
    exact beq_self_eq_true r.name
  · obtain ⟨r', hr', hp'⟩ := exists_rule_of_mem_found hp
    have hne : r' ≠ r := by
      rintro rfl
      rw [List.perm_middle.nodup_iff, List.nodup_cons] at hnodup
      exact hnodup.1 hr'
    have hmem : r' ∈ front ++ r :: back := by
      rw [List.mem_append, List.mem_cons]
      rcases List.mem_append.mp hr' with h | h
      · exact .inl h
      · exact .inr (.inr h)
    rw [hsigned r' hmem p hp', beq_eq_false_iff_ne]
    exact fun he => hne (Rule.name_injective he)

/-- **Rules that only look** and sign with their own names have a result if the table of directives
can be made and the types of the document can be resolved, and each reports what it finds in the
order in which the nodes are entered. -/
theorem exists_reportedBy {rules : List Rule} (hnodup : rules.Nodup) (hoff : off ≤ 0)
    (hrules : ∀ r ∈ rules, r ≠ .providedRequiredArgumentsOnDirectives ∧
      ∃ places, Looks s doc r [r] places)
    (htable : (directiveTable? s doc).isSome) (htypes : Resolvable s doc) :
    ∃ ps, validate s doc rules off = some ps ∧
      (∀ p ∈ ps, ∃ r ∈ rules, p.rule = r.name) ∧
      ∀ r ∈ rules, ∀ places, Looks s doc r [r] places →
        reportedBy r ps = (doc.spots []).flatMap fun x => places x.1 x.2 := by
  have hunbroken : ∀ st ∈ (route off [] doc.rose).steps, ∀ r ∈ rules, ∀ memory,
      (act s doc st (r, memory)).broken = false := by
    intro st hst r hr
    obtain ⟨-, places, hlooks⟩ := hrules r hr
    exact hlooks.unbroken hoff st hst
  have hfails : fails s doc rules off = false :=
    (fails_eq_false_iff hoff (fun r hr => unprepared_of_ne (hrules r hr).1) hunbroken).mpr
      ⟨fun _ => htable, htypes⟩
  have hsigned : ∀ r ∈ rules, ∀ p ∈ found s doc [r] off, p.rule = r.name := by
    intro r hr p hp
    obtain ⟨-, places, hlooks⟩ := hrules r hr
    have hmem := hlooks.rule_found hoff p hp
    rwa [List.map_singleton, List.mem_singleton] at hmem
  refine ⟨_, validate_eq_found hoff hfails, fun p hp => ?_, fun r hr places hlooks => ?_⟩
  · obtain ⟨r, hr, hp⟩ := exists_rule_of_mem_found hp
    exact ⟨r, hr, hsigned r hr p hp⟩
  · rw [reportedBy, filter_found hnodup hsigned hr, hlooks.nodes_found hoff]

end Several

end QueryCheck.Validation
