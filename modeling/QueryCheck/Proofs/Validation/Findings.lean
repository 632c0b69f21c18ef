import QueryCheck.Proofs.Typing.Along
import QueryCheck.Proofs.Validation.Handlers

/-! # What a validation finds

A validation is a walk along the route of its document, and along the route every rule works for
itself: from the step and its own memory it finds problems and remembers more. What the validation
finds is what the rules find, step by step, and at each step rule by rule.

* `findings`, `breaking`: the problems of some rules along a route, each rule on its own, and
  whether one breaks down.
* `exists_act_of_mem_findings`: every problem was found by a rule at a step.
* `stepEffect`: one step of a validation, from which `foldl_step_eq` follows for all its steps.
* `validate_eq`: a validation finds these problems and breaks down when a rule or the type context
  does. -/

namespace QueryCheck.Validation

open QueryCheck.Schema
open QueryCheck.Syntax
open QueryCheck.Typing
open QueryCheck.Walk
open Context

/-! ### Several rules at one node -/

/-- What several rules, each with its number, make of a state when each does its part. -/
structure CrewEffect (F : Rule → Nat → Context → Context) (crew : List (Rule × Nat))
    (before after : Context) :
    Prop where
  schema : after.schema = before.schema
  document : after.document = before.document
  frames : after.frames = before.frames
  coherent : after.Coherent
  problems : after.problems = before.problems ++ crew.flatMap fun x =>
    (F x.1 0 (before.seenBy x.2)).problems
  broken : after.broken = (before.broken || crew.any fun x => (F x.1 0 (before.seenBy x.2)).broken)
  own : ∀ x ∈ crew, after.memoryOf x.2 = (F x.1 0 (before.seenBy x.2)).memoryOf 0
  others : ∀ slot, slot ∉ crew.map Prod.snd → after.memoryOf slot = before.memoryOf slot

/-- **Rules at one node** find what each would find alone. -/
theorem crewEffect_foldl {F : Rule → Nat → Context → Context} (hF : ∀ r, Isolated (F r)) :
    ∀ (crew : List (Rule × Nat)), (crew.map Prod.snd).Nodup → ∀ c : Context, c.Coherent →
      CrewEffect F crew c (crew.foldl (fun c x => F x.1 x.2 c) c)
  | [], _, c, hc =>
    ⟨rfl, rfl, rfl, hc, (List.append_nil _).symm, (Bool.or_false _).symm, by simp, fun _ _ => rfl⟩
  | x :: crew, hnd, c, hc => by
    rw [List.map_cons, List.nodup_cons] at hnd
    have h := hF x.1 x.2 c hc
    have ih := crewEffect_foldl hF crew hnd.2 (F x.1 x.2 c) h.coherent
    have hother : ∀ y ∈ crew, (F x.1 x.2 c).seenBy y.2 = c.seenBy y.2 := fun y hy =>
      (hF x.1).seenBy_other (fun he => hnd.1 (List.mem_map.mpr ⟨y, hy, he⟩)) hc
    refine ⟨ih.schema.trans h.schema, ih.document.trans h.document, ih.frames.trans h.frames,
      ih.coherent, ?_, ?_, ?_, ?_⟩
    · rw [List.foldl_cons, ih.problems, h.problems, List.flatMap_cons, List.append_assoc]
      congr 2
      exact List.flatMap_congr fun y hy => by rw [hother y hy]
    · rw [List.foldl_cons, ih.broken, h.broken, List.any_cons, Bool.or_assoc]
      congr 2
      rw [Bool.eq_iff_iff, List.any_eq_true, List.any_eq_true]
      exact exists_congr fun y => and_congr_right fun hy => by rw [hother y hy]
    · intro y hy
      rcases List.mem_cons.mp hy with rfl | hy
      · rw [List.foldl_cons, ih.others _ hnd.1, h.own]
      · rw [List.foldl_cons, ih.own y hy, hother y hy]
    · intro slot hslot
      rw [List.map_cons, List.mem_cons, not_or] at hslot
      rw [List.foldl_cons, ih.others slot hslot.2, h.others slot hslot.1]

/-! ### The type context -/

/-- Only directives are looked up. -/
theorem enter_of_not_directive {n : Node} (h : n.kind ≠ .directive) (s : Option Schema)
    (lookup lookup' : String → Option Directive) (f : Frame) :
    f.enter s lookup n = f.enter s lookup' n := by
  unfold Frame.enter
  split
  all_goals first
    | exact absurd rfl h
    | rfl

/-- The directives of a document by name. -/
def lookupIn (s : Option Schema) (doc : Node) : String → Option Directive :=
  findDirective (directivesOf s doc)

/-- Whether a step needs the table of directives and there is none, or a type that has no answer. -/
def lacksPart (s : Option Schema) (doc : Node) : Step → Bool
  | .enter n _ => (n.kind == .directive && (directiveTable? s doc).isNone) || !resolvable s n
  | _ => false

/-- No step lacks a part if the table of directives can be made and the types can be resolved. -/
theorem lacksPart_eq_false {s : Option Schema} {doc : Node}
    (htable : (directiveTable? s doc).isSome) {st : Step} (htype : resolvable s st.node = true) :
    lacksPart s doc st = false := by
  cases st with
  | enter n above =>
    rw [lacksPart, Option.isNone_eq_false_iff.mpr htable, Bool.and_false, Bool.false_or,
      Bool.not_eq_false']
    exact htype
  | _ => rfl

/-- Entering a node derives its frame from the directives of the document. -/
theorem enter_eq {c : Context} (hc : c.Coherent) (n : Node) :
    c.enter n =
      { (if n.kind = .directive then c.withDirectives else c) with
        frames := c.frames.enter c.schema (lookupIn c.schema c.document) n
        broken := (if n.kind = .directive then c.withDirectives else c).broken ||
          !resolvable c.schema n } := by
  unfold Context.enter
  by_cases hk : n.kind = .directive
  · simp only [if_pos hk]
    have hschema : c.withDirectives.schema = c.schema := by rw [withDirectives_fields c]
    have hframes : c.withDirectives.frames = c.frames := by rw [withDirectives_fields c]
    rw [hschema]
    cases resolvable c.schema n <;>
      simp [breakDown, hschema, hframes, (withDirectives_eq hc).1, lookupIn, directivesOf]
  · simp only [if_neg hk]
    have hframes : c.frames.enter c.schema (findDirective (c.directiveTable.getD [])) n =
        c.frames.enter c.schema (lookupIn c.schema c.document) n := by
      unfold Frames.enter
      rw [enter_of_not_directive hk]
    cases resolvable c.schema n <;> simp [breakDown, hframes]

theorem enter_fields (n : Node) (c : Context) :
    (c.enter n).schema = c.schema ∧ (c.enter n).document = c.document ∧
      (c.enter n).problems = c.problems ∧ (c.enter n).metNames = c.metNames := by
  unfold Context.enter
  by_cases hk : n.kind = .directive
  · simp only [if_pos hk]
    rw [withDirectives_fields c]
    split_ifs <;> exact ⟨rfl, rfl, rfl, rfl⟩
  · simp only [if_neg hk]
    split_ifs <;> exact ⟨rfl, rfl, rfl, rfl⟩

theorem coherent_enter {c : Context} (hc : c.Coherent) (n : Node) : (c.enter n).Coherent := by
  rw [enter_eq hc]
  split_ifs
  · have h := (isolated_withDirectives 0 c hc).coherent
    exact ⟨h.fragments, h.directives⟩
  · exact ⟨hc.fragments, hc.directives⟩

theorem broken_enter {c : Context} (hc : c.Coherent) (n : Node) (above : List Node) :
    (c.enter n).broken = (c.broken || lacksPart c.schema c.document (.enter n above)) := by
  rw [enter_eq hc, lacksPart]
  dsimp only
  split_ifs with hk
  · rw [hk, (withDirectives_eq hc).2, Bool.or_assoc]
    rfl
  · rw [beq_eq_false_iff_ne.mpr hk, Bool.false_and, Bool.false_or]

/-- A state that stands on a path: its frames are those of the path. -/
structure Stands (s : Option Schema) (doc : Node) (path : List Node) (c : Context) : Prop where
  schema : c.schema = s
  document : c.document = doc
  frames : c.frames = framesAt s (lookupIn s doc) path
  coherent : c.Coherent

theorem Stands.enter {s : Option Schema} {doc : Node} {above : List Node} {c : Context}
    (h : Stands s doc above c) (n : Node) : Stands s doc (n :: above) (c.enter n) := by
  obtain ⟨hs, hd, -, -⟩ := enter_fields n c
  refine ⟨hs.trans h.schema, hd.trans h.document, ?_, coherent_enter h.coherent n⟩
  rw [enter_eq h.coherent, framesAt_cons, ← h.frames, h.schema, h.document]

theorem Stands.leave {s : Option Schema} {doc : Node} {above : List Node} {n : Node} {c : Context}
    (h : Stands s doc (n :: above) c) : Stands s doc above (c.leave n) := by
  refine ⟨h.schema, h.document, ?_, ⟨h.coherent.fragments, h.coherent.directives⟩⟩
  rw [Context.leave, h.frames]
  exact leave_enter s (lookupIn s doc) n _

theorem Stands.seenBy {s : Option Schema} {doc : Node} {path : List Node} {c : Context}
    (h : Stands s doc path c) (slot : Nat) :
    c.seenBy slot = alone s doc (framesAt s (lookupIn s doc) path) (c.memoryOf slot) := by
  rw [Context.seenBy, h.schema, h.document, h.frames]

/-! ### Rules along a route -/

section Route

variable (s : Option Schema) (doc : Node)

/-- What a rule makes of a step when it is alone, from what it remembers. -/
def act (st : Step) (x : Rule × Memory) : Context :=
  match st with
  | .enter n above => x.1.atEnter n 0 (alone s doc (framesAt s (lookupIn s doc) (n :: above)) x.2)
  | .leave n above => x.1.atLeave n 0 (alone s doc (framesAt s (lookupIn s doc) (n :: above)) x.2)
  | .abandon n above => alone s doc (framesAt s (lookupIn s doc) (n :: above)) x.2

/-- A rule with what it remembers after a step. -/
def remember (st : Step) (x : Rule × Memory) : Rule × Memory := (x.1, (act s doc st x).memoryOf 0)

/-- The problems some rules find along the steps of a walk, each rule from what it remembers. -/
def findings : List Step → List (Rule × Memory) → List Problem
  | [], _ => []
  | st :: steps, crew =>
    (crew.flatMap fun x => (act s doc st x).problems) ++
      findings steps (crew.map (remember s doc st))

/-- Whether a step of a walk lacks what it needs or breaks a rule. -/
def breaking : List Step → List (Rule × Memory) → Bool
  | [], _ => false
  | st :: steps, crew =>
    lacksPart s doc st || (crew.any fun x => (act s doc st x).broken) ||
      breaking steps (crew.map (remember s doc st))

variable {s doc}

/-- Every problem was found by a rule at a step. -/
theorem exists_act_of_mem_findings {p : Problem} : ∀ {steps : List Step}
    {crew : List (Rule × Memory)}, p ∈ findings s doc steps crew →
    ∃ st ∈ steps, ∃ r ∈ crew.map Prod.fst, ∃ memory, p ∈ (act s doc st (r, memory)).problems
  | [], _, hp => by cases hp
  | st :: steps, crew, hp => by
    rcases List.mem_append.mp hp with hp | hp
    · obtain ⟨x, hx, hp⟩ := List.mem_flatMap.mp hp
      exact ⟨st, List.mem_cons_self, x.1, List.mem_map_of_mem hx, x.2, hp⟩
    · obtain ⟨st', hst', r, hr, hact⟩ := exists_act_of_mem_findings hp
      rw [List.map_map] at hr
      exact ⟨st', List.mem_cons_of_mem _ hst', r, hr, hact⟩

end Route

/-! ### A validation along its route -/

/-- Rules with their numbers in a validation, each with what it remembers. -/
def standing (rules : List Rule) (c : Context) : List (Rule × Memory) :=
  rules.zipIdx.map fun x => (x.1, c.memoryOf x.2)

theorem standing_congr (rules : List Rule) {c c' : Context} (h : c'.metNames = c.metNames) :
    standing rules c' = standing rules c := by
  unfold standing memoryOf
  rw [h]

theorem nodup_slots (rules : List Rule) : (rules.zipIdx.map Prod.snd).Nodup := by
  rw [List.zipIdx_map_snd]
  exact List.nodup_range'

/-- The handlers of rules run one after the other. -/
theorem effect_handlers {F : Rule → Nat → Context → Context} (hF : ∀ r, Isolated (F r)) {n : Node}
    {c₀ : Context} {handlers : Rule × Nat → List (Handler Context)}
    (h : ∀ x c, c.schema = c₀.schema → c.document = c₀.document →
      effect n (handlers x) c = F x.1 x.2 c) :
    ∀ (crew : List (Rule × Nat)) (c : Context), c.Coherent → c.schema = c₀.schema →
      c.document = c₀.document →
      effect n (crew.flatMap handlers) c = crew.foldl (fun c x => F x.1 x.2 c) c
  | [], _, _, _, _ => rfl
  | x :: crew, c, hc, hs, hd => by
    have hx := hF x.1 x.2 c hc
    rw [List.flatMap_cons, effect_append, h x c hs hd, List.foldl_cons]
    exact effect_handlers hF h crew _ hx.coherent (hx.schema.trans hs) (hx.document.trans hd)

section Run

variable {s : Option Schema} {doc : Node} {c₀ : Context}

theorem effect_ruleTable_enter (rules : List Rule) {c : Context} (hc : c.Coherent)
    (hs : c.schema = c₀.schema) (hd : c.document = c₀.document) (n : Node) :
    effect n ((ruleTable rules c₀).enter n.kind) c = rules.zipIdx.foldl (fun c x =>
      x.1.atEnter n x.2 c) c := by
  rw [ruleTable, enter_ofVisitors, List.flatMap_map]
  exact effect_handlers (fun r => r.isolated_atEnter n) (fun x c hs _ =>
    x.1.effect_visitor_enter x.2 hs n) _ c hc hs hd

theorem effect_ruleTable_leave (rules : List Rule) {c : Context} (hc : c.Coherent)
    (hs : c.schema = c₀.schema) (hd : c.document = c₀.document) (n : Node) :
    effect n ((ruleTable rules c₀).leave n.kind) c = rules.zipIdx.foldl (fun c x =>
      x.1.atLeave n x.2 c) c := by
  rw [ruleTable, leave_ofVisitors, List.flatMap_map]
  exact effect_handlers (fun r => r.isolated_atLeave n) (fun x c hs hd =>
    x.1.effect_visitor_leave x.2 hs hd n) _ c hc
    hs hd

/-- The walk of a validation. -/
def rulePlan (rules : List Rule) (c₀ : Context) (maxDepth : Int) : Plan Context :=
  { table := ruleTable rules c₀, tracker := contextTracker, maxDepth }

theorem steady_rulePlan (rules : List Rule) (c₀ : Context) (maxDepth : Int) :
    (rulePlan rules c₀ maxDepth).Steady where
  enter k h hh := by
    rw [rulePlan, ruleTable, enter_ofVisitors, List.flatMap_map] at hh
    obtain ⟨x, -, hx⟩ := List.mem_flatMap.mp hh
    exact x.1.proceeding_visitor_enter x.2 c₀ k h hx
  leave k h hh := by
    rw [rulePlan, ruleTable, leave_ofVisitors, List.flatMap_map] at hh
    obtain ⟨x, -, hx⟩ := List.mem_flatMap.mp hh
    exact x.1.proceeding_visitor_leave x.2 c₀ k h hx

/-- What a step makes of a state when every rule acts for itself. -/
structure StepEffect (s : Option Schema) (doc : Node) (rules : List Rule) (st : Step)
    (before after : Context) :
    Prop where
  stands : Stands s doc st.target after
  problems : after.problems =
    before.problems ++ (standing rules before).flatMap fun x => (act s doc st x).problems
  broken : after.broken =
    (before.broken || (lacksPart s doc st || (standing rules before).any fun x =>
      (act s doc st x).broken))
  memories : standing rules after = (standing rules before).map (remember s doc st)

/-- The rules at a node act for themselves. -/
theorem crew_act (rules : List Rule) (st : Step) {F : Rule → Nat → Context → Context}
    (hF : ∀ r, Isolated (F r)) {path : List Node}
    (hact : ∀ x, act s doc st x = F x.1 0 (alone s doc (framesAt s (lookupIn s doc) path) x.2))
      {c : Context}
    (hc : Stands s doc path c) :
    let after := rules.zipIdx.foldl (fun c x => F x.1 x.2 c) c
    Stands s doc path after ∧
      after.problems =
        c.problems ++ ((standing rules c).flatMap fun x => (act s doc st x).problems) ∧
      after.broken = (c.broken || (standing rules c).any fun x => (act s doc st x).broken) ∧
      standing rules after = (standing rules c).map (remember s doc st) := by
  have h := crewEffect_foldl hF rules.zipIdx (nodup_slots rules) c hc.coherent
  have hseen : ∀ x : Rule × Nat,
      F x.1 0 (c.seenBy x.2) = act s doc st (x.1, c.memoryOf x.2) := fun x => by
    rw [hact, hc.seenBy]
  refine ⟨⟨h.schema.trans hc.schema, h.document.trans hc.document, h.frames.trans hc.frames,
    h.coherent⟩, ?_, ?_, ?_⟩
  · rw [h.problems, standing, List.flatMap_map]
    simp only [hseen]
  · rw [h.broken, standing, List.any_map]
    simp only [hseen, Function.comp_def]
  · rw [standing, standing, List.map_map]
    refine List.map_congr_left fun x hx => ?_
    rw [h.own x hx, hseen]
    rfl

/-- One step of a validation. -/
theorem stepEffect (rules : List Rule) (hs : c₀.schema = s) (hd : c₀.document = doc)
    (maxDepth : Int) (st : Step) {c : Context} (hc : Stands s doc st.source c) :
    StepEffect s doc rules st c ((rulePlan rules c₀ maxDepth).step c st) := by
  cases st with
  | enter n above =>
    have hin := Stands.enter hc n
    obtain ⟨-, -, hp, hm⟩ := enter_fields n c
    have hb := broken_enter hc.coherent n above
    rw [hc.schema, hc.document] at hb
    have he : (rulePlan rules c₀ maxDepth).step c (.enter n above) =
        rules.zipIdx.foldl (fun c x => x.1.atEnter n x.2 c) (c.enter n) :=
      effect_ruleTable_enter rules hin.coherent (hin.schema.trans hs.symm)
        (hin.document.trans hd.symm) n
    obtain ⟨h1, h2, h3, h4⟩ := crew_act rules (.enter n above)
      (fun r => r.isolated_atEnter n) (fun _ => rfl) hin
    rw [standing_congr rules hm] at h2 h3 h4
    rw [he]
    exact ⟨h1, by rw [h2, hp], by rw [h3, hb, Bool.or_assoc], h4⟩
  | leave n above =>
    have he : (rulePlan rules c₀ maxDepth).step c (.leave n above) =
        (rules.zipIdx.foldl (fun c x => x.1.atLeave n x.2 c) c).leave n :=
      congrArg (Context.leave n)
        (effect_ruleTable_leave rules hc.coherent (hc.schema.trans hs.symm)
          (hc.document.trans hd.symm) n)
    obtain ⟨h1, h2, h3, h4⟩ := crew_act rules (.leave n above)
      (fun r => r.isolated_atLeave n) (fun _ => rfl) hc
    rw [he]
    exact ⟨h1.leave, h2, h3, h4⟩
  | abandon n above =>
    obtain ⟨h1, h2, h3, h4⟩ := crew_act rules (.abandon n above)
      (F := fun _ _ c => c) (fun _ => .same) (fun _ => rfl) hc
    have he : rules.zipIdx.foldl (fun c _ => c) c = c := List.foldl_fixed _
    rw [he] at h1 h2 h3 h4
    exact ⟨h1.leave, h2, h3, h4⟩

/-- The steps of a validation from a path on. -/
theorem foldl_step_eq (rules : List Rule) (hs : c₀.schema = s) (hd : c₀.document = doc)
    (maxDepth : Int) {last : List Node} :
    ∀ (steps : List Step) {path : List Node} (c : Context), Threads path steps last →
      Stands s doc path c →
      (steps.foldl (rulePlan rules c₀ maxDepth).step c).problems =
          c.problems ++ findings s doc steps (standing rules c) ∧
        (steps.foldl (rulePlan rules c₀ maxDepth).step c).broken =
          (c.broken || breaking s doc steps (standing rules c))
  | [], _, c, _, _ => ⟨(List.append_nil c.problems).symm, (Bool.or_false c.broken).symm⟩
  | st :: steps, _, c, ⟨hsrc, hth⟩, hc => by
    subst hsrc
    have h := stepEffect rules hs hd maxDepth st hc
    obtain ⟨hp, hb⟩ := foldl_step_eq rules hs hd maxDepth steps _ hth h.stands
    rw [List.foldl_cons, hp, hb, h.problems, h.broken, h.memories]
    exact ⟨List.append_assoc _ _ _, Bool.or_assoc _ _ _⟩

end Run

/-! ### Whole validations -/

/-- Whether a rule needs a table before the walk that cannot be made. -/
def unprepared (s : Option Schema) (doc : Node) (r : Rule) : Bool :=
  decide (r = .providedRequiredArgumentsOnDirectives ∧
    (Rule.requiredTable? (alone s doc [] [])).isNone)

theorem prepare_eq (r : Rule) (c : Context) :
    r.prepare c = { c with broken := c.broken || unprepared c.schema c.document r } := by
  have ht : Rule.requiredTable? (alone c.schema c.document [] []) = Rule.requiredTable? c := rfl
  rw [Rule.prepare, unprepared, ht]
  split_ifs with h
  · rw [decide_eq_true h, Bool.or_true]
    rfl
  · rw [decide_eq_false h, Bool.or_false]

theorem foldl_prepare : ∀ (rules : List Rule) (c : Context),
    rules.foldl (fun c r => r.prepare c) c =
      { c with broken := c.broken || rules.any (unprepared c.schema c.document) }
  | [], c => by rw [List.any_nil, Bool.or_false, List.foldl_nil]
  | r :: rules, c => by
    rw [List.foldl_cons, foldl_prepare rules, prepare_eq, List.any_cons, ← Bool.or_assoc]

/-- Rules that have met nothing. -/
def fresh (rules : List Rule) : List (Rule × Memory) := rules.map fun r => (r, [])

theorem standing_of_metNames_nil (rules : List Rule) {c : Context} (h : c.metNames = []) :
    standing rules c = fresh rules := by
  unfold standing memoryOf fresh
  rw [h, ← List.zipIdx_map_fst 0 rules, List.map_map, List.zipIdx_map_fst]
  rfl

/-- Whether a validation has no result. -/
def fails (s : Option Schema) (doc : Node) (rules : List Rule) (maxDepth : Int) : Bool :=
  rules.any (unprepared s doc) || breaking s doc (route maxDepth [] doc.rose).steps (fresh rules)

/-- What a validation finds but for the depth. -/
def found (s : Option Schema) (doc : Node) (rules : List Rule) (maxDepth : Int) : List Problem :=
  findings s doc (route maxDepth [] doc.rose).steps (fresh rules)

/-- The problem that a document is nested too deep, if it is. -/
def tooDeep (doc : Node) (maxDepth : Int) : List Problem :=
  ((route maxDepth [] doc.rose).tooDeep.map (depthProblem maxDepth)).toList

/-- **A validation** finds what its rules find along the route of the document, each for itself, and
after that the depth problem. -/
theorem validate_eq (s : Option Schema) (doc : Node) (rules : List Rule) (maxDepth : Int) :
    validate s doc rules maxDepth =
      if fails s doc rules maxDepth then none
        else some (found s doc rules maxDepth ++ tooDeep doc maxDepth) := by
  have hprep := foldl_prepare rules { schema := s, document := doc : Context }
  set c₀ := rules.foldl (fun c r => r.prepare c) { schema := s, document := doc : Context } with hc₀
  have hrun : runRules { schema := s, document := doc } rules maxDepth =
      (rulePlan rules c₀ maxDepth).along (route maxDepth [] doc.rose) c₀ := by
    have hdoc : c₀.document = doc := by rw [hprep]
    have h := (steady_rulePlan rules c₀ maxDepth).walk_eq_route c₀.document c₀
    rw [hdoc] at h
    rw [runRules, ← hc₀, hdoc]
    exact h
  have hst : Stands s doc [] c₀ := by
    rw [hprep]
    exact ⟨rfl, rfl, rfl, ⟨nofun, nofun⟩⟩
  have hmet : c₀.metNames = [] := by rw [hprep]
  obtain ⟨hp, hb⟩ := foldl_step_eq rules hst.schema hst.document maxDepth _ c₀
    (threads_route maxDepth doc.rose []) hst
  have hproblems : c₀.problems = [] := by rw [hprep]
  have hbroken : c₀.broken = rules.any (unprepared s doc) := by
    rw [hprep]
    rfl
  rw [standing_of_metNames_nil rules hmet, hproblems, List.nil_append] at hp
  rw [standing_of_metNames_nil rules hmet, hbroken] at hb
  unfold validate validated
  rw [hrun]
  unfold tooDeep found fails
  rw [← hb, ← hp]
  cases hdeep : (route maxDepth [] doc.rose).tooDeep with
  | none => simp [Plan.along, hdeep]
  | some n => simp [Plan.along, hdeep, Context.report]

end QueryCheck.Validation
