import QueryCheck.Proofs.Walk.Route
import QueryCheck.Validation.Basic

/-! # Rules do not see each other

The rules of a validation share its state: the frames, two tables that are made when first needed,
the list of problems, and the names of fragments each rule has met. What a rule does to the state is
isolated (`Isolated`): it adds the problems it would report if it were alone, with its own memory
and with tables yet to be made, and touches nothing another rule can see.

* `Context.seenBy`: the state as one rule would have it alone.
* `Isolated.comp`, `Isolated.foldl`, `Isolated.ofTables`: isolated actions can be put together.
* `Rule.isolated_atEnter`, `Rule.isolated_atLeave`: all rules are isolated. -/

namespace QueryCheck.Validation

open QueryCheck.Schema
open QueryCheck.Syntax
open QueryCheck.Typing
open QueryCheck.Walk

/-- What a rule remembers of the fragments it has met. -/
abbrev Memory := List (Nat × String × Child Node)

namespace Context

/-! ### The state as one rule sees it -/

/-- The memory of the rule with the given number, as if its number were zero. -/
def memoryOf (slot : Nat) (c : Context) : Memory :=
  (c.metNames.filter fun m => m.1 == slot).map fun m => (0, m.2)

/-- The state before anything was reported or looked up, with the given frames and memory. -/
def alone (s : Option Schema) (doc : Node) (fs : Frames) (memory : Memory) : Context :=
  { schema := s, document := doc, frames := fs, metNames := memory }

/-- The state as the rule with the given number would have it alone. -/
def seenBy (slot : Nat) (c : Context) :
    Context := alone c.schema c.document c.frames (c.memoryOf slot)

/-- A table that was made is the table of the document. -/
structure Coherent (c : Context) : Prop where
  fragments : ∀ t, c.fragmentTable = some t → fragmentTable? c.document = some t
  directives : ∀ t, c.directiveTable = some t → directiveTable? c.schema c.document = some t

theorem coherent_alone (s : Option Schema) (doc : Node) (fs : Frames) (memory : Memory) :
    (alone s doc fs memory).Coherent where
  fragments _ h := by cases h
  directives _ h := by cases h

theorem coherent_seenBy (slot : Nat) (c : Context) : (c.seenBy slot).Coherent :=
  coherent_alone _ _ _ _

theorem memoryOf_seenBy (slot : Nat) (c : Context) :
    (c.seenBy slot).memoryOf 0 = c.memoryOf slot := by
  simp [memoryOf, seenBy, alone, List.filter_map, Function.comp_def]

end Context

open Context

/-! ### Isolated actions -/

/-- What the rule with a given number makes of a state (`after`), next to what it would make of it
alone (`solo`): it adds the problems it reports alone, breaks down where it does so alone, and
changes only its own memory. -/
structure Isolates (slot : Nat) (before after solo : Context) : Prop where
  schema : after.schema = before.schema
  document : after.document = before.document
  frames : after.frames = before.frames
  coherent : after.Coherent
  problems : after.problems = before.problems ++ solo.problems
  broken : after.broken = (before.broken || solo.broken)
  own : after.memoryOf slot = solo.memoryOf 0
  others : ∀ slot', slot' ≠ slot → after.memoryOf slot' = before.memoryOf slot'

/-- An action of the rule with a given number is isolated. -/
def Isolated (f : Nat → Context → Context) : Prop :=
  ∀ slot c, c.Coherent → Isolates slot c (f slot c) (f 0 (c.seenBy slot))

namespace Isolated

variable {f g : Nat → Context → Context}

/-- What another rule sees is not changed. -/
theorem seenBy_other (hf : Isolated f) {slot slot' : Nat} (hne : slot' ≠ slot) {c : Context}
    (hc : c.Coherent) :
    (f slot c).seenBy slot' = c.seenBy slot' := by
  have h := hf slot c hc
  rw [seenBy, h.schema, h.document, h.frames, h.others slot' hne, ← seenBy]

/-- What the rule itself sees afterwards is what it would see alone. -/
theorem seenBy_own (hf : Isolated f) (slot : Nat) {c : Context} (hc : c.Coherent) :
    (f slot c).seenBy slot = (f 0 (c.seenBy slot)).seenBy 0 := by
  have h := hf slot c hc
  have h' := hf 0 (c.seenBy slot) (coherent_seenBy slot c)
  rw [seenBy, seenBy, h.schema, h.document, h.frames, h.own, h'.schema, h'.document, h'.frames]
  rfl

/-- An action that only reports is isolated when what it reports is told by the schema, the document
and the frames. -/
theorem ofReports {f : Context → Context}
    (h : ∀ c, f c =
      { c with problems := c.problems ++ (f (alone c.schema c.document c.frames [])).problems }) :
    Isolated fun _ c => f c := by
  intro slot c hc
  have h0 := h (c.seenBy slot)
  dsimp only
  rw [h c, h0]
  exact ⟨rfl, rfl, rfl, ⟨hc.fragments, hc.directives⟩, rfl, (Bool.or_false c.broken).symm,
    (memoryOf_seenBy slot c).symm, fun _ _ => rfl⟩

theorem same : Isolated fun _ c => c := ofReports fun c => by simp [alone]

theorem report (p : Problem) : Isolated fun _ c => c.report p := ofReports fun _ => rfl

theorem breakDown : Isolated fun _ c => c.breakDown := fun slot c hc =>
  ⟨rfl, rfl, rfl, ⟨hc.fragments, hc.directives⟩, (List.append_nil c.problems).symm,
    (Bool.or_true c.broken).symm,
    (memoryOf_seenBy slot c).symm, fun _ _ => rfl⟩

/-- One action after another. The second sees what the first would have left if the rule were
alone. -/
theorem comp (hg : Isolated g) (hf : Isolated f) : Isolated fun slot c => g slot (f slot c) := by
  intro slot c hc
  have h := hf slot c hc
  have k := hg slot _ h.coherent
  have k' := hg 0 _ (hf 0 _ (coherent_seenBy slot c)).coherent
  rw [hf.seenBy_own slot hc] at k
  refine ⟨k.schema.trans h.schema, k.document.trans h.document, k.frames.trans h.frames, k.coherent,
    ?_, ?_, ?_, ?_⟩
  · rw [k.problems, h.problems, k'.problems, List.append_assoc]
  · rw [k.broken, h.broken, k'.broken, Bool.or_assoc]
  · rw [k.own, k'.own]
  · intro slot' hne
    rw [k.others slot' hne, h.others slot' hne]

/-- Actions for the members of a list, one after the other. -/
theorem foldl {α : Type} {f : α → Nat → Context → Context} (hf : ∀ a, Isolated (f a)) :
    ∀ as : List α, Isolated fun slot c => as.foldl (fun c a => f a slot c) c
  | [] => same
  | a :: as => comp (foldl hf as) (hf a)

theorem ite (b : Prop) [Decidable b] (hf : Isolated f) (hg : Isolated g) :
    Isolated fun slot c => if b then f slot c else g slot c := by
  by_cases hb : b
  · simpa only [if_pos hb] using hf
  · simpa only [if_neg hb] using hg

end Isolated

/-! ### Tables -/

/-- Making the table of fragments changes nothing but that table and whether the validation has
broken down. -/
theorem withFragments_fields (c : Context) :
    c.withFragments =
      { c with
        fragmentTable := c.withFragments.fragmentTable
        broken := c.withFragments.broken } := by
  unfold withFragments
  split
  · rfl
  · split <;> rfl

theorem withDirectives_fields (c : Context) :
    c.withDirectives =
      { c with
        directiveTable := c.withDirectives.directiveTable
        broken := c.withDirectives.broken } := by
  unfold withDirectives
  split
  · rfl
  · split <;> rfl

/-- A table that is there stays; else it is made of the document, which may fail. -/
theorem withFragments_or (c : Context) :
    c.withFragments.fragmentTable = c.fragmentTable.or (fragmentTable? c.document) ∧
      c.withFragments.broken =
        (c.broken || (c.fragmentTable.or (fragmentTable? c.document)).isNone) := by
  cases ht : c.fragmentTable with
  | some t => simp [withFragments, ht]
  | none => cases hd : fragmentTable? c.document <;> simp [withFragments, ht, hd, breakDown]

theorem withDirectives_or (c : Context) :
    c.withDirectives.directiveTable = c.directiveTable.or (directiveTable? c.schema c.document) ∧
      c.withDirectives.broken =
        (c.broken || (c.directiveTable.or (directiveTable? c.schema c.document)).isNone) := by
  cases ht : c.directiveTable with
  | some t => simp [withDirectives, ht]
  | none =>
    cases hd : directiveTable? c.schema c.document <;> simp [withDirectives, ht, hd, breakDown]

theorem withFragments_eq {c : Context} (hc : c.Coherent) :
    c.withFragments.fragmentTable = fragmentTable? c.document ∧
      c.withFragments.broken = (c.broken || (fragmentTable? c.document).isNone) := by
  have htable : c.fragmentTable.or (fragmentTable? c.document) = fragmentTable? c.document := by
    cases ht : c.fragmentTable with
    | some t => exact (hc.fragments t ht).symm
    | none => rfl
  simpa only [htable] using withFragments_or c

theorem withDirectives_eq {c : Context} (hc : c.Coherent) :
    c.withDirectives.directiveTable = directiveTable? c.schema c.document ∧
      c.withDirectives.broken = (c.broken || (directiveTable? c.schema c.document).isNone) := by
  have htable : c.directiveTable.or (directiveTable? c.schema c.document) =
      directiveTable? c.schema c.document := by
    cases ht : c.directiveTable with
    | some t => exact (hc.directives t ht).symm
    | none => rfl
  simpa only [htable] using withDirectives_or c

/-- An action that only makes tables is isolated when the schema and the document alone tell whether
it breaks down. -/
theorem Isolated.ofTables {f : Context → Context} (fails : Option Schema → Node → Bool)
    (fields : ∀ c,
      f c = { c with fragmentTable := (f c).fragmentTable, directiveTable := (f c).directiveTable,
                                  broken := (f c).broken })
    (coherent : ∀ c, c.Coherent → (f c).Coherent)
    (broken : ∀ c, c.Coherent → (f c).broken = (c.broken || fails c.schema c.document)) :
    Isolated fun _ c => f c := by
  intro slot c hc
  have hb : (f c).broken = (c.broken || (f (c.seenBy slot)).broken) := by
    rw [broken c hc, broken _ (coherent_seenBy slot c)]
    rfl
  have hcoh := coherent c hc
  have h0 := fields (c.seenBy slot)
  dsimp only
  rw [fields c] at hcoh ⊢
  rw [h0]
  exact ⟨rfl, rfl, rfl, hcoh, (List.append_nil c.problems).symm, hb, (memoryOf_seenBy slot c).symm,
    fun _ _ => rfl⟩

theorem isolated_withFragments : Isolated fun _ c => c.withFragments := by
  refine .ofTables (fun _ doc => (fragmentTable? doc).isNone) (fun c => ?_) (fun c hc => ?_)
    fun c hc => (withFragments_eq hc).2
  · rw [withFragments_fields c]
  · rw [withFragments_fields c, (withFragments_eq hc).1]
    exact ⟨fun _ h => h, hc.directives⟩

theorem isolated_withDirectives : Isolated fun _ c => c.withDirectives := by
  refine .ofTables (fun s doc => (directiveTable? s doc).isNone) (fun c => ?_) (fun c hc => ?_)
    fun c hc => (withDirectives_eq hc).2
  · rw [withDirectives_fields c]
  · rw [withDirectives_fields c, (withDirectives_eq hc).1]
    exact ⟨hc.fragments, fun _ h => h⟩

/-- The directives a document is checked against; none when a definition lacks a part. -/
def directivesOf (s : Option Schema) (doc : Node) : List Directive :=
  (directiveTable? s doc).getD []

theorem directive_eq {c : Context} (hc : c.Coherent) (name : String) :
    c.directive name = (findDirective (directivesOf c.schema c.document) name,
      c.withDirectives) := by
  rw [Context.directive, (withDirectives_eq hc).1]
  rfl

theorem fragment_eq {c : Context} (hc : c.Coherent) (name : String) :
    c.fragment name = (((fragmentTable? c.document).getD []).lookup name, c.withFragments) := by
  rw [Context.fragment, (withFragments_eq hc).1]

namespace Rule

/-! ### The checks of rules -/

theorem isolated_checkTypeName (s : Schema) (n : Node) :
    Isolated fun _ c => checkTypeName s n c := by
  unfold checkTypeName
  split
  · exact .ite _ .same (.report _)
  · exact .same

theorem isolated_checkConditionOf (fragment : String) (cond : Node) :
    Isolated fun _ c => checkConditionOf fragment cond c := by
  intro slot c hc
  unfold checkConditionOf
  dsimp only
  rw [show (c.seenBy slot).schema = c.schema from rfl]
  cases resolve? c.schema cond with
  | none => exact Isolated.breakDown slot c hc
  | some ref => exact Isolated.ite _ .same (.report _) slot c hc

theorem isolated_checkCondition (n : Node) : Isolated fun _ c => checkCondition n c := by
  unfold checkCondition
  split
  · exact isolated_checkConditionOf _ _
  · exact isolated_checkConditionOf _ _
  · exact .same

theorem isolated_checkFieldArgument (n : Node) : Isolated fun _ c => checkFieldArgument n c := by
  refine .ofReports fun c => ?_
  unfold checkFieldArgument
  rw [show (alone c.schema c.document c.frames []).top = c.top from rfl]
  split
  · by_cases h : (c.top.inDirective || c.top.argument.isSome) = true
    · rw [if_pos h, if_pos h]
      simp [alone]
    · rw [if_neg h, if_neg h]
      rfl
  · simp [alone]

/-- A rule finds the same in its memory whatever its number is. -/
theorem firstMet?_memoryOf (slot : Nat) (name : String) (c : Context) :
    firstMet? 0 name (c.memoryOf slot) = firstMet? slot name c.metNames := by
  have hp : (fun m : Nat × String × Child Node =>
      decide ((m.1 == slot) = true ∧
        ((fun m => m.1 == 0 && m.2.1 == name) ∘ fun m => ((0 : Nat), m.2)) m = true)) =
      fun m => m.1 == slot && m.2.1 == name := by
    funext m
    rw [Bool.eq_iff_iff]
    simp
  unfold firstMet? memoryOf
  rw [List.find?_map, List.find?_filter, Option.map_map, hp]
  rfl

/-- A rule that remembers a name changes no other memory. -/
theorem isolates_remember (slot : Nat) {c : Context} (hc : c.Coherent) (name : String)
    (place : Child Node) :
    Isolates slot c { c with metNames := c.metNames ++ [(slot, name, place)] }
      { c.seenBy slot with metNames := (c.seenBy slot).metNames ++ [(0, name, place)] } := by
  refine ⟨rfl, rfl, rfl, ⟨hc.fragments, hc.directives⟩, (List.append_nil c.problems).symm,
    (Bool.or_false c.broken).symm, ?_, fun slot' hne => ?_⟩
  · have h := memoryOf_seenBy slot c
    simp only [memoryOf, List.filter_append, List.map_append] at h ⊢
    rw [h]
    simp
  · simp [memoryOf, Ne.symm hne]

theorem isolated_checkUnique (n : Node) : Isolated fun slot c => checkUnique slot n c := by
  intro slot c hc
  unfold checkUnique
  split
  · next name _ _ _ _ _ =>
    dsimp only
    rw [show (c.seenBy slot).metNames = c.memoryOf slot from rfl, firstMet?_memoryOf]
    split
    · exact Isolated.report _ slot c hc
    · exact isolates_remember slot hc _ _
  · exact Isolated.same slot c hc

theorem isolated_checkSpread (n : Node) : Isolated fun _ c => checkSpread n c := by
  intro slot c hc
  unfold checkSpread
  split
  · next name _ _ =>
    dsimp only
    rw [fragment_eq hc, fragment_eq (coherent_seenBy slot c),
      show (c.seenBy slot).document = c.document from rfl]
    cases ((fragmentTable? c.document).getD []).lookup name.nameText with
    | some _ => exact isolated_withFragments slot c hc
    | none => exact (Isolated.report _).comp isolated_withFragments slot c hc
  · exact Isolated.same slot c hc

theorem isolated_checkDirectiveArgument (d : Directive) (arg : Child Node) :
    Isolated fun _ c => checkDirectiveArgument d c arg := by
  unfold checkDirectiveArgument
  split
  · exact .ite _ .same (.report _)
  · exact .breakDown

theorem isolated_checkDirectiveArguments (n : Node) :
    Isolated fun _ c => checkDirectiveArguments n c := by
  intro slot c hc
  unfold checkDirectiveArguments
  split
  · next name args _ =>
    dsimp only
    rw [directive_eq hc, directive_eq (coherent_seenBy slot c),
      show directivesOf (c.seenBy slot).schema (c.seenBy slot).document =
        directivesOf c.schema c.document from rfl]
    cases findDirective (directivesOf c.schema c.document) name.nameText with
    | some d =>
      exact (Isolated.foldl (isolated_checkDirectiveArgument d) args).comp isolated_withDirectives
        slot c hc
    | none => exact isolated_withDirectives slot c hc
  · exact Isolated.same slot c hc

theorem isolated_checkProvided (table : List (String × Required)) (n : Node) :
    Isolated fun _ c => checkProvided table n c := by
  unfold checkProvided
  split
  · dsimp only
    split
    · exact .same
    · split
      · exact .breakDown
      · exact .foldl (fun r => .report _) _
  · exact .same

/-! ### What rules do at a node -/

/-- What the rule with the given number does when a node is entered. -/
def atEnter (r : Rule) (n : Node) (slot : Nat) (c : Context) : Context :=
  match r with
  | fragmentsOnCompositeTypes => checkCondition n c
  | knownArgumentNames => checkFieldArgument n (checkDirectiveArguments n c)
  | knownArgumentNamesOnDirectives => checkDirectiveArguments n c
  | knownFragmentNames => checkSpread n c
  | knownTypeNames => c.schema.elim c fun s => checkTypeName s n c
  | providedRequiredArgumentsOnDirectives => c
  | uniqueFragmentNames => checkUnique slot n c

/-- What a rule does when a node is left. -/
def atLeave (r : Rule) (n : Node) (_slot : Nat) (c : Context) : Context :=
  match r with
  | providedRequiredArgumentsOnDirectives => checkProvided ((requiredTable? c).getD []) n c
  | _ => c

/-- **Rules are isolated** when a node is entered. -/
theorem isolated_atEnter (r : Rule) (n : Node) : Isolated (r.atEnter n) := by
  cases r with
  | fragmentsOnCompositeTypes => exact isolated_checkCondition n
  | knownArgumentNames =>
    exact (isolated_checkFieldArgument n).comp (isolated_checkDirectiveArguments n)
  | knownArgumentNamesOnDirectives => exact isolated_checkDirectiveArguments n
  | knownFragmentNames => exact isolated_checkSpread n
  | knownTypeNames =>
    intro slot c hc
    rw [atEnter, atEnter, show (c.seenBy slot).schema = c.schema from rfl]
    cases c.schema with
    | none => exact Isolated.same slot c hc
    | some s => exact isolated_checkTypeName s n slot c hc
  | providedRequiredArgumentsOnDirectives => exact .same
  | uniqueFragmentNames => exact isolated_checkUnique n

theorem requiredTable?_seenBy (slot : Nat) (c : Context) :
    requiredTable? (c.seenBy slot) = requiredTable? c := rfl

/-- **Rules are isolated** when a node is left. -/
theorem isolated_atLeave (r : Rule) (n : Node) : Isolated (r.atLeave n) := by
  cases r with
  | providedRequiredArgumentsOnDirectives =>
    intro slot c hc
    rw [atLeave, atLeave, requiredTable?_seenBy]
    exact isolated_checkProvided _ n slot c hc
  | _ => exact .same

end Rule

end QueryCheck.Validation
