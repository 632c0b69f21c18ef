import QueryCheck.Proofs.Typing.References
import QueryCheck.Proofs.Validation.Directives

/-! # Validations of whole documents

The validation of a whole document has a result if the types it states have one: the tables it needs
can be made, and no rule breaks down at a whole node.

* `directiveTable?_isSome`, `requiredTable?_isSome`, `fragmentTable?_isSome`: the tables of a whole
  document.
* `Intact`: a state that has not broken down, in which all tables can be made.
* `Intact.move`: the moves of rules keep a state intact at whole nodes.
* `fails_of_whole`: the validation of a whole document has a result. -/

namespace QueryCheck.Validation

open QueryCheck.Schema
open QueryCheck.Syntax
open QueryCheck.Typing
open QueryCheck.Walk
open Context

/-! ### Tables of whole documents -/

/-- The places for definitions of one kind in a whole document hold whole nodes of that kind. -/
theorem exists_node_of_mem_placesOf {doc : Node} (h : doc.Whole) {k : Kind} {c : Child Node}
    (hc : c ∈ placesOf k doc) : ∃ n, c = .node n ∧ n.kind = k ∧ n.Whole := by
  obtain ⟨hmem, hkind⟩ := List.mem_filter.mp hc
  unfold Node.definitions at hmem
  split at hmem
  · next ds l =>
    obtain ⟨_, _, ⟨⟩, hitems⟩ := Node.eq_document_of_fits h.fits rfl
    cases c with
    | absent => cases hkind
    | null _ => cases hitems _ hmem
    | node n =>
      refine ⟨n, rfl, eq_of_beq hkind, h.child ?_⟩
      exact Node.mem_children_mk.mpr ⟨_, List.mem_singleton_self _,
        List.mem_filterMap.mpr ⟨_, hmem, rfl⟩⟩
  · cases hmem

theorem directiveTable?_isSome (s : Option Schema) {doc : Node} (h : doc.Whole) :
    (directiveTable? s doc).isSome := by
  refine (directiveTable?_isSome_iff s h.typed).mpr fun c hc => ?_
  obtain ⟨n, rfl, hk, hn⟩ := exists_node_of_mem_placesOf h hc
  obtain ⟨desc, name, args, repeatable, locs, l, rfl, hargs⟩ :=
    Node.eq_directiveDefinition_of_fits hn.fits hk
  refine List.all_eq_true.mpr fun a ha => ?_
  obtain ⟨m, rfl, -⟩ := hargs a ha
  rfl

theorem requiredTable?_isSome (s : Option Schema) {doc : Node} (h : doc.Whole) :
    (Rule.requiredTable? (alone s doc [] [])).isSome := by
  rw [requiredTable?_alone s h.typed h.typeGiven, Option.isSome_map]
  exact directiveTable?_isSome s h

theorem fragmentTable?_isSome {doc : Node} (h : doc.Whole) : (fragmentTable? doc).isSome := by
  refine (fragmentTable?_isSome_iff doc).mpr fun c hc => ?_
  obtain ⟨n, rfl, -, -⟩ := exists_node_of_mem_placesOf h hc
  rfl

/-! ### States that have not broken down -/

/-- A state that has not broken down, of a document whose tables can be made. -/
structure Intact (s : Option Schema) (c : Context) : Prop where
  schema : c.schema = s
  coherent : c.Coherent
  fragments : (fragmentTable? c.document).isSome
  directives : (directiveTable? c.schema c.document).isSome
  unbroken : c.broken = false

namespace Intact

variable {s : Option Schema} {c : Context}

theorem report (h : Intact s c) (p : Problem) : Intact s (c.report p) :=
  ⟨h.schema, ⟨h.coherent.fragments, h.coherent.directives⟩, h.fragments, h.directives, h.unbroken⟩

theorem withFragments (h : Intact s c) : Intact s c.withFragments := by
  have hb := (withFragments_eq h.coherent).2
  have hcoh := (isolated_withFragments 0 c h.coherent).coherent
  rw [h.unbroken, Option.isNone_eq_false_iff.mpr h.fragments] at hb
  have hfields := withFragments_fields c
  exact ⟨by rw [hfields]; exact h.schema, hcoh, by rw [hfields]; exact h.fragments,
    by rw [hfields]; exact h.directives, hb⟩

theorem withDirectives (h : Intact s c) : Intact s c.withDirectives := by
  have hb := (withDirectives_eq h.coherent).2
  have hcoh := (isolated_withDirectives 0 c h.coherent).coherent
  rw [h.unbroken, Option.isNone_eq_false_iff.mpr h.directives] at hb
  have hfields := withDirectives_fields c
  exact ⟨by rw [hfields]; exact h.schema, hcoh, by rw [hfields]; exact h.fragments,
    by rw [hfields]; exact h.directives, hb⟩

/-- **A move keeps a state intact** at a whole node whose types can be resolved. -/
theorem move {slot : Nat} {n : Node} (hn : n.Whole) (htype : resolvable s n = true) {c c' : Context}
    (hmove : Move slot n c c') (h : Intact s c) : Intact s c' := by
  cases hmove with
  | report => exact h.report _
  | remember =>
    exact ⟨h.schema, ⟨h.coherent.fragments, h.coherent.directives⟩, h.fragments, h.directives,
      h.unbroken⟩
  | fragments => exact h.withFragments
  | directives => exact h.withDirectives
  | breakDown hno => exact absurd ⟨hn, h.schema ▸ htype⟩ hno

end Intact

/-! ### Whole validations -/

section Whole

variable (s : Option Schema) {doc : Node}

theorem intact_alone (h : doc.Whole) (fs : Frames) (memory : Memory) :
    Intact s (alone s doc fs memory) :=
  ⟨rfl, coherent_alone s doc fs memory, fragmentTable?_isSome h, directiveTable?_isSome s h, rfl⟩

theorem intact_act (h : doc.Whole) {st : Step} (hst : st.node.Whole)
    (htype : resolvable s st.node = true) (x : Rule × Memory) : Intact s (act s doc st x) :=
  act_preserves (fun _ _ => Intact.move hst htype) fun fs => intact_alone s h fs x.2

theorem breaking_of_whole (h : doc.Whole) : ∀ {steps : List Step} (crew : List (Rule × Memory)),
    (∀ st ∈ steps, st.node.Whole ∧ resolvable s st.node = true) → breaking s doc steps crew = false
  | [], _, _ => rfl
  | st :: steps, crew, hsteps => by
    rw [List.forall_mem_cons] at hsteps
    obtain ⟨⟨hst, htype⟩, hsteps⟩ := hsteps
    have hlacks := lacksPart_eq_false (directiveTable?_isSome s h) htype
    have hany : (crew.any fun x => (act s doc st x).broken) = false :=
      List.any_eq_false.mpr fun x _ => by simp [(intact_act s h hst htype x).unbroken]
    rw [breaking, hlacks, hany, breaking_of_whole h _ hsteps]
    rfl

/-- **The validation of a whole document** has a result if the types it states can be resolved. -/
theorem fails_of_whole (h : doc.Whole) (htypes : Resolvable s doc) (rules : List Rule)
    (maxDepth : Int) : fails s doc rules maxDepth = false := by
  have hunprepared : rules.any (unprepared s doc) = false :=
    List.any_eq_false.mpr fun r _ => by
      have hsome := requiredTable?_isSome s h
      simp [unprepared, Option.isSome_iff_ne_none.mp hsome]
  rw [fails, hunprepared, breaking_of_whole s h]
  · rfl
  · intro st hst
    have hmem := node_mem_of_mem_route maxDepth doc.rose [] st hst
    exact ⟨h.below _ hmem, htypes _ hmem⟩

theorem validate_of_whole (h : doc.Whole) (htypes : Resolvable s doc) (rules : List Rule)
    (maxDepth : Int) :
    validate s doc rules maxDepth = some (found s doc rules maxDepth ++ tooDeep doc maxDepth) := by
  rw [validate_eq, fails_of_whole s h htypes]
  rfl

end Whole

end QueryCheck.Validation
