import QueryCheck.Proofs.Walk.Depth
import QueryCheck.Proofs.Written.Documents
import QueryCheck.Proofs.Written.Placed

/-! # Definitions and their descriptions

Descriptions are the only nodes of directive definitions that have no location. A description is the
first part of what it describes, so that it can be the first node below a depth limit: that of the
first definition at a limit of two, and that of the first argument at a limit of three. The
definitions of a document always reach deeper than that.

* `Node.PlacedDefinition`, `placed_parseDirectiveDefinitions`: definitions are located but for
  descriptions.
* `firstBelow_unlocated_iff`: when the first node of definitions below a limit is a description.
* `firstAt_two_of_parseDocument`: a document with definitions has nodes two levels below them. -/

namespace QueryCheck.Syntax

open QueryCheck.Source (IsString Lexeme)
open QueryCheck.Walk
open QueryCheck.Written.Parser (DefinitionLocated InputLocated)

/-! ### Definitions and their descriptions -/

namespace Node

/-- Whether a definition has a description. -/
def described : Node → Bool
  | .directiveDefinition desc _ _ _ _ _ => desc.isFilled
  | .inputValueDefinition desc _ _ _ _ _ => desc.isFilled
  | _ => false

/-- The argument definitions of a directive definition; no other node has any. -/
def argumentDefinitions : Node → List Node
  | .directiveDefinition _ _ args _ _ _ => args.filterMap Child.toOption
  | _ => []

theorem Located.at {n : Node} (h : n.Located) (K : Kind → Prop) : n.LocatedAt K :=
  fun m hm _ => h m hm trivial

/-- A definition whose first part is located unless it is a description. -/
def Opens (n : Node) : Prop :=
  ∃ m, n.children.head? = some m ∧ (m.loc = none ↔ n.described = true)

/-- An argument definition whose parts are located; its description has no parts. -/
structure PlacedArgument (a : Node) : Prop where
  opens : a.Opens
  parts : ∀ m ∈ a.children, m.children = [] ∨ m.Located

/-- A directive definition that is located but for descriptions, and in which only arguments have
parts. -/
structure PlacedDefinition (d : Node) : Prop where
  kind : d.kind = .directiveDefinition
  located : d.LocatedAt (· ≠ .stringValue)
  opens : d.Opens
  inner : ∀ k, firstAt (k + 1) d.children = firstAt (k + 1) d.argumentDefinitions
  arguments : ∀ a ∈ d.argumentDefinitions, a.PlacedArgument

end Node

theorem Slot.Located.at {s : Slot Node} (h : s.Located) (K : Kind → Prop) : s.LocatedAt K :=
  fun n hn => Node.Located.at (h n hn) K

namespace Excerpt

variable {e : Excerpt}

theorem located_description (s : String) :
    Slot.LocatedAt (· ≠ .stringValue) (.one (description s)) := by
  unfold description
  split_ifs
  · exact Slot.all_absent
  · exact Slot.all_one.mpr (Node.all_mk (fun h => absurd rfl h) (by simp))

theorem leaf_description (s : String) :
    ∀ m ∈ (Slot.one (description s)).children, m.children = [] := by
  unfold description
  split_ifs
  · exact nofun
  · exact List.forall_mem_singleton.mpr rfl

/-- The first part of a definition is its description or its name. -/
theorem head?_children (k : Kind) (s : String) {n : Node} (hn : n.Located) (ss : List (Slot Node))
    (l : Option Location) :
    ∃ m, (Node.mk k (.one (description s) :: .one (.node n) :: ss) l).children.head? = some m ∧
      (m.loc = none ↔ (description s).isFilled = true) := by
  rw [Node.children_mk]
  unfold description
  split_ifs
  · have hloc := hn n n.mem_labels_self trivial
    refine ⟨n, rfl, fun h => ?_, nofun⟩
    rw [h] at hloc
    cases hloc
  · exact ⟨_, rfl, fun _ => rfl, fun _ => rfl⟩

/-- The parts of an argument definition behind its description. -/
theorem located_parts {v : Written.InputValue} (h : InputLocated e v) :
    ∀ s ∈ [.one (.node (e.name v.name v.span.start)), .one (.node (e.typeRef v.type)),
      .one (e.value? v.default), .many (e.directives v.directives)], Slot.Located s := by
  simp [h.name, h.type, h.default, h.directives]

theorem located_inputValue {v : Written.InputValue} (h : InputLocated e v) :
    (e.inputValue v).LocatedAt (· ≠ .stringValue) :=
  Node.all_mk (fun _ => rfl) (List.forall_mem_cons.mpr
    ⟨located_description v.description, fun s hs => (located_parts h s hs).at _⟩)

theorem placed_inputValue {v : Written.InputValue} (h : InputLocated e v) :
    (e.inputValue v).PlacedArgument := by
  refine ⟨head?_children _ _ h.name _ _, fun m hm => ?_⟩
  obtain ⟨s, hs, hm⟩ := Node.mem_children_mk.mp hm
  rcases List.mem_cons.mp hs with rfl | hs
  · exact .inl (leaf_description _ m hm)
  · exact .inr (located_parts h s hs m hm)

theorem leaf_locationNames : ∀ (start : Nat) (names : List String),
    ∀ m ∈ (Slot.many (e.locationNames start names)).children, m.children = []
  | _, [] => nofun
  | _, _ :: names => List.forall_mem_cons.mpr ⟨rfl, leaf_locationNames _ names⟩

theorem placed_directiveDefinition {d : Written.DirectiveDefinition} (h : DefinitionLocated e d) :
    (e.directiveDefinition d).PlacedDefinition := by
  have hargs : (e.directiveDefinition d).argumentDefinitions = d.arguments.map e.inputValue := by
    simp [directiveDefinition, Node.argumentDefinitions, Child.toOption, Function.comp_def]
  have hslot : Slot.LocatedAt (· ≠ .stringValue)
      (.many (d.arguments.map fun a => .node (e.inputValue a))) := by
    intro m hm
    obtain ⟨a, ha, rfl⟩ : ∃ a ∈ d.arguments, e.inputValue a = m := by
      simpa [Slot.children, Child.toOption] using hm
    exact located_inputValue (h.arguments a ha)
  refine ⟨rfl, ?_, head?_children _ _ h.name _ _, fun k => ?_, fun a ha => ?_⟩
  · exact Node.all_mk (fun _ => rfl)
      (by simp [located_description, h.name.at, hslot, h.locations.at])
  · -- Neither the description nor the name nor the names of the locations have parts.
    have hdescription := firstAt_of_leaves k (leaf_description d.description)
    have hname : firstAt (k + 1) [e.name d.name d.span.start] = none :=
      firstAt_of_leaves k (List.forall_mem_singleton.mpr rfl)
    have hlocations := firstAt_of_leaves k (leaf_locationNames (e := e)
      (endOr (e.name d.name d.span.start) d.span.start) d.locations)
    have hchildren : (e.directiveDefinition d).children =
        (Slot.one (description d.description)).children ++ ([e.name d.name d.span.start] ++
          (d.arguments.map e.inputValue ++ (Slot.many (e.locationNames
            (endOr (e.name d.name d.span.start) d.span.start) d.locations)).children)) := by
      simp [directiveDefinition, Node.children_eq, Node.slots, Slot.children, Child.toOption,
        Function.comp_def]
    rw [hargs, hchildren, firstAt_append, firstAt_append, firstAt_append, hdescription, hname,
      hlocations, Option.none_or, Option.none_or, Option.or_none]
  · rw [hargs] at ha
    obtain ⟨v, hv, rfl⟩ := List.mem_map.mp ha
    exact placed_inputValue (h.arguments v hv)

end Excerpt

/-- **Directive definitions read from a text are located** but for descriptions. -/
theorem placed_parseDirectiveDefinitions {text : String} {defs : List Node}
    (h : parseDirectiveDefinitions text = .ok defs) : ∀ d ∈ defs, d.PlacedDefinition := by
  unfold parseDirectiveDefinitions at h
  cases hq : Written.parseSchema text with
  | error err => simp [hq, Except.map] at h
  | ok q =>
    simp only [hq, Except.map, Except.ok.injEq] at h
    subst h
    intro d hd
    obtain ⟨w, hw, rfl⟩ := List.mem_map.mp hd
    have hlocated := Written.Parser.located_of_parseSchema hq .definitions
    exact Excerpt.placed_directiveDefinition (hlocated w (List.mem_mergeSort.mp hw))

/-! ### The first node below a limit -/

section Definitions

variable {defs : List Node}

theorem firstAt_one_unlocated_iff {ns : List Node} (h : ∀ n ∈ ns, n.Opens) :
    (∃ m ∈ firstAt 1 ns, m.loc = none) ↔ ns.head?.any Node.described = true := by
  cases ns with
  | nil => simp [firstAt]
  | cons n ns =>
    obtain ⟨m, hm, hloc⟩ := h n List.mem_cons_self
    have hfirst : firstAt 1 (n :: ns) = some m := by
      rw [firstAt, List.findSome?_cons, firstAt, hm]
    simp [hfirst, hloc]

/-- The parts of the parts of arguments are located. -/
theorem isSome_loc_of_firstAt {as : List Node} (h : ∀ a ∈ as, a.PlacedArgument) {k : Nat} {m : Node}
    (hm : firstAt (k + 2) as = some m) : m.loc.isSome = true := by
  obtain ⟨a, ha, hm⟩ := exists_child_of_firstAt hm
  obtain ⟨part, hpart, hm⟩ := exists_child_of_firstAt hm
  rcases (h a ha).parts part hpart with hleaf | hlocated
  · rw [hleaf, firstAt_nil] at hm
    cases hm
  · obtain ⟨n, hn, hm⟩ := mem_labels_of_firstAt hm
    exact hlocated m (Node.mem_labels_of_child hn m hm) trivial

variable (hdefs : ∀ d ∈ defs, d.PlacedDefinition)
include hdefs

theorem placed_argumentDefinitions :
    ∀ a ∈ defs.flatMap Node.argumentDefinitions, a.PlacedArgument := by
  intro a ha
  obtain ⟨d, hd, ha⟩ := List.mem_flatMap.mp ha
  exact (hdefs d hd).arguments a ha

theorem firstAt_definitions (k : Nat) :
    firstAt (k + 2) defs = firstAt (k + 1) (defs.flatMap Node.argumentDefinitions) :=
  firstAt_flatMap k fun d hd => (hdefs d hd).inner k

/-- **When the first node of definitions below a limit is not located**: the limit is two and the
first definition has a description, or the limit is three and the first argument has one. -/
theorem firstBelow_unlocated_iff (maxDepth : Int) :
    (∃ m ∈ firstBelow maxDepth defs, m.loc = none) ↔
      maxDepth = 2 ∧ defs.head?.any Node.described = true ∨
      maxDepth = 3 ∧ (defs.flatMap Node.argumentDefinitions).head?.any Node.described = true := by
  unfold firstBelow
  split_ifs with hpos
  · obtain ⟨k, rfl⟩ : ∃ k : Nat, maxDepth = k + 1 :=
      ⟨maxDepth.toNat - 1, by omega⟩
    rw [show ((k : Int) + 1).toNat - 1 = k by omega]
    match k with
    | 0 =>
      refine ⟨fun ⟨m, hm, hloc⟩ => ?_, by omega⟩
      have hd := hdefs m (List.mem_of_mem_head? hm)
      have hsome := hd.located m m.mem_labels_self (by rw [hd.kind]; decide)
      rw [hloc] at hsome
      cases hsome
    | 1 => simpa using firstAt_one_unlocated_iff fun d hd => (hdefs d hd).opens
    | 2 =>
      rw [firstAt_definitions hdefs]
      simpa using
        firstAt_one_unlocated_iff fun a ha => (placed_argumentDefinitions hdefs a ha).opens
    | k + 3 =>
      refine ⟨fun ⟨m, hm, hloc⟩ => ?_, by omega⟩
      rw [firstAt_definitions hdefs] at hm
      have hsome := isSome_loc_of_firstAt (placed_argumentDefinitions hdefs) hm
      rw [hloc] at hsome
      cases hsome
  · simp; omega

end Definitions

/-! ### Documents with definitions -/

theorem IsDefinition.exists_inner {S : Lexeme → Prop} {d : Node} (h : IsDefinition S d) :
    ∃ m ∈ d.children, m.children ≠ [] := by
  have hset : ∀ {ss : List Node}, ss ≠ [] → (selectionSetOf ss).children ≠ [] := by
    intro ss hss
    simpa [Node.children_eq, Node.slots] using hss
  cases h with
  | @operation op name vars dirs ss _ _ _ hss _ =>
    exact ⟨selectionSetOf ss, by simp [Node.children_eq, Node.slots], hset hss⟩
  | @fragment s t vars dirs ss _ _ _ _ _ hss _ =>
    exact ⟨selectionSetOf ss, by simp [Node.children_eq, Node.slots], hset hss⟩

/-- **A document with definitions** has nodes two levels below them. -/
theorem firstAt_two_of_parseDocument {text : String} {doc : Node}
    (h : parseDocument text = .ok doc) (hdoc : doc.children ≠ []) :
    firstAt 2 doc.children ≠ none := by
  intro hnone
  obtain ⟨d, hd⟩ := List.exists_mem_of_ne_nil _ hdoc
  have hclone : d.cloneDeep ∈ doc.cloneDeep.children := by
    rw [Node.children_cloneDeep]
    exact List.mem_map_of_mem hd
  have hdefinition : IsDefinition IsString d.cloneDeep := by
    have hgrammar := Written.Parser.isDocument_of_parseDocument h
    generalize doc.cloneDeep = clone at hclone hgrammar
    obtain ⟨hds⟩ := hgrammar
    rw [Node.children_document] at hclone
    exact hds _ hclone
  obtain ⟨set, hset, hinner⟩ := hdefinition.exists_inner
  rw [Node.children_cloneDeep] at hset
  obtain ⟨m, hm, rfl⟩ := List.mem_map.mp hset
  have hleaf := firstAt_eq_none (firstAt_eq_none hnone d hd) m hm
  rw [firstAt, List.head?_eq_none_iff] at hleaf
  exact hinner (by rw [Node.children_cloneDeep, hleaf, List.map_nil])

end QueryCheck.Syntax
