import QueryCheck.Proofs.Syntax.Read
import QueryCheck.Proofs.Syntax.RoundTrip
import QueryCheck.Proofs.Syntax.Typed

/-! # What is printed of fragments

The variable definitions of a fragment are not printed, and nothing else is left out. So a
definition is read again as it was without them, provided that its string literals are legible. It
is read as an equal definition only if there were none.

* `Node.withoutParameters`: a definition without the variable definitions of a fragment.
* `lasting_withoutParameters`: nothing else is lost when a definition is printed.
* `parseDocument_print_definitions`: some definitions of a document, printed and read again. -/

namespace QueryCheck.Syntax

open QueryCheck.Data (Value)
open QueryCheck.Source

/-! ### Definitions without variable definitions of fragments -/

namespace Node

/-- A fragment without its variable definitions; other nodes are left as they are. -/
def withoutParameters : Node → Node
  | .fragmentDefinition c _ cond dirs sel l => .fragmentDefinition c [] cond dirs sel l
  | n => n

theorem fragmentParameters_of_kind_ne {n : Node} (h : n.kind ≠ .fragmentDefinition) :
    n.fragmentParameters = [] := by
  unfold fragmentParameters
  split
  · exact absurd rfl h
  · rfl

theorem withoutParameters_of_kind_ne {n : Node} (h : n.kind ≠ .fragmentDefinition) :
    n.withoutParameters = n := by
  unfold withoutParameters
  split
  · exact absurd rfl h
  · rfl

@[simp] theorem kind_withoutParameters (n : Node) : n.withoutParameters.kind = n.kind := by
  unfold withoutParameters
  split <;> rfl

@[simp] theorem fragmentParameters_withoutParameters (n : Node) :
    n.withoutParameters.fragmentParameters = [] := by
  unfold withoutParameters
  split
  · rfl
  · next h =>
    unfold fragmentParameters
    split
    · exact absurd rfl (h _ _ _ _ _ _)
    · rfl

theorem withoutParameters_eq_self_iff {n : Node} :
    n.withoutParameters = n ↔ n.fragmentParameters = [] := by
  refine ⟨fun h => h ▸ n.fragmentParameters_withoutParameters, fun h => ?_⟩
  unfold withoutParameters
  split
  · next params _ _ _ _ =>
    obtain rfl : params = [] := h
    rfl
  · rfl

/-- **The variable definitions of a fragment are not printed.** -/
theorem print_withoutParameters (n : Node) : n.withoutParameters.print = n.print := by
  unfold withoutParameters
  split
  · rw [print_mk, print_mk]
    rfl
  · rfl

theorem children_withoutParameters_subset (n : Node) :
    n.withoutParameters.children ⊆ n.children := by
  unfold withoutParameters
  split
  · intro m hm
    obtain ⟨s, hs, hm⟩ := mem_children_mk.mp hm
    simp only [List.mem_cons, List.not_mem_nil, or_false] at hs
    rcases hs with rfl | rfl | rfl | rfl | rfl
    case inr.inl => cases hm
    all_goals exact mem_children_mk.mpr ⟨_, by simp, hm⟩
  · exact List.Subset.refl _

variable {n : Node}

theorem cloneDeep_withoutParameters (h : n.typed = true) :
    n.withoutParameters.cloneDeep = n.cloneDeep.withoutParameters := by
  by_cases hk : n.kind = .fragmentDefinition
  · obtain ⟨_, _, _, _, _, _, rfl, -⟩ := eq_fragmentDefinition_of_typed h hk
    simp only [withoutParameters, cloneDeep_mk]
    rfl
  · rw [withoutParameters_of_kind_ne hk, withoutParameters_of_kind_ne (by rwa [kind_cloneDeep])]

end Node

/-! ### Lasting definitions -/

theorem kind_ne_of_admits : ∀ k : Kind, k ≠ .document →
    ∀ d ∈ k.declared, ∀ k', d.2.admits k' = true → k' ≠ .document ∧ k' ≠ .fragmentDefinition := by
  intro k
  cases k <;> simp [Kind.declared, Shape.admits, Wanted.admits, Family.kinds]

/-- Below a definition there are no fragments. -/
theorem Node.Typed.kind_ne_fragmentDefinition {n m : Node} (hn : n.Typed) (hk : n.kind ≠ .document)
    (hm : m ∈ n.children) : m.All fun x => x.kind ≠ .fragmentDefinition := by
  obtain ⟨d, hd, hadmits⟩ := exists_admits_child hn.typed hm
  have hall := (hn.child hm).all_kind (P := fun k => k ≠ .document ∧ k ≠ .fragmentDefinition)
    (fun k h => kind_ne_of_admits k h.1) m (kind_ne_of_admits n.kind hk d hd m.kind hadmits)
  exact fun x hx => (hall x hx).2

/-- **Nothing but the variable definitions of fragments** is lost when a definition is printed. -/
theorem Node.lasting_withoutParameters {n : Node} (hn : n.Typed) (hk : n.kind ≠ .document)
    (hlegible : ∀ m ∈ n.rose.labels, m.Legible) : n.withoutParameters.Lasting := by
  have hbelow : ∀ m ∈ n.withoutParameters.children, ∀ x ∈ m.rose.labels,
      x ∈ n.rose.labels ∧ x.fragmentParameters = [] := by
    intro m hm x hx
    have hm' := n.children_withoutParameters_subset hm
    exact ⟨mem_labels_of_child hm' x hx,
      fragmentParameters_of_kind_ne (hn.kind_ne_fragmentDefinition hk hm' x hx)⟩
  have hself : n.withoutParameters.Legible := by
    by_cases hfragment : n.kind = .fragmentDefinition
    · exact legible_of_kind_ne (by rw [kind_withoutParameters, hfragment]; decide)
    · rw [withoutParameters_of_kind_ne hfragment]
      exact hlegible n (mem_labels_self n)
  constructor <;> rw [labels_eq, List.forall_mem_cons] <;> simp only [List.mem_flatMap]
  · exact ⟨hself, fun x ⟨m, hm, hx⟩ => hlegible x (hbelow m hm x hx).1⟩
  · exact ⟨n.fragmentParameters_withoutParameters, fun x ⟨m, hm, hx⟩ => (hbelow m hm x hx).2⟩

theorem isDefinition_withoutParameters {S : Lexeme → Prop} {n : Node} (h : IsDefinition S n) :
    IsDefinition S n.withoutParameters := by
  cases h with
  | operation op hname hvars hdirs hne hss => exact .operation op hname hvars hdirs hne hss
  | fragment hs hon hvars ht hdirs hne hss =>
    exact @IsDefinition.fragment S _ _ [] _ _ hs hon (by simp) ht hdirs hne hss

/-! ### Definitions that are read again -/

theorem IsDocument.isDefinition {S : Lexeme → Prop} {n d : Node} (h : IsDocument S n)
    (hd : d ∈ n.children) : IsDefinition S d := by
  cases h with
  | mk hds => exact hds d (by simpa using hd)

/-- The text of some definitions is that of the definitions without variable definitions of
fragments. -/
theorem print_map_withoutParameters (ds : List Node) (l : Option Location) :
    (Node.document (placed (ds.map fun d => d.withoutParameters.cloneDeep)) none).print =
      (Node.document (placed ds) l).print := by
  rw [Node.print_mk, Node.print_mk]
  change Printer.joined _ (printedIn _) = Printer.joined _ (printedIn _)
  rw [joined_printedIn, joined_printedIn, List.map_map]
  have hprint : ∀ d : Node, d.withoutParameters.cloneDeep.print = d.print := fun d =>
    (Node.print_cloneDeep _).trans d.print_withoutParameters
  simp only [Function.comp_def, hprint]

/-- A definition that is read again without variable definitions of fragments is equal to what is
left of the one that was printed, and so it is to that one if there were none, unless it is nested
too deep to be compared. -/
theorem equal_iff_of_cloneDeep {d d' : Node} (hd : d.Whole) (hd' : d'.Whole)
    (h : d'.cloneDeep = d.withoutParameters.cloneDeep) :
    (d'.equal d.withoutParameters = true ↔ d.withoutParameters.shape.depth ≤ Value.maxNesting) ∧
      (d'.equal d = true ↔
        d.fragmentParameters = [] ∧ d.withoutParameters.shape.depth ≤ Value.maxNesting) := by
  have hshape : d'.shape = d.withoutParameters.shape := by
    rw [← d'.shape_cloneDeep, h, Node.shape_cloneDeep]
  constructor
  · rw [Node.equal_iff_shape, hshape, and_iff_right rfl]
  · rw [Node.equal_iff hd' hd, h, hshape, Node.cloneDeep_withoutParameters hd.typed.typed,
      Node.withoutParameters_eq_self_iff, Node.fragmentParameters_cloneDeep, List.map_eq_nil_iff]

/-- **A definition is read again without the variable definitions of a fragment.** From the text of
some definitions of a document that was read as many definitions are read, each of them but for
locations the one that was printed without these. It is equal to that one only if there were none,
and unless it is nested too deep to be compared. -/
theorem parseDocument_print_definitions {text : String} {doc : Node}
    (h : parseDocument text = .ok doc) {ds : List Node} (hds : ds ⊆ doc.children)
    (hlegible : ∀ d ∈ ds, ∀ n ∈ d.rose.labels, n.Legible) (l : Option Location) :
    ∃ doc', parseDocument (Node.document (placed ds) l).print = .ok doc' ∧
      List.Forall₂ (fun d d' => d'.cloneDeep = d.withoutParameters.cloneDeep ∧
        (d'.equal d.withoutParameters = true ↔
          d.withoutParameters.shape.depth ≤ Value.maxNesting) ∧
        (d'.equal d = true ↔ d.fragmentParameters = [] ∧
          d.withoutParameters.shape.depth ≤ Value.maxNesting)) ds doc'.children := by
  have hdocument := Written.Parser.isDocument_of_parseDocument h
  have hwhole : ∀ d ∈ ds, d.Whole := fun d hd => (whole_of_parseDocument h).child (hds hd)
  have hkind : ∀ d ∈ ds, d.kind ≠ .document := by
    intro d hd hk
    have howner := Node.kind_mem_owners (whole_of_parseDocument h).typed.typed (hds hd)
    rw [hk] at howner
    cases howner
  have hdefinition : ∀ d ∈ ds.map fun d => d.withoutParameters.cloneDeep,
      IsDefinition IsString d := by
    refine List.forall_mem_map.mpr fun d hd => ?_
    rw [Node.cloneDeep_withoutParameters (hwhole d hd).typed.typed]
    refine isDefinition_withoutParameters (hdocument.isDefinition ?_)
    rw [Node.children_cloneDeep]
    exact List.mem_map_of_mem (hds hd)
  have hlasting : ∀ d ∈ ds.map fun d => d.withoutParameters.cloneDeep, d.Lasting :=
    List.forall_mem_map.mpr fun d hd =>
      (Node.lasting_withoutParameters (hwhole d hd).typed (hkind d hd) (hlegible d hd)).cloneDeep
  obtain ⟨doc', hparse, hdoc'⟩ := exists_parseDocument_print hdefinition hlasting
  rw [print_map_withoutParameters ds l] at hparse
  have hchildren : ds.map (fun d => d.withoutParameters.cloneDeep) =
      doc'.children.map Node.cloneDeep := by
    rw [← Node.children_cloneDeep, hdoc', Node.children_document]
  have hwhole' : ∀ d ∈ doc'.children, d.Whole := fun d => (whole_of_parseDocument hparse).child
  refine ⟨doc', hparse, ?_⟩
  rw [← List.forall₂_eq_eq_eq, List.forall₂_map_left_iff, List.forall₂_map_right_iff] at hchildren
  have hright := ((List.forall₂_and_left _ _).mpr ⟨hwhole', hchildren.flip⟩).flip
  refine ((List.forall₂_and_left _ _).mpr ⟨hwhole, hright⟩).imp fun d d' ⟨hd, hd', heq⟩ => ?_
  exact ⟨heq.symm, equal_iff_of_cloneDeep hd hd' heq.symm⟩

/-- A fragment with a variable definition. -/
def openFragment : String := "fragment F($x: [Int!] = [1]) on T @d(n: $x) \x7b a ...G \x7d"

theorem parseDocument_print_definitions_openFragment :
    ∃ doc doc', parseDocument openFragment = .ok doc ∧ parseDocument doc.print = .ok doc' ∧
      doc.children.map (fun d => d.fragmentParameters.length) = [1] ∧
      List.Forall₂ (fun d d' => d'.cloneDeep = d.withoutParameters.cloneDeep ∧
        (d'.equal d.withoutParameters = true ↔
          d.withoutParameters.shape.depth ≤ Value.maxNesting) ∧
        (d'.equal d = true ↔ d.fragmentParameters = [] ∧
          d.withoutParameters.shape.depth ≤ Value.maxNesting)) doc.children doc'.children := by
  have hfacts : (parseDocument openFragment).toOption.any (fun doc =>
      decide ((∀ d ∈ doc.children, ∀ n ∈ d.rose.labels, n.Legible) ∧
        doc.children.map (fun d => d.fragmentParameters.length) = [1])) = true := by
    decide +kernel
  cases h : parseDocument openFragment with
  | error e =>
    rw [h] at hfacts
    cases hfacts
  | ok doc =>
    rw [h] at hfacts
    obtain ⟨hlegible, hlengths⟩ := of_decide_eq_true hfacts
    obtain ⟨ns, l, rfl, -⟩ := read_parseDocument h
    obtain ⟨doc', hparse, hall⟩ :=
      parseDocument_print_definitions h (List.Subset.refl _) hlegible l
    rw [Node.children_document] at hparse
    exact ⟨_, doc', rfl, hparse, hlengths, hall⟩

/-- A fragment with a variable definition is not read again as it was. -/
theorem print_loses_parameter :
    ((parseDocument "fragment F($x: Int) on T \x7b a \x7d").toOption.bind fun doc =>
      (parseDocument doc.print).toOption.map fun doc' => (doc'.print, doc'.equal doc)) =
        some ("fragment F on T \x7b a \x7d", false) := by
  decide +kernel

end QueryCheck.Syntax
