import Mathlib.Data.List.Forall2
import QueryCheck.Proofs.Syntax.Clone

/-! # Whole nodes

Nodes made by hand may have places that are filled with no node of some kind, or lists that lack an
item. A node is whole when nothing of this sort is found below it: every slot holds what its field
declares.

* `Node.All`, `Node.all_iff`: what holds of all nodes below a node.
* `Node.Whole`: every slot below the node fits its field.
* `Node.named`, `Node.typeNamed`: whether a fragment or a spread, or the reference to a type, has a
  name.
* `Node.eq_directive_of_fits` and its kin: the forms of nodes whose slots fit. -/

namespace QueryCheck.Syntax

/-! ### Slots that fit their fields -/

/-- Whether a place for a node holds a wanted node or nothing at all. -/
def Wanted.fits (w : Wanted) : Child Node → Bool
  | .absent => true
  | .null _ => false
  | .node n => w.admits n.kind

/-- Whether an item of a list is a wanted node. Only where any of a family is wanted may an item be
nothing at all; where just one kind is, a missing item is always one of that kind. -/
def Wanted.fitsItem : Wanted → Child Node → Bool
  | .kind _, .absent => false
  | w, c => w.fits c

/-- Whether a slot holds what a field of the given shape declares. -/
def Shape.fits : Shape → Slot Node → Bool
  | .text, .text _ => true
  | .operation, .text _ => true
  | .flag, .flag _ => true
  | .mark, .flag _ => true
  | .one w, .one c => w.fits c
  | .many w, .many cs => cs.all w.fitsItem
  | _, _ => false

/-- Whether a node of kind `k` may stand in a field of the given shape. -/
def Shape.admits : Shape → Kind → Bool
  | .one w, k => w.admits k
  | .many w, k => w.admits k
  | _, _ => false

/-- Whether the slots of a node hold what its fields declare. -/
def Node.fits (n : Node) : Bool := List.all₂ (fun d s => d.2.fits s) n.kind.declared n.slots

/-- What holds of a node and of all nodes below it. -/
def Node.All (P : Node → Prop) (n : Node) : Prop := ∀ m ∈ n.rose.labels, P m

/-- A node below which every slot holds what its field declares. -/
def Node.Whole (n : Node) : Prop := n.All fun m => m.fits = true

instance (n : Node) : Decidable n.Whole :=
  inferInstanceAs (Decidable (∀ m ∈ n.rose.labels, m.fits = true))

theorem Wanted.fits_of_fitsItem {w : Wanted} {c : Child Node} (h : w.fitsItem c = true) :
    w.fits c = true := by
  cases w <;> cases c <;> first | exact h | cases h

namespace Shape

theorem fits_flag {s : Slot Node} : Shape.flag.fits s = true ↔ ∃ b, s = .flag b := by
  cases s with
  | flag b => exact ⟨fun _ => ⟨b, rfl⟩, fun _ => rfl⟩
  | _ => exact ⟨nofun, nofun⟩

theorem fits_one {w : Wanted} {s : Slot Node} :
    (Shape.one w).fits s = true ↔ ∃ c, s = .one c ∧ w.fits c = true := by
  cases s with
  | one c => exact ⟨fun h => ⟨c, rfl, h⟩, fun ⟨_, rfl, h⟩ => h⟩
  | _ => exact ⟨nofun, nofun⟩

theorem fits_many {w : Wanted} {s : Slot Node} :
    (Shape.many w).fits s = true ↔ ∃ cs, s = .many cs ∧ ∀ c ∈ cs, w.fitsItem c = true := by
  cases s with
  | many cs => exact ⟨fun h => ⟨cs, rfl, List.all_eq_true.mp h⟩, fun ⟨_, rfl, h⟩ =>
      List.all_eq_true.mpr h⟩
  | _ => exact ⟨nofun, nofun⟩

theorem admits_of_fits {shape : Shape} {s : Slot Node} (h : shape.fits s = true) :
    ∀ n ∈ s.children, shape.admits n.kind = true := by
  intro n hn
  cases shape with
  | one w =>
    obtain ⟨c, rfl, hc⟩ := fits_one.mp h
    rcases c with _ | _ | m
    · cases hn
    · cases hn
    · rw [List.mem_singleton.mp hn]
      exact hc
  | many w =>
    obtain ⟨cs, rfl, hcs⟩ := fits_many.mp h
    obtain ⟨c, hc, hn⟩ := List.mem_filterMap.mp hn
    rcases c with _ | _ | m
    · cases hn
    · cases hn
    · rw [← Option.some.inj hn]
      exact Wanted.fits_of_fitsItem (hcs _ hc)
  | _ => cases s <;> first | cases hn | cases h

end Shape

namespace Node

theorem fits_iff {n : Node} :
    n.fits = true ↔ List.Forall₂ (fun d s => d.2.fits s = true) n.kind.declared n.slots :=
  List.all₂_eq_true ..

theorem all_iff {P : Node → Prop} {n : Node} : n.All P ↔ P n ∧ ∀ m ∈ n.children, m.All P := by
  unfold All
  rw [labels_eq]
  simp only [List.forall_mem_cons, List.mem_flatMap, forall_exists_index, and_imp]
  exact and_congr_right fun _ => ⟨fun h m hm x hx => h x m hm hx, fun h x m hm hx => h m hm x hx⟩

/-- What holds of all nodes below a node holds of all nodes below one of them. -/
theorem All.below {P : Node → Prop} {n : Node} : n.All P → ∀ m ∈ n.rose.labels, m.All P := by
  induction n using induct with
  | step n ih =>
    intro h m hm
    rw [labels_eq, List.mem_cons, List.mem_flatMap] at hm
    rcases hm with rfl | ⟨k, hk, hm⟩
    · exact h
    · exact ih k hk ((all_iff.mp h).2 k hk) m hm

theorem labels_subset {n m : Node} (h : m ∈ n.rose.labels) : m.rose.labels ⊆ n.rose.labels :=
  All.below (P := (· ∈ n.rose.labels)) (fun _ hx => hx) m h

theorem Whole.fits {n : Node} (h : n.Whole) : n.fits = true := (all_iff.mp h).1

theorem Whole.child {n m : Node} (h : n.Whole) (hm : m ∈ n.children) : m.Whole :=
  (all_iff.mp h).2 m hm

/-- A whole document, from its definitions. -/
theorem whole_document {ns : List Node} {l : Option Location}
    (h : ∀ n ∈ ns, n.kind ∈ Family.definition.kinds ∧ n.Whole) :
    (Node.document (ns.map .node) l).Whole := by
  refine all_iff.mpr ⟨fits_iff.mpr (.cons (Shape.fits_many.mpr ⟨_, rfl, fun c hc => ?_⟩) .nil),
    fun m hm => ?_⟩
  · obtain ⟨n, hn, rfl⟩ := List.mem_map.mp hc
    exact List.contains_iff_mem.mpr (h n hn).1
  · rw [children_document] at hm
    exact (h m hm).2

/-! ### Names of fragments and types -/

/-- Whether a fragment or a spread has the name of its fragment. Other nodes need none. -/
def named : Node → Bool
  | .fragmentSpread c _ _ => c.toOption.isSome
  | .fragmentDefinition c _ _ _ _ _ => c.toOption.isSome
  | _ => true

theorem named_of_kind {n : Node} (h : n.kind ∉ [.fragmentSpread, .fragmentDefinition]) :
    n.named = true := by
  unfold named
  split
  · exact absurd (by simp [kind]) h
  · exact absurd (by simp [kind]) h
  · rfl

/-- Whether a reference to a named type has the name of the type. Other nodes need none. -/
def typeNamed : Node → Bool
  | .namedType c _ => c.isName
  | _ => true

/-- A document that names its types, from its definitions. -/
theorem typeNamed_document {ns : List Node} {l : Option Location}
    (h : ∀ n ∈ ns, n.All fun m => m.typeNamed = true) :
    (Node.document (ns.map .node) l).All fun m => m.typeNamed = true :=
  all_iff.mpr ⟨rfl, fun m hm => h m (by rwa [children_document] at hm)⟩

/-! ### Forms of whole nodes -/

/-- The places of a list in which only nodes of one kind may stand. -/
theorem exists_node_of_fitsItem {k : Kind} {c : Child Node}
    (h : (Wanted.kind k).fitsItem c = true) : ∃ n, c = .node n ∧ n.kind = k := by
  cases c with
  | absent => cases h
  | null _ => cases h
  | node n => exact ⟨n, rfl, eq_of_beq h⟩

theorem eq_document_of_fits {n : Node} (h : n.fits = true) (hk : n.kind = .document) :
    ∃ ds l, n = .document ds l ∧ ∀ c ∈ ds, (Wanted.family .definition).fitsItem c = true := by
  obtain ⟨k, ss, l⟩ := n
  obtain rfl : k = .document := hk
  rcases fits_iff.mp h with _ | ⟨hds, _ | _⟩
  obtain ⟨ds, rfl, hitems⟩ := Shape.fits_many.mp hds
  exact ⟨ds, l, rfl, hitems⟩

theorem eq_directive_of_fits {n : Node} (h : n.fits = true) (hk : n.kind = .directive) :
    ∃ name args l, n = .directive name args l ∧
      ∀ a ∈ args, ∃ m, a = .node m ∧ m.kind = .argument := by
  obtain ⟨k, ss, l⟩ := n
  obtain rfl : k = .directive := hk
  rcases fits_iff.mp h with _ | ⟨hname, _ | ⟨hargs, _ | _⟩⟩
  obtain ⟨name, rfl, -⟩ := Shape.fits_one.mp hname
  obtain ⟨args, rfl, hitems⟩ := Shape.fits_many.mp hargs
  exact ⟨name, args, l, rfl, fun a ha => exists_node_of_fitsItem (hitems a ha)⟩

theorem eq_argument_of_fits {n : Node} (h : n.fits = true) (hk : n.kind = .argument) :
    ∃ name value l, n = .argument name value l := by
  obtain ⟨k, ss, l⟩ := n
  obtain rfl : k = .argument := hk
  rcases fits_iff.mp h with _ | ⟨hname, _ | ⟨hvalue, _ | _⟩⟩
  obtain ⟨name, rfl, -⟩ := Shape.fits_one.mp hname
  obtain ⟨value, rfl, -⟩ := Shape.fits_one.mp hvalue
  exact ⟨name, value, l, rfl⟩

theorem eq_directiveDefinition_of_fits {n : Node} (h : n.fits = true)
    (hk : n.kind = .directiveDefinition) :
    ∃ desc name args repeatable locs l,
      n = .directiveDefinition desc name args repeatable locs l ∧
        ∀ a ∈ args, ∃ m, a = .node m ∧ m.kind = .inputValueDefinition := by
  obtain ⟨k, ss, l⟩ := n
  obtain rfl : k = .directiveDefinition := hk
  rcases fits_iff.mp h with
    _ | ⟨hdesc, _ | ⟨hname, _ | ⟨hargs, _ | ⟨hrepeatable, _ | ⟨hlocs, _ | _⟩⟩⟩⟩⟩
  obtain ⟨desc, rfl, -⟩ := Shape.fits_one.mp hdesc
  obtain ⟨name, rfl, -⟩ := Shape.fits_one.mp hname
  obtain ⟨args, rfl, hitems⟩ := Shape.fits_many.mp hargs
  obtain ⟨repeatable, rfl⟩ := Shape.fits_flag.mp hrepeatable
  obtain ⟨locs, rfl, -⟩ := Shape.fits_many.mp hlocs
  exact ⟨desc, name, args, repeatable, locs, l, rfl, fun a ha =>
    exists_node_of_fitsItem (hitems a ha)⟩

end Node

end QueryCheck.Syntax
