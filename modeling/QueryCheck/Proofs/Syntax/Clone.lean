import QueryCheck.Proofs.Data.Json
import QueryCheck.Proofs.Syntax.Tree

/-! # Clones of nodes

A clone has the kinds and slots of the node it was made from and no locations. What does not look at
locations is the same for both, and the structured form of a clone is that of the node with its
locations dropped. A node is equal to its clone unless it is nested so deep that it is equal to no
node.

* `Node.fold_cloneDeep`, and with it `Node.print_cloneDeep`: a fold that does not look at locations.
* `Node.structured_cloneDeep`, `Node.shape_cloneDeep`: the structured form of a clone.
* `Node.labels_cloneDeep`: the nodes of a clone are the clones of the nodes.
* `Node.equal_iff_shape`: nodes are equal when their structured forms are the same and can be
  written.
* `Node.cloneDeep_faithful`: a clone is a copy in every respect but the locations, of which it has
  none. -/

namespace QueryCheck.Data.Value

/-! ### Values without locations -/

theorem withoutLocationsItems_eq_map (vs : List Value) :
    withoutLocationsItems vs = vs.map withoutLocations := by
  induction vs with
  | nil => rfl
  | cons v vs ih => rw [withoutLocationsItems, ih, List.map_cons]

theorem withoutLocationsEntries_append : ∀ es es' : List (String × Value),
    withoutLocationsEntries (es ++ es') = withoutLocationsEntries es ++ withoutLocationsEntries es'
  | [], _ => rfl
  | (k, v) :: es, es' => by
    rw [List.cons_append, withoutLocationsEntries, withoutLocationsEntries,
      withoutLocationsEntries_append es es']
    split <;> rfl

theorem withoutLocationsEntries_cons {k : String} (hk : k ≠ "loc") (v : Value)
    (es : List (String × Value)) :
    withoutLocationsEntries ((k, v) :: es) =
      (k, v.withoutLocations) :: withoutLocationsEntries es := by
  rw [withoutLocationsEntries, if_neg (by simpa using hk)]

mutual

/-- Locations are dropped once. -/
theorem withoutLocations_idem : ∀ v :
    Value, v.withoutLocations.withoutLocations = v.withoutLocations
  | .null => rfl
  | .bool _ => rfl
  | .int _ => rfl
  | .str _ => rfl
  | .list vs => by rw [withoutLocations, withoutLocations, withoutLocationsItems_idem vs]
  | .map es => by rw [withoutLocations, withoutLocations, withoutLocationsEntries_idem es]

theorem withoutLocationsItems_idem : ∀ vs : List Value,
    withoutLocationsItems (withoutLocationsItems vs) = withoutLocationsItems vs
  | [] => rfl
  | v :: vs => by
    rw [withoutLocationsItems, withoutLocationsItems, withoutLocations_idem v,
      withoutLocationsItems_idem vs]

theorem withoutLocationsEntries_idem : ∀ es : List (String × Value),
    withoutLocationsEntries (withoutLocationsEntries es) = withoutLocationsEntries es
  | [] => rfl
  | (k, v) :: es => by
    rw [withoutLocationsEntries]
    split
    · exact withoutLocationsEntries_idem es
    · next hk =>
      rw [withoutLocationsEntries, if_neg hk, withoutLocations_idem v,
        withoutLocationsEntries_idem es]

end

end QueryCheck.Data.Value

namespace QueryCheck.Syntax

open QueryCheck.Data (Value)
open QueryCheck.Data.Value

/-! ### The structured form of a clone -/

theorem ne_loc_of_mem_declared :
    ∀ (k : Kind) (d : String × Shape), d ∈ k.declared → d.1 ≠ "loc" := by
  intro k
  cases k <;> decide

/-- The entry of a declared field with the locations of the children dropped. -/
theorem structuredEntry_map {key : String} (hk : key ≠ "loc") (shape : Shape) : ∀ s : Slot Value,
    structuredEntry (key, shape) (s.map withoutLocations) =
      withoutLocationsEntries (structuredEntry (key, shape) s)
  | .text s => by
    simp only [Slot.map, structuredEntry_text, withoutLocationsEntries_cons hk]
    rfl
  | .flag b => by
    rw [Slot.map, structuredEntry_flag]
    split_ifs
    · rfl
    · rw [withoutLocationsEntries_cons hk]
      rfl
  | .one c => by
    cases c <;> simp [Slot.map, Child.map, Child.toOption, withoutLocationsEntries, hk]
  | .many [] => by simp [Slot.map, withoutLocationsEntries]
  | .many (c :: cs) => by
    have hitem : ∀ c : Child Value,
        (c.map withoutLocations).structuredItem = c.structuredItem.withoutLocations := by
      intro c
      cases c <;> rfl
    simp only [Slot.map, List.map_cons, structuredEntry_many_cons, withoutLocationsEntries_cons hk,
      List.map_map, withoutLocations, withoutLocationsItems_eq_map, hitem, Function.comp_def]
    rfl

theorem zipWith_structuredEntry_map : ∀ (ds : List (String × Shape)) (ss : List (Slot Value)),
    (∀ d ∈ ds, d.1 ≠ "loc") →
    (List.zipWith structuredEntry ds (ss.map (Slot.map withoutLocations))).flatten =
      withoutLocationsEntries (List.zipWith structuredEntry ds ss).flatten
  | [], _, _ => rfl
  | _ :: _, [], _ => rfl
  | (key, shape) :: ds, s :: ss, h => by
    simp only [List.map_cons, List.zipWith_cons_cons, List.flatten_cons,
      withoutLocationsEntries_append]
    rw [structuredEntry_map (h (key, shape) (by simp)),
      zipWith_structuredEntry_map ds ss fun d hd => h d (List.mem_cons_of_mem _ hd)]

/-- The structured form of a node without its locations. -/
theorem withoutLocations_structuredParts (k : Kind) (ss : List (Slot Value)) (l : Option Location) :
    (structuredParts k ss l).withoutLocations =
      structuredParts k (ss.map (Slot.map withoutLocations)) none := by
  have hloc : withoutLocationsEntries (l.toList.map fun loc => ("loc", loc.structured)) = [] := by
    cases l <;> rfl
  rw [structuredParts_eq, structuredParts_eq, withoutLocations, withoutLocationsEntries_append,
    withoutLocationsEntries_cons (by decide), hloc,
    zipWith_structuredEntry_map k.declared ss (ne_loc_of_mem_declared k)]
  rfl

namespace Node

/-- **The structured form of a clone** is that of the node with its locations dropped. -/
theorem structured_cloneDeep (n : Node) :
    n.cloneDeep.structured = n.structured.withoutLocations := by
  induction n using induct with
  | step n ih =>
    obtain ⟨k, ss, l⟩ := n
    rw [cloneDeep_mk, structured_mk, structured_mk, withoutLocations_structuredParts, List.map_map,
      List.map_map]
    congr 1
    simp only [Function.comp_def, Slot.map_map]
    exact map_congr_children ih

/-- A clone has the structure of the node. -/
theorem shape_cloneDeep (n : Node) : n.cloneDeep.shape = n.shape := by
  rw [shape, shape, structured_cloneDeep, withoutLocations_idem]

/-! ### Folds that do not look at locations -/

/-- **A fold that does not look at locations** is the same on a clone. -/
theorem fold_cloneDeep {α : Type} {f : Kind → List (Slot α) → Option Location → α}
    (hf : ∀ k ss l, f k ss l = f k ss none) (n : Node) : fold f n.cloneDeep = fold f n := by
  induction n using induct with
  | step n ih =>
    obtain ⟨k, ss, l⟩ := n
    rw [cloneDeep_mk, fold_mk, fold_mk, hf k _ l, List.map_map]
    congr 1
    simp only [Function.comp_def, Slot.map_map]
    exact map_congr_children ih

theorem print_cloneDeep (n : Node) : n.cloneDeep.print = n.print :=
  fold_cloneDeep (fun _ _ _ => rfl) n

/-- A clone is its own clone. -/
theorem cloneDeep_cloneDeep (n : Node) : n.cloneDeep.cloneDeep = n.cloneDeep :=
  fold_cloneDeep (fun _ _ _ => rfl) n

/-! ### The nodes of a clone -/

theorem loc_cloneDeep (n : Node) : n.cloneDeep.loc = none := by
  obtain ⟨k, ss, l⟩ := n
  rw [cloneDeep_mk]
  rfl

theorem kind_cloneDeep (n : Node) : n.cloneDeep.kind = n.kind := by
  obtain ⟨k, ss, l⟩ := n
  rw [cloneDeep_mk]
  rfl

theorem children_cloneDeep (n : Node) : n.cloneDeep.children = n.children.map cloneDeep := by
  obtain ⟨k, ss, l⟩ := n
  rw [cloneDeep_mk, children_eq, children_eq, slots, slots, List.flatMap_map, List.map_flatMap]
  simp only [Slot.children_map]

/-- **The nodes of a clone** are the clones of the nodes. -/
theorem labels_cloneDeep (n : Node) : n.cloneDeep.rose.labels = n.rose.labels.map cloneDeep := by
  induction n using induct with
  | step n ih =>
    rw [labels_eq, labels_eq n, children_cloneDeep, List.flatMap_map, List.map_cons,
      List.map_flatMap]
    rw [List.flatMap_congr ih]

/-- No node below a clone has a location. -/
theorem loc_of_mem_labels_cloneDeep {n m : Node} (hm : m ∈ n.cloneDeep.rose.labels) :
    m.loc = none := by
  rw [labels_cloneDeep] at hm
  obtain ⟨m', -, rfl⟩ := List.mem_map.mp hm
  exact loc_cloneDeep m'

/-! ### Equality and clones -/

/-- **Nodes are equal** when their structured forms are the same and can be written. -/
theorem equal_iff_shape {n n' : Node} :
    n.equal n' = true ↔ n.shape = n'.shape ∧ n.shape.depth ≤ maxNesting := writtenAlike_iff

/-- A node is equal to its clone when its structured form can be written. -/
theorem equal_cloneDeep_iff (n : Node) :
    n.equal n.cloneDeep = true ↔ n.shape.depth ≤ maxNesting := by
  rw [equal_iff_shape, shape_cloneDeep, and_iff_right rfl]

/-- **A clone is a faithful copy** without locations. It has the structured form of the node with
the locations dropped, and it is equal to the node unless that form is nested too deep to be
written; its children are the clones of the children, and its text is that of the node. To clone or
to drop locations once more changes nothing. -/
theorem cloneDeep_faithful (n : Node) :
    n.cloneDeep.structured = n.structured.withoutLocations ∧
      (∀ m ∈ n.cloneDeep.rose.labels, m.loc = none) ∧
      (n.equal n.cloneDeep = true ↔ n.shape.depth ≤ maxNesting) ∧
      n.cloneDeep.children = n.children.map cloneDeep ∧
      n.cloneDeep.print = n.print ∧
      n.cloneDeep.cloneDeep = n.cloneDeep ∧
      n.structured.withoutLocations.withoutLocations = n.structured.withoutLocations :=
  ⟨n.structured_cloneDeep, fun _ => loc_of_mem_labels_cloneDeep, n.equal_cloneDeep_iff,
    n.children_cloneDeep, n.print_cloneDeep, n.cloneDeep_cloneDeep, withoutLocations_idem _⟩

/-- A list value inside a list value and so on, with an empty one innermost. -/
def nestedList : Nat → Node
  | 0 => .listValue [] none
  | k + 1 => .listValue [.node (nestedList k)] none

/-- Every list value nests the structured form two levels deeper: it is a map with a list. -/
theorem depth_shape_nestedList : ∀ k, (nestedList k).shape.depth = 2 * k + 1
  | 0 => rfl
  | k + 1 => by
    have ih := depth_shape_nestedList k
    have hshape : (nestedList (k + 1)).shape =
        .map [("kind", .str "ListValue"), ("values", .list [(nestedList k).shape])] := rfl
    rw [hshape]
    simp only [depth, depthEntries, depthItems]
    omega

/-- Five thousand list values inside a list value are not equal to their clone. -/
theorem nestedList_ne_cloneDeep : (nestedList 5000).equal (nestedList 5000).cloneDeep = false := by
  rw [← Bool.not_eq_true, equal_cloneDeep_iff, depth_shape_nestedList]
  decide

end Node

end QueryCheck.Syntax
