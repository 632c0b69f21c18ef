import QueryCheck.Proofs.Syntax.Equality

/-! # The nodes told by a structured form

The structured form of a node holds the forms of its children, one map for each, and what it holds
besides are texts, flags, empty maps for items that are missing, and the location. Read from left to
right it tells the same children in the same order as the node does, and read in depth the same
tree.

* `Value.heldBy`: the maps that an entry holds; `Value.nodeMaps`: the maps of nodes in a value.
* `Node.children_structured`: the children of a node are those its structured form tells.
* `Node.nodeMaps_structured`: the nodes below a node are those its structured form tells.
* `Node.structured_enumerates`: both, and where the keys `kind` and `loc` stand. -/

namespace QueryCheck.Data.Value

/-! ### Maps within a value -/

/-- The maps told by a value: itself, or the items of a list. Empty ones tell nothing. -/
def held : Value → List Value
  | .map es => if es = [] then [] else [.map es]
  | .list vs => vs.filter (· ≠ .map [])
  | _ => []

/-- The maps told by the value of an entry. The entry of a location tells none. -/
def heldBy (e : String × Value) : List Value := if e.1 = "loc" then [] else e.2.held

mutual

/-- The maps told by a value at any depth, each in front of those it holds. Locations are left
out. -/
def nodeMaps : Value → List Value
  | .map [] => []
  | .map (e :: es) => .map (e :: es) :: nodeMapsEntries (e :: es)
  | .list vs => nodeMapsItems vs
  | _ => []

/-- `nodeMaps` on the items of a list. -/
def nodeMapsItems : List Value → List Value
  | [] => []
  | v :: vs => nodeMaps v ++ nodeMapsItems vs

/-- `nodeMaps` on the entries of a map. -/
def nodeMapsEntries : List (String × Value) → List Value
  | [] => []
  | (key, v) :: es => (if key = "loc" then [] else nodeMaps v) ++ nodeMapsEntries es

end

theorem nodeMapsItems_eq_flatMap (vs : List Value) :
    nodeMapsItems vs = (vs.filter (· ≠ .map [])).flatMap nodeMaps := by
  induction vs with
  | nil => rfl
  | cons v vs ih =>
    rw [nodeMapsItems, ih]
    by_cases hv : v = .map []
    · rw [hv, List.filter_cons_of_neg (by simp), nodeMaps, List.nil_append]
    · rw [List.filter_cons_of_pos (by simpa using hv), List.flatMap_cons]

/-- What a value tells in depth is told by the maps it holds. -/
theorem nodeMaps_eq_flatMap : ∀ v : Value, v.nodeMaps = v.held.flatMap nodeMaps
  | .null => rfl
  | .bool _ => rfl
  | .int _ => rfl
  | .str _ => rfl
  | .list vs => by rw [nodeMaps, nodeMapsItems_eq_flatMap, held]
  | .map [] => rfl
  | .map (e :: es) => by rw [held, if_neg (List.cons_ne_nil e es), List.flatMap_singleton]

theorem nodeMapsEntries_eq_flatMap (es : List (String × Value)) :
    nodeMapsEntries es = (es.flatMap heldBy).flatMap nodeMaps := by
  induction es with
  | nil => rfl
  | cons e es ih =>
    obtain ⟨key, v⟩ := e
    rw [nodeMapsEntries, ih, List.flatMap_cons, List.flatMap_append, heldBy]
    by_cases hkey : key = "loc"
    · rw [if_pos hkey, if_pos hkey, List.flatMap_nil]
    · rw [if_neg hkey, if_neg hkey, nodeMaps_eq_flatMap v]

theorem nodeMaps_map {es : List (String × Value)} (hes : es ≠ []) :
    (map es).nodeMaps = .map es :: (es.flatMap heldBy).flatMap nodeMaps := by
  cases es with
  | nil => exact absurd rfl hes
  | cons e es => rw [nodeMaps, nodeMapsEntries_eq_flatMap]

end QueryCheck.Data.Value

namespace QueryCheck.Syntax

open QueryCheck.Data (Value)
open QueryCheck.Data.Value

/-! ### The maps that the entries of a node hold -/

namespace Node

/-- The form of a node has an entry for its kind at least. -/
theorem exists_structured (n : Node) : ∃ e es, n.structured = .map (e :: es) := by
  obtain ⟨k, ss, l⟩ := n
  exact ⟨_, _, structured_mk k ss l⟩

theorem structured_ne_empty (n : Node) : n.structured ≠ .map [] := by
  obtain ⟨e, es, h⟩ := n.exists_structured
  rw [h]
  simp

theorem held_structured (n : Node) : n.structured.held = [n.structured] := by
  obtain ⟨e, es, h⟩ := n.exists_structured
  rw [h, held, if_neg (List.cons_ne_nil e es)]

end Node

/-- The items of a list that are not missing are the forms of its nodes. -/
theorem filter_structuredItem (cs : List (Child Node)) :
    ((cs.map (Child.map Node.structured)).map Child.structuredItem).filter (· ≠ .map []) =
      (cs.filterMap Child.toOption).map Node.structured := by
  induction cs with
  | nil => rfl
  | cons c cs ih =>
    rw [List.map_cons, List.map_cons]
    cases c with
    | node m =>
      have hitem : (Child.node m.structured).structuredItem = m.structured := rfl
      rw [Child.map_node, hitem, List.filter_cons_of_pos (by simpa using m.structured_ne_empty), ih]
      rfl
    | absent => exact ih
    | null k => exact ih

/-- **The entry of a field** holds the forms of the children in its slot, in their order. -/
theorem heldBy_structuredEntry {key : String} (hkey : key ≠ "loc") (shape : Shape) (s : Slot Node) :
    (structuredEntry (key, shape) (s.map Node.structured)).flatMap heldBy =
      s.children.map Node.structured := by
  have hheld : ∀ v : Value, heldBy (key, v) = v.held := fun v => if_neg hkey
  cases s with
  | text t => simp [Slot.map, Slot.children, hheld, held]
  | flag b =>
    rw [Slot.map, structuredEntry_flag]
    split_ifs <;> simp [Slot.children, hheld, held]
  | one c =>
    cases c with
    | node m => simp [Slot.map, Slot.children, Child.toOption, hheld, m.held_structured]
    | absent => simp [Slot.map, Slot.children, Child.toOption]
    | null k => simp [Slot.map, Slot.children, Child.map, Child.toOption]
  | many cs =>
    cases cs with
    | nil => simp [Slot.map, Slot.children]
    | cons c cs =>
      have hentry : structuredEntry (key, shape) ((Slot.many (c :: cs)).map Node.structured) =
          [(key, .list (((c :: cs).map (Child.map Node.structured)).map Child.structuredItem))] :=
        structuredEntry_many_cons ..
      rw [hentry, List.flatMap_singleton, hheld, held, filter_structuredItem, Slot.children]

theorem heldBy_entries : ∀ {ds : List (String × Shape)} {ss : List (Slot Node)},
    (∀ d ∈ ds, d.1 ≠ "loc") → ds.length = ss.length →
    (List.zipWith structuredEntry ds (ss.map (Slot.map Node.structured))).flatten.flatMap heldBy =
      (ss.flatMap Slot.children).map Node.structured
  | [], [], _, _ => rfl
  | (key, shape) :: ds, s :: ss, hds, hlength => by
    rw [List.forall_mem_cons] at hds
    rw [List.map_cons, List.zipWith_cons_cons, List.flatten_cons, List.flatMap_append,
      List.flatMap_cons, List.map_append, heldBy_structuredEntry hds.1,
      heldBy_entries hds.2 (Nat.succ.inj hlength)]

namespace Node

/-! ### The tree told by a structured form -/

/-- **The children of a node** are those that its structured form tells, in the same order. -/
theorem children_structured {n : Node} (h : n.Formed) :
    n.children.map structured = n.structured.entries.flatMap heldBy := by
  have hlength := h.takes.length_eq
  obtain ⟨k, ss, l⟩ := n
  have hloc : (l.toList.map fun loc => ("loc", loc.structured)).flatMap heldBy = [] := by
    cases l <;> rfl
  have hkind : heldBy ("kind", .str k.toName) = [] := rfl
  have hfields := heldBy_entries (ne_loc_of_mem_declared k) hlength
  rw [slots] at hfields
  rw [structured_mk, structuredParts_eq, entries, List.cons_append, List.flatMap_cons,
    List.flatMap_append, hloc, hkind, hfields, List.nil_append, List.append_nil, children_mk]

/-- **The nodes below a node** are those that its structured form tells, in the same order. -/
theorem nodeMaps_structured {n : Node} : n.Formed →
    n.structured.nodeMaps = n.rose.labels.map structured := by
  induction n using induct with
  | step n ih =>
    intro h
    have hchildren := children_structured h
    obtain ⟨e, es, hes⟩ := n.exists_structured
    rw [hes, entries] at hchildren
    rw [hes, nodeMaps_map (List.cons_ne_nil e es), ← hes, ← hchildren, labels_eq, List.map_cons,
      List.flatMap_map, List.map_flatMap]
    rw [List.flatMap_congr fun m hm => ih m hm (h.child hm)]

/-- The key `kind` comes first, and after it no `loc` but as the last key. -/
theorem keys_structured (n : Node) :
    n.structured.keys.head? = some "kind" ∧ "loc" ∉ n.structured.keys.dropLast := by
  obtain ⟨k, ss, l⟩ := n
  let fields := (List.zipWith structuredEntry k.declared (ss.map (Slot.map structured))).flatten
  have hkeys : (mk k ss l).structured.keys =
      "kind" :: fields.map Prod.fst ++ l.toList.map fun _ => "loc" := by
    rw [structured_mk, structuredParts_eq, keys, entries, List.map_append, List.map_map]
    rfl
  have hfields : "loc" ∉ "kind" :: fields.map Prod.fst := by
    rw [List.mem_cons, not_or]
    refine ⟨by decide, fun hmem => ?_⟩
    obtain ⟨e, he, hkey⟩ := List.mem_map.mp hmem
    obtain ⟨d, hd, hdkey⟩ := List.mem_map.mp (key_mem_of_mem_entries e he)
    exact ne_loc_of_mem_declared k d hd (hdkey.trans hkey)
  rw [hkeys]
  refine ⟨rfl, ?_⟩
  cases l with
  | none =>
    rw [Option.toList_none, List.map_nil, List.append_nil]
    exact fun hmem => hfields (List.dropLast_subset _ hmem)
  | some loc =>
    rw [Option.toList_some, List.map_cons, List.map_nil, List.dropLast_concat]
    exact hfields

/-- **Children and structured form enumerate the same tree in the same order.** The forms of the
children of a node are the maps that the entries of its form hold, read from left to right; so are,
at any depth, the forms of all nodes below it. The first key of each of these maps is `kind`, and no
key but the last is `loc`. -/
theorem structured_enumerates (n : Node) (h : n.Formed) :
    n.children.map structured = n.structured.entries.flatMap heldBy ∧
      n.rose.labels.map structured = n.structured.nodeMaps ∧
      ∀ v ∈ n.structured.nodeMaps,
        v.keys.head? = some "kind" ∧ ("loc" ∈ v.keys → v.keys.getLast? = some "loc") := by
  refine ⟨children_structured h, (nodeMaps_structured h).symm, fun v hv => ?_⟩
  rw [nodeMaps_structured h] at hv
  obtain ⟨m, -, rfl⟩ := List.mem_map.mp hv
  obtain ⟨hkind, hloc⟩ := m.keys_structured
  refine ⟨hkind, fun hmem => ?_⟩
  have hne := List.ne_nil_of_mem hmem
  rw [← List.dropLast_append_getLast hne, List.mem_append, List.mem_singleton] at hmem
  rw [List.getLast?_eq_some_getLast hne, ← hmem.resolve_left hloc]

/-- A field that lacks its name and one of two arguments, both of which stand in front of the
directives. -/
theorem structured_enumerates_gappedField :
    let given : Node := .argument (.node (.name "id" none)) (.null .intValue) none
    let marked : Node := .directive (.node (.name "skip" none)) [.absent] (some ⟨3, 8, 1, 4, .document⟩)
    let gapped : Node :=
      .field .absent (.null .name) [.null .argument, .node given] [.node marked] .absent
        (some ⟨0, 8, 1, 1, .document⟩)
    gapped.Formed ∧
      gapped.children.map structured = gapped.structured.entries.flatMap heldBy ∧
      gapped.rose.labels.map structured = gapped.structured.nodeMaps ∧
      ∀ v ∈ gapped.structured.nodeMaps,
        v.keys.head? = some "kind" ∧ ("loc" ∈ v.keys → v.keys.getLast? = some "loc") :=
  ⟨by decide, structured_enumerates _ (by decide)⟩

end Node

end QueryCheck.Syntax
