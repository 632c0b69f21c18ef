import Mathlib.Data.List.Basic
import Mathlib.Tactic.Common
import QueryCheck.Syntax.Printer
import QueryCheck.Syntax.Structured

/-! # Folding over nodes

Every function on nodes is a fold, and the fold is written as a recursion through slots and places.
Here it is brought into one equation per node: replace the children of the slots, then apply the
function to the parts. What names the slots of every kind, be it to list children, to copy a node or
to write it as data, treats slot after slot as the fields of the kind are declared.

* `Node.childrenOf_eq`, `Node.cloneParts_eq`, `structuredFields_eq`: slot after slot.
* `Node.induct`: what passes from the children of a node to the node holds of every node.
* `Node.fold_mk`, and with it `Node.print_mk`, `Node.cloneDeep_mk` and `Node.structured_mk`.
* `Node.rose_eq`: the tree of a node has the node at its root and the trees of its children as
  branches.
* `Node.labels_eq`: the nodes below a node are the node and the nodes below its children. -/

namespace QueryCheck.Syntax

open QueryCheck.Data (Value)

/-! ### Replacing children -/

namespace Child

variable {α β γ : Type}

theorem map_congr {f g : α → β} : ∀ {c : Child α}, (∀ a ∈ c.toOption, f a = g a) → c.map f = c.map g
  | .absent, _ => rfl
  | .null _, _ => rfl
  | .node a, h => by rw [map, map, h a rfl]

@[simp] theorem map_node (f : α → β) (a : α) : (node a).map f = node (f a) := rfl

@[simp] theorem map_absent (f : α → β) : (absent : Child α).map f = absent := rfl

@[simp] theorem map_id : ∀ c : Child α, c.map (fun a => a) = c
  | .absent => rfl
  | .null _ => rfl
  | .node _ => rfl

@[simp] theorem map_map (f : α → β) (g : β → γ) :
    ∀ c : Child α, (c.map f).map g = c.map fun a => g (f a)
  | .absent => rfl
  | .null _ => rfl
  | .node _ => rfl

@[simp] theorem toOption_map (f : α → β) : ∀ c : Child α, (c.map f).toOption = c.toOption.map f
  | .absent => rfl
  | .null _ => rfl
  | .node _ => rfl

end Child

namespace Slot

variable {α β γ : Type}

theorem map_congr {f g : α → β} : ∀ {s : Slot α}, (∀ a ∈ s.children, f a = g a) → s.map f = s.map g
  | .text _, _ => rfl
  | .flag _, _ => rfl
  | .one c, h => by
    have hc : c.map f = c.map g := Child.map_congr fun a ha => h a (by simpa [children] using ha)
    rw [map, map, hc]
  | .many cs, h => by
    simp only [map, many.injEq]
    refine List.map_congr_left fun c hc => Child.map_congr fun a ha => h a ?_
    exact List.mem_filterMap.mpr ⟨c, hc, ha⟩

@[simp] theorem map_id : ∀ s : Slot α, s.map (fun a => a) = s
  | .text _ => rfl
  | .flag _ => rfl
  | .one c => by rw [map, Child.map_id]
  | .many cs => by simp [map, show Child.map (fun a : α => a) = id from funext Child.map_id]

@[simp] theorem map_map (f : α → β) (g : β → γ) :
    ∀ s : Slot α, (s.map f).map g = s.map fun a => g (f a)
  | .text _ => rfl
  | .flag _ => rfl
  | .one c => by rw [map, map, map, Child.map_map]
  | .many cs => by simp [map]

theorem map_eq_text {f : α → β} {s : Slot α} {t : String} (h : s.map f = .text t) :
    s = .text t := by
  cases s <;> simp_all [map]

theorem map_eq_flag {f : α → β} {s : Slot α} {b : Bool} (h : s.map f = .flag b) : s = .flag b := by
  cases s <;> simp_all [map]

theorem map_eq_one {f : α → β} {s : Slot α} {c : Child β} (h : s.map f = .one c) :
    ∃ d, s = .one d ∧ d.map f = c := by
  cases s <;> simp_all [map]

theorem map_eq_many {f : α → β} {s : Slot α} {cs : List (Child β)} (h : s.map f = .many cs) :
    ∃ ds, s = .many ds ∧ ds.map (Child.map f) = cs := by
  cases s <;> simp_all [map]

@[simp] theorem children_map (f : α → β) : ∀ s : Slot α, (s.map f).children = s.children.map f
  | .text _ => rfl
  | .flag _ => rfl
  | .one .absent => rfl
  | .one (.null _) => rfl
  | .one (.node _) => rfl
  | .many cs => by
    simp only [map, children, List.filterMap_map, List.map_filterMap]
    exact congrArg (List.filterMap · cs) (funext (Child.toOption_map f))

@[simp] theorem children_one (a : α) : (one (.node a)).children = [a] := rfl

@[simp] theorem children_many (as : List α) : (many (as.map Child.node)).children = as := by
  simp [children, Function.comp_def, Child.toOption]

/-- Functions that agree on the children of some slots replace them alike. -/
theorem map_map_congr {f g : α → β} {ss : List (Slot α)}
    (h : ∀ a ∈ ss.flatMap children, f a = g a) : ss.map (map f) = ss.map (map g) :=
  List.map_congr_left fun s hs => map_congr fun a ha => h a (List.mem_flatMap.mpr ⟨s, hs, ha⟩)

end Slot

/-! ### Slot after slot -/

theorem structuredFields_eq (k : Kind) (ss : List (Slot Value)) :
    structuredFields k ss = (List.zipWith structuredEntry k.declared ss).flatten := by
  unfold structuredFields
  split <;> simp [Kind.declared, structuredEntry]

section Entries

variable (key : String) (shape : Shape)

@[simp] theorem structuredEntry_text (s : String) :
    structuredEntry (key, shape) (.text s) = [(key, .str s)] := by cases shape <;> rfl

@[simp] theorem structuredEntry_flag (b : Bool) : structuredEntry (key, shape) (.flag b) =
    if shape = .mark ∧ b = false then [] else [(key, .bool b)] := by
  cases shape <;> cases b <;> rfl

@[simp] theorem structuredEntry_one (c : Child Value) :
    structuredEntry (key, shape) (.one c) = c.toOption.toList.map fun v => (key, v) := by
  cases shape <;> rfl

@[simp] theorem structuredEntry_many_nil : structuredEntry (key, shape) (.many []) = [] := by
  cases shape <;> rfl

@[simp] theorem structuredEntry_many_cons (c : Child Value) (cs : List (Child Value)) :
    structuredEntry (key, shape) (.many (c :: cs)) =
      [(key, .list ((c :: cs).map Child.structuredItem))] := by cases shape <;> rfl

end Entries

/-- The structured form has the entries of the declared fields. -/
theorem structuredParts_eq (k : Kind) (ss : List (Slot Value)) (l : Option Location) :
    structuredParts k ss l = .map (("kind", .str k.toName)
      :: (List.zipWith structuredEntry k.declared ss).flatten
      ++ l.toList.map fun loc => ("loc", loc.structured)) := by
  rw [structuredParts, structuredFields_eq]

namespace Node

theorem childrenOf_eq {α : Type} (k : Kind) (ss : List (Slot α)) :
    childrenOf k ss = ss.flatMap Slot.children := by
  unfold childrenOf
  split <;> simp [Slot.children]

/-- The children of a node are those in its slots. -/
theorem children_eq (n : Node) : n.children = n.slots.flatMap Slot.children :=
  childrenOf_eq n.kind n.slots

theorem children_mk (k : Kind) (ss : List (Slot Node)) (l : Option Location) :
    (mk k ss l).children = ss.flatMap Slot.children := childrenOf_eq k ss

theorem cloneParts_eq (k : Kind) (ss : List (Slot Node)) : cloneParts k ss = mk k ss none := by
  unfold cloneParts
  split <;> rfl

/-! ### Induction -/

mutual

/-- What passes from the children of a node to the node holds of every node. -/
theorem induct {P : Node → Prop} (step : ∀ n, (∀ m ∈ n.children, P m) → P n) : ∀ n : Node, P n
  | .mk k ss l => step (.mk k ss l) fun m hm =>
    inductSlots step ss m (children_mk k ss l ▸ hm)

theorem inductSlots {P : Node → Prop} (step : ∀ n, (∀ m ∈ n.children, P m) → P n) :
    ∀ ss : List (Slot Node), ∀ m ∈ ss.flatMap Slot.children, P m
  | [], _, hm => absurd hm (by simp)
  | s :: ss, m, hm => by
    rcases List.mem_append.mp (List.flatMap_cons ▸ hm) with h | h
    · exact inductSlot step s m h
    · exact inductSlots step ss m h

theorem inductSlot {P : Node → Prop} (step : ∀ n, (∀ m ∈ n.children, P m) → P n) :
    ∀ (s : Slot Node), ∀ m ∈ s.children, P m
  | .text _, _, hm => absurd hm (by simp [Slot.children])
  | .flag _, _, hm => absurd hm (by simp [Slot.children])
  | .one c, m, hm => inductChild step c m (by simpa [Slot.children] using hm)
  | .many cs, m, hm => by
    obtain ⟨c, hc, h⟩ := List.mem_filterMap.mp hm
    exact inductChildren step cs c hc m h

theorem inductChild {P : Node → Prop} (step : ∀ n, (∀ m ∈ n.children, P m) → P n) :
    ∀ (c : Child Node) (m : Node), c.toOption = some m → P m
  | .absent, _, hm => absurd hm (by simp [Child.toOption])
  | .null _, _, hm => absurd hm (by simp [Child.toOption])
  | .node n, m, hm => by
    obtain rfl : n = m := Option.some.inj hm
    exact induct step n

theorem inductChildren {P : Node → Prop} (step : ∀ n, (∀ m ∈ n.children, P m) → P n) :
    ∀ (cs : List (Child Node)), ∀ c ∈ cs, ∀ m, c.toOption = some m → P m
  | [], _, hc, _, _ => absurd hc (by simp)
  | c :: cs, d, hd, m, hm => by
    rcases List.mem_cons.mp hd with h | h
    · exact inductChild step c m (h ▸ hm)
    · exact inductChildren step cs d h m hm

end

/-! ### The equation of a fold -/

section Fold

variable {α : Type} (f : Kind → List (Slot α) → Option Location → α)

theorem foldChild_eq_map : ∀ c : Child Node, foldChild f c = c.map (fold f)
  | .absent => by rw [foldChild]; rfl
  | .null _ => by rw [foldChild]; rfl
  | .node _ => by rw [foldChild]; rfl

theorem foldChildren_eq_map : ∀ cs :
    List (Child Node), foldChildren f cs = cs.map (Child.map (fold f))
  | [] => by rw [foldChildren]; rfl
  | c :: cs => by rw [foldChildren, foldChild_eq_map, foldChildren_eq_map cs]; rfl

theorem foldSlot_eq_map : ∀ s : Slot Node, foldSlot f s = s.map (fold f)
  | .text _ => by rw [foldSlot]; rfl
  | .flag _ => by rw [foldSlot]; rfl
  | .one c => by rw [foldSlot, foldChild_eq_map]; rfl
  | .many cs => by rw [foldSlot, foldChildren_eq_map]; rfl

theorem foldSlots_eq_map : ∀ ss : List (Slot Node), foldSlots f ss = ss.map (Slot.map (fold f))
  | [] => by rw [foldSlots]; rfl
  | s :: ss => by rw [foldSlots, foldSlot_eq_map, foldSlots_eq_map ss]; rfl

/-- **A fold** replaces the children of the slots and then looks at the parts of the node. -/
theorem fold_mk (k : Kind) (ss : List (Slot Node)) (l : Option Location) :
    fold f (mk k ss l) = f k (ss.map (Slot.map (fold f))) l := by
  rw [fold, foldSlots_eq_map]

end Fold

theorem print_mk (k : Kind) (ss : List (Slot Node)) (l : Option Location) :
    (mk k ss l).print = Printer.parts k (ss.map (Slot.map print)) := fold_mk _ k ss l

theorem cloneDeep_mk (k : Kind) (ss : List (Slot Node)) (l : Option Location) :
    (mk k ss l).cloneDeep = mk k (ss.map (Slot.map cloneDeep)) none :=
  (fold_mk _ k ss l).trans (cloneParts_eq k _)

theorem structured_mk (k : Kind) (ss : List (Slot Node)) (l : Option Location) :
    (mk k ss l).structured = structuredParts k (ss.map (Slot.map structured)) l := fold_mk _ k ss l

/-- Functions that agree on the children of a node replace them alike. -/
theorem map_congr_children {α : Type} {f g : Node → α} {k : Kind} {ss : List (Slot Node)}
    {l : Option Location} (h : ∀ m ∈ (mk k ss l).children, f m = g m) :
    ss.map (Slot.map f) = ss.map (Slot.map g) :=
  Slot.map_map_congr (children_mk k ss l ▸ h)

/-! ### The tree of a node -/

@[simp] theorem label_mk (n : Node) (ts : List (Rose Node)) : (Rose.mk n ts).label = n := rfl

theorem label_rose (n : Node) : n.rose.label = n := by
  induction n using induct with
  | step n ih =>
    obtain ⟨k, ss, l⟩ := n
    have hs : ss.map (Slot.map fun m => (fold graft m).label) = ss :=
      calc ss.map (Slot.map fun m => (fold graft m).label)
          = ss.map (Slot.map fun m => m) := map_congr_children ih
        _ = ss := List.map_id'' Slot.map_id ss
    simp only [rose, fold_mk, graft, label_mk, List.map_map, Function.comp_def, Slot.map_map, hs]

/-- **The tree of a node** has the node at its root and the trees of its children as branches. -/
theorem rose_eq (n : Node) : n.rose = .mk n (n.children.map rose) := by
  obtain ⟨k, ss, l⟩ := n
  have hl := label_rose (mk k ss l)
  rw [rose, fold_mk, graft] at hl ⊢
  rw [label_mk] at hl
  rw [hl, childrenOf_eq, children_eq, slots, List.flatMap_map, List.map_flatMap]
  simp only [Slot.children_map]

@[simp] theorem mem_children_mk {k : Kind} {ss : List (Slot Node)} {l : Option Location}
    {m : Node} :
    m ∈ (mk k ss l).children ↔ ∃ s ∈ ss, m ∈ s.children := by
  rw [children_eq, slots, List.mem_flatMap]

theorem children_document (ns : List Node) (l : Option Location) :
    (document (ns.map .node) l).children = ns := by
  simp [children_eq, slots]

theorem labelsOfAll_eq : ∀ ts : List (Rose Node), Rose.labelsOfAll ts = ts.flatMap Rose.labels
  | [] => rfl
  | t :: ts => by rw [Rose.labelsOfAll, labelsOfAll_eq ts, List.flatMap_cons]

/-- The nodes below a node are the node and the nodes below its children. -/
theorem labels_eq (n : Node) : n.rose.labels = n :: n.children.flatMap fun m => m.rose.labels := by
  rw [rose_eq, Rose.labels, labelsOfAll_eq, List.flatMap_map]

theorem mem_labels_self (n : Node) : n ∈ n.rose.labels := by
  rw [labels_eq]
  exact List.mem_cons_self

theorem mem_labels_of_child {n m : Node} (hm : m ∈ n.children) :
    ∀ x ∈ m.rose.labels, x ∈ n.rose.labels := by
  intro x hx
  rw [labels_eq]
  exact List.mem_cons_of_mem _ (List.mem_flatMap.mpr ⟨m, hm, hx⟩)

end Node

end QueryCheck.Syntax
