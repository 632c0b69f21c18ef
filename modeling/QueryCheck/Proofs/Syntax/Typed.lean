import QueryCheck.Proofs.Syntax.Equality

/-! # Typed nodes

A node made by hand may lack any of the nodes it has places for, and yet no place holds a node of a
kind that its field does not admit. This much is known of every node: the kinds of nodes that may
own it, the kinds of nodes below it, and the form of its slots.

* `Node.Typed`: every slot below the node holds only what its field admits.
* `Node.Gapless`: no list below the node lacks an item.
* `Node.typeGiven`: the type of an argument definition was not left out.
* `Kind.owners`, `Node.kind_mem_owners`: the kinds of nodes that may own a node.
* `Node.Typed.all_kind`, `Node.Typed.below_directive`: the kinds below a typed node.
* `Node.eq_field_of_typed` and its kin: the forms of typed nodes.
* `typeCondition?`, `exists_namedType_of_typeCondition?`: the conditions of fragments. -/

namespace QueryCheck.Syntax

/-! ### Slots that hold what their fields admit -/

/-- Whether a slot is of the sort that a field of the given shape declares, and holds only nodes of
kinds that the field admits. -/
def Shape.holds (shape : Shape) (s : Slot Node) : Bool :=
  shape.takes s && s.children.all fun n => shape.admits n.kind

/-- Whether the slots of a node hold only what its fields admit. -/
def Node.typed (n : Node) : Bool := List.all₂ (fun d s => d.2.holds s) n.kind.declared n.slots

/-- A node below which every slot holds only what its field admits. Nodes may be missing. -/
def Node.Typed (n : Node) : Prop := n.All fun m => m.typed = true

instance (n : Node) : Decidable n.Typed :=
  inferInstanceAs (Decidable (∀ m ∈ n.rose.labels, m.typed = true))

/-- Whether no item of a list is missing. Only lists have items. -/
def Slot.gapless : Slot Node → Bool
  | .many cs => cs.all fun c => c.toOption.isSome
  | _ => true

/-- A node below which no list lacks an item. Other places may lack their nodes. -/
def Node.Gapless (n : Node) : Prop := n.All fun m => m.slots.all Slot.gapless = true

instance (n : Node) : Decidable n.Gapless :=
  inferInstanceAs (Decidable (∀ m ∈ n.rose.labels, m.slots.all Slot.gapless = true))

/-- Whether the place for the type of an argument definition was not filled with no type. Nothing at
all may stand there, and other nodes have no such place. -/
def Node.typeGiven : Node → Bool
  | .inputValueDefinition _ _ (.null _) _ _ _ => false
  | _ => true

namespace Shape

theorem holds_of_fits {shape : Shape} {s : Slot Node} (h : shape.fits s = true) :
    shape.holds s = true := by
  rw [holds, takes_of_fits h, Bool.true_and, List.all_eq_true]
  exact admits_of_fits h

theorem holds_text {s : Slot Node} (h : Shape.text.holds s = true) : ∃ t, s = .text t := by
  cases s <;> first | exact ⟨_, rfl⟩ | cases h

theorem holds_operation {s : Slot Node} (h : Shape.operation.holds s = true) :
    ∃ t, s = .text t := by
  cases s <;> first | exact ⟨_, rfl⟩ | cases h

theorem holds_flag {s : Slot Node} (h : Shape.flag.holds s = true) : ∃ b, s = .flag b := by
  cases s <;> first | exact ⟨_, rfl⟩ | cases h

theorem holds_one {w : Wanted} {s : Slot Node} (h : (Shape.one w).holds s = true) :
    ∃ c, s = .one c ∧ ∀ n ∈ c.toOption, w.admits n.kind = true := by
  cases s with
  | one c =>
    refine ⟨c, rfl, fun n hn => List.all_eq_true.mp h n ?_⟩
    exact Option.mem_toList.mpr hn
  | _ => cases h

theorem holds_many {w : Wanted} {s : Slot Node} (h : (Shape.many w).holds s = true) :
    ∃ cs, s = .many cs ∧ ∀ c ∈ cs, ∀ n ∈ c.toOption, w.admits n.kind = true := by
  cases s with
  | many cs =>
    refine ⟨cs, rfl, fun c hc n hn => List.all_eq_true.mp h n ?_⟩
    exact List.mem_filterMap.mpr ⟨c, hc, hn⟩
  | _ => cases h

end Shape

namespace Node

theorem typed_iff {n : Node} :
    n.typed = true ↔ List.Forall₂ (fun d s => d.2.holds s = true) n.kind.declared n.slots :=
  List.all₂_eq_true ..

theorem Whole.typed {n : Node} (h : n.Whole) : n.Typed := fun m hm =>
  typed_iff.mpr ((fits_iff.mp (h m hm)).imp fun _ _ hfits => Shape.holds_of_fits hfits)

/-- In a whole node the places for types were not filled with no type. -/
theorem Whole.typeGiven {n : Node} (h : n.Whole) : n.All fun m => m.typeGiven = true := by
  intro m hm
  have hfits := fits_iff.mp (h m hm)
  unfold Node.typeGiven
  split
  · rcases hfits with _ | ⟨-, _ | ⟨-, _ | ⟨htype, -⟩⟩⟩
    cases htype
  · rfl

theorem Typed.typed {n : Node} (h : n.Typed) : n.typed = true := (all_iff.mp h).1

theorem Typed.child {n m : Node} (h : n.Typed) (hm : m ∈ n.children) : m.Typed :=
  (all_iff.mp h).2 m hm

theorem Gapless.child {n m : Node} (h : n.Gapless) (hm : m ∈ n.children) : m.Gapless :=
  (all_iff.mp h).2 m hm

/-- The items of a list of a gapless node are nodes. -/
theorem Gapless.exists_item {k : Kind} {ss : List (Slot Node)} {l : Option Location}
    (h : (mk k ss l).Gapless) {cs : List (Child Node)} (hcs : .many cs ∈ ss) {c : Child Node}
    (hc : c ∈ cs) : ∃ m, c = .node m := by
  have hslots : ss.all Slot.gapless = true := (all_iff.mp h).1
  have hslot : cs.all (fun c => c.toOption.isSome) = true := List.all_eq_true.mp hslots _ hcs
  have hsome := List.all_eq_true.mp hslot c hc
  cases c with
  | node m => exact ⟨m, rfl⟩
  | _ => cases hsome

end Node

/-! ### The kinds of nodes around a node -/

/-- The kinds of nodes that have a place for a node of the given kind. -/
def Kind.owners (k : Kind) : List Kind :=
  Kind.all.filter fun owner => owner.declared.any fun d => d.2.admits k

/-- Whether nodes of a kind may stand in an argument. -/
def Kind.inArgument : Kind → Bool
  | .name | .variable | .intValue | .floatValue | .stringValue | .booleanValue | .nullValue
  | .enumValue | .listValue | .objectValue | .objectField => true
  | _ => false

theorem Kind.inArgument_of_admits : ∀ k : Kind, (k.inArgument = true ∨ k = .argument) →
    ∀ d ∈ k.declared, ∀ k', d.2.admits k' = true → k'.inArgument = true := by
  intro k
  cases k <;> simp [Kind.declared, Shape.admits, Wanted.admits, Family.kinds, Kind.inArgument]

namespace Node

theorem exists_admits {ds : List (String × Shape)} {ss : List (Slot Node)}
    (h : List.Forall₂ (fun d s => d.2.holds s = true) ds ss) :
    ∀ m ∈ ss.flatMap Slot.children, ∃ d ∈ ds, d.2.admits m.kind = true := by
  induction h with
  | nil => simp
  | @cons d s ds ss hs _ ih =>
    intro m hm
    rw [List.flatMap_cons, List.mem_append] at hm
    rcases hm with hm | hm
    · obtain ⟨-, hadmits⟩ := Bool.and_eq_true_iff.mp hs
      exact ⟨d, List.mem_cons_self, List.all_eq_true.mp hadmits m hm⟩
    · obtain ⟨d', hd', hadmits⟩ := ih m hm
      exact ⟨d', List.mem_cons_of_mem _ hd', hadmits⟩

/-- A child of a typed node stands where the kind of the node admits it. -/
theorem exists_admits_child {n m : Node} (h : n.typed = true) (hm : m ∈ n.children) :
    ∃ d ∈ n.kind.declared, d.2.admits m.kind = true :=
  exists_admits (typed_iff.mp h) m (children_eq n ▸ hm)

/-- **The owner of a node** is of a kind that has a place for it. -/
theorem kind_mem_owners {n m : Node} (h : n.typed = true) (hm : m ∈ n.children) :
    n.kind ∈ m.kind.owners := by
  obtain ⟨d, hd, hadmits⟩ := exists_admits_child h hm
  have hall : n.kind ∈ Kind.all := by cases n.kind <;> decide
  exact List.mem_filter.mpr ⟨hall, List.any_eq_true.mpr ⟨d, hd, hadmits⟩⟩

/-- A set of kinds whose fields admit only kinds of the set holds all kinds below a typed node, if
it holds the kind of the node. -/
theorem Typed.all_kind {P : Kind → Prop}
    (closed : ∀ k, P k → ∀ d ∈ k.declared, ∀ k', d.2.admits k' = true → P k') (n : Node) :
    n.Typed → P n.kind → n.All fun m => P m.kind := by
  induction n using induct with
  | step n ih =>
    intro hn hk
    refine all_iff.mpr ⟨hk, fun m hm => ih m hm (hn.child hm) ?_⟩
    obtain ⟨d, hd, hadmits⟩ := exists_admits_child hn.typed hm
    exact closed n.kind hk d hd m.kind hadmits

/-- **The parts of a directive** are its name and its arguments, and below them there are names and
values only. -/
theorem Typed.below_directive {n : Node} (hn : n.Typed) (hk : n.kind = .directive) :
    ∀ m ∈ n.children, (m.kind = .name ∨ m.kind = .argument) ∧
      ∀ k ∈ m.children, k.All fun x => x.kind.inArgument = true := by
  intro m hm
  obtain ⟨d, hd, hadmits⟩ := exists_admits_child hn.typed hm
  have hpart : m.kind = .name ∨ m.kind = .argument := by
    rw [hk] at hd
    rcases List.mem_pair.mp hd with rfl | rfl
    · exact .inl (eq_of_beq hadmits)
    · exact .inr (eq_of_beq hadmits)
  have hin : m.kind.inArgument = true ∨ m.kind = .argument := by
    rcases hpart with hname | hargument
    · exact .inl (hname ▸ rfl)
    · exact .inr hargument
  refine ⟨hpart, fun k hkm => ?_⟩
  obtain ⟨d', hd', hadmits'⟩ := exists_admits_child ((hn.child hm).typed) hkm
  exact Typed.all_kind (P := fun k => k.inArgument = true)
    (fun k h => Kind.inArgument_of_admits k (.inl h)) k ((hn.child hm).child hkm)
    (Kind.inArgument_of_admits m.kind hin d' hd' k.kind hadmits')

/-! ### Forms of typed nodes -/

section Forms

variable {n : Node} (h : n.typed = true)

include h

theorem eq_name_of_typed (hk : n.kind = .name) : ∃ s l, n = .name s l := by
  obtain ⟨k, ss, l⟩ := n
  obtain rfl : k = .name := hk
  rcases typed_iff.mp h with _ | ⟨hs, _ | _⟩
  obtain ⟨s, rfl⟩ := Shape.holds_text hs
  exact ⟨s, l, rfl⟩

theorem eq_document_of_typed (hk : n.kind = .document) :
    ∃ ds l, n = .document ds l ∧
      ∀ c ∈ ds, ∀ m ∈ c.toOption, m.kind ∈ Family.definition.kinds := by
  obtain ⟨k, ss, l⟩ := n
  obtain rfl : k = .document := hk
  rcases typed_iff.mp h with _ | ⟨hds, _ | _⟩
  obtain ⟨ds, rfl, hitems⟩ := Shape.holds_many hds
  exact ⟨ds, l, rfl, fun c hc m hm => List.contains_iff_mem.mp (hitems c hc m hm)⟩

theorem eq_operationDefinition_of_typed (hk : n.kind = .operationDefinition) :
    ∃ op name vars dirs sel l, n = .operationDefinition op name vars dirs sel l := by
  obtain ⟨k, ss, l⟩ := n
  obtain rfl : k = .operationDefinition := hk
  rcases typed_iff.mp h with
    _ | ⟨hop, _ | ⟨hname, _ | ⟨hvars, _ | ⟨hdirs, _ | ⟨hsel, _ | _⟩⟩⟩⟩⟩
  obtain ⟨op, rfl⟩ := Shape.holds_operation hop
  obtain ⟨name, rfl, -⟩ := Shape.holds_one hname
  obtain ⟨vars, rfl, -⟩ := Shape.holds_many hvars
  obtain ⟨dirs, rfl, -⟩ := Shape.holds_many hdirs
  obtain ⟨sel, rfl, -⟩ := Shape.holds_one hsel
  exact ⟨op, name, vars, dirs, sel, l, rfl⟩

theorem eq_selectionSet_of_typed (hk : n.kind = .selectionSet) :
    ∃ sels l, n = .selectionSet sels l := by
  obtain ⟨k, ss, l⟩ := n
  obtain rfl : k = .selectionSet := hk
  rcases typed_iff.mp h with _ | ⟨hsels, _ | _⟩
  obtain ⟨sels, rfl, -⟩ := Shape.holds_many hsels
  exact ⟨sels, l, rfl⟩

theorem eq_field_of_typed (hk : n.kind = .field) :
    ∃ key name args dirs sel l, n = .field key name args dirs sel l := by
  obtain ⟨k, ss, l⟩ := n
  obtain rfl : k = .field := hk
  rcases typed_iff.mp h with
    _ | ⟨hkey, _ | ⟨hname, _ | ⟨hargs, _ | ⟨hdirs, _ | ⟨hsel, _ | _⟩⟩⟩⟩⟩
  obtain ⟨key, rfl, -⟩ := Shape.holds_one hkey
  obtain ⟨name, rfl, -⟩ := Shape.holds_one hname
  obtain ⟨args, rfl, -⟩ := Shape.holds_many hargs
  obtain ⟨dirs, rfl, -⟩ := Shape.holds_many hdirs
  obtain ⟨sel, rfl, -⟩ := Shape.holds_one hsel
  exact ⟨key, name, args, dirs, sel, l, rfl⟩

theorem eq_argument_of_typed (hk : n.kind = .argument) :
    ∃ name value l, n = .argument name value l := by
  obtain ⟨k, ss, l⟩ := n
  obtain rfl : k = .argument := hk
  rcases typed_iff.mp h with _ | ⟨hname, _ | ⟨hvalue, _ | _⟩⟩
  obtain ⟨name, rfl, -⟩ := Shape.holds_one hname
  obtain ⟨value, rfl, -⟩ := Shape.holds_one hvalue
  exact ⟨name, value, l, rfl⟩

theorem eq_fragmentSpread_of_typed (hk : n.kind = .fragmentSpread) :
    ∃ name dirs l, n = .fragmentSpread name dirs l ∧ ∀ m ∈ name.toOption, m.kind = .name := by
  obtain ⟨k, ss, l⟩ := n
  obtain rfl : k = .fragmentSpread := hk
  rcases typed_iff.mp h with _ | ⟨hname, _ | ⟨hdirs, _ | _⟩⟩
  obtain ⟨name, rfl, hm⟩ := Shape.holds_one hname
  obtain ⟨dirs, rfl, -⟩ := Shape.holds_many hdirs
  exact ⟨name, dirs, l, rfl, fun m hm' => eq_of_beq (hm m hm')⟩

theorem eq_inlineFragment_of_typed (hk : n.kind = .inlineFragment) :
    ∃ cond dirs sel l, n = .inlineFragment cond dirs sel l ∧
      ∀ m ∈ cond.toOption, m.kind = .namedType := by
  obtain ⟨k, ss, l⟩ := n
  obtain rfl : k = .inlineFragment := hk
  rcases typed_iff.mp h with _ | ⟨hcond, _ | ⟨hdirs, _ | ⟨hsel, _ | _⟩⟩⟩
  obtain ⟨cond, rfl, hm⟩ := Shape.holds_one hcond
  obtain ⟨dirs, rfl, -⟩ := Shape.holds_many hdirs
  obtain ⟨sel, rfl, -⟩ := Shape.holds_one hsel
  exact ⟨cond, dirs, sel, l, rfl, fun m hm' => eq_of_beq (hm m hm')⟩

theorem eq_fragmentDefinition_of_typed (hk : n.kind = .fragmentDefinition) :
    ∃ name vars cond dirs sel l, n = .fragmentDefinition name vars cond dirs sel l ∧
      (∀ m ∈ name.toOption, m.kind = .name) ∧ ∀ m ∈ cond.toOption, m.kind = .namedType := by
  obtain ⟨k, ss, l⟩ := n
  obtain rfl : k = .fragmentDefinition := hk
  rcases typed_iff.mp h with
    _ | ⟨hname, _ | ⟨hvars, _ | ⟨hcond, _ | ⟨hdirs, _ | ⟨hsel, _ | _⟩⟩⟩⟩⟩
  obtain ⟨name, rfl, hn⟩ := Shape.holds_one hname
  obtain ⟨vars, rfl, -⟩ := Shape.holds_many hvars
  obtain ⟨cond, rfl, hm⟩ := Shape.holds_one hcond
  obtain ⟨dirs, rfl, -⟩ := Shape.holds_many hdirs
  obtain ⟨sel, rfl, -⟩ := Shape.holds_one hsel
  exact ⟨name, vars, cond, dirs, sel, l, rfl, fun m hm' => eq_of_beq (hn m hm'),
    fun m hm' => eq_of_beq (hm m hm')⟩

theorem eq_directive_of_typed (hk : n.kind = .directive) :
    ∃ name args l, n = .directive name args l ∧
      (∀ m ∈ name.toOption, m.kind = .name) ∧
      ∀ a ∈ args, ∀ m ∈ a.toOption, m.kind = .argument := by
  obtain ⟨k, ss, l⟩ := n
  obtain rfl : k = .directive := hk
  rcases typed_iff.mp h with _ | ⟨hname, _ | ⟨hargs, _ | _⟩⟩
  obtain ⟨name, rfl, hn⟩ := Shape.holds_one hname
  obtain ⟨args, rfl, hm⟩ := Shape.holds_many hargs
  exact ⟨name, args, l, rfl, fun m hm' => eq_of_beq (hn m hm'),
    fun a ha m hm' => eq_of_beq (hm a ha m hm')⟩

theorem eq_namedType_of_typed (hk : n.kind = .namedType) :
    ∃ name l, n = .namedType name l ∧ ∀ m ∈ name.toOption, m.kind = .name := by
  obtain ⟨k, ss, l⟩ := n
  obtain rfl : k = .namedType := hk
  rcases typed_iff.mp h with _ | ⟨hname, _ | _⟩
  obtain ⟨name, rfl, hm⟩ := Shape.holds_one hname
  exact ⟨name, l, rfl, fun m hm' => eq_of_beq (hm m hm')⟩

theorem eq_type_of_typed (hk : n.kind ∈ Family.typeRef.kinds) :
    ∃ c l, (n = .namedType c l ∧ ∀ m ∈ c.toOption, m.kind = .name) ∨
      ((n = .listType c l ∨ n = .nonNullType c l) ∧
        ∀ m ∈ c.toOption, m.kind ∈ Family.typeRef.kinds) := by
  obtain ⟨k, ss, l⟩ := n
  have hk : k = .namedType ∨ k = .listType ∨ k = .nonNullType := by
    simpa [Family.kinds, Node.kind] using hk
  have hss := typed_iff.mp h
  rcases hk with rfl | rfl | rfl
  all_goals
    rcases hss with _ | ⟨hc, _ | _⟩
    obtain ⟨c, rfl, hm⟩ := Shape.holds_one hc
  · exact ⟨c, l, .inl ⟨rfl, fun m hm' => eq_of_beq (hm m hm')⟩⟩
  · exact ⟨c, l, .inr ⟨.inl rfl, fun m hm' => List.contains_iff_mem.mp (hm m hm')⟩⟩
  · exact ⟨c, l, .inr ⟨.inr rfl, fun m hm' => List.contains_iff_mem.mp (hm m hm')⟩⟩

theorem eq_directiveDefinition_of_typed (hk : n.kind = .directiveDefinition) :
    ∃ desc name args repeatable locs l,
      n = .directiveDefinition desc name args repeatable locs l ∧
        ∀ a ∈ args, ∀ m ∈ a.toOption, m.kind = .inputValueDefinition := by
  obtain ⟨k, ss, l⟩ := n
  obtain rfl : k = .directiveDefinition := hk
  rcases typed_iff.mp h with
    _ | ⟨hdesc, _ | ⟨hname, _ | ⟨hargs, _ | ⟨hrepeatable, _ | ⟨hlocs, _ | _⟩⟩⟩⟩⟩
  obtain ⟨desc, rfl, -⟩ := Shape.holds_one hdesc
  obtain ⟨name, rfl, -⟩ := Shape.holds_one hname
  obtain ⟨args, rfl, hm⟩ := Shape.holds_many hargs
  obtain ⟨repeatable, rfl⟩ := Shape.holds_flag hrepeatable
  obtain ⟨locs, rfl, -⟩ := Shape.holds_many hlocs
  exact ⟨desc, name, args, repeatable, locs, l, rfl, fun a ha m hm' => eq_of_beq (hm a ha m hm')⟩

theorem eq_inputValueDefinition_of_typed (hk : n.kind = .inputValueDefinition) :
    ∃ desc name type default dirs l,
      n = .inputValueDefinition desc name type default dirs l ∧
        ∀ m ∈ type.toOption, m.kind ∈ Family.typeRef.kinds := by
  obtain ⟨k, ss, l⟩ := n
  obtain rfl : k = .inputValueDefinition := hk
  rcases typed_iff.mp h with
    _ | ⟨hdesc, _ | ⟨hname, _ | ⟨htype, _ | ⟨hdefault, _ | ⟨hdirs, _ | _⟩⟩⟩⟩⟩
  obtain ⟨desc, rfl, -⟩ := Shape.holds_one hdesc
  obtain ⟨name, rfl, -⟩ := Shape.holds_one hname
  obtain ⟨type, rfl, hm⟩ := Shape.holds_one htype
  obtain ⟨default, rfl, -⟩ := Shape.holds_one hdefault
  obtain ⟨dirs, rfl, -⟩ := Shape.holds_many hdirs
  exact ⟨desc, name, type, default, dirs, l, rfl, fun m hm' =>
    List.contains_iff_mem.mp (hm m hm')⟩

end Forms

/-- A directive whose lists lack no item is given arguments. -/
theorem exists_argument {name : Child Node} {args : List (Child Node)} {l : Option Location}
    (hn : (directive name args l).Typed) (h : (directive name args l).Gapless) :
    ∀ a ∈ args, ∃ given value l', a = .node (argument given value l') := by
  intro a ha
  obtain ⟨_, _, _, ⟨⟩, -, hargs⟩ := eq_directive_of_typed hn.typed rfl
  obtain ⟨m, rfl⟩ := h.exists_item (by simp) ha
  have hchild : m ∈ (directive name args l).children :=
    mem_children_mk.mpr ⟨.many args, by simp, List.mem_filterMap.mpr ⟨_, ha, rfl⟩⟩
  obtain ⟨given, value, l', rfl⟩ :=
    eq_argument_of_typed (hn.child hchild).typed (hargs _ ha m rfl)
  exact ⟨given, value, l', rfl⟩

end Node

/-! ### Type conditions -/

/-- The name in a reference to a named type. -/
def typeNameOf : Node → String
  | .namedType name _ => name.nameText
  | _ => ""

/-- The condition of a fragment, if it has one. -/
def typeCondition? : Node → Option Node
  | .inlineFragment (.node cond) _ _ _ => some cond
  | .fragmentDefinition _ _ (.node cond) _ _ _ => some cond
  | _ => none

/-- A condition of a typed node is a named type. -/
theorem exists_namedType_of_typeCondition? {n cond : Node} (hn : n.Typed)
    (h : typeCondition? n = some cond) : cond ∈ n.children ∧ ∃ name l, cond = .namedType name l := by
  unfold typeCondition? at h
  split at h
  · next cond' dirs sel l =>
    obtain rfl := Option.some.inj h
    obtain ⟨_, _, _, _, ⟨⟩, hkind⟩ := Node.eq_inlineFragment_of_typed hn.typed rfl
    have hchild : cond' ∈ (Node.inlineFragment (.node cond') dirs sel l).children :=
      Node.mem_children_mk.mpr ⟨.one (.node cond'), by simp, by simp⟩
    obtain ⟨name, l', rfl, -⟩ :=
      Node.eq_namedType_of_typed (hn.child hchild).typed (hkind cond' rfl)
    exact ⟨hchild, name, l', rfl⟩
  · next name vars cond' dirs sel l =>
    obtain rfl := Option.some.inj h
    obtain ⟨_, _, _, _, _, _, ⟨⟩, -, hkind⟩ := Node.eq_fragmentDefinition_of_typed hn.typed rfl
    have hchild : cond' ∈ (Node.fragmentDefinition name vars (.node cond') dirs sel l).children :=
      Node.mem_children_mk.mpr ⟨.one (.node cond'), by simp, by simp⟩
    obtain ⟨name, l', rfl, -⟩ :=
      Node.eq_namedType_of_typed (hn.child hchild).typed (hkind cond' rfl)
    exact ⟨hchild, name, l', rfl⟩
  · cases h

end QueryCheck.Syntax
