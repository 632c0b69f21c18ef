import QueryCheck.Proofs.Syntax.Clone
import QueryCheck.Proofs.Syntax.Whole

/-! # Equality of nodes

Two nodes are equal when their structured forms are written alike. The outline of a node is the node
without locations and with one way for a node to be missing. The structured form tells the outline:
an entry names its field, and an entry or item that is missing can only be one thing. A form that is
nested too deep cannot be written, and then no node is equal to the node.

* `Node.Formed`: every slot below the node is of the sort its field declares.
* `Node.outline`, `Child.outline`: nodes without locations, whatever way a node is missing.
* `Node.shape_outline`, `Node.outline_eq_of_shape`: outline and structured form tell each other.
* `Child.equal_iff_outline`: nodes are equal when they have the same outline, unless they are nested
  too deep.
* `Node.equal_iff`: whole nodes are equal when they have the same clone, unless they are nested too
  deep. -/

namespace QueryCheck.Syntax

open QueryCheck.Data (Value)

/-! ### Formed nodes -/

/-- Whether a slot is of the sort that a field of the given shape declares. -/
def Shape.takes : Shape → Slot Node → Bool
  | .text, .text _ => true
  | .operation, .text _ => true
  | .flag, .flag _ => true
  | .mark, .flag _ => true
  | .one _, .one _ => true
  | .many _, .many _ => true
  | _, _ => false

/-- A node below which every slot is of the sort its field declares. Places may lack their nodes in
any way. -/
def Node.Formed (n : Node) : Prop :=
  n.All fun m => List.all₂ (fun d s => d.2.takes s) m.kind.declared m.slots = true

/-- A place that holds such a node, if it holds one. -/
def Child.Formed (c : Child Node) : Prop := ∀ n ∈ c.toOption, n.Formed

instance (n : Node) : Decidable n.Formed :=
  inferInstanceAs (Decidable (∀ m ∈ n.rose.labels, _))

instance (c : Child Node) : Decidable c.Formed :=
  inferInstanceAs (Decidable (∀ n ∈ c.toOption, n.Formed))

theorem Shape.takes_of_fits {shape : Shape} {s : Slot Node} (h : shape.fits s = true) :
    shape.takes s = true := by
  cases shape <;> cases s <;> first | rfl | cases h

namespace Node

theorem Formed.takes {n : Node} (h : n.Formed) :
    List.Forall₂ (fun d s => d.2.takes s = true) n.kind.declared n.slots :=
  (List.all₂_eq_true ..).mp (all_iff.mp h).1

theorem Formed.child {n m : Node} (h : n.Formed) (hm : m ∈ n.children) : m.Formed :=
  (all_iff.mp h).2 m hm

theorem Whole.formed {n : Node} (h : n.Whole) : n.Formed := fun m hm =>
  (List.all₂_eq_true ..).mpr
    ((fits_iff.mp (h m hm)).imp fun _ _ hfits => Shape.takes_of_fits hfits)

end Node

/-! ### Outlines -/

section Blurred

variable {α β : Type}

/-- A place that does not tell in what way its node is missing. -/
def Child.blurred (c : Child α) : Child α := .ofOption c.toOption

/-- A slot whose places do not tell in what way their nodes are missing. -/
def Slot.blurred : Slot α → Slot α
  | .one c => .one c.blurred
  | .many cs => .many (cs.map Child.blurred)
  | s => s

end Blurred

/-- A node without locations, in which a node that is missing is nothing at all. -/
def Node.outline : Node → Node := Node.fold fun k ss _ => .mk k (ss.map Slot.blurred) none

/-- The outline of the node in a place. -/
def Child.outline (c : Child Node) : Child Node := (c.map Node.outline).blurred

theorem Child.outline_eq (c : Child Node) :
    c.outline = .ofOption (c.toOption.map Node.outline) := by
  rw [outline, blurred, toOption_map]

theorem Node.outline_mk (k : Kind) (ss : List (Slot Node)) (l : Option Location) :
    (mk k ss l).outline = mk k (ss.map fun s => (s.map outline).blurred) none := by
  rw [outline, fold_mk, List.map_map]
  rfl

/-! ### Entries -/

theorem Kind.toName_injective : Function.Injective Kind.toName := by
  have h : ∀ k : Kind, Kind.ofName? k.toName = some k := by
    intro k
    cases k <;> rfl
  intro k k' hk
  have := h k
  rw [hk, h k'] at this
  exact (Option.some.inj this).symm

theorem nodup_keys_declared (k : Kind) : (k.declared.map Prod.fst).Nodup := by
  cases k <;> simp [Kind.declared]

theorem key_of_mem_structuredEntry {key : String} {shape : Shape} {s : Slot Value} :
    ∀ e ∈ structuredEntry (key, shape) s, e.1 = key := by
  cases s with
  | text t => simp
  | flag b => simp +contextual
  | one c => simp +contextual
  | many cs => cases cs <;> simp

theorem key_mem_of_mem_entries : ∀ {ds : List (String × Shape)} {ss : List (Slot Value)},
    ∀ e ∈ (List.zipWith structuredEntry ds ss).flatten, e.1 ∈ ds.map Prod.fst
  | [], _, e, he => by simp at he
  | _ :: _, [], e, he => by simp at he
  | (key, shape) :: ds, s :: ss, e, he => by
    rw [List.zipWith_cons_cons, List.flatten_cons, List.mem_append] at he
    rw [List.map_cons, List.mem_cons]
    exact he.imp (key_of_mem_structuredEntry e) (key_mem_of_mem_entries e)

/-- Entries of one key in front of entries of other keys are told apart from them. -/
theorem entries_append_inj {key : String} {es es' rest rest' : List (String × Value)}
    (hes : ∀ e ∈ es, e.1 = key) (hes' : ∀ e ∈ es', e.1 = key)
    (hrest : ∀ e ∈ rest, e.1 ≠ key) (hrest' : ∀ e ∈ rest', e.1 ≠ key)
    (h : es ++ rest = es' ++ rest') : es = es' ∧ rest = rest' := by
  have hfront : ∀ {es rest : List (String × Value)}, (∀ e ∈ es, e.1 = key) →
      (∀ e ∈ rest, e.1 ≠ key) → (es ++ rest).filter (fun e => e.1 == key) = es := by
    intro es rest hes hrest
    rw [List.filter_append, List.filter_eq_self.mpr fun e he => beq_iff_eq.mpr (hes e he),
      List.filter_eq_nil_iff.mpr fun e he => by simpa using hrest e he, List.append_nil]
  have hes_eq : es = es' := by rw [← hfront hes hrest, h, hfront hes' hrest']
  exact ⟨hes_eq, List.append_cancel_left (hes_eq ▸ h)⟩

/-! ### The structured form of an outline -/

theorem structuredItem_blurred (c : Child Value) : c.blurred.structuredItem = c.structuredItem := by
  cases c <;> rfl

theorem structuredEntry_blurred (d : String × Shape) (s : Slot Value) :
    structuredEntry d s.blurred = structuredEntry d s := by
  obtain ⟨key, shape⟩ := d
  cases s with
  | text t => rfl
  | flag b => rfl
  | one c =>
    rw [Slot.blurred, structuredEntry_one, structuredEntry_one]
    cases c <;> rfl
  | many cs =>
    cases cs with
    | nil => rfl
    | cons c cs =>
      simp [Slot.blurred, structuredItem_blurred, Function.comp_def]

theorem structuredParts_blurred (k : Kind) (ss : List (Slot Value)) (l : Option Location) :
    structuredParts k (ss.map Slot.blurred) l = structuredParts k ss l := by
  rw [structuredParts_eq, structuredParts_eq, List.zipWith_map_right]
  simp only [structuredEntry_blurred]

theorem Slot.blurred_map {α β : Type} (f : α → β) (s : Slot α) :
    s.blurred.map f = (s.map f).blurred := by
  have hplace : ∀ c : Child α, c.blurred.map f = (c.map f).blurred := fun c => by cases c <;> rfl
  cases s with
  | text t => rfl
  | flag b => rfl
  | one c => exact congrArg Slot.one (hplace c)
  | many cs => simp [Slot.blurred, Slot.map, hplace]

namespace Node

/-- The structured form of a node without locations, from those of its children. -/
theorem shape_mk (k : Kind) (ss : List (Slot Node)) (l : Option Location) :
    (mk k ss l).shape = structuredParts k (ss.map (Slot.map shape)) none := by
  rw [shape, structured_mk, withoutLocations_structuredParts, List.map_map]
  congr 2
  funext s
  exact Slot.map_map _ _ s

theorem shape_ne_empty (n : Node) : n.shape ≠ .map [] := by
  obtain ⟨k, ss, l⟩ := n
  rw [shape_mk]
  simp [structuredParts]

/-- **An outline has the structured form of the node.** -/
theorem shape_outline (n : Node) : n.outline.shape = n.shape := by
  induction n using induct with
  | step n ih =>
    obtain ⟨k, ss, l⟩ := n
    have hslots : ss.map (Slot.map shape ∘ fun s => (s.map outline).blurred) =
        (ss.map (Slot.map shape)).map Slot.blurred := by
      rw [List.map_map]
      refine List.map_congr_left fun s hs => ?_
      rw [Function.comp_apply, Function.comp_apply, Slot.blurred_map, Slot.map_map]
      exact congrArg _ (Slot.map_congr fun m hm => ih m (mem_children_mk.mpr ⟨s, hs, hm⟩))
    rw [outline_mk, shape_mk, shape_mk, List.map_map, hslots, structuredParts_blurred]

end Node

/-! ### What the structured form tells -/

/-- A node whose structured form tells its outline among formed nodes. -/
def Node.ShapeTells (n : Node) : Prop :=
  ∀ n' : Node, n'.Formed → n.shape = n'.shape → n.outline = n'.outline

theorem Child.shape_eq (c : Child Node) :
    c.shape = (c.toOption.map Node.shape).getD (.map []) := by
  cases c <;> rfl

theorem Child.outline_eq_of_toOption {c c' : Child Node}
    (h : c.toOption.map Node.outline = c'.toOption.map Node.outline) : c.outline = c'.outline := by
  rw [outline_eq, outline_eq, h]

/-- The structured form of a place tells the outline: no node is written as a missing one is. -/
theorem Child.outline_eq_of_shape {c c' : Child Node} (hc : ∀ m ∈ c.toOption, m.ShapeTells)
    (hc' : c'.Formed) (h : c.shape = c'.shape) : c.outline = c'.outline := by
  have hempty : ∀ (c : Child Node) (n : Node), c.toOption = none → c.shape ≠ n.shape := by
    intro c n hnone heq
    cases c with
    | node m => cases hnone
    | absent => exact n.shape_ne_empty heq.symm
    | null k => exact n.shape_ne_empty heq.symm
  refine outline_eq_of_toOption ?_
  cases c with
  | node m =>
    cases c' with
    | node m' => exact congrArg some (hc m rfl m' (hc' m' rfl) h)
    | absent => exact absurd h.symm (hempty _ m rfl)
    | null k => exact absurd h.symm (hempty _ m rfl)
  | absent =>
    cases c' with
    | node m' => exact absurd h (hempty _ m' rfl)
    | absent => rfl
    | null k => rfl
  | null k =>
    cases c' with
    | node m' => exact absurd h (hempty _ m' rfl)
    | absent => rfl
    | null k => rfl

theorem Child.map_outline_eq_of_shapes : ∀ {cs cs' : List (Child Node)},
    (∀ c ∈ cs, ∀ m ∈ c.toOption, m.ShapeTells) → (∀ c ∈ cs', c.Formed) →
    cs.map Child.shape = cs'.map Child.shape → cs.map Child.outline = cs'.map Child.outline
  | [], [], _, _, _ => rfl
  | [], _ :: _, _, _, h => by cases h
  | _ :: _, [], _, _, h => by cases h
  | c :: cs, c' :: cs', hcs, hcs', h => by
    obtain ⟨h, hrest⟩ := List.cons.inj h
    rw [List.forall_mem_cons] at hcs hcs'
    rw [List.map_cons, List.map_cons, outline_eq_of_shape hcs.1 hcs'.1 h,
      map_outline_eq_of_shapes hcs.2 hcs'.2 hrest]

theorem structuredEntry_many (key : String) (shape : Shape) (cs : List (Child Node)) :
    structuredEntry (key, shape) ((Slot.many cs).map Node.shape) =
      if cs = [] then [] else [(key, .list (cs.map Child.shape))] := by
  cases cs with
  | nil => simp [Slot.map]
  | cons c cs =>
    have hitem : ∀ c : Child Node, (c.map Node.shape).structuredItem = c.shape := fun c => by
      cases c <;> rfl
    simp [Slot.map, hitem]

/-- The entry of a field tells the outline of its slot: what has no entry is nothing, the empty list
or a mark that is not set, as the field declares. -/
theorem Slot.outline_eq_of_entry {key : String} {shape : Shape} {s s' : Slot Node}
    (hs : shape.takes s = true) (hs' : shape.takes s' = true)
    (tells : ∀ m ∈ s.children, m.ShapeTells) (formed : ∀ m ∈ s'.children, m.Formed)
    (h : structuredEntry (key, shape) (s.map Node.shape) =
      structuredEntry (key, shape) (s'.map Node.shape)) :
    (s.map Node.outline).blurred = (s'.map Node.outline).blurred := by
  cases s with
  | text t =>
    obtain ⟨t', rfl⟩ : ∃ t', s' = .text t' := by cases shape <;> cases s' <;> simp_all [Shape.takes]
    have ht : t = t' := by simpa [Slot.map] using h
    rw [ht]
  | flag b =>
    obtain ⟨b', rfl⟩ : ∃ b', s' = .flag b' := by cases shape <;> cases s' <;> simp_all [Shape.takes]
    have hb : b = b' := by cases shape <;> cases b <;> cases b' <;>
      simp_all [Slot.map, Shape.takes]
    rw [hb]
  | one c =>
    obtain ⟨c', rfl⟩ : ∃ c', s' = .one c' := by cases shape <;> cases s' <;> simp_all [Shape.takes]
    have hoption : c.toOption.map Node.shape = c'.toOption.map Node.shape := by
      cases c <;> cases c' <;> simp_all [Slot.map, Child.map, Child.toOption]
    have hshape : c.shape = c'.shape := by rw [Child.shape_eq, Child.shape_eq, hoption]
    exact congrArg Slot.one (Child.outline_eq_of_shape (by simpa [Slot.children] using tells)
      (fun m hm => formed m (by simpa [Slot.children] using hm)) hshape)
  | many cs =>
    obtain ⟨cs', rfl⟩ : ∃ cs', s' = .many cs' := by
      cases shape <;> cases s' <;> simp_all [Shape.takes]
    have hshapes : cs.map Child.shape = cs'.map Child.shape := by
      rw [structuredEntry_many, structuredEntry_many] at h
      split at h <;> split at h <;> simp_all
    have houtlines := Child.map_outline_eq_of_shapes
      (fun c hc m hm => tells m (List.mem_filterMap.mpr ⟨c, hc, hm⟩))
      (fun c hc m hm => formed m (List.mem_filterMap.mpr ⟨c, hc, hm⟩)) hshapes
    rw [Slot.map, Slot.map, Slot.blurred, Slot.blurred, List.map_map, List.map_map]
    exact congrArg Slot.many houtlines

/-- Entries of declared fields are told apart by their keys. -/
theorem outlines_eq_of_entries : ∀ {ds : List (String × Shape)} {ss ss' : List (Slot Node)},
    (ds.map Prod.fst).Nodup → List.Forall₂ (fun d s => d.2.takes s = true) ds ss →
    List.Forall₂ (fun d s => d.2.takes s = true) ds ss' →
    (∀ m ∈ ss.flatMap Slot.children, m.ShapeTells) →
    (∀ m ∈ ss'.flatMap Slot.children, m.Formed) →
    (List.zipWith structuredEntry ds (ss.map (Slot.map Node.shape))).flatten =
      (List.zipWith structuredEntry ds (ss'.map (Slot.map Node.shape))).flatten →
    (ss.map fun s => (s.map Node.outline).blurred) = ss'.map fun s => (s.map Node.outline).blurred
  | [], _, _, _, .nil, .nil, _, _, _ => rfl
  | (key, shape) :: ds, s :: ss, s' :: ss', hkeys, .cons hs hss, .cons hs' hss', htells, hformed,
      h => by
    rw [List.map_cons, List.nodup_cons] at hkeys
    rw [List.flatMap_cons, List.forall_mem_append] at htells hformed
    simp only [List.map_cons, List.zipWith_cons_cons, List.flatten_cons] at h
    have hother : ∀ {ss : List (Slot Value)}, ∀ e ∈ (List.zipWith structuredEntry ds ss).flatten,
        e.1 ≠ key := fun e he hkey => hkeys.1 (hkey ▸ key_mem_of_mem_entries e he)
    obtain ⟨hentry, hrest⟩ := entries_append_inj key_of_mem_structuredEntry
      key_of_mem_structuredEntry hother hother h
    rw [List.map_cons, List.map_cons, Slot.outline_eq_of_entry hs hs' htells.1 hformed.1 hentry,
      outlines_eq_of_entries hkeys.2 hss hss' htells.2 hformed.2 hrest]

namespace Node

/-- **The structured form tells the outline** of a formed node. -/
theorem Formed.shapeTells {n : Node} : n.Formed → n.ShapeTells := by
  induction n using induct with
  | step n ih =>
    intro hn n' hn' h
    obtain ⟨k, ss, l⟩ := n
    obtain ⟨k', ss', l'⟩ := n'
    rw [shape_mk, shape_mk, structuredParts_eq, structuredParts_eq] at h
    simp only [Option.toList_none, List.map_nil, List.append_nil, Value.map.injEq,
      List.cons.injEq, Prod.mk.injEq, Value.str.injEq, true_and] at h
    obtain ⟨hkind, hentries⟩ := h
    obtain rfl : k = k' := Kind.toName_injective hkind
    rw [outline_mk, outline_mk]
    exact congrArg (mk k · none) (outlines_eq_of_entries (nodup_keys_declared k) hn.takes hn'.takes
      (children_mk k ss l ▸ fun m hm => ih m hm (hn.child hm))
      (children_mk k ss' l' ▸ fun m hm => hn'.child hm) hentries)

end Node

/-! ### Outlines of whole nodes -/

theorem Slot.blurred_of_fits {shape : Shape} {s : Slot Node} (f : Node → Node)
    (h : shape.fits s = true) : (s.map f).blurred = s.map f := by
  have hplace : ∀ {w : Wanted} {c : Child Node}, w.fits c = true →
      (c.map f).blurred = c.map f := by
    intro w c hc
    cases c with
    | absent => rfl
    | null k => cases hc
    | node n => rfl
  cases shape with
  | one w =>
    obtain ⟨c, rfl, hc⟩ := Shape.fits_one.mp h
    exact congrArg Slot.one (hplace hc)
  | many w =>
    obtain ⟨cs, rfl, hcs⟩ := Shape.fits_many.mp h
    rw [Slot.map, blurred, List.map_map]
    exact congrArg Slot.many (List.map_congr_left fun c hc =>
      hplace (Wanted.fits_of_fitsItem (hcs c hc)))
  | _ => cases s <;> first | rfl | cases h

theorem map_blurred_of_fits {f : Node → Node} : ∀ {ds : List (String × Shape)}
    {ss : List (Slot Node)}, List.Forall₂ (fun d s => d.2.fits s = true) ds ss →
    (ss.map fun s => (s.map f).blurred) = ss.map (Slot.map f)
  | _, _, .nil => rfl
  | _, _, .cons hs hss => by
    rw [List.map_cons, List.map_cons, Slot.blurred_of_fits f hs, map_blurred_of_fits hss]

/-! ### Equality -/

theorem Child.shape_outline (c : Child Node) : c.outline.shape = c.shape := by
  cases c with
  | absent => rfl
  | null k => rfl
  | node n => exact n.shape_outline

theorem Child.equal_iff_shape {a b : Child Node} :
    a.equal b = true ↔ a.shape = b.shape ∧ a.shape.depth ≤ Value.maxNesting :=
  Value.writtenAlike_iff

/-- **Places hold equal nodes** when their outlines are the same and can be written. A place is
equal to itself when it can be written; other than that equality is an equivalence of all places,
and equality of nodes is equality of places that hold them. -/
theorem Child.equal_iff_outline :
    (∀ a b : Child Node, a.Formed → b.Formed →
      (a.equal b = true ↔ a.outline = b.outline ∧ a.shape.depth ≤ Value.maxNesting)) ∧
      (∀ a : Child Node, a.equal a = true ↔ a.shape.depth ≤ Value.maxNesting) ∧
      (∀ a b : Child Node, a.equal b = true → b.equal a = true) ∧
      (∀ a b c : Child Node, a.equal b = true → b.equal c = true → a.equal c = true) ∧
      ∀ a b : Node, a.equal b = (Child.node a).equal (.node b) := by
  refine ⟨fun a b ha hb => ?_, fun a => ?_, fun a b => ?_, fun a b c => ?_, fun _ _ => rfl⟩
  · rw [equal_iff_shape]
    refine and_congr_left fun _ => ⟨?_, fun h => ?_⟩
    · exact outline_eq_of_shape (fun m hm => (ha m hm).shapeTells) hb
    · rw [← shape_outline, h, shape_outline]
  · rw [equal_iff_shape, and_iff_right rfl]
  · rw [equal_iff_shape, equal_iff_shape]
    rintro ⟨h, hdepth⟩
    exact ⟨h.symm, h ▸ hdepth⟩
  · rw [equal_iff_shape, equal_iff_shape, equal_iff_shape]
    rintro ⟨hab, hdepth⟩ ⟨hbc, -⟩
    exact ⟨hab.trans hbc, hdepth⟩

/-- A spread read from a text is equal to one made by hand. Spreads that lack their name and a
directive are equal in whatever way they lack them, and not equal to a spread that lacks nothing. -/
theorem Child.equal_spread :
    let located : Option Location := some ⟨2, 6, 1, 3, .document⟩
    let read : Node := .fragmentSpread (.node (.name "F" located)) [] located
    let made : Node := .fragmentSpread (.node (.name "F" none)) [] none
    let lacking : Node := .fragmentSpread (.null .name) [.null .directive] none
    let lacking' : Node := .fragmentSpread .absent [.absent] none
    (Child.node read).equal (.node made) = true ∧
      (Child.node lacking).equal (.node lacking') = true ∧
      (Child.node made).equal (.node lacking) = false ∧
      (Child.null .field).equal .absent = true ∧
      (Child.node made).equal .absent = false := by
  intro located read made lacking lacking'
  have hiff := Child.equal_iff_outline.1
  refine ⟨(hiff _ _ (by decide) (by decide)).mpr ⟨rfl, by decide⟩,
    (hiff _ _ (by decide) (by decide)).mpr ⟨rfl, by decide⟩, ?_,
    (hiff _ _ (by decide) (by decide)).mpr ⟨rfl, by decide⟩, ?_⟩
  · refine Bool.eq_false_iff.mpr fun h => ?_
    have := ((hiff _ _ (by decide) (by decide)).mp h).1
    cases this
  · refine Bool.eq_false_iff.mpr fun h => ?_
    have := ((hiff _ _ (by decide) (by decide)).mp h).1
    cases this

theorem Child.equal_self_nestedList_iff (k : Nat) :
    (Child.node (.nestedList k)).equal (.node (.nestedList k)) = true ↔
      2 * k + 1 ≤ Value.maxNesting := by
  rw [equal_iff_shape, and_iff_right rfl, ← Node.depth_shape_nestedList]
  rfl

/-- Five thousand list values inside a list value are not equal to themselves. -/
theorem Child.nestedList_ne_self :
    (Child.node (.nestedList 5000)).equal (.node (.nestedList 5000)) = false := by
  rw [← Bool.not_eq_true, equal_self_nestedList_iff]
  decide

namespace Node

/-- The outline of a whole node is its clone, as no place of it is null. -/
theorem Whole.outline_eq_cloneDeep {n : Node} : n.Whole → n.outline = n.cloneDeep := by
  induction n using induct with
  | step n ih =>
    intro h
    obtain ⟨k, ss, l⟩ := n
    have hslots : ss.map (Slot.map outline) = ss.map (Slot.map cloneDeep) :=
      map_congr_children fun m hm => ih m hm (h.child hm)
    have hblurred : (ss.map fun s => (s.map outline).blurred) = ss.map (Slot.map outline) :=
      map_blurred_of_fits (fits_iff.mp h.fits)
    rw [outline_mk, hblurred, hslots, cloneDeep_mk]

/-- **Whole nodes of one structure** have the same clone. -/
theorem shape_eq_iff {n n' : Node} (hn : n.Whole) (hn' : n'.Whole) :
    n.shape = n'.shape ↔ n.cloneDeep = n'.cloneDeep := by
  refine ⟨fun h => ?_, fun h => ?_⟩
  · rw [← hn.outline_eq_cloneDeep, ← hn'.outline_eq_cloneDeep]
    exact hn.formed.shapeTells n' hn'.formed h
  · rw [← shape_cloneDeep, h, shape_cloneDeep]

/-- **Whole nodes are equal** when their clones are the same and can be written. -/
theorem equal_iff {n n' : Node} (hn : n.Whole) (hn' : n'.Whole) :
    n.equal n' = true ↔ n.cloneDeep = n'.cloneDeep ∧ n.shape.depth ≤ Value.maxNesting := by
  rw [equal_iff_shape, shape_eq_iff hn hn']

end Node

end QueryCheck.Syntax
