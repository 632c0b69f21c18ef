import QueryCheck.Proofs.Syntax.Typed
import QueryCheck.Proofs.Validation.Moves

/-! # Tables of documents

The tables of fragments and directives can be made unless a definition they are made from is missing
or lacks a part. In a document whose places hold only what their fields admit, only two parts can be
missed: the definition itself, and an argument of a directive definition.

* `complete`, `directiveTable?_isSome_iff`: when the table of directives can be made.
* `fragmentTable?_isSome_iff`: when the table of fragments can be made.
* `complete_of_gapless`: a document whose lists lack no item has both tables. -/

namespace QueryCheck.Validation

open QueryCheck.Schema
open QueryCheck.Syntax

/-- A definition in its place is a child of the document. -/
theorem mem_children_of_mem_placesOf {doc n : Node} {k : Kind} (h : .node n ∈ placesOf k doc) :
    n ∈ doc.children ∧ n.kind = k := by
  obtain ⟨hmem, hkind⟩ := List.mem_filter.mp h
  refine ⟨?_, eq_of_beq hkind⟩
  unfold Node.definitions at hmem
  split at hmem
  · exact Node.mem_children_mk.mpr ⟨_, List.mem_singleton_self _,
      List.mem_filterMap.mpr ⟨_, hmem, rfl⟩⟩
  · cases hmem

/-- A look-up in a list of pairs is a search by the first parts. -/
theorem lookup_map_key {α β γ : Type} [BEq α] [LawfulBEq α] (key : β → α) (f : β → γ) (k : α) :
    ∀ bs : List β, (bs.map fun b => (key b, f b)).lookup k = (bs.find? fun b => key b == k).map f
  | [] => rfl
  | b :: bs => by
    rw [List.map_cons, List.lookup_cons, List.find?_cons, lookup_map_key key f k bs, Bool.beq_comm]
    cases key b == k <;> rfl

/-! ### Directives -/

/-- Whether a place holds a directive definition that lacks none of its arguments. -/
def complete : Child Node → Bool
  | .node (.directiveDefinition _ _ args _ _ _) => args.all fun a => a.toOption.isSome
  | _ => false

theorem argumentOf?_isSome_iff {a : Child Node}
    (ha : ∀ m ∈ a.toOption, m.typed = true ∧ m.kind = .inputValueDefinition) :
    (argumentOf? a).isSome ↔ a.toOption.isSome := by
  cases a with
  | node m =>
    obtain ⟨hm, hk⟩ := ha m rfl
    obtain ⟨desc, name, type, default, dirs, l, rfl, -⟩ :=
      Node.eq_inputValueDefinition_of_typed hm hk
    exact ⟨fun _ => rfl, fun _ => rfl⟩
  | _ => exact Iff.rfl

/-- A directive definition of a typed document can be read if and only if it is complete. -/
theorem directiveOf?_isSome_iff {doc : Node} (hdoc : doc.Typed) {c : Child Node}
    (hc : c ∈ placesOf .directiveDefinition doc) : (directiveOf? c).isSome ↔ complete c = true := by
  cases c with
  | node n =>
    obtain ⟨hchild, hk⟩ := mem_children_of_mem_placesOf hc
    have hn := hdoc.child hchild
    obtain ⟨desc, name, args, repeatable, locs, l, rfl, hargs⟩ :=
      Node.eq_directiveDefinition_of_typed hn.typed hk
    have hitem : ∀ a ∈ args, ((argumentOf? a).isSome ↔ a.toOption.isSome) := by
      refine fun a ha => argumentOf?_isSome_iff fun m hm => ⟨?_, hargs a ha m hm⟩
      have hchild : m ∈ (Node.directiveDefinition desc name args repeatable locs l).children :=
        Node.mem_children_mk.mpr ⟨.many args, by simp, List.mem_filterMap.mpr ⟨a, ha, hm⟩⟩
      exact (hn.child hchild).typed
    have hall : (directiveOf? (.node (.directiveDefinition desc name args repeatable locs l))).isSome
        ↔ (args.mapM argumentOf?).isSome := by
      cases h : args.mapM argumentOf? <;> simp [directiveOf?, h]
    rw [hall, isSome_mapM_iff, complete, List.all_eq_true]
    exact forall₂_congr hitem
  | _ => exact Iff.rfl

/-- **The table of directives** can be made if and only if no directive definition is missing or
lacks an argument. -/
theorem directiveTable?_isSome_iff (s : Option Schema) {doc : Node} (hdoc : doc.Typed) :
    (directiveTable? s doc).isSome ↔ ∀ c ∈ placesOf .directiveDefinition doc, complete c = true := by
  have hall : (directiveTable? s doc).isSome ↔
      ((placesOf .directiveDefinition doc).mapM directiveOf?).isSome := by
    cases h : (placesOf .directiveDefinition doc).mapM directiveOf? <;> simp [directiveTable?, h]
  rw [hall, isSome_mapM_iff]
  exact forall₂_congr fun c hc => directiveOf?_isSome_iff hdoc hc

/-- The directive of a name, looked up before a walk, is the one that the walk knows. -/
theorem directive_fst (s : Option Schema) (doc : Node) (name : String) :
    (Context.directive { schema := s, document := doc } name).1 = lookupIn s doc name :=
  congrArg Prod.fst (directive_eq (Context.coherent_alone s doc [] []) name)

/-! ### Fragments -/

/-- **The table of fragments** can be made if and only if no fragment definition is missing. -/
theorem fragmentTable?_isSome_iff (doc : Node) :
    (fragmentTable? doc).isSome ↔ ∀ c ∈ placesOf .fragmentDefinition doc, c.toOption.isSome := by
  have hall : (fragmentTable? doc).isSome ↔
      ((placesOf .fragmentDefinition doc).mapM Child.toOption).isSome := by
    cases h : (placesOf .fragmentDefinition doc).mapM Child.toOption <;> simp [fragmentTable?, h]
  rw [hall, isSome_mapM_iff]

theorem mapM_eq_filterMap {α β : Type} {f : α → Option β} : ∀ {as : List α},
    (∀ a ∈ as, (f a).isSome) → as.mapM f = some (as.filterMap f)
  | [], _ => rfl
  | a :: as, h => by
    rw [List.forall_mem_cons] at h
    obtain ⟨b, hb⟩ := Option.isSome_iff_exists.mp h.1
    rw [List.mapM_cons, hb, mapM_eq_filterMap h.2, List.filterMap_cons, hb]
    rfl

/-- The definitions in the places for those of one kind. -/
theorem filterMap_placesOf (k : Kind) (doc : Node) :
    (placesOf k doc).filterMap Child.toOption = doc.definitionsOf k := by
  rw [placesOf, Node.definitionsOf, List.filterMap_filter, List.filter_filterMap]
  refine List.filterMap_congr fun c _ => ?_
  cases c with
  | node n => cases h : n.kind == k <;> simp [Child.toOption, Option.filter, h]
  | _ => simp [Child.toOption]

theorem mem_children_of_mem_definitionsOf {doc n : Node} {k : Kind}
    (h : n ∈ doc.definitionsOf k) : n ∈ doc.children ∧ n.kind = k := by
  rw [← filterMap_placesOf, List.mem_filterMap] at h
  obtain ⟨c, hc, hn⟩ := h
  cases c with
  | node m =>
    obtain rfl := Option.some.inj hn
    exact mem_children_of_mem_placesOf hc
  | _ => cases hn

/-! ### Documents that lack no item of a list -/

theorem exists_node_of_gapless {doc : Node} (h : doc.Gapless) {k : Kind} {c : Child Node}
    (hc : c ∈ placesOf k doc) : ∃ n, c = .node n := by
  obtain ⟨hmem, -⟩ := List.mem_filter.mp hc
  unfold Node.definitions at hmem
  split at hmem
  · exact h.exists_item (List.mem_singleton_self _) hmem
  · cases hmem

/-- The directive definitions of a document whose lists lack no item are complete. -/
theorem complete_of_gapless {doc : Node} (hdoc : doc.Typed) (h : doc.Gapless) :
    ∀ c ∈ placesOf .directiveDefinition doc, complete c = true := by
  intro c hc
  obtain ⟨n, rfl⟩ := exists_node_of_gapless h hc
  obtain ⟨hchild, hk⟩ := mem_children_of_mem_placesOf hc
  obtain ⟨desc, name, args, repeatable, locs, l, rfl, -⟩ :=
    Node.eq_directiveDefinition_of_typed (hdoc.child hchild).typed hk
  refine List.all_eq_true.mpr fun a ha => ?_
  obtain ⟨m, rfl⟩ := (h.child hchild).exists_item (by simp) ha
  rfl

end QueryCheck.Validation
