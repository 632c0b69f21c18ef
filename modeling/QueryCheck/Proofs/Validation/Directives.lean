import QueryCheck.Proofs.Typing.References
import QueryCheck.Proofs.Validation.Tables

/-! # Tables of directives

The directives a document defines are read twice: once into the table of known directives, and once
into the table of required arguments, which is made from the nodes and not from the first table. The
second reading says nothing that the first does not, unless the place for the type of an argument
was filled with no type.

* `requiredInDocument?_eq`, `requiredTable?_eq`: the required arguments are those of the known
  directives.
* `findDirective_append`, `findDirective_isSome_iff`: the last directive of a name. -/

namespace QueryCheck.Validation

open QueryCheck.Schema
open QueryCheck.Syntax
open QueryCheck.Typing

/-! ### Looking directives up -/

section Find

variable {table : List Directive} {name : String} {d : Directive}

theorem findDirective_append (table table' : List Directive) (name : String) :
    findDirective (table ++ table') name =
      (findDirective table' name).or (findDirective table name) := by
  rw [findDirective, List.reverse_append, List.find?_append]
  rfl

theorem name_of_findDirective (h : findDirective table name = some d) : d.name = name := by
  have hbeq := List.find?_some h
  exact eq_of_beq hbeq

/-- A name is found if and only if some directive has it. -/
theorem findDirective_isSome_iff :
    (findDirective table name).isSome ↔ name ∈ table.map Directive.name := by
  rw [findDirective, List.find?_isSome, List.mem_map]
  simp only [List.mem_reverse, beq_iff_eq]

theorem findDirective_eq_none (h : ∀ d ∈ table, d.name ≠ name) :
    findDirective table name = none := by
  refine List.find?_eq_none.mpr fun d hd => ?_
  rw [beq_iff_eq]
  exact h d (List.mem_reverse.mp hd)

/-- The required arguments of a name are those of the directive found under it. -/
theorem lookup_requiredOf (table : List Directive) (name : String) :
    (table.map Rule.requiredOf).reverse.lookup name =
      (findDirective table name).map fun d => (Rule.requiredOf d).2 := by
  rw [← List.map_reverse]
  exact lookup_map_key Directive.name (fun d => (Rule.requiredOf d).2) name table.reverse

end Find

/-! ### Required arguments -/

theorem mapM_eq_map_mapM {α β γ : Type} {f : α → Option γ} {g : α → Option β} {h : β → γ} :
    ∀ {as : List α}, (∀ a ∈ as, f a = (g a).map h) → as.mapM f = (as.mapM g).map (List.map h)
  | [], _ => rfl
  | a :: as, hf => by
    rw [List.forall_mem_cons] at hf
    rw [List.mapM_cons, List.mapM_cons, hf.1, mapM_eq_map_mapM hf.2]
    cases g a with
    | none => rfl
    | some b => cases as.mapM g <;> rfl

/-- An argument as the table of required arguments has it, if it is required. -/
def requiredEntry (v : InputValue) : Option (String × String) :=
  if v.isRequired then some (v.name, (v.type.map TypeRef.print).getD "") else none

theorem filterMap_requiredEntry (vs : List InputValue) : vs.filterMap requiredEntry =
    (vs.filter InputValue.isRequired).map fun v =>
      (v.name, (v.type.map TypeRef.print).getD "") := by
  induction vs with
  | nil => rfl
  | cons v vs ih =>
    rw [List.filterMap_cons, List.filter_cons, ih, requiredEntry]
    split_ifs <;> rfl

/-- An argument is required in both readings or in neither. -/
theorem requiredArgument?_eq {n : Node} (hn : n.Typed) (hk : n.kind = .inputValueDefinition)
    (hgiven : n.typeGiven = true) :
    Rule.requiredArgument? (.node n) = (argumentOf? (.node n)).map requiredEntry := by
  obtain ⟨desc, name, type, default, dirs, l, rfl, htype⟩ :=
    Node.eq_inputValueDefinition_of_typed hn.typed hk
  cases type with
  | absent => rfl
  | null k => cases hgiven
  | node t =>
    have ht : t.Typed := hn.child (Node.mem_children_mk.mpr ⟨.one (.node t), by simp, by simp⟩)
    obtain ⟨r, hr⟩ := exists_ref_of_typed t ht (htype t rfl)
    have href : refIn (.node t) = some r := hr.ref
    rw [Rule.requiredArgument?, argumentOf?, Option.map_some, requiredEntry, InputValue.isRequired,
      href]
    simp only [Rule.isNonNullPlace, ← hr.nonNull, Child.toOption, Option.map_some, Option.getD_some,
      hr.print]
    cases default.isFilled <;> cases r.isNonNull <;> rfl

/-- **The required arguments of a directive that a node defines** are those of the directive as it
is known. -/
theorem requiredInDocument?_eq {n : Node} (hn : n.Typed) (hk : n.kind = .directiveDefinition)
    (hgiven : n.All fun m => m.typeGiven = true) :
    Rule.requiredInDocument? (.node n) = (directiveOf? (.node n)).map Rule.requiredOf := by
  obtain ⟨desc, name, args, repeatable, locs, l, rfl, hargs⟩ :=
    Node.eq_directiveDefinition_of_typed hn.typed hk
  have hargs' : args.mapM Rule.requiredArgument? =
      (args.mapM argumentOf?).map (List.map requiredEntry) := by
    refine mapM_eq_map_mapM fun a ha => ?_
    cases a with
    | node m =>
      have hchild : m ∈ (Node.directiveDefinition desc name args repeatable locs l).children :=
        Node.mem_children_mk.mpr ⟨.many args, by simp, List.mem_filterMap.mpr ⟨_, ha, rfl⟩⟩
      exact requiredArgument?_eq (hn.child hchild) (hargs _ ha m rfl)
        (hgiven m (Node.mem_labels_of_child hchild m m.mem_labels_self))
    | _ => rfl
  rw [Rule.requiredInDocument?, directiveOf?, hargs']
  cases args.mapM argumentOf? with
  | none => rfl
  | some vs =>
    have hfilter := filterMap_requiredEntry vs
    simp [Rule.requiredOf, List.filterMap_map, hfilter]

/-- **The table of required arguments** is made from the table of known directives, if no type of an
argument was left out. -/
theorem requiredTable?_eq {c : Context}
    (h : ∀ n, .node n ∈ placesOf .directiveDefinition c.document → n.kind = .directiveDefinition ∧
      n.Typed ∧ n.All fun m => m.typeGiven = true) :
    Rule.requiredTable? c =
      (directiveTable? c.schema c.document).map (List.map Rule.requiredOf) := by
  have hown : (placesOf .directiveDefinition c.document).mapM Rule.requiredInDocument? =
      ((placesOf .directiveDefinition c.document).mapM directiveOf?).map
        (List.map Rule.requiredOf) := by
    refine mapM_eq_map_mapM fun x hx => ?_
    cases x with
    | node n =>
      obtain ⟨hk, hn, hgiven⟩ := h n hx
      exact requiredInDocument?_eq hn hk hgiven
    | _ => rfl
  rw [Rule.requiredTable?, directiveTable?, hown]
  cases (placesOf .directiveDefinition c.document).mapM directiveOf? with
  | none => rfl
  | some own => simp

/-- The required arguments a document is checked against. -/
def requiredsOf (s : Option Schema) (doc : Node) : List (String × Rule.Required) :=
  (Rule.requiredTable? (Context.alone s doc [] [])).getD []

/-- The tables of a document agree if no type of an argument was left out. -/
theorem requiredTable?_alone (s : Option Schema) {doc : Node} (hdoc : doc.Typed)
    (hgiven : doc.All fun n => n.typeGiven = true) :
    Rule.requiredTable? (Context.alone s doc [] []) =
      (directiveTable? s doc).map (List.map Rule.requiredOf) := by
  refine requiredTable?_eq fun n hx => ?_
  obtain ⟨hchild, hk⟩ := mem_children_of_mem_placesOf hx
  exact ⟨hk, hdoc.child hchild, (Node.all_iff.mp hgiven).2 n hchild⟩

/-- The required arguments of a document are those of its directives. -/
theorem requiredsOf_eq (s : Option Schema) {doc : Node} (hdoc : doc.Typed)
    (hgiven : doc.All fun n => n.typeGiven = true) :
    requiredsOf s doc = (directivesOf s doc).map Rule.requiredOf := by
  rw [requiredsOf, requiredTable?_alone s hdoc hgiven, directivesOf]
  cases directiveTable? s doc <;> rfl

end QueryCheck.Validation
