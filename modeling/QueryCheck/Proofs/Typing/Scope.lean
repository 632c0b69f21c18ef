import QueryCheck.Proofs.Syntax.Typed
import QueryCheck.Proofs.Typing.Along
import QueryCheck.Proofs.Typing.References
import QueryCheck.Proofs.Walk.Spots

/-! # Scopes

The type whose fields a selection may name is told by the nodes the selection stands in: the root
type of the operation, the type of a field, the condition of a fragment, or the type around a
fragment that has no condition. A walk keeps it in its frames, through the references and names of
types; both come to the same.

* `scopeOf`: the type that the nodes of a path select from.
* `fieldOf_eq`: the fields that may be selected on a type.
* `scoped_of_lineage`: the frames of a walk hold the scopes of their paths.
* `frameAt_field`: what the frame of a field knows. -/

namespace QueryCheck.Typing

open QueryCheck.Schema
open QueryCheck.Syntax
open QueryCheck.Syntax.Node (Lineage)

/-! ### Scopes of paths -/

/-- The composite type with the given name. -/
def compositeOf (s : Option Schema) (name : String) : Option NamedType :=
  (Schema.typeOf? s name).filter NamedType.isComposite

/-- The fields that may be selected on a type: the one that gives the name of the type, on the root
type of queries those that give the schema, and the declared ones. -/
def selectable (s : Option Schema) (t : NamedType) : List Field :=
  let root := if s.bind Schema.query = some t.name then [schemaField, typeField] else []
  typenameField :: root ++ t.fields

/-- The field of a type that a selection names. -/
def selected? (s : Option Schema) (t : NamedType) (name : String) : Option Field :=
  (selectable s t).find? fun f => f.name == name

/-- The composite type that the nodes of a path select from, innermost node first. -/
def scopeOf (s : Option Schema) : List Node → Option NamedType
  | [] => none
  | n :: above =>
    match n with
    | .operationDefinition op _ _ _ _ _ =>
      (s.bind (·.rootType? (if op = "" then "query" else op))).filter NamedType.isComposite
    | .fragmentDefinition _ _ (.node cond) _ _ _ => compositeOf s (typeNameOf cond)
    | .inlineFragment (.node cond) _ _ _ => compositeOf s (typeNameOf cond)
    | .inlineFragment _ _ _ _ => scopeOf s above
    | .selectionSet _ _ => scopeOf s above
    | .field _ name _ _ _ _ => do
      let t ← scopeOf s above
      let f ← selected? s t name.nameText
      compositeOf s (namedOf f.type)
    | _ => none

/-! ### Names of types -/

section Names

variable {s : Option Schema}

theorem name_of_type? {sch : Schema} {name : String} {t : NamedType}
    (h : sch.type? name = some t) : t.name = name := by
  simpa using List.find?_some h

/-- A root type is found under its own name. -/
theorem type?_name_of_rootType? {sch : Schema} {keyword : String} {t : NamedType}
    (h : sch.rootType? keyword = some t) : sch.type? t.name = some t := by
  obtain ⟨name, hname⟩ : ∃ name, sch.type? name = some t := by
    unfold Schema.rootType? at h
    obtain ⟨operation, -, h⟩ := Option.bind_eq_some_iff.mp h
    cases operation
    all_goals
      obtain ⟨name, -, h⟩ := Option.bind_eq_some_iff.mp h
      exact ⟨name, h⟩
  rwa [name_of_type? hname]

/-- **The field of a type that a selection names** is one of those that may be selected. -/
theorem fieldOf_eq (s : Option Schema) {t : NamedType} (ht : t.name ≠ "") (name : String) :
    fieldOf s (some t) name = selected? s t name := by
  have hroot : ((s.bind Schema.query).getD "" == t.name && s.isSome) =
      decide (s.bind Schema.query = some t.name) := by
    cases s with
    | none => simp
    | some sch => cases h : sch.query <;> simp [h, ht.symm, Bool.beq_eq_decide_eq]
  have hfield : fieldOf s (some t) name =
      if name == typenameField.name then some typenameField
      else if decide (s.bind Schema.query = some t.name) && name == schemaField.name then
        some schemaField
      else if decide (s.bind Schema.query = some t.name) && name == typeField.name then
        some typeField
      else t.field? name := by
    rw [← hroot]
    rfl
  rw [hfield, selected?, selectable]
  by_cases h : s.bind Schema.query = some t.name
  · simp only [h, decide_true, Bool.true_and, if_true, List.cons_append, List.nil_append,
      List.find?_cons, Bool.beq_comm, NamedType.field?]
    cases name == typenameField.name <;> cases name == schemaField.name <;>
      cases name == typeField.name <;> rfl
  · simp only [h, decide_false, Bool.false_and, if_false, List.cons_append, List.nil_append,
      List.find?_cons, Bool.beq_comm, NamedType.field?]
    cases name == typenameField.name <;> rfl

variable (hs : ∀ sch ∈ s, "" ∉ sch.typeNames)

include hs

theorem compositeOf_empty : compositeOf s "" = none := by
  rw [compositeOf, typeOf?_empty hs, Option.filter_none]

/-- The type that the reference to a root type names is the root type. -/
theorem compositeOf_rootRef (op : String) :
    compositeOf s (namedOf (rootRef s op)) =
      (s.bind (·.rootType? (if op = "" then "query" else op))).filter NamedType.isComposite := by
  cases s with
  | none => exact compositeOf_empty hs
  | some sch =>
    rw [Option.bind_some, rootRef]
    cases h : sch.rootType? (if op = "" then "query" else op) with
    | none => simpa [h, namedOf] using compositeOf_empty hs
    | some t =>
      have htype : Schema.typeOf? (some sch) t.name = some t := type?_name_of_rootType? h
      simp [h, compositeOf, namedOf, TypeRef.namedType, htype]

/-- The type that a resolved condition names is the type of its name. -/
theorem compositeOf_resolve (name : Child Node) (l : Option Location) :
    compositeOf s (namedOf (resolve s (.namedType name l))) = compositeOf s name.nameText := by
  rw [resolve_namedType hs]
  cases h : Schema.typeOf? s name.nameText with
  | none => simp [namedOf, compositeOf, h, typeOf?_empty hs]
  | some t => simp [namedOf, TypeRef.namedType]

/-- The field that a selection on a composite type names. -/
theorem fieldOf_compositeOf (type name : String) :
    fieldOf s (compositeOf s type) name =
      (compositeOf s type).bind fun t => selected? s t name := by
  cases h : compositeOf s type with
  | none => rfl
  | some t =>
    refine fieldOf_eq s (fun hempty => ?_) name
    obtain ⟨sch, rfl, htype⟩ := Option.bind_eq_some_iff.mp (Option.filter_eq_some_iff.mp h).1
    exact hs sch rfl (hempty ▸ List.mem_map_of_mem (List.mem_of_find?_eq_some htype))

end Names

/-! ### Frames that know their scopes -/

section Frames

variable (s : Option Schema) (lookup : String → Option Directive)

/-- The frame of a path knows the scope of the path, and no directive is around it. -/
structure Scoped (path : List Node) : Prop where
  type : compositeOf s (namedOf (frameAt s lookup path).type) = scopeOf s path
  outside : (frameAt s lookup path).inDirective = false

/-- The kinds of nodes that selections stand in. -/
def enclosing : List Kind :=
  [.document, .operationDefinition, .fragmentDefinition, .selectionSet, .field, .inlineFragment]

/-- Fields stand in selection sets. -/
theorem owner_field {k : Kind} (h : k ∈ Kind.field.owners) : k = .selectionSet := by
  have howners : Kind.field.owners = [.selectionSet] := by decide
  rw [howners] at h
  exact List.mem_singleton.mp h

/-- Arguments stand in fields and directives. -/
theorem owner_argument {k : Kind} (h : k ∈ Kind.argument.owners) : k = .field ∨ k = .directive := by
  have howners : Kind.argument.owners = [.field, .directive] := by decide
  rw [howners] at h
  exact List.mem_pair.mp h

theorem mem_enclosing_of_mem_owners : ∀ k ∈ enclosing, ∀ k' ∈ k.owners, k' ∈ enclosing := by
  decide

variable {s lookup} (hs : ∀ sch ∈ s, "" ∉ sch.typeNames)

namespace Scoped

variable {above : List Node}

theorem selectionSet (h : Scoped s lookup above) (sels : List (Child Node)) (l : Option Location) :
    Scoped s lookup (.selectionSet sels l :: above) := ⟨h.type, h.outside⟩

/-- A fragment without a condition keeps the name of the enclosing type. -/
theorem unconditioned (h : Scoped s lookup above) {cond : Child Node} (hcond : cond.toOption = none)
    (dirs : List (Child Node)) (sel : Child Node) (l : Option Location) :
    Scoped s lookup (.inlineFragment cond dirs sel l :: above) := by
  have hscope : scopeOf s (.inlineFragment cond dirs sel l :: above) = scopeOf s above := by
    cases cond with
    | node m => cases hcond
    | _ => rfl
  have hframe : frameAt s lookup (.inlineFragment cond dirs sel l :: above) =
      if namedOf (frameAt s lookup above).type = "" then frameAt s lookup above
      else { frameAt s lookup above with
        type := some (.named (namedOf (frameAt s lookup above).type)) } := by
    cases cond with
    | node m => cases hcond
    | _ => rfl
  constructor
  · rw [hframe, hscope, ← h.type]
    split_ifs <;> rfl
  · rw [hframe]
    split_ifs <;> exact h.outside

include hs

theorem document (ds : List (Child Node)) (l : Option Location) :
    Scoped s lookup [.document ds l] := ⟨compositeOf_empty hs, rfl⟩

theorem operationDefinition (h : Scoped s lookup above) (op : String) (name : Child Node)
    (vars dirs : List (Child Node)) (sel : Child Node) (l : Option Location) :
    Scoped s lookup (.operationDefinition op name vars dirs sel l :: above) :=
  ⟨compositeOf_rootRef hs op, h.outside⟩

/-- The frame of a field knows the field that is selected. -/
theorem field_field {sels : List (Child Node)} {l' : Option Location}
    (h : Scoped s lookup (.selectionSet sels l' :: above)) (key name : Child Node)
    (args dirs : List (Child Node)) (sel : Child Node) (l : Option Location) :
    (frameAt s lookup (.field key name args dirs sel l :: .selectionSet sels l' :: above)).field =
      (scopeOf s (.selectionSet sels l' :: above)).bind fun t => selected? s t name.nameText := by
  rw [← h.type]
  exact fieldOf_compositeOf hs _ _

theorem field {sels : List (Child Node)} {l' : Option Location}
    (h : Scoped s lookup (.selectionSet sels l' :: above)) (key name : Child Node)
    (args dirs : List (Child Node)) (sel : Child Node) (l : Option Location) :
    Scoped s lookup (.field key name args dirs sel l :: .selectionSet sels l' :: above) := by
  refine ⟨?_, h.outside⟩
  have htype : (frameAt s lookup
      (.field key name args dirs sel l :: .selectionSet sels l' :: above)).type =
        ((scopeOf s (.selectionSet sels l' :: above)).bind
          fun t => selected? s t name.nameText).bind Field.type := by
    rw [← field_field hs h key name args dirs sel l]
    rfl
  have hscope : scopeOf s (.field key name args dirs sel l :: .selectionSet sels l' :: above) =
      (scopeOf s (.selectionSet sels l' :: above)).bind fun t =>
        (selected? s t name.nameText).bind fun f => compositeOf s (namedOf f.type) := rfl
  rw [htype, hscope]
  cases scopeOf s (.selectionSet sels l' :: above) with
  | none => exact compositeOf_empty hs
  | some t =>
    rw [Option.bind_some, Option.bind_some]
    cases selected? s t name.nameText with
    | none => exact compositeOf_empty hs
    | some f => rfl

theorem inlineFragment (h : Scoped s lookup above) {cond : Child Node}
    {dirs : List (Child Node)} {sel : Child Node} {l : Option Location}
    (hn : (Node.inlineFragment cond dirs sel l).Typed) :
    Scoped s lookup (.inlineFragment cond dirs sel l :: above) := by
  cases cond with
  | node m =>
    obtain ⟨-, name, l', rfl⟩ := exists_namedType_of_typeCondition? hn rfl
    exact ⟨compositeOf_resolve hs name l', h.outside⟩
  | _ => exact h.unconditioned rfl dirs sel l

theorem fragmentDefinition (h : Scoped s lookup above) {name : Child Node}
    {vars : List (Child Node)} {cond : Child Node} {dirs : List (Child Node)} {sel : Child Node}
    {l : Option Location} (hn : (Node.fragmentDefinition name vars cond dirs sel l).Typed) :
    Scoped s lookup (.fragmentDefinition name vars cond dirs sel l :: above) := by
  cases cond with
  | node m =>
    obtain ⟨-, name, l', rfl⟩ := exists_namedType_of_typeCondition? hn rfl
    exact ⟨compositeOf_resolve hs name l', h.outside⟩
  | _ => exact ⟨compositeOf_empty hs, h.outside⟩

end Scoped

include hs

/-- **The frames of a walk hold the scopes of their paths.** -/
theorem scoped_of_lineage {doc : Node} (hdoc : doc.Typed) (hkind : doc.kind = .document)
    {n : Node} {above : List Node} (hpath : Lineage doc (n :: above)) (hn : n.kind ∈ enclosing) :
    Scoped s lookup (n :: above) := by
  generalize hp : n :: above = path at hpath
  induction hpath generalizing n above with
  | root =>
    obtain ⟨rfl, rfl⟩ := List.cons.inj hp
    obtain ⟨ds, l, rfl, -⟩ := Node.eq_document_of_typed hdoc.typed hkind
    exact .document hs ds l
  | @child m owner above' owned rest ih =>
    obtain ⟨rfl, rfl⟩ := List.cons.inj hp
    have htyped : ∀ m ∈ n :: owner :: above', m.Typed := Lineage.all hdoc (.child owned rest)
    rw [List.forall_mem_cons, List.forall_mem_cons] at htyped
    obtain ⟨hnode, hparent, -⟩ := htyped
    have howner : owner.kind ∈ n.kind.owners := Node.kind_mem_owners hparent.typed owned
    have hscoped := ih (mem_enclosing_of_mem_owners _ hn _ howner) rfl
    have hkinds : n.kind = .document ∨ n.kind = .operationDefinition ∨
        n.kind = .fragmentDefinition ∨ n.kind = .selectionSet ∨ n.kind = .field ∨
          n.kind = .inlineFragment := by simpa [enclosing] using hn
    rcases hkinds with hk | hk | hk | hk | hk | hk
    · have howners : Kind.document.owners = [] := by decide
      rw [hk, howners] at howner
      cases howner
    · obtain ⟨op, name, vars, dirs, sel, l, rfl⟩ :=
        Node.eq_operationDefinition_of_typed hnode.typed hk
      exact hscoped.operationDefinition hs op name vars dirs sel l
    · obtain ⟨name, vars, cond, dirs, sel, l, rfl, -⟩ :=
        Node.eq_fragmentDefinition_of_typed hnode.typed hk
      exact hscoped.fragmentDefinition hs hnode
    · obtain ⟨sels, l, rfl⟩ := Node.eq_selectionSet_of_typed hnode.typed hk
      exact hscoped.selectionSet sels l
    · obtain ⟨key, name, args, dirs, sel, l, rfl⟩ := Node.eq_field_of_typed hnode.typed hk
      obtain ⟨sels, l', rfl⟩ := Node.eq_selectionSet_of_typed hparent.typed (owner_field howner)
      exact hscoped.field hs key name args dirs sel l
    · obtain ⟨cond, dirs, sel, l, rfl, -⟩ := Node.eq_inlineFragment_of_typed hnode.typed hk
      exact hscoped.inlineFragment hs hnode

variable (lookup)

/-- **What the frame of a field knows**: the type that the field is selected on, the field of this
type that it names, and that no directive is around it. -/
theorem frameAt_field {doc : Node} (hdoc : doc.Typed) (hkind : doc.kind = .document)
    {key name : Child Node} {args dirs : List (Child Node)} {sel : Child Node}
    {l : Option Location} {above : List Node}
    (hpath : Lineage doc (.field key name args dirs sel l :: above)) :
    let f := frameAt s lookup (.field key name args dirs sel l :: above)
    f.parent = scopeOf s above ∧
      f.field = ((scopeOf s above).bind fun t => selected? s t name.nameText) ∧
        f.inDirective = false := by
  cases hpath with
  | root => cases hkind
  | @child _ owner above owned rest =>
    have howner : owner.Typed := Lineage.all hdoc rest owner List.mem_cons_self
    have hsel := owner_field (Node.kind_mem_owners howner.typed owned)
    have hscoped : Scoped s lookup (owner :: above) :=
      scoped_of_lineage hs hdoc hkind rest (hsel ▸ by decide)
    obtain ⟨sels, l', rfl⟩ := Node.eq_selectionSet_of_typed howner.typed hsel
    exact ⟨hscoped.type, hscoped.field_field hs key name args dirs sel l, hscoped.outside⟩

end Frames

end QueryCheck.Typing
