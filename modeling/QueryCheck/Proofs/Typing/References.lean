import QueryCheck.Proofs.Syntax.Typed
import QueryCheck.Syntax.Locate
import QueryCheck.Typing.Frame

/-! # Type references told apart from their nodes

A type as written becomes a reference by itself or by way of a node. A node is taken as it stands,
or is resolved against a schema, or is printed. All of these tell of one type.

* `exists_ref_of_typed`, `print_refIn`: a type as a node and as a reference are written in the same
  way, also where parts are missing.
* `refOf_typeRef`: a type as written and its node have the same reference.
* `innermost?`: the name in a type none of whose parts is missing.
* `resolve?_eq`: a type is known to a schema when its name is.
* `Resolvable`: nodes that only state types with an answer; `resolvable_of_typeNamed`,
  `resolvable_of_nonempty`: where all do.
* `references_agree`: all of this together. -/

namespace QueryCheck.Typing

open QueryCheck.Schema
open QueryCheck.Syntax

/-! ### References in print -/

theorem print_listType (c : Child Node) (l : Option Location) :
    (Node.listType c l).print = "[" ++ (c.map Node.print).printed ++ "]" := Node.print_mk ..

theorem print_nonNullType (c : Child Node) (l : Option Location) :
    (Node.nonNullType c l).print = (c.map Node.print).printed ++ "!" := Node.print_mk ..

/-- A reference that stands for a type node: both are written alike, and neither or both exclude
null. -/
structure StandsFor (r : TypeRef) (n : Node) : Prop where
  ref : refOf n = some r
  print : r.print = n.print
  nonNull : r.isNonNull = (n.kind == .nonNullType)

/-- **A type in a typed node** has a reference that stands for it. -/
theorem exists_ref_of_typed (n : Node) : n.Typed → n.kind ∈ Family.typeRef.kinds →
    ∃ r, StandsFor r n := by
  induction n using Node.induct with
  | step n ih =>
    intro hn hk
    have hinner : ∀ m ∈ n.children, m.kind ∈ Family.typeRef.kinds → ∃ r, StandsFor r m :=
      fun m hm => ih m hm (hn.child hm)
    obtain ⟨c, l, ⟨rfl, hc⟩ | ⟨rfl | rfl, hc⟩⟩ := Node.eq_type_of_typed hn.typed hk
    · refine ⟨.named c.nameText, rfl, ?_, rfl⟩
      rw [Node.print_mk]
      cases c with
      | node m =>
        have hm : m.Typed := hn.child (by simp [Node.children_eq, Node.slots])
        obtain ⟨s, l', rfl⟩ := Node.eq_name_of_typed hm.typed (hc m rfl)
        rfl
      | _ => rfl
    · cases c with
      | node m =>
        obtain ⟨r, hr⟩ := hinner m (by simp [Node.children_eq, Node.slots]) (hc m rfl)
        refine ⟨.list (some r), ?_, ?_, rfl⟩
        · rw [refOf, hr.ref]
        · rw [print_listType, TypeRef.print, hr.print]
          rfl
      | _ => exact ⟨.list none, rfl, rfl, rfl⟩
    · cases c with
      | node m =>
        obtain ⟨r, hr⟩ := hinner m (by simp [Node.children_eq, Node.slots]) (hc m rfl)
        refine ⟨.nonNull (some r), ?_, ?_, rfl⟩
        · rw [refOf, hr.ref]
        · rw [print_nonNullType, TypeRef.print, hr.print]
          rfl
      | _ => exact ⟨.nonNull none, rfl, rfl, rfl⟩

/-- **A place for a type** is printed like the reference in it; an empty one has neither text. -/
theorem print_refIn {c : Child Node}
    (hc : ∀ n, c = .node n → n.Typed ∧ n.kind ∈ Family.typeRef.kinds) :
    ((refIn c).map TypeRef.print).getD "" = (c.map Node.print).printed := by
  cases c with
  | absent => rfl
  | null k => rfl
  | node n =>
    obtain ⟨hn, hk⟩ := hc n rfl
    obtain ⟨r, hr⟩ := exists_ref_of_typed n hn hk
    have href : refIn (.node n) = some r := hr.ref
    rw [href]
    exact hr.print

/-! ### Types as written -/

section Written

variable (e : Excerpt)

theorem refOf_typeRef : ∀ t : Written.TypeRef, refOf (e.typeRef t) = some (.ofWritten t)
  | .named n nonNull s => by cases nonNull <;> rfl
  | .list elem nonNull s => by
    have helem := refOf_typeRef elem
    cases nonNull <;> simp [Excerpt.typeRef, refOf, TypeRef.ofWritten, helem]

/-- A reference and the node of a type as written are printed alike. -/
theorem print_ofWritten : ∀ t : Written.TypeRef,
    (TypeRef.ofWritten t).print = (e.typeRef t).print
  | .named n nonNull s => by cases nonNull <;> rfl
  | .list elem nonNull s => by
    have helem := print_ofWritten elem
    have hlist : (TypeRef.list (some (.ofWritten elem))).print =
        (Node.listType (.node (e.typeRef elem)) (e.ofSpan s)).print := by
      rw [TypeRef.print, helem, print_listType]
      rfl
    cases nonNull with
    | false => exact hlist
    | true =>
      show (TypeRef.nonNull (some (.list (some (.ofWritten elem))))).print =
        (Node.nonNullType (.node (.listType (.node (e.typeRef elem)) (e.ofSpan s))) (e.ofSpan s)).print
      rw [TypeRef.print, hlist, print_nonNullType]
      rfl

/-- A type that may be left out has the same reference by way of its node. -/
theorem refIn_typeRef (t : Option Written.TypeRef) :
    refIn (.ofOption (t.map e.typeRef)) = t.map .ofWritten := by
  cases t with
  | none => rfl
  | some t => exact refOf_typeRef e t

end Written

/-! ### Names of types -/

/-- The innermost name of a type, unless some part of the type is missing. -/
def innermost? : Node → Option String
  | .namedType (.node (.name s _)) _ => some s
  | .listType (.node t) _ => innermost? t
  | .nonNullType (.node t) _ => innermost? t
  | _ => none

section Innermost

variable {n : Node} {name : String}

theorem exists_ref_of_innermost? (h : innermost? n = some name) :
    ∃ r, refOf n = some r ∧ r.namedType = name := by
  fun_induction innermost? n with
  | case1 s l' l =>
    cases h
    exact ⟨.named name, rfl, rfl⟩
  | case2 t l ih =>
    obtain ⟨r, hr, hname⟩ := ih h
    exact ⟨.list (some r), by rw [refOf, hr], hname⟩
  | case3 t l ih =>
    obtain ⟨r, hr, hname⟩ := ih h
    exact ⟨.nonNull (some r), by rw [refOf, hr], hname⟩
  | case4 => cases h

theorem namedOf_refOf (h : innermost? n = some name) : namedOf (refOf n) = name := by
  obtain ⟨r, hr, hname⟩ := exists_ref_of_innermost? h
  rw [hr]
  exact hname

/-- **A type without missing parts** is always resolved: to itself if its innermost name is
known. -/
theorem resolve?_eq (s : Option Schema) (h : innermost? n = some name) :
    resolve? s n = some (if (Schema.typeOf? s name).isSome then refOf n else none) := by
  fun_induction innermost? n with
  | case1 v l' l =>
    cases h
    cases hv : Schema.typeOf? s name <;> simp [resolve?, Child.nameText, Child.isName, refOf, hv]
  | case2 t l ih =>
    obtain ⟨r, hr, -⟩ := exists_ref_of_innermost? h
    rw [resolve?, refOf, ih h, hr]
    split_ifs <;> rfl
  | case3 t l ih =>
    obtain ⟨r, hr, -⟩ := exists_ref_of_innermost? h
    rw [resolve?, refOf, ih h, hr]
    split_ifs <;> rfl
  | case4 => cases h

end Innermost

/-! ### Types that are resolved -/

theorem isName_of_nameText_ne {c : Child Node} (h : c.nameText ≠ "") : c.isName = true := by
  unfold Child.nameText at h
  split at h
  · rfl
  · exact absurd rfl h

/-- A type is always resolved when its names are there. -/
theorem isSome_resolve?_of_typeNamed {s : Option Schema} {n : Node}
    (h : n.All fun m => m.typeNamed = true) : (resolve? s n).isSome = true := by
  fun_induction resolve? s n with
  | case1 => rfl
  | case2 => rfl
  | case3 name l hknown hname => exact absurd (Node.all_iff.mp h).1 hname
  | case4 t l ih =>
    rw [Option.isSome_map]
    exact ih ((Node.all_iff.mp h).2 t (by simp [Node.children_eq, Node.slots]))
  | case5 t l ih =>
    rw [Option.isSome_map]
    exact ih ((Node.all_iff.mp h).2 t (by simp [Node.children_eq, Node.slots]))
  | case6 => rfl

/-- Without a schema there is always an answer, which is that the type is not known. -/
theorem resolve?_none (n : Node) : resolve? none n = some none := by
  fun_induction resolve? none n with
  | case1 => rfl
  | case2 name l h => exact absurd rfl h
  | case3 name l h => exact absurd rfl h
  | case4 t l ih =>
    rw [ih]
    rfl
  | case5 t l ih =>
    rw [ih]
    rfl
  | case6 => rfl

theorem resolve_none (n : Node) : resolve none n = none := by
  rw [resolve, resolve?_none]
  rfl

/-- Nodes that only state types with answers when they are resolved. -/
def Resolvable (s : Option Schema) (n : Node) : Prop := n.All fun m => resolvable s m = true

theorem mem_children_of_statedType {n t : Node} (h : t ∈ (statedType n).toOption) :
    t ∈ n.children := by
  rw [Option.mem_def] at h
  unfold statedType at h
  split at h
  · simp [Slot.children, h]
  · simp [Slot.children, h]
  · simp [Slot.children, h]
  · cases h

theorem resolvable_of_typeNamed (s : Option Schema) {n : Node}
    (h : n.All fun m => m.typeNamed = true) : Resolvable s n := by
  refine fun m hm => (Option.all_eq_true _ _).mpr fun t ht => ?_
  exact isSome_resolve?_of_typeNamed ((Node.all_iff.mp (h.below m hm)).2 t
    (mem_children_of_statedType ht))

section Nonempty

variable {s : Option Schema} (hs : ∀ sch ∈ s, "" ∉ sch.typeNames)

include hs

theorem typeOf?_empty : Schema.typeOf? s "" = none := by
  cases s with
  | none => rfl
  | some sch =>
    refine List.find?_eq_none.mpr fun t ht he => hs sch rfl ?_
    exact List.mem_map.mpr ⟨t, ht, eq_of_beq he⟩

/-- A reference to a named type is resolved when no type of the schema has the empty name. -/
theorem resolve?_namedType (name : Child Node) (l : Option Location) :
    resolve? s (.namedType name l) =
      some (if (Schema.typeOf? s name.nameText).isSome then some (.named name.nameText)
        else none) := by
  cases h : Schema.typeOf? s name.nameText with
  | none => simp [resolve?, h]
  | some t =>
    have hne : name.nameText ≠ "" := by
      intro hempty
      rw [hempty, typeOf?_empty hs] at h
      cases h
    simp [resolve?, h, isName_of_nameText_ne hne]

theorem resolve_namedType (name : Child Node) (l : Option Location) :
    resolve s (.namedType name l) =
      if (Schema.typeOf? s name.nameText).isSome then some (.named name.nameText) else none := by
  rw [resolve, resolve?_namedType hs]
  rfl

/-- A type is always resolved when no type of the schema has the empty name. -/
theorem isSome_resolve?_of_nonempty (n : Node) : (resolve? s n).isSome = true := by
  induction n using Node.induct with
  | step n ih =>
    unfold resolve?
    split
    · next name l =>
      have h := resolve?_namedType hs name l
      unfold resolve? at h
      rw [h]
      rfl
    · next t l =>
      rw [Option.isSome_map]
      exact ih t (by simp [Node.children_eq, Node.slots])
    · next t l =>
      rw [Option.isSome_map]
      exact ih t (by simp [Node.children_eq, Node.slots])
    · rfl

theorem resolvable_of_nonempty (n : Node) : Resolvable s n := fun _ _ =>
  (Option.all_eq_true _ _).mpr fun t _ => isSome_resolve?_of_nonempty hs t

end Nonempty

/-! ### Agreement -/

/-- **All readings of a type agree.** A type as written has one reference, made from it or from its
node, and is printed like its node. A place for a type, be it empty or filled in parts, is printed
like its reference. A type that lacks no part is always resolved: it is known to a schema if its
innermost name is, is then the same reference, and has that name. -/
theorem references_agree (s : Option Schema) (e : Excerpt) :
    (∀ t : Option Written.TypeRef,
      refIn (.ofOption (t.map e.typeRef)) = t.map .ofWritten ∧
      ((t.map TypeRef.ofWritten).map TypeRef.print).getD "" =
        ((Child.ofOption (t.map e.typeRef)).map Node.print).printed) ∧
    (∀ c : Child Node, (∀ n, c = .node n → n.Typed ∧ n.kind ∈ Family.typeRef.kinds) →
      ((refIn c).map TypeRef.print).getD "" = (c.map Node.print).printed) ∧
    ∀ n name, innermost? n = some name →
      resolve? s n = some (if (Schema.typeOf? s name).isSome then refOf n else none) ∧
        namedOf (refOf n) = name := by
  refine ⟨fun t => ⟨refIn_typeRef e t, ?_⟩, fun c hc => print_refIn hc,
    fun n name h => ⟨resolve?_eq s h, namedOf_refOf h⟩⟩
  cases t with
  | none => rfl
  | some t => exact print_ofWritten e t

/-- A schema that knows integers, a type all of whose parts are given, and one that lacks its
name. -/
theorem references_agree_nested :
    let n : Node := .nonNullType (.node (.listType (.node (.nonNullType
      (.node (.namedType (.node (.name "Int" none)) none)) none)) none)) none
    let gap : Node := .listType (.node (.nonNullType .absent none)) none
    let s : Schema := { types := [{ name := "Int", kind := .scalar }] }
    innermost? n = some "Int" ∧ resolve? (some s) n = some (refOf n) ∧
      namedOf (refOf n) = "Int" ∧ resolve? none n = some none ∧
      ((refIn (.node n)).map TypeRef.print).getD "" = n.print ∧
      gap.Typed ∧ ((refIn (.node gap)).map TypeRef.print).getD "" = "[!]" := by
  intro n gap s
  let e : Excerpt := ⟨[], .document⟩
  have hn : n.Typed ∧ n.kind ∈ Family.typeRef.kinds := by decide
  have hgap : gap.Typed ∧ gap.kind ∈ Family.typeRef.kinds := by decide
  obtain ⟨-, hprint, hname⟩ := references_agree (some s) e
  refine ⟨rfl, (hname n "Int" rfl).1, (hname n "Int" rfl).2,
    ((references_agree none e).2.2 n "Int" rfl).1, ?_, hgap.1, ?_⟩
  · exact hprint (.node n) fun m hm => by cases hm; exact hn
  · exact hprint (.node gap) fun m hm => by cases hm; exact hgap

end QueryCheck.Typing
