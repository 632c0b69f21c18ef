import Mathlib.Data.List.Nodup
import QueryCheck.Proofs.Syntax.Equality
import QueryCheck.Syntax.Build

/-! # Values for fields

What may be given for a field of a node, and what is said of a value that may not. A field takes
values of its declared type. Two more are taken on purpose: a text for the keyword of an operation,
and for a list a list of nodes of any kind, if every item is one that is wanted. A list declared to
be of another sort is not taken, whatever its items are.

* `Kind.Accepts`: what may be given for a field of a kind.
* `Kind.Refuses`: what is said of a value that may not.
* `Build.setField_declared`, `Build.setField_refused`: setting a field goes by these two. -/

namespace QueryCheck.Syntax

open Build

/-! ### Values that fields take -/

namespace FieldValue

/-- The kind of the node that a value is, or is said to be. -/
def kind? : FieldValue → Option Kind
  | .node n => some n.kind
  | .null k => some k
  | _ => none

/-- Whether a value may be given for a location. -/
def isLocation : FieldValue → Bool
  | .nothing | .location _ | .noLocation => true
  | _ => false

/-- The location that a value gives. -/
def location? : FieldValue → Option Location
  | .location l => some l
  | _ => none

/-- The nodes in a value. -/
def nodesIn : FieldValue → List Node
  | .node n => [n]
  | .nodes cs | .plainList _ cs | .nodeList _ cs => cs.filterMap Child.toOption
  | _ => []

end FieldValue

namespace Shape

/-- Whether a value is of the type that a field of the given shape declares. -/
def declares : Shape → FieldValue → Bool
  | .text, .text _ => true
  | .operation, .operation _ => true
  | .flag, .flag _ => true
  | .mark, .flag _ => true
  | .one w, .node n => w.admits n.kind
  | .one w, .null k => w.admits k
  | .many w, .nodeList w' _ => w = w'
  | _, _ => false

/-- Whether a field of the given shape takes a value: nothing, a value of the declared type, a text
for the keyword of an operation, a list of what is wanted, or a list of nodes all of which are
wanted. -/
def accepts : Shape → FieldValue → Bool
  | _, .nothing => true
  | .operation, .text _ => true
  | .many w, .plainList w' _ => w = w'
  | .many w, .nodes cs => cs.all (fitsItem w)
  | shape, v => shape.declares v

/-- The slot in which a value stands that was given for a field of the given shape. -/
def holding : Shape → FieldValue → Slot Node
  | _, .text s => .text s
  | _, .operation s => .text s
  | _, .flag b => .flag b
  | _, .node n => .one (.node n)
  | .one w, .null k => .one (nullPlace w k)
  | _, .nodes cs => .many cs
  | _, .plainList _ cs => .many cs
  | _, .nodeList _ cs => .many cs
  | shape, _ => emptySlot shape

theorem accepts_nothing (shape : Shape) : shape.accepts .nothing = true := by
  cases shape <;> rfl

theorem holding_nothing (shape : Shape) : shape.holding .nothing = emptySlot shape := by
  cases shape <;> rfl

end Shape

namespace Kind

/-- What may be given for a field of a node of kind `k`. A non-null type takes no type that is, or
is said to be, non-null itself. -/
def Accepts (k : Kind) (field : String) (v : FieldValue) : Prop :=
  if field = "loc" then v.isLocation = true
  else (∃ d ∈ k.declared, d.1 = field ∧ d.2.accepts v = true) ∧
    ¬(k = .nonNullType ∧ v.kind? = some .nonNullType)

instance (k : Kind) (field : String) (v : FieldValue) : Decidable (k.Accepts field v) :=
  inferInstanceAs (Decidable (if field = "loc" then _ else _))

/-- **What is said of a value** that may not be given for a field of a node of kind `k`. -/
inductive Refuses (k : Kind) : String → FieldValue → BuildError → Prop
  | location {v : FieldValue} (hv : v.isLocation = false) :
    Refuses k "loc" v ⟨k, "loc", none, .location, v.sort⟩
  | undeclared {field : String} {v : FieldValue} (hloc : field ≠ "loc")
      (hfield : field ∉ k.declared.map Prod.fst) :
    Refuses k field v ⟨k, field, none, .declaredField, v.sort⟩
  | nested {field : String} {v : FieldValue} (hk : k = .nonNullType)
      (hfield : field ∈ k.declared.map Prod.fst) (hv : v.kind? = some .nonNullType) :
    Refuses k field v ⟨k, field, none, .bareType, v.sort⟩
  /-- Of a list of nodes the first item that is not wanted is told. -/
  | item {field : String} {w : Wanted} {cs : List (Child Node)} {i : Nat} {c : Child Node}
      (hfield : (field, .many w) ∈ k.declared) (hi : cs[i]? = some c) (hc : fitsItem w c = false)
      (hfirst : ∀ j < i, ∀ d, cs[j]? = some d → fitsItem w d = true) :
    Refuses k field (.nodes cs) ⟨k, field, some i, .one w, c.sort⟩
  | whole {field : String} {shape : Shape} {v : FieldValue} (hfield : (field, shape) ∈ k.declared)
      (hbare : ¬(k = .nonNullType ∧ v.kind? = some .nonNullType)) (hv : shape.accepts v = false)
      (hitems : ∀ w cs, shape = .many w → v ≠ .nodes cs) :
    Refuses k field v ⟨k, field, none, takes shape, v.sort⟩

end Kind

namespace Build

/-! ### Slots -/

theorem ofKind_iff {k : Kind} {v : FieldValue} : ofKind k v = true ↔ v.kind? = some k := by
  cases v <;> simp [ofKind, FieldValue.sort, FieldValue.kind?]

theorem locationOf_ok {k : Kind} {v : FieldValue} (hv : v.isLocation = true) :
    locationOf k v = .ok v.location? := by
  cases v <;> first | rfl | cases hv

theorem locationOf_error {k : Kind} {v : FieldValue} (hv : v.isLocation = false) :
    locationOf k v = .error ⟨k, "loc", none, .location, v.sort⟩ := by
  cases v <;> first | rfl | cases hv

/-- The first misfit of a list is the first item that is not wanted. -/
theorem of_firstMisfit {w : Wanted} {cs : List (Child Node)} {i : Nat} {c : Child Node}
    (h : firstMisfit w cs = some (i, c)) : cs[i]? = some c ∧ fitsItem w c = false ∧
      ∀ j < i, ∀ d, cs[j]? = some d → fitsItem w d = true := by
  obtain ⟨⟨c', i'⟩, hfind, heq⟩ := Option.map_eq_some_iff.mp h
  obtain ⟨rfl, rfl⟩ := Prod.mk.inj heq
  obtain ⟨hmisfit, n, hn, hget, hbefore⟩ := List.find?_eq_some_iff_getElem.mp hfind
  rw [List.getElem_zipIdx, Nat.zero_add] at hget
  obtain ⟨rfl, rfl⟩ := Prod.mk.inj hget
  rw [List.length_zipIdx] at hn
  refine ⟨List.getElem?_eq_getElem hn, by simpa using hmisfit, fun j hj d hd => ?_⟩
  have hfits := hbefore j hj
  rw [List.getElem_zipIdx] at hfits
  rw [List.getElem?_eq_getElem (by omega)] at hd
  rw [← Option.some.inj hd]
  simpa using hfits

theorem firstMisfit_eq_none_iff {w : Wanted} {cs : List (Child Node)} :
    firstMisfit w cs = none ↔ cs.all (fitsItem w) = true := by
  rw [firstMisfit, Option.map_eq_none_iff, List.find?_eq_none, List.all_eq_true]
  constructor
  · intro h c hc
    obtain ⟨i, hi, rfl⟩ := List.getElem_of_mem hc
    have hmem : (cs[i], i) ∈ cs.zipIdx := List.mem_zipIdx_iff_getElem?.mpr (by simp [hi])
    simpa using h _ hmem
  · intro h ⟨c, i⟩ hmem
    have hc : c ∈ cs := List.mem_of_getElem? (List.mem_zipIdx_iff_getElem?.mp hmem)
    simpa using h c hc

/-- The first item that is not wanted is told as the first misfit. -/
theorem firstMisfit_of_first {w : Wanted} {cs : List (Child Node)} {i : Nat} {c : Child Node}
    (hi : cs[i]? = some c) (hc : fitsItem w c = false)
    (hfirst : ∀ j < i, ∀ d, cs[j]? = some d → fitsItem w d = true) :
    firstMisfit w cs = some (i, c) := by
  cases h : firstMisfit w cs with
  | none =>
    have hall := List.all_eq_true.mp (firstMisfit_eq_none_iff.mp h) c (List.mem_of_getElem? hi)
    rw [hc] at hall
    cases hall
  | some found =>
    obtain ⟨j, d⟩ := found
    obtain ⟨hj, hd, hfirst'⟩ := of_firstMisfit h
    have hij : i = j := by
      rcases Nat.lt_trichotomy i j with hlt | heq | hlt
      · rw [hfirst' i hlt c hi] at hc
        cases hc
      · exact heq
      · rw [hfirst j hlt d hj] at hd
        cases hd
    subst hij
    rw [Option.some.inj (hi.symm.trans hj)]

/-- A value that is taken stands in the slot. -/
theorem slotOf_ok {k : Kind} {field : String} {shape : Shape} {v : FieldValue}
    (hv : shape.accepts v = true) :
    slotOf k field shape (emptySlot shape) v = .ok (shape.holding v) := by
  cases shape with
  | one w =>
    cases v with
    | node n => exact if_pos hv
    | null k' => exact if_pos hv
    | nothing => rfl
    | _ => cases hv
  | many w =>
    cases v with
    | nodes cs =>
      have hnone := firstMisfit_eq_none_iff.mpr hv
      simp only [slotOf, hnone]
      rfl
    | plainList w' cs => exact if_pos (of_decide_eq_true hv)
    | nodeList w' cs => exact if_pos (of_decide_eq_true hv)
    | nothing => rfl
    | _ => cases hv
  | _ => cases v <;> first | rfl | cases hv

/-- Of a value that is not taken the field is told, unless it is a list of nodes. -/
theorem slotOf_whole {k : Kind} {field : String} {shape : Shape} {old : Slot Node} {v : FieldValue}
    (hv : shape.accepts v = false) (hitems : ∀ w cs, shape = .many w → v ≠ .nodes cs) :
    slotOf k field shape old v = .error ⟨k, field, none, takes shape, v.sort⟩ := by
  cases shape with
  | one w =>
    cases v with
    | node n => exact if_neg (by simpa using! Bool.eq_false_iff.mp hv)
    | null k' => exact if_neg (by simpa using! Bool.eq_false_iff.mp hv)
    | nothing => cases hv
    | _ => rfl
  | many w =>
    cases v with
    | nodes cs => exact absurd rfl (hitems w cs rfl)
    | plainList w' cs => exact if_neg (of_decide_eq_false hv)
    | nodeList w' cs => exact if_neg (of_decide_eq_false hv)
    | nothing => cases hv
    | _ => rfl
  | _ => cases v <;> first | rfl | cases hv

end Build

/-! ### Fields -/

namespace Kind

theorem refuses_of_items {k : Kind} {field : String} {w : Wanted} {cs : List (Child Node)}
    (hfield : (field, .many w) ∈ k.declared) (hcs : (Shape.many w).accepts (.nodes cs) = false) :
    ∃ e, k.Refuses field (.nodes cs) e := by
  cases h : firstMisfit w cs with
  | none =>
    have hall : (Shape.many w).accepts (.nodes cs) = true := firstMisfit_eq_none_iff.mp h
    rw [hcs] at hall
    cases hall
  | some found =>
    obtain ⟨i, c⟩ := found
    obtain ⟨hi, hc, hfirst⟩ := of_firstMisfit h
    exact ⟨_, .item hfield hi hc hfirst⟩

/-- Something is said of every value that may not be given. -/
theorem exists_refuses {k : Kind} {field : String} {v : FieldValue} (h : ¬k.Accepts field v) :
    ∃ e, k.Refuses field v e := by
  unfold Accepts at h
  by_cases hloc : field = "loc"
  · subst hloc
    rw [if_pos rfl, Bool.not_eq_true] at h
    exact ⟨_, .location h⟩
  rw [if_neg hloc] at h
  by_cases hfield : field ∈ k.declared.map Prod.fst
  · by_cases hbare : k = .nonNullType ∧ v.kind? = some .nonNullType
    · exact ⟨_, .nested hbare.1 hfield hbare.2⟩
    · obtain ⟨⟨field, shape⟩, hd, rfl⟩ := List.mem_map.mp hfield
      have hv : shape.accepts v = false := by
        rw [← Bool.not_eq_true]
        exact fun hv => h ⟨⟨(field, shape), hd, rfl, hv⟩, hbare⟩
      by_cases hitems : ∀ w cs, shape = .many w → v ≠ .nodes cs
      · exact ⟨_, .whole hd hbare hv hitems⟩
      · push Not at hitems
        obtain ⟨w, cs, rfl, rfl⟩ := hitems
        exact refuses_of_items hd hv
  · exact ⟨_, .undeclared hloc hfield⟩

/-- A kind declares a field in one way. -/
theorem shape_unique {k : Kind} {field : String} {shape shape' : Shape}
    (h : (field, shape) ∈ k.declared) (h' : (field, shape') ∈ k.declared) : shape = shape' :=
  congrArg Prod.snd (List.inj_on_of_nodup_map (nodup_keys_declared k) h h' rfl)

/-- The slots of a kind with one of them replaced, the field being told by its name. -/
theorem set_map_declared {k : Kind} {field : String} {shape : Shape} {i : Nat}
    (hi : k.declared[i]? = some (field, shape)) (f : String × Shape → Slot Node) (s : Slot Node) :
    (k.declared.map f).set i s = k.declared.map fun d => if d.1 = field then s else f d := by
  obtain ⟨hlt, hget⟩ := List.getElem?_eq_some_iff.mp hi
  refine List.ext_getElem (by simp) fun j hj hj' => ?_
  rw [List.length_map] at hj'
  rw [List.getElem_set, List.getElem_map, List.getElem_map]
  by_cases hij : i = j
  · subst hij
    rw [if_pos rfl, hget, if_pos rfl]
  · have hne : k.declared[j].1 ≠ field := by
      intro heq
      have hnodup : k.declared.Nodup := List.Nodup.of_map _ (nodup_keys_declared k)
      have hsame : k.declared[j] = k.declared[i] := List.inj_on_of_nodup_map (nodup_keys_declared k)
        (List.getElem_mem hj') (List.getElem_mem hlt) (by rw [heq, hget])
      exact hij (hnodup.getElem_inj_iff.mp hsame).symm
    rw [if_neg hij, if_neg hne]

theorem exists_findIdx? {k : Kind} {field : String} {shape : Shape}
    (h : (field, shape) ∈ k.declared) : ∃ i, k.declared.findIdx? (fun d => d.1 == field) = some i ∧
      k.declared[i]? = some (field, shape) := by
  cases hi : k.declared.findIdx? fun d => d.1 == field with
  | none => simpa using! List.findIdx?_eq_none_iff.mp hi (field, shape) h
  | some i =>
    obtain ⟨hlt, hkey, -⟩ := List.findIdx?_eq_some_iff_getElem.mp hi
    have hmem : k.declared[i] ∈ k.declared := List.getElem_mem hlt
    have heq : k.declared[i] = (field, shape) :=
      List.inj_on_of_nodup_map (nodup_keys_declared k) hmem h (by simpa using hkey)
    exact ⟨i, rfl, by rw [List.getElem?_eq_getElem hlt, heq]⟩

end Kind

namespace Build

theorem setField_loc (n : Node) (v : FieldValue) :
    setField n "loc" v = (locationOf n.kind v).map fun l => .mk n.kind n.slots l := by
  rw [setField, if_pos rfl]
  cases locationOf n.kind v <;> rfl

/-- Setting a declared field sets its slot. -/
theorem setField_declared {n : Node} {field : String} {shape : Shape} {v : FieldValue}
    (hfield : (field, shape) ∈ n.kind.declared)
    (hbare : ¬(n.kind = .nonNullType ∧ v.kind? = some .nonNullType)) :
    ∃ i, n.kind.declared[i]? = some (field, shape) ∧
      setField n field v =
        (slotOf n.kind field shape ((n.slots[i]?).getD (emptySlot shape)) v).map fun s =>
          .mk n.kind (n.slots.set i s) n.loc := by
  obtain ⟨i, hi, hd⟩ := Kind.exists_findIdx? hfield
  refine ⟨i, hd, ?_⟩
  have hbare' : ¬((n.kind = .nonNullType && ofKind .nonNullType v) = true) := by
    simpa only [Bool.and_eq_true, decide_eq_true_eq, ofKind_iff] using hbare
  rw [setField, if_neg (ne_loc_of_mem_declared _ _ hfield)]
  simp only [hi, hd, Option.map_some, Option.getD_some, if_neg hbare']
  cases slotOf n.kind field shape ((n.slots[i]?).getD (emptySlot shape)) v <;> rfl

/-- **What is said of a value that may not be given** is the error of setting the field. -/
theorem setField_refused {n : Node} {field : String} {v : FieldValue} {e : BuildError}
    (h : n.kind.Refuses field v e) : setField n field v = .error e := by
  cases h with
  | location hv =>
    rw [setField_loc, locationOf_error hv]
    rfl
  | undeclared hloc hfield =>
    have hnone : n.kind.declared.findIdx? (fun d => d.1 == field) = none := by
      refine List.findIdx?_eq_none_iff.mpr fun d hd => beq_eq_false_iff_ne.mpr fun heq => ?_
      exact hfield (List.mem_map.mpr ⟨d, hd, heq⟩)
    rw [setField, if_neg hloc]
    simp only [hnone]
  | nested hk hfield hv =>
    obtain ⟨⟨field, shape⟩, hd, rfl⟩ := List.mem_map.mp hfield
    obtain ⟨i, hi, -⟩ := Kind.exists_findIdx? hd
    have hbare : (n.kind = .nonNullType && ofKind .nonNullType v) = true := by
      simpa only [Bool.and_eq_true, decide_eq_true_eq, ofKind_iff] using ⟨hk, hv⟩
    rw [setField, if_neg (ne_loc_of_mem_declared _ _ hd)]
    simp only [hi, if_pos hbare]
  | @item field w cs i c hd hi hc hfirst =>
    have hbare : ¬(n.kind = .nonNullType ∧ (FieldValue.nodes cs).kind? = some .nonNullType) :=
      fun h => nomatch h.2
    obtain ⟨j, -, hset⟩ := setField_declared hd hbare
    rw [hset]
    simp only [slotOf, firstMisfit_of_first hi hc hfirst]
    rfl
  | whole hd hbare hv hitems =>
    obtain ⟨i, -, hset⟩ := setField_declared hd hbare
    rw [hset, slotOf_whole hv hitems]
    rfl

end Build

namespace Kind

/-- One thing is said of a value that may not be given. -/
theorem Refuses.unique {k : Kind} {field : String} {v : FieldValue} {e e' : BuildError}
    (h : k.Refuses field v e) (h' : k.Refuses field v e') : e = e' := by
  have hset := setField_refused (n := Node.empty k) h
  rw [setField_refused (n := Node.empty k) h'] at hset
  exact (Except.error.inj hset).symm

theorem Refuses.not_accepts {k : Kind} {field : String} {v : FieldValue} {e : BuildError}
    (h : k.Refuses field v e) : ¬k.Accepts field v := by
  unfold Accepts
  cases h with
  | location hv => simp [hv]
  | undeclared hloc hfield =>
    rw [if_neg hloc]
    rintro ⟨⟨d, hd, rfl, -⟩, -⟩
    exact hfield (List.mem_map_of_mem hd)
  | nested hk hfield hv =>
    obtain ⟨d, hd, rfl⟩ := List.mem_map.mp hfield
    rw [if_neg (ne_loc_of_mem_declared _ _ hd)]
    exact fun h => h.2 ⟨hk, hv⟩
  | item hd hi hc hfirst =>
    rw [if_neg (ne_loc_of_mem_declared _ _ hd)]
    rintro ⟨⟨⟨field', shape⟩, hd', rfl, hv⟩, -⟩
    obtain rfl := shape_unique hd hd'
    have := List.all_eq_true.mp hv _ (List.mem_of_getElem? hi)
    rw [hc] at this
    cases this
  | whole hd hbare hv hitems =>
    rw [if_neg (ne_loc_of_mem_declared _ _ hd)]
    rintro ⟨⟨⟨field', shape⟩, hd', rfl, hv'⟩, -⟩
    obtain rfl := shape_unique hd hd'
    rw [hv] at hv'
    cases hv'

end Kind

end QueryCheck.Syntax
