import QueryCheck.Proofs.Data.MessagePack
import QueryCheck.Proofs.Syntax.Equality
import QueryCheck.Report.Format

/-! # Packed trees

The structured form of a node repeats no key at any depth, as no kind declares a field twice or
calls one `kind` or `loc`. So its MessagePack bytes are read back as the same form, keys in the same
order, and tell it from the form of any other node.

* `Node.Small`: texts, lists and offsets below the node are in the range of the format.
* `forall_within_structuredParts`: the values within the structured form of a node.
* `Child.decode_encode`: packed forms are read back. -/

namespace QueryCheck.Syntax

open QueryCheck.Data (Value)
open QueryCheck.Data.MessagePack (decode inSigned)
open QueryCheck.Report (encode)

/-! ### Nodes of moderate size -/

/-- Whether the offsets, line and column of a location have 64 bits. -/
def Location.small (l : Location) : Bool :=
  inSigned l.start && inSigned l.stop && inSigned l.line && inSigned l.column

/-- Whether the length of a text or list has 32 bits. -/
def Slot.small : Slot Node → Bool
  | .text s => s.utf8ByteSize < 0x100000000
  | .many cs => cs.length < 0x100000000
  | _ => true

/-- A node below which no text or list is longer than 32 bits can tell, and no offset than 64. -/
def Node.Small (n : Node) : Prop :=
  n.All fun m => m.slots.all Slot.small = true ∧ m.loc.all Location.small = true

/-- A place that holds such a node, if it holds one. -/
def Child.Small (c : Child Node) : Prop := ∀ n ∈ c.toOption, n.Small

instance (n : Node) : Decidable n.Small := inferInstanceAs (Decidable (∀ m ∈ n.rose.labels, _))

instance (c : Child Node) : Decidable c.Small :=
  inferInstanceAs (Decidable (∀ n ∈ c.toOption, n.Small))

theorem Node.Small.cloneDeep {n : Node} (h : n.Small) : n.cloneDeep.Small := by
  intro m hm
  rw [labels_cloneDeep, List.mem_map] at hm
  obtain ⟨⟨k, ss, l⟩, hm, rfl⟩ := hm
  have hslot : ∀ s : Slot Node, (s.map Node.cloneDeep).small = s.small := by
    intro s
    cases s <;> simp [Slot.map, Slot.small]
  have hslots : ss.all Slot.small = true := (h _ hm).1
  rw [cloneDeep_mk]
  refine ⟨?_, rfl⟩
  rw [slots, List.all_map]
  simpa [Function.comp_def, hslot] using hslots

/-! ### Keys -/

/-- The keys that a node of some kind may have in its structured form. -/
def Kind.keys (k : Kind) : List String := "kind" :: k.declared.map Prod.fst ++ ["loc"]

theorem nodup_keys (k : Kind) : k.keys.Nodup := by
  cases k <;> decide

theorem keys_entry_sublist (key : String) (shape : Shape) (s : Slot Value) :
    ((structuredEntry (key, shape) s).map Prod.fst).Sublist [key] := by
  cases s with
  | text t => simp
  | flag b =>
    rw [structuredEntry_flag]
    split_ifs <;> simp
  | one c => cases c <;> simp [Child.toOption]
  | many cs => cases cs <;> simp

theorem keys_entries_sublist : ∀ (ds : List (String × Shape)) (ss : List (Slot Value)),
    ((List.zipWith structuredEntry ds ss).flatten.map Prod.fst).Sublist (ds.map Prod.fst)
  | [], _ => List.nil_sublist _
  | _ :: _, [] => List.nil_sublist _
  | (key, shape) :: ds, s :: ss => by
    rw [List.zipWith_cons_cons, List.flatten_cons, List.map_append, List.map_cons,
      ← List.singleton_append]
    exact (keys_entry_sublist key shape s).append (keys_entries_sublist ds ss)

/-- **The keys of a node** are among those of its kind, in their order. -/
theorem keys_structuredParts (k : Kind) (ss : List (Slot Value)) (l : Option Location) :
    (structuredParts k ss l).keys.Sublist k.keys := by
  have hloc : ((l.toList.map fun loc => ("loc", loc.structured)).map Prod.fst).Sublist ["loc"] := by
    cases l <;> simp
  rw [structuredParts_eq, Value.keys, Value.entries, Kind.keys, List.cons_append, List.map_cons,
    List.map_append]
  exact ((keys_entries_sublist k.declared ss).append hloc).cons_cons "kind"

theorem hasHeader_structuredParts (k : Kind) (ss : List (Slot Value)) (l : Option Location) :
    (structuredParts k ss l).hasHeader = true := by
  have hkind : k.keys.length < 0x100000000 ∧ ∀ key ∈ k.keys, key.utf8ByteSize < 0x100000000 := by
    cases k <;> decide
  have hkeys := keys_structuredParts k ss l
  have hlength := hkeys.length_le
  rw [structuredParts_eq, Value.keys, Value.entries] at hkeys hlength
  rw [List.length_map] at hlength
  rw [structuredParts_eq, Value.hasHeader, Bool.and_eq_true, decide_eq_true_eq, List.all_eq_true]
  refine ⟨by omega, fun e he => decide_eq_true ?_⟩
  exact hkind.2 e.1 (hkeys.subset (List.mem_map_of_mem he))

theorem hasHeader_location {l : Location} (h : l.small = true) :
    ∀ w ∈ l.structured.within, w.hasHeader = true := by
  have hsize : ∀ key ∈ ["start", "end", "line", "column"], key.utf8ByteSize < 0x100000000 := by
    decide
  simp only [Location.small, Bool.and_eq_true] at h
  simp only [List.forall_mem_cons, List.not_mem_nil, false_implies, implies_true, and_true] at hsize
  simp [Location.structured, Value.within, Value.withinEntries, Value.hasHeader, h, hsize]

/-! ### The values within a structured form -/

/-- What holds of the values that a slot brings into the structured form of its node. -/
def Slot.Brings (P : Value → Prop) : Slot Value → Prop
  | .text s => P (.str s)
  | .flag b => P (.bool b)
  | .one c => ∀ v ∈ c.toOption, ∀ w ∈ v.within, P w
  | .many cs => P (.list (cs.map Child.structuredItem)) ∧
      ∀ c ∈ cs, ∀ w ∈ c.structuredItem.within, P w

theorem brings_entry {P : Value → Prop} {key : String} {shape : Shape} {s : Slot Value}
    (h : s.Brings P) : ∀ e ∈ structuredEntry (key, shape) s, ∀ w ∈ e.2.within, P w := by
  cases s with
  | text t =>
    simp only [structuredEntry_text, List.forall_mem_singleton, Value.within]
    exact h
  | flag b =>
    rw [structuredEntry_flag]
    split_ifs
    · simp
    · simp only [List.forall_mem_singleton, Value.within]
      exact h
  | one c =>
    cases c with
    | node v =>
      simp only [structuredEntry_one, Child.toOption, Option.toList_some, List.map_cons,
        List.map_nil, List.forall_mem_singleton]
      exact h v rfl
    | _ => simp [Child.toOption]
  | many cs =>
    cases cs with
    | nil => simp
    | cons c cs =>
      simp only [structuredEntry_many_cons, List.forall_mem_singleton]
      exact Value.forall_within_iff.mpr ⟨h.1, List.forall_mem_map.mpr h.2⟩

theorem brings_entries {P : Value → Prop} : ∀ {ds : List (String × Shape)} {ss : List (Slot Value)},
    (∀ s ∈ ss, s.Brings P) → ∀ e ∈ (List.zipWith structuredEntry ds ss).flatten,
    ∀ w ∈ e.2.within, P w
  | [], _, _, e, he => by simp at he
  | _ :: _, [], _, e, he => by simp at he
  | (key, shape) :: ds, s :: ss, h, e, he => by
    rw [List.forall_mem_cons] at h
    rw [List.zipWith_cons_cons, List.flatten_cons, List.mem_append] at he
    exact he.elim (brings_entry h.1 e) (brings_entries h.2 e)

/-- **The values within the structured form of a node**: the form itself, the name of the kind, what
the slots bring, and the location. -/
theorem forall_within_structuredParts {P : Value → Prop} {k : Kind} {ss : List (Slot Value)}
    {l : Option Location} (hself : P (structuredParts k ss l)) (hkind : P (.str k.toName))
    (hslots : ∀ s ∈ ss, s.Brings P) (hloc : ∀ loc ∈ l, ∀ w ∈ loc.structured.within, P w) :
    ∀ w ∈ (structuredParts k ss l).within, P w := by
  refine Value.forall_within_iff.mpr ⟨hself, ?_⟩
  rw [structuredParts_eq, Value.parts, List.forall_mem_map, List.cons_append, List.forall_mem_cons,
    List.forall_mem_append, List.forall_mem_map]
  refine ⟨by simpa [Value.within] using hkind, brings_entries hslots, fun loc hl => ?_⟩
  exact hloc loc (Option.mem_toList.mp hl)

/-- What holds of the slots of a node in structured form, from its texts, lists and children. -/
theorem brings_map {P : Value → Prop} {s : Slot Node} (htext : ∀ t, s = .text t → P (.str t))
    (hflag : ∀ b, P (.bool b))
    (hlist : ∀ cs, s = .many cs → ∀ vs : List Value, vs.length = cs.length → P (.list vs))
    (hempty : P (.map [])) (hchildren : ∀ m ∈ s.children, ∀ w ∈ m.structured.within, P w) :
    (s.map Node.structured).Brings P := by
  cases s with
  | text t => exact htext t rfl
  | flag b => exact hflag b
  | one c =>
    cases c with
    | node n =>
      rintro v hv
      obtain rfl : n.structured = v := Option.some.inj hv
      exact hchildren n (List.mem_singleton_self n)
    | _ => exact nofun
  | many cs =>
    refine ⟨hlist cs rfl _ (by simp), List.forall_mem_map.mpr fun c hc => ?_⟩
    cases c with
    | node n => exact hchildren n (List.mem_filterMap.mpr ⟨_, hc, rfl⟩)
    | _ => exact List.forall_mem_singleton.mpr hempty

namespace Node

/-- **No key is repeated** in the structured form of a node. -/
theorem distinct_structured (n : Node) : n.structured.Distinct := by
  induction n using induct with
  | step n ih =>
    obtain ⟨k, ss, l⟩ := n
    rw [structured_mk]
    refine forall_within_structuredParts ((nodup_keys k).sublist (keys_structuredParts k _ l))
      List.nodup_nil (List.forall_mem_map.mpr fun s hs => ?_) fun loc _ => ?_
    · exact brings_map (fun _ _ => List.nodup_nil) (fun _ => List.nodup_nil)
        (fun _ _ _ _ => List.nodup_nil) List.nodup_nil
        fun m hm => ih m (mem_children_mk.mpr ⟨s, hs, hm⟩)
    · simp [Location.structured, Value.within, Value.withinEntries, Value.keys, Value.entries]

/-- The structured form of a small node is in the range of the format. -/
theorem Small.inRange {n : Node} : n.Small → n.structured.InRange := by
  induction n using induct with
  | step n ih =>
    intro h
    obtain ⟨k, ss, l⟩ := n
    obtain ⟨⟨hslots, hloc⟩, hchildren⟩ := all_iff.mp h
    rw [structured_mk]
    refine forall_within_structuredParts ?_ ?_ (List.forall_mem_map.mpr fun s hs => ?_)
      fun loc hl => ?_
    · exact hasHeader_structuredParts k _ l
    · cases k <;> decide
    · have hs' := List.all_eq_true.mp hslots s hs
      refine brings_map (fun t ht => ?_) (fun _ => rfl) (fun cs hcs vs hvs => ?_) rfl fun m hm => ?_
      · subst ht
        exact hs'
      · subst hcs
        rw [Value.hasHeader, hvs]
        exact hs'
      · have hm' : m ∈ (mk k ss l).children := mem_children_mk.mpr ⟨s, hs, hm⟩
        exact ih m hm' (hchildren m hm')
    · obtain rfl : l = some loc := hl
      exact hasHeader_location hloc

end Node

/-! ### Packed forms -/

namespace Child

/-- The structured form of the node in a place, with or without its locations. -/
def form (c : Child Node) (locations : Bool) : Value := if locations then c.structured else c.shape

/-- The form without locations is the form of the clone. -/
theorem exists_form (c : Child Node) (locations : Bool) :
    ∃ c' : Child Node, c.form locations = c'.structured ∧ (c.Small → c'.Small) := by
  cases locations with
  | true => exact ⟨c, rfl, id⟩
  | false =>
    refine ⟨c.map Node.cloneDeep, ?_, fun h n hn => ?_⟩
    · cases c with
      | node n => exact n.structured_cloneDeep.symm
      | _ => rfl
    · cases c with
      | node m =>
        obtain rfl : m.cloneDeep = n := Option.some.inj hn
        exact (h m rfl).cloneDeep
      | _ => cases hn

theorem distinct_form (c : Child Node) (locations : Bool) : (c.form locations).Distinct := by
  obtain ⟨c', hform, -⟩ := c.exists_form locations
  have hempty : (Value.map []).Distinct := by decide
  rw [hform]
  cases c' with
  | node n => exact n.distinct_structured
  | _ => exact hempty

theorem Small.inRange_form {c : Child Node} (h : c.Small) (locations : Bool) :
    (c.form locations).InRange := by
  obtain ⟨c', hform, hsmall⟩ := c.exists_form locations
  have hempty : (Value.map []).InRange := by decide
  rw [hform]
  cases c' with
  | node n => exact (hsmall h n rfl).inRange
  | _ => exact hempty

/-- **Packed trees are read back.** The structured form of any node, with or without its locations,
repeats no key at any depth; its bytes in front of any others are read as the form, and the others
are left; and nodes whose bytes are the same have the same form. -/
theorem decode_encode (c : Child Node) (locations : Bool) :
    (c.form locations).Distinct ∧
    (c.Small → ∃ bytes, encode "msgpack" (c.form locations) = .ok (.bytes bytes) ∧
      ∀ rest, decode (bytes ++ rest) = some (c.form locations, rest)) ∧
    ∀ (c' : Child Node) (locations' : Bool), c.Small → c'.Small →
      encode "msgpack" (c.form locations) = encode "msgpack" (c'.form locations') →
      c.form locations = c'.form locations' := by
  have hsound : ∀ (c : Child Node) (locations : Bool), c.Small →
      (c.form locations).Distinct ∧ (c.form locations).InRange := fun c locations h =>
    ⟨c.distinct_form locations, h.inRange_form locations⟩
  refine ⟨c.distinct_form locations, fun h => ⟨_, rfl, fun rest => ?_⟩,
    fun c' locations' h h' hencode => ?_⟩
  · obtain ⟨hdistinct, hrange⟩ := hsound c locations h
    exact Value.decode_toMessagePack hdistinct hrange rest
  · have hbytes : (c.form locations).toMessagePack = (c'.form locations').toMessagePack := by
      injection hencode with houtput
      injection houtput
    exact (Value.toMessagePack_append_inj (hsound c locations h) (hsound c' locations' h')
      (congrArg (· ++ []) hbytes)).1

/-- The packed form of a spread that was read from a text is read back in front of other bytes. -/
theorem decode_encode_spread :
    let located : Option Location := some ⟨2, 6, 1, 3, .document⟩
    let c : Child Node := .node (.fragmentSpread (.node (.name "F" located)) [.null .directive] located)
    c.Small ∧ ∃ bytes, encode "msgpack" (c.form true) = .ok (.bytes bytes) ∧
      decode (bytes ++ [0xc0]) = some (c.form true, [0xc0]) := by
  intro located c
  have hsmall : c.Small := by decide
  obtain ⟨bytes, hencode, hdecode⟩ := (decode_encode c true).2.1 hsmall
  exact ⟨hsmall, bytes, hencode, hdecode [0xc0]⟩

end Child

end QueryCheck.Syntax
