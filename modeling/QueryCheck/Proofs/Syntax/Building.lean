import QueryCheck.Proofs.Syntax.Fields

/-! # Building nodes

Fields are set in the order of their names, and each depends on its own value only. So a node is
built when each of its values may be given for its field, it then has these values and nothing else,
and of several values that may not be given the one with the first name is told.

* `Node.ofFields`: the node that has the given values.
* `Node.build_ok_iff`, `Node.build_error_iff`: when a node is built, and what is said when not.
* `Node.fieldValues`: the values in the fields of a node, of which it can be built again.
* `Node.Assembled`: the trees that are built from built nodes alone.
* `Node.buildOf_exact`: all of this for kinds given by number.
* `Node.buildOf_not_literal`: declared types alone do not tell what may be given. -/

namespace QueryCheck.Syntax

open Build

/-! ### Given values -/

/-- The value given for a field. -/
def given (fields : List (String × FieldValue)) (field : String) : FieldValue :=
  (fields.lookup field).getD .nothing

/-- The node of kind `k` that has the given values in its fields, and nothing in the others. -/
def Node.ofFields (k : Kind) (fields : List (String × FieldValue)) : Node :=
  .mk k (k.declared.map fun d => d.2.holding (given fields d.1)) (given fields "loc").location?

theorem given_of_mem {fields : List (String × FieldValue)} {field : String} {v : FieldValue}
    (hkeys : (fields.map Prod.fst).Nodup) (h : (field, v) ∈ fields) : given fields field = v := by
  have hlookup : fields.lookup field = some v := by
    obtain ⟨before, after, rfl⟩ := List.append_of_mem h
    refine List.lookup_eq_some_iff.mpr ⟨before, after, rfl, fun p hp => ?_⟩
    rw [List.map_append, List.nodup_append] at hkeys
    have hne := hkeys.2.2 p.1 (List.mem_map_of_mem hp) field (by simp)
    simpa using hne.symm
  rw [given, hlookup, Option.getD_some]

theorem given_of_notMem {fields : List (String × FieldValue)} {field : String}
    (h : field ∉ fields.map Prod.fst) : given fields field = .nothing := by
  have hlookup : fields.lookup field = none := by
    refine List.lookup_eq_none_iff.mpr fun p hp => ?_
    simpa using fun heq : field = p.1 => h (heq ▸ List.mem_map_of_mem hp)
  rw [given, hlookup, Option.getD_none]

/-- The order in which values are given does not matter. -/
theorem given_perm {fields fields' : List (String × FieldValue)} (h : fields.Perm fields')
    (hkeys : (fields.map Prod.fst).Nodup) (field : String) :
    given fields field = given fields' field := by
  have hkeys' : (fields'.map Prod.fst).Nodup := (h.map Prod.fst).nodup_iff.mp hkeys
  by_cases hmem : field ∈ fields.map Prod.fst
  · obtain ⟨⟨field, v⟩, hv, rfl⟩ := List.mem_map.mp hmem
    rw [given_of_mem hkeys hv, given_of_mem hkeys' (h.subset hv)]
  · rw [given_of_notMem hmem, given_of_notMem fun h' => hmem ((h.map Prod.fst).mem_iff.mpr h')]

theorem given_concat {fields : List (String × FieldValue)} {field : String} {v : FieldValue}
    (hfield : field ∉ fields.map Prod.fst) (key : String) :
    given (fields ++ [(field, v)]) key = if key = field then v else given fields key := by
  by_cases hkey : key = field
  · subst hkey
    have hlookup : fields.lookup key = none := by
      refine List.lookup_eq_none_iff.mpr fun p hp => ?_
      simpa using fun heq : key = p.1 => hfield (heq ▸ List.mem_map_of_mem hp)
    rw [given, List.lookup_append, hlookup, if_pos rfl]
    simp
  · have hne : (key == field) = false := beq_eq_false_iff_ne.mpr hkey
    rw [given, List.lookup_append, if_neg hkey, given]
    simp [List.lookup_cons, hne]

namespace Node

theorem ofFields_perm {k : Kind} {fields fields' : List (String × FieldValue)}
    (h : fields.Perm fields') (hkeys : (fields.map Prod.fst).Nodup) :
    ofFields k fields = ofFields k fields' := by
  simp only [ofFields, given_perm h hkeys]

theorem ofFields_nil (k : Kind) : ofFields k [] = empty k := by
  have hgiven : ∀ field, given [] field = .nothing := fun _ => rfl
  simp only [ofFields, empty, hgiven, Shape.holding_nothing, FieldValue.location?]

end Node

/-! ### Setting one field after another -/

namespace Build

/-- One value more changes the slot of its field. -/
theorem holding_concat {k : Kind} {fields : List (String × FieldValue)} {field : String}
    {shape : Shape} {v : FieldValue} (hfield : field ∉ fields.map Prod.fst)
    (hd : (field, shape) ∈ k.declared) :
    (k.declared.map fun d => d.2.holding (given (fields ++ [(field, v)]) d.1)) =
      k.declared.map fun d => if d.1 = field then shape.holding v
        else d.2.holding (given fields d.1) := by
  refine List.map_congr_left fun d hd' => ?_
  obtain ⟨key, shape'⟩ := d
  rw [given_concat hfield]
  by_cases hkey : key = field
  · subst hkey
    rw [if_pos rfl, if_pos rfl, Kind.shape_unique hd' hd]
  · rw [if_neg hkey, if_neg hkey]

/-- **Setting a field** to a value that may be given adds the value to those the node has. -/
theorem setField_ok {k : Kind} {fields : List (String × FieldValue)} {field : String}
    {v : FieldValue} (hfield : field ∉ fields.map Prod.fst) (hv : k.Accepts field v) :
    setField (.ofFields k fields) field v = .ok (.ofFields k (fields ++ [(field, v)])) := by
  unfold Kind.Accepts at hv
  by_cases hloc : field = "loc"
  · subst hloc
    rw [if_pos rfl] at hv
    have hslots : (k.declared.map fun d => d.2.holding (given (fields ++ [("loc", v)]) d.1)) =
        k.declared.map fun d => d.2.holding (given fields d.1) :=
      List.map_congr_left fun d hd => by
        rw [given_concat hfield, if_neg (ne_loc_of_mem_declared k d hd)]
    rw [setField_loc, locationOf_ok hv, Node.ofFields, Node.ofFields, hslots, given_concat hfield,
      if_pos rfl]
    rfl
  · rw [if_neg hloc] at hv
    obtain ⟨⟨⟨field, shape⟩, hd, rfl, haccepts⟩, hbare⟩ := hv
    obtain ⟨i, hi, hset⟩ := setField_declared (n := Node.ofFields k fields) hd hbare
    replace hi : k.declared[i]? = some (field, shape) := hi
    -- So far nothing is in the slot of the field.
    have hold : ((Node.ofFields k fields).slots[i]?).getD (emptySlot shape) = emptySlot shape := by
      rw [Node.ofFields, Node.slots, List.getElem?_map, hi, Option.map_some, Option.getD_some,
        given_of_notMem hfield, Shape.holding_nothing]
    have hadded : Node.ofFields k (fields ++ [(field, v)]) = .mk k
        ((Node.ofFields k fields).slots.set i (shape.holding v)) (given fields "loc").location? := by
      rw [Node.ofFields, holding_concat hfield hd, ← Kind.set_map_declared hi, given_concat hfield,
        if_neg (Ne.symm hloc)]
      rfl
    rw [hset, hold, slotOf_ok haccepts, hadded]
    rfl

end Build

namespace Node

variable {k : Kind}

/-- **A run of fields** that may all be given: each value is added to those before it. -/
theorem foldlM_accepted : ∀ {rest fields : List (String × FieldValue)},
    ((fields ++ rest).map Prod.fst).Nodup → (∀ f ∈ rest, k.Accepts f.1 f.2) →
    rest.foldlM (fun n f => setField n f.1 f.2) (ofFields k fields) =
      .ok (ofFields k (fields ++ rest))
  | [], fields, _, _ => by
    rw [List.append_nil]
    rfl
  | (key, v) :: rest, fields, hkeys, h => by
    rw [List.forall_mem_cons] at h
    have hkey : key ∉ fields.map Prod.fst := by
      rw [List.map_append, List.nodup_append] at hkeys
      exact fun hmem => hkeys.2.2 key hmem key (by simp) rfl
    rw [← List.singleton_append, ← List.append_assoc] at hkeys ⊢
    rw [List.singleton_append, List.foldlM_cons, setField_ok hkey h.1]
    exact foldlM_accepted hkeys h.2

theorem foldlM_empty {fields : List (String × FieldValue)} (hkeys : (fields.map Prod.fst).Nodup)
    (h : ∀ f ∈ fields, k.Accepts f.1 f.2) :
    fields.foldlM (fun n f => setField n f.1 f.2) (empty k) = .ok (ofFields k fields) := by
  rw [← ofFields_nil]
  exact foldlM_accepted hkeys h

/-- A run of fields ends at the first one that may not be given. -/
theorem foldlM_refused {fields rest : List (String × FieldValue)} {f : String × FieldValue}
    {e : BuildError} (hkeys : (fields.map Prod.fst).Nodup) (h : ∀ g ∈ fields, k.Accepts g.1 g.2)
    (hf : k.Refuses f.1 f.2 e) :
    (fields ++ f :: rest).foldlM (fun n f => setField n f.1 f.2) (empty k) = .error e := by
  have hset : setField (ofFields k fields) f.1 f.2 = .error e := setField_refused hf
  rw [List.foldlM_append, foldlM_empty hkeys h]
  change List.foldlM (fun n (f : String × FieldValue) => setField n f.1 f.2) (ofFields k fields)
    (f :: rest) = .error e
  rw [List.foldlM_cons, hset]
  rfl

/-! ### What is built -/

variable {fields : List (String × FieldValue)}

theorem build_ok (hkeys : (fields.map Prod.fst).Nodup) (h : ∀ f ∈ fields, k.Accepts f.1 f.2) :
    build k fields = .ok (ofFields k fields) := by
  have hperm := List.mergeSort_perm fields fun a b => a.1 ≤ b.1
  have hkeys' := (hperm.map Prod.fst).nodup_iff.mpr hkeys
  rw [build, foldlM_empty hkeys' fun f hf => h f (hperm.subset hf), ofFields_perm hperm hkeys']

/-- Of the values that may not be given, the one with the first name is told. -/
theorem exists_build_error (hkeys : (fields.map Prod.fst).Nodup)
    (h : ¬∀ f ∈ fields, k.Accepts f.1 f.2) :
    ∃ f ∈ fields, ∃ e, k.Refuses f.1 f.2 e ∧ build k fields = .error e ∧
      ∀ g ∈ fields, ¬k.Accepts g.1 g.2 → f.1 ≤ g.1 := by
  have hperm := List.mergeSort_perm fields fun a b => a.1 ≤ b.1
  have hkeys' := (hperm.map Prod.fst).nodup_iff.mpr hkeys
  have htrans : ∀ a b c : String × FieldValue, decide (a.1 ≤ b.1) = true →
      decide (b.1 ≤ c.1) = true → decide (a.1 ≤ c.1) = true := fun a b c hab hbc =>
    decide_eq_true (String.le_trans (of_decide_eq_true hab) (of_decide_eq_true hbc))
  have htotal : ∀ a b : String × FieldValue,
      (decide (a.1 ≤ b.1) || decide (b.1 ≤ a.1)) = true := fun a b => by
    simpa only [Bool.or_eq_true, decide_eq_true_eq] using String.le_total a.1 b.1
  have hsorted := List.pairwise_mergeSort htrans htotal fields
  revert hperm hkeys' hsorted
  rw [build]
  generalize fields.mergeSort (fun a b => a.1 ≤ b.1) = sorted
  intro hperm hkeys' hsorted
  cases hfirst : sorted.find? fun f => !decide (k.Accepts f.1 f.2) with
  | none =>
    refine absurd (fun f hf => ?_) h
    simpa using List.find?_eq_none.mp hfirst f (hperm.symm.subset hf)
  | some f =>
    obtain ⟨hf, front, rest, rfl, hfront⟩ := List.find?_eq_some_iff_append.mp hfirst
    have hfront : ∀ g ∈ front, k.Accepts g.1 g.2 := fun g hg => by simpa using hfront g hg
    obtain ⟨e, he⟩ := Kind.exists_refuses (k := k) (by simpa using hf)
    rw [List.map_append] at hkeys'
    refine ⟨f, hperm.subset (by simp), e, he,
      foldlM_refused (List.nodup_append.mp hkeys').1 hfront he, fun g hg hrefused => ?_⟩
    rcases List.mem_append.mp (hperm.symm.subset hg) with hg | hg
    · exact absurd (hfront g hg) hrefused
    · rcases List.mem_cons.mp hg with rfl | hg
      · exact String.le_refl _
      · have hpair := (List.pairwise_append.mp hsorted).2.1
        exact of_decide_eq_true ((List.pairwise_cons.mp hpair).1 g hg)

/-- **A node is built** when all values may be given, and then it has just these. -/
theorem build_ok_iff (hkeys : (fields.map Prod.fst).Nodup) {n : Node} :
    build k fields = .ok n ↔ (∀ f ∈ fields, k.Accepts f.1 f.2) ∧ n = ofFields k fields := by
  constructor
  · intro hn
    by_cases h : ∀ f ∈ fields, k.Accepts f.1 f.2
    · rw [build_ok hkeys h] at hn
      exact ⟨h, (Except.ok.inj hn).symm⟩
    · obtain ⟨_, _, e, _, he, _⟩ := exists_build_error hkeys h
      rw [he] at hn
      cases hn
  · rintro ⟨h, rfl⟩
    exact build_ok hkeys h

/-- **What is said of a node that is not built**: the value with the first name of those that may
not be given is at fault. -/
theorem build_error_iff (hkeys : (fields.map Prod.fst).Nodup) {e : BuildError} :
    build k fields = .error e ↔ ∃ f ∈ fields, k.Refuses f.1 f.2 e ∧
      ∀ g ∈ fields, ¬k.Accepts g.1 g.2 → f.1 ≤ g.1 := by
  constructor
  · intro he
    by_cases h : ∀ f ∈ fields, k.Accepts f.1 f.2
    · rw [build_ok hkeys h] at he
      cases he
    · obtain ⟨f, hf, e', hrefuses, he', hfirst⟩ := exists_build_error hkeys h
      rw [he'] at he
      exact ⟨f, hf, Except.error.inj he ▸ hrefuses, hfirst⟩
  · rintro ⟨f, hf, hrefuses, hfirst⟩
    obtain ⟨g, hg, e', hrefuses', he', hfirst'⟩ :=
      exists_build_error hkeys fun h => hrefuses.not_accepts (h f hf)
    have hkey : f.1 = g.1 := String.le_antisymm (hfirst g hg hrefuses'.not_accepts)
      (hfirst' f hf hrefuses.not_accepts)
    obtain rfl : f = g := List.inj_on_of_nodup_map hkeys hf hg hkey
    rw [he', hrefuses.unique hrefuses']

end Node

/-! ### Building a node again -/

/-- The value of a field that holds a slot. -/
def Shape.valueOf : Shape → Slot Node → FieldValue
  | .operation, .text s => .operation s
  | _, .text s => .text s
  | _, .flag b => .flag b
  | .one (.kind k), .one .absent => .null k
  | _, .one .absent => .nothing
  | _, .one (.null k) => .null k
  | _, .one (.node n) => .node n
  | .many w, .many cs => .nodeList w cs
  | _, .many cs => .nodes cs

/-- The value of the location of a node. -/
def locationValue : Option Location → FieldValue
  | some l => .location l
  | none => .noLocation

/-- **The values in the fields** of a node, and its location. -/
def Node.fieldValues (n : Node) : List (String × FieldValue) :=
  List.zipWith (fun d s => (d.1, d.2.valueOf s)) n.kind.declared n.slots ++
    [("loc", locationValue n.loc)]

namespace Shape

/-- What is held of a value may be given again. -/
theorem accepts_valueOf {shape : Shape} {v : FieldValue} (hv : shape.accepts v = true) :
    shape.accepts (shape.valueOf (shape.holding v)) = true := by
  cases shape with
  | one w =>
    cases w with
    | kind k =>
      have hnull : (Shape.one (.kind k)).accepts (.null k) = true := beq_self_eq_true k
      cases v <;> first | exact hnull | exact hv
    | family fam => cases v <;> first | rfl | exact hv
  | many w => cases v <;> first | exact decide_eq_true rfl | cases hv
  | _ => cases v <;> first | rfl | cases hv

/-- What is held of a value is held when it is given again. -/
theorem holding_valueOf (shape : Shape) (v : FieldValue) :
    shape.holding (shape.valueOf (shape.holding v)) = shape.holding v := by
  cases shape with
  | one w => cases w <;> cases v <;> rfl
  | _ => cases v <;> rfl

/-- Where any node of a family may stand, what is held of a value is of its kind. -/
theorem kind?_valueOf (fam : Family) (v : FieldValue) :
    ((Shape.one (.family fam)).valueOf ((Shape.one (.family fam)).holding v)).kind? = v.kind? := by
  cases v <;> rfl

end Shape

namespace Node

variable {k : Kind} {fields : List (String × FieldValue)}

theorem fieldValues_ofFields (k : Kind) (fields : List (String × FieldValue)) :
    (ofFields k fields).fieldValues =
      (k.declared.map fun d => (d.1, d.2.valueOf (d.2.holding (given fields d.1)))) ++
        [("loc", locationValue (given fields "loc").location?)] := by
  rw [fieldValues, ofFields, Node.kind, Node.slots, Node.loc, List.zipWith_map_right,
    List.zipWith_self]

theorem nodup_keys_fieldValues (k : Kind) (fields : List (String × FieldValue)) :
    ((ofFields k fields).fieldValues.map Prod.fst).Nodup := by
  have hkeys : (ofFields k fields).fieldValues.map Prod.fst =
      (k.declared.map Prod.fst).concat "loc" := by
    rw [fieldValues_ofFields, List.map_append, List.map_map, List.concat_eq_append]
    rfl
  rw [hkeys]
  refine (nodup_keys_declared k).concat fun hloc => ?_
  obtain ⟨d, hd, hkey⟩ := List.mem_map.mp hloc
  exact ne_loc_of_mem_declared k d hd hkey

theorem accepts_given {d : String × Shape} (hd : d ∈ k.declared)
    (h : ∀ f ∈ fields, k.Accepts f.1 f.2) : d.2.accepts (given fields d.1) = true ∧
      ¬(k = .nonNullType ∧ (given fields d.1).kind? = some .nonNullType) := by
  cases hlookup : fields.lookup d.1 with
  | none =>
    rw [given, hlookup, Option.getD_none]
    exact ⟨Shape.accepts_nothing _, fun h => nomatch h.2⟩
  | some v =>
    obtain ⟨before, after, rfl, -⟩ := List.lookup_eq_some_iff.mp hlookup
    have hv : k.Accepts d.1 v := h (d.1, v) (by simp)
    unfold Kind.Accepts at hv
    rw [if_neg (ne_loc_of_mem_declared k d hd)] at hv
    obtain ⟨⟨d', hd', hkey, haccepts⟩, hbare⟩ := hv
    obtain rfl : d' = d := List.inj_on_of_nodup_map (nodup_keys_declared k) hd' hd hkey
    rw [given, hlookup, Option.getD_some]
    exact ⟨haccepts, hbare⟩

/-- **The values of a node** that was built may be given again. -/
theorem accepts_fieldValues (h : ∀ f ∈ fields, k.Accepts f.1 f.2) :
    ∀ f ∈ (ofFields k fields).fieldValues, k.Accepts f.1 f.2 := by
  rw [fieldValues_ofFields]
  intro f hf
  unfold Kind.Accepts
  rcases List.mem_append.mp hf with hf | hf
  · obtain ⟨d, hd, rfl⟩ := List.mem_map.mp hf
    obtain ⟨haccepts, hbare⟩ := accepts_given hd h
    rw [if_neg (ne_loc_of_mem_declared k d hd)]
    refine ⟨⟨d, hd, rfl, Shape.accepts_valueOf haccepts⟩, ?_⟩
    rintro ⟨rfl, hkind⟩
    obtain rfl : d = ("type", .one (.family .typeRef)) := by simpa [Kind.declared] using hd
    rw [Shape.kind?_valueOf] at hkind
    exact hbare ⟨rfl, hkind⟩
  · obtain rfl := List.mem_singleton.mp hf
    cases (given fields "loc").location? <;> rfl

/-- **Built again of its values** a node is the same. -/
theorem ofFields_fieldValues (k : Kind) (fields : List (String × FieldValue)) :
    ofFields k (ofFields k fields).fieldValues = ofFields k fields := by
  have hkeys := nodup_keys_fieldValues k fields
  have hslots : ∀ d ∈ k.declared, d.2.holding (given (ofFields k fields).fieldValues d.1) =
      d.2.holding (given fields d.1) := by
    intro d hd
    have hmem : (d.1, d.2.valueOf (d.2.holding (given fields d.1))) ∈
        (ofFields k fields).fieldValues := by
      rw [fieldValues_ofFields]
      exact List.mem_append_left _ (List.mem_map_of_mem hd)
    rw [given_of_mem hkeys hmem, Shape.holding_valueOf]
  have hlocation : (given (ofFields k fields).fieldValues "loc").location? =
      (given fields "loc").location? := by
    have hmem : ("loc", locationValue (given fields "loc").location?) ∈
        (ofFields k fields).fieldValues := by
      rw [fieldValues_ofFields]
      exact List.mem_append_right _ List.mem_cons_self
    rw [given_of_mem hkeys hmem]
    cases (given fields "loc").location? <;> rfl
  rw [ofFields, List.map_congr_left hslots, hlocation]
  rfl

/-! ### Kinds given by number -/

theorem ofCode?_code (k : Kind) : Kind.ofCode? k.code = some k := by
  cases k <;> rfl

variable {code : Nat}

theorem buildOf_ok_iff (hkeys : (fields.map Prod.fst).Nodup) {n : Node} :
    buildOf code fields = .ok n ↔ ∃ k, Kind.ofCode? code = some k ∧
      (∀ f ∈ fields, k.Accepts f.1 f.2) ∧ n = ofFields k fields := by
  rw [buildOf]
  cases hcode : Kind.ofCode? code with
  | none => simp
  | some k =>
    simp only [Option.some.injEq, exists_eq_left']
    rw [← build_ok_iff hkeys]
    cases build k fields <;> simp [Except.mapError]

theorem buildOf_error_iff (hkeys : (fields.map Prod.fst).Nodup) {e : Refusal} :
    buildOf code fields = .error e ↔ (Kind.ofCode? code = none ∧ e = .kind code) ∨
      ∃ k, Kind.ofCode? code = some k ∧ ∃ f ∈ fields, ∃ b, e = .field b ∧ k.Refuses f.1 f.2 b ∧
        ∀ g ∈ fields, ¬k.Accepts g.1 g.2 → f.1 ≤ g.1 := by
  rw [buildOf]
  cases hcode : Kind.ofCode? code with
  | none => simp [eq_comm]
  | some k =>
    have hmap : (build k fields).mapError Refusal.field = .error e ↔
        ∃ b, build k fields = .error b ∧ e = .field b := by
      cases build k fields <;> simp [Except.mapError, eq_comm]
    simp only [hmap, build_error_iff hkeys]
    simp only [reduceCtorEq, false_and, false_or, Option.some.injEq, exists_eq_left']
    constructor
    · rintro ⟨b, ⟨f, hf, hrefuses, hfirst⟩, rfl⟩
      exact ⟨f, hf, b, rfl, hrefuses, hfirst⟩
    · rintro ⟨f, hf, b, rfl, hrefuses, hfirst⟩
      exact ⟨b, ⟨f, hf, hrefuses, hfirst⟩, rfl⟩

theorem buildOf_fieldValues (hkeys : (fields.map Prod.fst).Nodup) {n : Node}
    (hn : buildOf code fields = .ok n) : buildOf n.kind.code n.fieldValues = .ok n := by
  obtain ⟨k, -, h, rfl⟩ := (buildOf_ok_iff hkeys).mp hn
  exact (buildOf_ok_iff (nodup_keys_fieldValues k fields)).mpr
    ⟨k, ofCode?_code k, accepts_fieldValues h, (ofFields_fieldValues k fields).symm⟩

/-! ### Trees of built nodes -/

/-- **A tree of built nodes**: the node is built, and the nodes given for its fields are such
trees. -/
inductive Assembled : Node → Prop
  | built {code : Nat} {fields : List (String × FieldValue)} {n : Node}
      (hkeys : (fields.map Prod.fst).Nodup) (hn : buildOf code fields = .ok n)
      (hparts : ∀ f ∈ fields, ∀ m ∈ f.2.nodesIn, Assembled m) : Assembled n

/-- A node that is not a non-null type around what is, or is said to be, a non-null type. -/
def Unnested (n : Node) : Prop :=
  n.kind = .nonNullType → ∀ s ∈ n.slots,
    s ≠ .one (.null .nonNullType) ∧ ∀ m ∈ s.children, m.kind ≠ .nonNullType

theorem mem_nodesIn_of_mem_holding {shape : Shape} {v : FieldValue} {m : Node}
    (hm : m ∈ (shape.holding v).children) : m ∈ v.nodesIn := by
  cases v with
  | nothing => cases shape <;> cases hm
  | number i => cases shape <;> cases hm
  | location l => cases shape <;> cases hm
  | noLocation => cases shape <;> cases hm
  | other sort => cases shape <;> cases hm
  | null k =>
    cases shape with
    | one w => cases w <;> cases hm
    | _ => cases hm
  | _ => cases shape <;> exact hm

/-- A built node owns only nodes that were given for its fields. -/
theorem mem_given_of_mem_children {m : Node} (hm : m ∈ (ofFields k fields).children) :
    ∃ f ∈ fields, m ∈ f.2.nodesIn := by
  obtain ⟨s, hs, hm⟩ := mem_children_mk.mp hm
  obtain ⟨d, hd, rfl⟩ := List.mem_map.mp hs
  replace hm := mem_nodesIn_of_mem_holding hm
  cases hlookup : fields.lookup d.1 with
  | none =>
    rw [given, hlookup] at hm
    cases hm
  | some v =>
    obtain ⟨before, after, rfl, -⟩ := List.lookup_eq_some_iff.mp hlookup
    rw [given, hlookup] at hm
    exact ⟨(d.1, v), by simp, hm⟩

/-- A built node is not a non-null type around another. -/
theorem unnested_ofFields (h : ∀ f ∈ fields, k.Accepts f.1 f.2) : (ofFields k fields).Unnested := by
  rintro (rfl : k = .nonNullType) s hs
  obtain ⟨d, hd, rfl⟩ := List.mem_map.mp hs
  obtain ⟨haccepts, hbare⟩ := accepts_given hd h
  obtain rfl : d = ("type", .one (.family .typeRef)) := by simpa [Kind.declared] using hd
  replace hbare : (given fields "type").kind? ≠ some .nonNullType := fun h => hbare ⟨rfl, h⟩
  revert haccepts hbare
  generalize given fields "type" = v
  intro haccepts hbare
  cases v with
  | null k' =>
    constructor
    · intro hnull
      cases hnull
      exact hbare rfl
    · intro m hm
      cases hm
  | node n =>
    constructor
    · intro hnull
      cases hnull
    · intro m hm
      obtain rfl : m = n := List.mem_singleton.mp hm
      exact fun hm => hbare (congrArg some hm)
  | nothing =>
    constructor
    · intro hnull
      cases hnull
    · intro m hm
      cases hm
  | _ => cases haccepts

/-- **No tree of built nodes** has a non-null type directly inside a non-null type. -/
theorem Assembled.unnested {n : Node} (h : n.Assembled) : n.All Unnested := by
  induction h with
  | built hkeys hn hparts ih =>
    obtain ⟨k, -, haccepts, rfl⟩ := (buildOf_ok_iff hkeys).mp hn
    refine all_iff.mpr ⟨unnested_ofFields haccepts, fun m hm => ?_⟩
    obtain ⟨f, hf, hmem⟩ := mem_given_of_mem_children hm
    exact ih f hf m hmem

/-- **Building is exact.** A node is built when its kind exists and all its values may be given, and
it has these values and nothing else. When not, the kind is at fault or the value with the first
name of those that may not be given. A built node can be built again of its own values, and no tree
of built nodes has a non-null type directly inside a non-null type. -/
theorem buildOf_exact (code : Nat) (fields : List (String × FieldValue))
    (hkeys : (fields.map Prod.fst).Nodup) :
    (∀ n, buildOf code fields = .ok n ↔ ∃ k, Kind.ofCode? code = some k ∧
      (∀ f ∈ fields, k.Accepts f.1 f.2) ∧ n = ofFields k fields) ∧
    (∀ e, buildOf code fields = .error e ↔ (Kind.ofCode? code = none ∧ e = .kind code) ∨
      ∃ k, Kind.ofCode? code = some k ∧ ∃ f ∈ fields, ∃ b, e = .field b ∧ k.Refuses f.1 f.2 b ∧
        ∀ g ∈ fields, ¬k.Accepts g.1 g.2 → f.1 ≤ g.1) ∧
    (∀ n, buildOf code fields = .ok n → buildOf n.kind.code n.fieldValues = .ok n) ∧
    ∀ n, Assembled n → ∀ m ∈ n.rose.labels, m.Unnested :=
  ⟨fun _ => buildOf_ok_iff hkeys, fun _ => buildOf_error_iff hkeys,
    fun _ hn => buildOf_fieldValues hkeys hn, fun _ hn => hn.unnested⟩

/-- Values for a selection set of which two may not be given: a field it does not have, and a list
with an item that is a name. -/
def misfits : List (String × FieldValue) :=
  [("selections", .nodes [.node (empty .field), .node (empty .name), .absent]), ("loc", .noLocation),
   ("alias", .text "x")]

/-- The field it does not have comes first by its name. -/
theorem buildOf_exact_misfits : (misfits.map Prod.fst).Nodup ∧
    buildOf Kind.selectionSet.code misfits =
      .error (.field ⟨.selectionSet, "alias", none, .declaredField, .text⟩) := by
  have hkeys : (misfits.map Prod.fst).Nodup := by decide
  have hundeclared : Kind.selectionSet.Refuses "alias" (.text "x")
      ⟨.selectionSet, "alias", none, .declaredField, .text⟩ := .undeclared (by decide) (by decide)
  refine ⟨hkeys, ((buildOf_exact _ _ hkeys).2.1 _).mpr (.inr ⟨.selectionSet, rfl, ("alias", .text "x"),
    by simp [misfits], _, rfl, hundeclared, ?_⟩)⟩
  decide +kernel

/-! ### Declared types alone -/

end Node

/-- Whether a value is nothing, of the declared type or a list of what is declared: a text is no
keyword, and the sort of a list does not matter. -/
def Shape.declaresLiterally : Shape → FieldValue → Bool
  | .operation, .text _ => false
  | .many w, .plainList w' cs => w = w' || cs.all (fitsItem w)
  | .many w, .nodeList w' cs => w = w' || cs.all (fitsItem w)
  | shape, v => shape.accepts v

/-- Whether a value may be given for a field if only declared types count. -/
def Kind.DeclaresLiterally (k : Kind) (field : String) (v : FieldValue) : Prop :=
  if field = "loc" then v.isLocation = true
  else (∃ d ∈ k.declared, d.1 = field ∧ d.2.declaresLiterally v = true) ∧
    ¬(k = .nonNullType ∧ v.kind? = some .nonNullType)

instance (k : Kind) (field : String) (v : FieldValue) : Decidable (k.DeclaresLiterally field v) :=
  inferInstanceAs (Decidable (if field = "loc" then _ else _))

namespace Node

/-- **Declared types alone** do not tell what may be given: a text is taken for the keyword of an
operation, and a list of fields is not taken where selections are declared. -/
theorem buildOf_not_literal :
    ((∃ n, buildOf Kind.operationDefinition.code [("operation", .text "query")] = .ok n) ∧
      ¬Kind.operationDefinition.DeclaresLiterally "operation" (.text "query")) ∧
    (∃ e, buildOf Kind.selectionSet.code
        [("selections", .plainList (.kind .field) [.node (empty .field)])] = .error e) ∧
      Kind.selectionSet.DeclaresLiterally "selections"
        (.plainList (.kind .field) [.node (empty .field)]) := by
  refine ⟨⟨⟨ofFields .operationDefinition [("operation", .text "query")], ?_⟩, by decide⟩,
    ⟨.field ⟨.selectionSet, "selections", none, .many (.family .selection),
      .plainList (.kind .field)⟩, ?_⟩, by decide⟩
  · exact (buildOf_ok_iff (by decide)).mpr ⟨_, rfl, by decide, rfl⟩
  · have hfield : ("selections", .many (.family .selection)) ∈ Kind.selectionSet.declared := by decide
    exact (buildOf_error_iff (by decide)).mpr (.inr ⟨_, rfl, _, List.mem_cons_self, _, rfl,
      .whole hfield (by decide) rfl nofun, by decide⟩)

end Node

end QueryCheck.Syntax
