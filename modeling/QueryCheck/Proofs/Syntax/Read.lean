import QueryCheck.Proofs.Syntax.Unlocated
import QueryCheck.Proofs.Syntax.Whole

/-! # Nodes read from a text

Whatever a phrase as written says, its node is whole and names its types, and every node below it
that has a location is located in the text the phrase was read from. So one look at the phrases of
the language tells what the nodes of all texts are like.

* `Node.Read`: a whole node with names for all types, whose locations are in one text.
* `Node.ReadAs`, `Slot.ReadAs`: such a node, or such a slot, where something is wanted.
* `Node.read_mk`: a node read from a text, from its slots.
* `read_parseDocument`, `read_parseDirectiveDefinitions`: all that is read from a text. -/

namespace QueryCheck.Syntax

/-! ### Whole nodes located in one text -/

/-- A whole node below which every type has a name and every location is in the given text. -/
def Node.Read (o : Origin) (n : Node) : Prop :=
  n.All fun m => m.fits = true ∧ m.typeNamed = true ∧ ∀ l ∈ m.loc, l.origin = o

/-- A node read where `w` is wanted. -/
def Node.ReadAs (o : Origin) (w : Wanted) (n : Node) : Prop := w.admits n.kind = true ∧ n.Read o

/-- A slot of a node read from a text, for a field of the given shape. -/
def Slot.ReadAs (o : Origin) (shape : Shape) (s : Slot Node) : Prop :=
  shape.fits s = true ∧ ∀ n ∈ s.children, n.Read o

/-- A definition of a query document read from a text. -/
structure Node.ReadDefinition (o : Origin) (n : Node) : Prop where
  kind : n.kind = .operationDefinition ∨ n.kind = .fragmentDefinition
  read : n.Read o

theorem Node.ReadDefinition.kind_mem {o : Origin} {n : Node} (h : n.ReadDefinition o) :
    n.kind ∈ Family.definition.kinds := by
  rcases h.kind with hk | hk <;> rw [hk] <;> decide

theorem Node.Read.whole {o : Origin} {n : Node} (h : n.Read o) : n.Whole := fun m hm => (h m hm).1

theorem Node.Read.typeNamed {o : Origin} {n : Node} (h : n.Read o) :
    n.All fun m => m.typeNamed = true := fun m hm => (h m hm).2.1

namespace Slot

variable {o : Origin} {w : Wanted}

theorem readAs_text {s : String} : ReadAs o .text (.text s) := ⟨rfl, nofun⟩

theorem readAs_operation {s : String} : ReadAs o .operation (.text s) := ⟨rfl, nofun⟩

theorem readAs_flag {b : Bool} : ReadAs o .flag (.flag b) := ⟨rfl, nofun⟩

theorem readAs_mark {b : Bool} : ReadAs o .mark (.flag b) := ⟨rfl, nofun⟩

theorem readAs_absent : ReadAs o (.one w) (.one .absent) := ⟨rfl, nofun⟩

theorem readAs_one {n : Node} (h : n.ReadAs o w) : ReadAs o (.one w) (.one (.node n)) := by
  refine ⟨h.1, fun m hm => ?_⟩
  rw [children_one, List.mem_singleton] at hm
  exact hm ▸ h.2

/-- A place that may be empty. -/
theorem readAs_ofOption {n? : Option Node} (h : ∀ n ∈ n?, n.ReadAs o w) :
    ReadAs o (.one w) (.one (.ofOption n?)) := by
  cases n? with
  | none => exact readAs_absent
  | some n => exact readAs_one (h n rfl)

theorem readAs_placed {ns : List Node} (h : ∀ n ∈ ns, n.ReadAs o w) :
    ReadAs o (.many w) (.many (placed ns)) := by
  refine ⟨Shape.fits_many.mpr ⟨_, rfl, fun c hc => ?_⟩, fun n hn => ?_⟩
  · obtain ⟨n, hn, rfl⟩ := List.mem_map.mp hc
    cases w <;> exact (h n hn).1
  · rw [children_many] at hn
    exact (h n hn).2

end Slot

/-- A node read from a text, from its slots. -/
theorem Node.read_mk {o : Origin} {k : Kind} {ss : List (Slot Node)} {l : Option Location}
    (hname : (mk k ss l).typeNamed = true) (hl : ∀ loc ∈ l, loc.origin = o)
    (hss : List.Forall₂ (fun d s => Slot.ReadAs o d.2 s) k.declared ss) : (mk k ss l).Read o := by
  refine all_iff.mpr ⟨⟨fits_iff.mpr (hss.imp fun _ _ h => h.1), hname, hl⟩, fun m hm => ?_⟩
  have hchildren : ∀ s ∈ ss, ∀ m ∈ s.children, m.Read o :=
    ((List.forall₂_and_left (R := fun _ _ => True) _ _).mp
      (hss.flip.imp fun _ _ h => ⟨h.2, trivial⟩)).1
  obtain ⟨s, hs, hm⟩ := mem_children_mk.mp hm
  exact hchildren s hs m hm

namespace Excerpt

open Node Slot

variable (e : Excerpt)

/-! ### Locations -/

theorem origin_ofSpan (s : Source.Span) : ∀ l ∈ e.ofSpan s, l.origin = e.origin := by
  rintro l ⟨⟩
  rfl

theorem origin_locate (text : String) (start : Nat) :
    ∀ l ∈ e.locate text start, l.origin = e.origin := by
  intro l hl
  obtain ⟨i, -, rfl⟩ := Option.map_eq_some_iff.mp hl
  rfl

theorem origin_directiveLocation (d : Written.Directive) :
    ∀ l ∈ e.directiveLocation d, l.origin = e.origin := by
  intro l hl
  unfold directiveLocation at hl
  split at hl
  · split_ifs at hl
    · obtain rfl := Option.some.inj hl
      rfl
    · exact e.origin_ofSpan d.span l hl
  · exact e.origin_ofSpan d.span l hl

theorem origin_setLocation (cs : List (Child Node)) :
    ∀ l ∈ e.setLocation cs, l.origin = e.origin := by
  intro l hl
  unfold setLocation at hl
  split at hl
  · obtain ⟨i, -, rfl⟩ := Option.map_eq_some_iff.mp hl
    rfl
  · cases hl

/-! ### Names and types -/

theorem read_name (s : String) (start : Nat) : (e.name s start).ReadAs e.origin (.kind .name) :=
  ⟨rfl, read_mk rfl (e.origin_locate s start) (.cons readAs_text .nil)⟩

theorem read_namedType (s : String) (start : Nat) : (e.namedType s start).Read e.origin :=
  read_mk rfl (e.origin_locate s start) (.cons (readAs_one (e.read_name s start)) .nil)

/-- A type marked non-null or not. -/
theorem read_nonNull {t : Node} (h : t.ReadAs e.origin (.family .typeRef)) (nonNull : Bool)
    (s : Source.Span) :
    (if nonNull then .nonNullType (.node t) (e.ofSpan s) else t).ReadAs e.origin
      (.family .typeRef) := by
  cases nonNull with
  | false => exact h
  | true => exact ⟨rfl, read_mk rfl (e.origin_ofSpan s) (.cons (readAs_one h) .nil)⟩

theorem read_typeRef : ∀ t : Written.TypeRef, (e.typeRef t).ReadAs e.origin (.family .typeRef)
  | .named n nonNull s => e.read_nonNull ⟨rfl, e.read_namedType n s.start⟩ nonNull s
  | .list elem nonNull s =>
    e.read_nonNull (t := .listType (.node (e.typeRef elem)) (e.ofSpan s))
      ⟨rfl, read_mk rfl (e.origin_ofSpan s) (.cons (readAs_one (read_typeRef elem)) .nil)⟩ nonNull s

/-! ### Values, arguments and directives -/

theorem read_literal {l : Option Location} (hl : ∀ loc ∈ l, loc.origin = e.origin) (raw : String)
    (k : Written.LiteralKind) : (literal l raw k).ReadAs e.origin (.family .value) := by
  cases k with
  | string => exact ⟨rfl, read_mk rfl hl (.cons readAs_text (.cons readAs_mark .nil))⟩
  | block => exact ⟨rfl, read_mk rfl hl (.cons readAs_text (.cons readAs_mark .nil))⟩
  | boolean => exact ⟨rfl, read_mk rfl hl (.cons readAs_flag .nil)⟩
  | null => exact ⟨rfl, read_mk rfl hl .nil⟩
  | _ => exact ⟨rfl, read_mk rfl hl (.cons readAs_text .nil)⟩

mutual

theorem read_value : ∀ v : Written.Value, (e.value v).ReadAs e.origin (.family .value)
  | .variable n s => by
    rw [value]
    exact ⟨rfl, read_mk rfl (e.origin_ofSpan s) (.cons (readAs_one (e.read_name n s.start)) .nil)⟩
  | .literal k raw s => by
    rw [value]
    exact e.read_literal (e.origin_ofSpan s) raw k
  | .list vs s => by
    rw [value, values_eq]
    exact ⟨rfl, read_mk rfl (e.origin_ofSpan s) (.cons (readAs_placed (read_values vs)) .nil)⟩
  | .object fs s => by
    rw [value, objectFields_eq]
    exact ⟨rfl, read_mk rfl (e.origin_ofSpan s) (.cons (readAs_placed (read_objectFields fs)) .nil)⟩

theorem read_values : ∀ vs : List Written.Value, ∀ n ∈ vs.map e.value,
    n.ReadAs e.origin (.family .value)
  | [] => by simp
  | v :: vs => List.forall_mem_cons.mpr ⟨read_value v, read_values vs⟩

theorem read_objectFields : ∀ fs : List (String × Source.Span × Written.Value),
    ∀ n ∈ fs.map e.objectField, n.ReadAs e.origin (.kind .objectField)
  | [] => by simp
  | (n, s, v) :: fs => List.forall_mem_cons.mpr
    ⟨⟨rfl, read_mk rfl (e.origin_locate n s.start)
      (.cons (readAs_one (e.read_name n s.start)) (.cons (readAs_one (read_value v)) .nil))⟩,
      read_objectFields fs⟩

end

theorem read_value? (v : Option Written.Value) :
    Slot.ReadAs e.origin (.one (.family .value)) (.one (e.value? v)) := by
  refine readAs_ofOption fun n hn => ?_
  obtain ⟨v, -, rfl⟩ := Option.map_eq_some_iff.mp hn
  exact e.read_value v

theorem read_arguments (args : List Written.Argument) :
    Slot.ReadAs e.origin (.many (.kind .argument)) (.many (e.arguments args)) := by
  rw [arguments_eq]
  refine readAs_placed fun n hn => ?_
  obtain ⟨a, -, rfl⟩ := List.mem_map.mp hn
  exact ⟨rfl, read_mk rfl (e.origin_ofSpan a.span)
    (.cons (readAs_one (e.read_name a.name a.span.start))
      (.cons (readAs_one (e.read_value a.value)) .nil))⟩

theorem read_directives (dirs : List Written.Directive) :
    Slot.ReadAs e.origin (.many (.kind .directive)) (.many (e.directives dirs)) := by
  rw [directives_eq]
  refine readAs_placed fun n hn => ?_
  obtain ⟨d, -, rfl⟩ := List.mem_map.mp hn
  exact ⟨rfl, read_mk rfl (e.origin_directiveLocation d)
    (.cons (readAs_one (e.read_name d.name d.span.start))
      (.cons (e.read_arguments d.arguments) .nil))⟩

/-! ### Selections -/

theorem read_selectionSet {ns : List Node} (h : ∀ n ∈ ns, n.ReadAs e.origin (.family .selection)) :
    Slot.ReadAs e.origin (.one (.kind .selectionSet)) (.one (e.selectionSet (placed ns))) :=
  readAs_one ⟨rfl, read_mk rfl (e.origin_setLocation _) (.cons (readAs_placed h) .nil)⟩

/-- The node of a field from its selection set. -/
def fieldAround (key n : String) (args : List Written.Argument) (dirs : List Written.Directive)
    (sel : Child Node) (s : Source.Span) : Node :=
  if key = n then
    .field .absent (.node (e.name n s.start)) (e.arguments args) (e.directives dirs) sel
      (e.ofSpan s)
  else
    .field (.node (e.name key s.start))
      (.node (e.name n (endOr (e.name key s.start) s.start))) (e.arguments args)
      (e.directives dirs) sel (e.ofSpan s)

theorem read_fieldAround (key n : String) (args : List Written.Argument)
    (dirs : List Written.Directive) {sel : Child Node}
    (hsel : Slot.ReadAs e.origin (.one (.kind .selectionSet)) (.one sel)) (s : Source.Span) :
    (e.fieldAround key n args dirs sel s).ReadAs e.origin (.family .selection) := by
  have hread : ∀ {a : Child Node} (start : Nat),
      Slot.ReadAs e.origin (.one (.kind .name)) (.one a) →
      (Node.field a (.node (e.name n start)) (e.arguments args) (e.directives dirs) sel
        (e.ofSpan s)).ReadAs e.origin (.family .selection) := fun start ha =>
    ⟨rfl, read_mk rfl (e.origin_ofSpan s) (.cons ha (.cons (readAs_one (e.read_name n start))
      (.cons (e.read_arguments args) (.cons (e.read_directives dirs) (.cons hsel .nil)))))⟩
  unfold fieldAround
  split_ifs
  · exact hread _ readAs_absent
  · exact hread _ (readAs_one (e.read_name key s.start))

mutual

theorem read_selection : ∀ s : Written.Selection,
    (e.selection s).ReadAs e.origin (.family .selection)
  | .field key n args dirs none s => by
    rw [selection]
    exact e.read_fieldAround key n args dirs readAs_absent s
  | .field key n args dirs (some ss) s => by
    rw [selection, selections_eq]
    exact e.read_fieldAround key n args dirs (e.read_selectionSet (read_selections ss)) s
  | .spread n dirs s => by
    rw [selection]
    exact ⟨rfl, read_mk rfl (e.origin_ofSpan s)
      (.cons (readAs_one (e.read_name n s.start)) (.cons (e.read_directives dirs) .nil))⟩
  | .inline cond dirs ss s => by
    rw [selection, selections_eq]
    refine ⟨rfl, read_mk rfl (e.origin_ofSpan s) (.cons (readAs_ofOption fun n hn => ?_)
      (.cons (e.read_directives dirs) (.cons (e.read_selectionSet (read_selections ss)) .nil)))⟩
    obtain ⟨t, -, rfl⟩ := Option.map_eq_some_iff.mp hn
    exact ⟨rfl, e.read_namedType t _⟩

theorem read_selections : ∀ ss : List Written.Selection, ∀ n ∈ ss.map e.selection,
    n.ReadAs e.origin (.family .selection)
  | [] => by simp
  | s :: ss => List.forall_mem_cons.mpr ⟨read_selection s, read_selections ss⟩

end

/-! ### Definitions -/

theorem read_variableDefinitions (vs : List Written.VariableDefinition) :
    Slot.ReadAs e.origin (.many (.kind .variableDefinition))
      (.many (e.variableDefinitions vs)) := by
  rw [show e.variableDefinitions vs = placed (vs.map e.variableDefinition) by
    simp [variableDefinitions]]
  refine readAs_placed fun n hn => ?_
  obtain ⟨v, -, rfl⟩ := List.mem_map.mp hn
  have hvar : (Node.var (.node (e.name v.name v.span.start)) (e.ofSpan v.span)).ReadAs e.origin
      (.kind .variable) :=
    ⟨rfl, read_mk rfl (e.origin_ofSpan v.span)
      (.cons (readAs_one (e.read_name v.name v.span.start)) .nil)⟩
  exact ⟨rfl, read_mk rfl (e.origin_ofSpan v.span) (.cons (readAs_one hvar)
    (.cons (readAs_one (e.read_typeRef v.type)) (.cons (e.read_value? v.default)
      (.cons (e.read_directives v.directives) .nil))))⟩

theorem read_operation (op : Written.OperationDefinition) :
    (e.operation op).kind = .operationDefinition ∧ (e.operation op).Read e.origin := by
  refine ⟨rfl, read_mk rfl (e.origin_ofSpan op.span) (.cons readAs_operation
    (.cons (readAs_ofOption fun n hn => ?_) (.cons (e.read_variableDefinitions op.parameters)
      (.cons (e.read_directives op.directives) (.cons ?_ .nil)))))⟩
  · obtain ⟨s, -, rfl⟩ := Option.map_eq_some_iff.mp hn
    exact e.read_name s _
  · rw [selections_eq]
    exact e.read_selectionSet (e.read_selections op.selections)

theorem read_fragment (f : Written.FragmentDefinition) :
    (e.fragment f).kind = .fragmentDefinition ∧ (e.fragment f).Read e.origin := by
  refine ⟨rfl, read_mk rfl (e.origin_ofSpan f.span) (.cons (readAs_one (e.read_name f.name _))
    (.cons (e.read_variableDefinitions f.parameters)
      (.cons (readAs_one ⟨rfl, e.read_namedType f.typeCondition _⟩)
        (.cons (e.read_directives f.directives) (.cons ?_ .nil)))))⟩
  rw [selections_eq]
  exact e.read_selectionSet (e.read_selections f.selections)

theorem read_description (o : Origin) (s : String) :
    Slot.ReadAs o (.one (.kind .stringValue)) (.one (description s)) := by
  unfold description
  split_ifs
  · exact readAs_absent
  · exact readAs_one ⟨rfl, read_mk rfl nofun (.cons readAs_text (.cons readAs_mark .nil))⟩

theorem read_inputValue (v : Written.InputValue) :
    (e.inputValue v).ReadAs e.origin (.kind .inputValueDefinition) :=
  ⟨rfl, read_mk rfl (e.origin_ofSpan v.span) (.cons (read_description _ v.description)
    (.cons (readAs_one (e.read_name v.name v.span.start))
      (.cons (readAs_one (e.read_typeRef v.type)) (.cons (e.read_value? v.default)
        (.cons (e.read_directives v.directives) .nil)))))⟩

theorem read_locationNames : ∀ (start : Nat) (ls : List String), ∃ ns,
    e.locationNames start ls = placed ns ∧ ∀ n ∈ ns, n.ReadAs e.origin (.kind .name)
  | _, [] => ⟨[], rfl, nofun⟩
  | start, l :: ls => by
    obtain ⟨ns, hns, hread⟩ := read_locationNames (endOr (e.name l start) start) ls
    refine ⟨e.name l start :: ns, ?_, List.forall_mem_cons.mpr ⟨e.read_name l start, hread⟩⟩
    rw [locationNames, hns]
    rfl

theorem read_directiveDefinition (d : Written.DirectiveDefinition) :
    (e.directiveDefinition d).kind = .directiveDefinition ∧
      (e.directiveDefinition d).Read e.origin := by
  obtain ⟨ns, hns, hread⟩ :=
    e.read_locationNames (endOr (e.name d.name d.span.start) d.span.start) d.locations
  rw [directiveDefinition, hns, show d.arguments.map (fun a => Child.node (e.inputValue a)) =
    placed (d.arguments.map e.inputValue) by simp]
  refine ⟨rfl, read_mk rfl (e.origin_ofSpan d.span) (.cons (read_description _ d.description)
    (.cons (readAs_one (e.read_name d.name d.span.start)) (.cons (readAs_placed fun n hn => ?_)
      (.cons readAs_flag (.cons (readAs_placed hread) .nil)))))⟩
  obtain ⟨v, -, rfl⟩ := List.mem_map.mp hn
  exact e.read_inputValue v

theorem read_queryDocument (doc : Written.QueryDocument) : ∃ ns l,
    e.queryDocument doc = .document (placed ns) l ∧ (∀ loc ∈ l, loc.origin = e.origin) ∧
      ∀ n ∈ ns, n.ReadDefinition e.origin := by
  set defs : List (Nat × Node) := doc.operations.map (fun op => (op.span.start, e.operation op))
    ++ doc.fragments.map fun f => (f.span.start, e.fragment f) with hdefs
  refine ⟨(defs.mergeSort fun a b => a.1 ≤ b.1).map Prod.snd,
    if defs.isEmpty then none else some ⟨0, e.chars.length, 1, 1, e.origin⟩, ?_, ?_, ?_⟩
  · simp [queryDocument, hdefs]
  · intro loc hloc
    split_ifs at hloc
    · cases hloc
    · obtain rfl := Option.some.inj hloc
      rfl
  · intro n hn
    obtain ⟨x, hx, rfl⟩ := List.mem_map.mp hn
    rcases List.mem_append.mp (List.mem_mergeSort.mp hx) with hx | hx <;>
      obtain ⟨w, -, rfl⟩ := List.mem_map.mp hx
    · exact ⟨.inl (e.read_operation w).1, (e.read_operation w).2⟩
    · exact ⟨.inr (e.read_fragment w).1, (e.read_fragment w).2⟩

end Excerpt

/-! ### Whole texts -/

theorem eq_ok_of_toOption {ε α : Type} {r : Except ε α} {a : α} (h : r.toOption = some a) :
    r = .ok a := by
  cases r <;> cases h
  rfl

open Excerpt

/-- **A document read from a text** holds operations and fragments only, is whole and is located in
the text. -/
theorem read_parseDocument {text : String} {doc : Node} (h : parseDocument text = .ok doc) :
    ∃ ns l, doc = .document (placed ns) l ∧ (∀ loc ∈ l, loc.origin = .document) ∧
      ∀ n ∈ ns, n.ReadDefinition .document := by
  unfold parseDocument at h
  cases hq : Written.parseQuery text with
  | error err => simp [hq, Except.map] at h
  | ok q =>
    simp only [hq, Except.map, Except.ok.injEq] at h
    exact h ▸ read_queryDocument ⟨text.toList, .document⟩ q

/-- **Directive definitions read from a text** are whole and located in the text. -/
theorem read_parseDirectiveDefinitions {text : String} {defs : List Node}
    (h : parseDirectiveDefinitions text = .ok defs) :
    ∀ d ∈ defs, d.kind = .directiveDefinition ∧ d.Read .definitions := by
  unfold parseDirectiveDefinitions at h
  cases hq : Written.parseSchema text with
  | error err => simp [hq, Except.map] at h
  | ok q =>
    simp only [hq, Except.map, Except.ok.injEq] at h
    subst h
    intro d hd
    obtain ⟨w, -, rfl⟩ := List.mem_map.mp hd
    exact read_directiveDefinition ⟨text.toList, .definitions⟩ w

theorem whole_of_parseDocument {text : String} {doc : Node} (h : parseDocument text = .ok doc) :
    doc.Whole := by
  obtain ⟨ns, l, rfl, -, hns⟩ := read_parseDocument h
  exact Node.whole_document fun n hn => ⟨(hns n hn).kind_mem, (hns n hn).read.whole⟩

theorem typeNamed_of_parseDocument {text : String} {doc : Node} (h : parseDocument text = .ok doc) :
    doc.All fun m => m.typeNamed = true := by
  obtain ⟨ns, l, rfl, -, hns⟩ := read_parseDocument h
  exact Node.typeNamed_document fun n hn => (hns n hn).read.typeNamed

end QueryCheck.Syntax
