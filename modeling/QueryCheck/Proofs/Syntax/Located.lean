import QueryCheck.Proofs.Source.Places
import QueryCheck.Proofs.Syntax.Read
import QueryCheck.Proofs.Text.Lines

/-! # Located nodes

A name is located by looking for its text from some place on. It is found when its text stands there
or further on, and then no later than where it stands. So a phrase whose names stand where they are
looked for has a located node, and so have all nodes below it. The strings of a document are located
in any case. Wherever a node is located, its location marks a stretch of the text, and that of a
name marks the text of the name.

* `Excerpt.placeOf_eq`, `Excerpt.line_location`, `Excerpt.column_location`: the line and the column
  of an offset.
* `Excerpt.exists_find`, `Excerpt.standsAt_of_find`: a text that stands somewhere is found, and what
  is found stands there.
* `Slot.All`, `Node.all_mk`: what holds of all nodes below a node, from its slots.
* `Node.LocatedAt`: a node below which all nodes of some kinds are located.
* `Excerpt.Marks`, `Node.Marked`: locations that mark a stretch of the text, and nodes below which
  all locations do.
* `Excerpt.Found`, `Excerpt.Follow`: names that are found, one or several one behind the other.
* `marked_name`, `marked_namedType`, `marked_locationNames`: the nodes of such names.
* `strings_parseDocument`: the strings of a document are located. -/

namespace QueryCheck.Syntax

open QueryCheck.Source (StandsAt)

namespace Excerpt

/-! ### Lines and columns -/

theorem foldl_placeStep (cs : List Char) :
    cs.foldl placeStep (1, 1) = (cs.count '\n' + 1, (Text.lastLine cs).length + 1) := by
  induction cs using List.reverseRecOn with
  | nil => rfl
  | append_singleton cs c ih =>
    rw [List.foldl_append, ih, List.foldl_cons, List.foldl_nil, placeStep, Text.lastLine_concat,
      List.count_append]
    by_cases hc : c = '\n' <;> simp [hc]

/-- **The line of an offset** is told by the line breaks before it, its column by the characters
behind the last of them. -/
theorem placeOf_eq (e : Excerpt) (offset : Nat) : e.placeOf offset =
    ((e.chars.take offset).count '\n' + 1, (Text.lastLine (e.chars.take offset)).length + 1) :=
  foldl_placeStep _

theorem line_location (e : Excerpt) (i j : Nat) :
    (e.location i j).line = (e.chars.take i).count '\n' + 1 := by
  rw [location, placeOf_eq]
  rfl

theorem column_location (e : Excerpt) (i j : Nat) :
    (e.location i j).column = (Text.lastLine (e.chars.take i)).length + 1 := by
  rw [location, placeOf_eq]
  rfl

/-! ### Looking for a text -/

theorem exists_findIn {needle : List Char} (hneedle : needle ≠ []) : ∀ (offset : Nat)
    (cs : List Char) (k : Nat), needle <+: cs.drop k →
    ∃ j, findIn needle offset cs = some j ∧ offset ≤ j ∧ j ≤ offset + k
  | offset, [], k, h => by
    rw [List.drop_nil] at h
    exact absurd (List.prefix_nil.mp h) hneedle
  | offset, c :: cs, k, h => by
    rw [findIn]
    split_ifs with hhere
    · exact ⟨offset, rfl, le_rfl, Nat.le_add_right _ _⟩
    · obtain ⟨k, rfl⟩ : ∃ k', k = k' + 1 := by
        refine Nat.exists_eq_succ_of_ne_zero fun hk => hhere ?_
        rw [hk, List.drop_zero] at h
        exact List.isPrefixOf_iff_prefix.mpr h
      obtain ⟨j, hj, hle, hge⟩ := exists_findIn hneedle (offset + 1) cs k h
      exact ⟨j, hj, by omega, by omega⟩

/-- **A text that stands somewhere is found,** and not after its place. -/
theorem exists_find (e : Excerpt) {text : String} (htext : text ≠ "") {start i : Nat}
    (hi : start ≤ i) (h : StandsAt e.chars text i) :
    ∃ j, e.find text start = some j ∧ start ≤ j ∧ j ≤ i := by
  have hneedle : text.toList ≠ [] := fun hnil => htext (String.toList_eq_nil_iff.mp hnil)
  have hstands : text.toList <+: (e.chars.drop start).drop (i - start) := by
    rw [List.drop_drop, Nat.add_sub_cancel' hi]
    exact h
  obtain ⟨j, hj, hle, hge⟩ := exists_findIn hneedle start _ _ hstands
  exact ⟨j, by rw [find, if_neg htext, hj], hle, by omega⟩

/-- **What is found stands there,** and no earlier than it was looked for. -/
theorem standsAt_of_findIn {needle : List Char} : ∀ {offset : Nat} {cs : List Char} {i : Nat},
    needle ≠ [] → findIn needle offset cs = some i → offset ≤ i ∧ needle <+: cs.drop (i - offset)
  | offset, [], i, hneedle, h => by
    rw [findIn, if_neg (by simpa using hneedle)] at h
    cases h
  | offset, c :: cs, i, hneedle, h => by
    rw [findIn] at h
    split_ifs at h with hhere
    · obtain rfl := Option.some.inj h
      exact ⟨le_rfl, by rw [Nat.sub_self]; exact List.isPrefixOf_iff_prefix.mp hhere⟩
    · obtain ⟨hle, hstands⟩ := standsAt_of_findIn hneedle h
      have hindex : i - offset = (i - (offset + 1)) + 1 := by omega
      exact ⟨by omega, by rw [hindex]; exact hstands⟩

theorem standsAt_of_find {e : Excerpt} {text : String} {start i : Nat}
    (h : e.find text start = some i) : text ≠ "" ∧ start ≤ i ∧ StandsAt e.chars text i := by
  unfold find at h
  split_ifs at h with htext
  have hneedle : text.toList ≠ [] := fun hnil => htext (String.toList_eq_nil_iff.mp hnil)
  obtain ⟨hle, hstands⟩ := standsAt_of_findIn hneedle h
  rw [List.drop_drop, Nat.add_sub_cancel' hle] at hstands
  exact ⟨htext, hle, hstands⟩

end Excerpt

/-! ### What holds of all nodes of a slot -/

/-- What holds of all nodes in a slot and below them. -/
def Slot.All (P : Node → Prop) (s : Slot Node) : Prop := ∀ n ∈ s.children, n.All P

namespace Slot

variable {P : Node → Prop}

@[simp] theorem all_text {s : String} : All P (.text s) := nofun

@[simp] theorem all_flag {b : Bool} : All P (.flag b) := nofun

@[simp] theorem all_absent : All P (.one .absent) := nofun

@[simp] theorem all_nil : All P (.many []) := nofun

@[simp] theorem all_one {n : Node} : All P (.one (.node n)) ↔ n.All P := by
  unfold All
  rw [children_one, List.forall_mem_singleton]

theorem all_placed {ns : List Node} (h : ∀ n ∈ ns, n.All P) : All P (.many (placed ns)) := by
  unfold All
  rwa [children_many]

theorem all_map {α : Type} {f : α → Node} {as : List α} (h : ∀ a ∈ as, (f a).All P) :
    All P (.many (placed (as.map f))) :=
  all_placed (List.forall_mem_map.mpr h)

theorem all_ofOption {n? : Option Node} (h : ∀ n ∈ n?, n.All P) : All P (.one (.ofOption n?)) := by
  cases n? with
  | none => exact all_absent
  | some n => exact all_one.mpr (h n rfl)

end Slot

/-- What holds of all nodes below a node, from its slots. -/
theorem Node.all_mk {P : Node → Prop} {k : Kind} {ss : List (Slot Node)} {l : Option Location}
    (h : P (mk k ss l)) (hss : ∀ s ∈ ss, s.All P) : (mk k ss l).All P := by
  refine all_iff.mpr ⟨h, fun m hm => ?_⟩
  obtain ⟨s, hs, hm⟩ := mem_children_mk.mp hm
  exact hss s hs m hm

/-! ### Located nodes -/

/-- A node that is located if it is of certain kinds. -/
def Node.HasLocation (K : Kind → Prop) (n : Node) : Prop := K n.kind → n.loc.isSome = true

/-- A node below which all nodes of some kinds are located. -/
abbrev Node.LocatedAt (K : Kind → Prop) (n : Node) : Prop := n.All (HasLocation K)

/-- A node that is located with all nodes below it. -/
abbrev Node.Located (n : Node) : Prop := n.LocatedAt fun _ => True

/-- A slot that holds only such nodes. -/
abbrev Slot.LocatedAt (K : Kind → Prop) (s : Slot Node) : Prop := s.All (Node.HasLocation K)

/-- A slot that holds only located nodes. -/
abbrev Slot.Located (s : Slot Node) : Prop := s.LocatedAt fun _ => True

/-! ### Locations that mark a stretch of the text -/

namespace Excerpt

variable (e : Excerpt)

/-- A location that marks a stretch of the text, which is not empty. -/
def Proper (l : Location) : Prop := ∃ i j, l = e.location i j ∧ i < j ∧ j ≤ e.chars.length

/-- A location that marks a stretch of the text, if there is one; under a condition there is. -/
def Marks (U : Prop) (l : Option Location) : Prop := (∀ loc ∈ l, e.Proper loc) ∧ (U → l.isSome = true)

/-- A node whose location marks a stretch of the text, which is the text of the node if it is a
name. Fragments have their names. -/
structure Shows (U : Prop) (n : Node) : Prop where
  marks : e.Marks U n.loc
  named : n.named = true
  name : ∀ s l, n = .name s (some l) → ∃ i, StandsAt e.chars s i ∧ l = e.location i (i + s.length)

end Excerpt

/-- A node below which all locations mark a stretch of the text. -/
abbrev Node.Marked (e : Excerpt) (U : Prop) (n : Node) : Prop := n.All (e.Shows U)

/-- A slot that holds only such nodes. -/
abbrev Slot.Marked (e : Excerpt) (U : Prop) (s : Slot Node) : Prop := s.All (e.Shows U)

namespace Excerpt

variable {e : Excerpt} {U : Prop}

theorem Marks.weaken {l : Option Location} (h : e.Marks True l) : e.Marks U l :=
  ⟨h.1, fun _ => h.2 trivial⟩

theorem marks_proper {l : Location} (h : e.Proper l) : e.Marks U (some l) :=
  ⟨fun _ hl => Option.some.inj hl ▸ h, fun _ => rfl⟩

theorem marks_ofSpan {s : Source.Span} (h : s.Within e.chars) : e.Marks U (e.ofSpan s) :=
  marks_proper ⟨s.start, s.stop, rfl, h⟩

/-- Where a text stands there is room for it. -/
theorem length_of_standsAt {chars : List Char} {text : String} (htext : text ≠ "") {i : Nat}
    (h : StandsAt chars text i) : i < i + text.length ∧ i + text.length ≤ chars.length := by
  have hpos : 0 < text.length :=
    Nat.pos_of_ne_zero fun hzero => htext (String.length_eq_zero_iff.mp hzero)
  have hle := h.length_le
  rw [List.length_drop, String.length_toList] at hle
  omega

theorem proper_of_find {text : String} {start i : Nat} (h : e.find text start = some i) :
    e.Proper (e.location i (i + text.length)) := by
  obtain ⟨htext, -, hstands⟩ := standsAt_of_find h
  exact ⟨_, _, rfl, length_of_standsAt htext hstands⟩

end Excerpt

theorem Node.Marked.weaken {e : Excerpt} {U : Prop} {n : Node} (h : n.Marked e True) :
    n.Marked e U := fun m hm => { h m hm with marks := (h m hm).marks.weaken }

theorem Slot.Marked.weaken {e : Excerpt} {U : Prop} {s : Slot Node} (h : s.Marked e True) :
    s.Marked e U := fun n hn => Node.Marked.weaken (h n hn)

theorem Node.Marked.located {e : Excerpt} {n : Node} (h : n.Marked e True) : n.Located :=
  fun m hm _ => (h m hm).marks.2 trivial

theorem Slot.Marked.located {e : Excerpt} {s : Slot Node} (h : s.Marked e True) : s.Located :=
  fun n hn => Node.Marked.located (h n hn)

/-- A marked node that is no name, from its slots. -/
theorem Node.marked_named {e : Excerpt} {U : Prop} {k : Kind} (hk : k ≠ .name)
    {ss : List (Slot Node)} {l : Option Location} (hn : (mk k ss l).named = true)
    (hl : e.Marks U l) (hss : ∀ s ∈ ss, s.Marked e U) : (mk k ss l).Marked e U :=
  all_mk ⟨hl, hn, fun _ _ h => absurd (congrArg Node.kind h) hk⟩ hss

/-- A marked node that needs no name of a fragment either. -/
theorem Node.marked_mk {e : Excerpt} {U : Prop} {k : Kind}
    (hk : k ∉ [.fragmentSpread, .fragmentDefinition, .name]) {ss : List (Slot Node)}
    {l : Option Location} (hl : e.Marks U l) (hss : ∀ s ∈ ss, s.Marked e U) :
    (mk k ss l).Marked e U := by
  simp only [List.mem_cons, List.not_mem_nil, or_false, not_or] at hk
  exact marked_named hk.2.2 (named_of_kind (by simp [Node.kind, hk])) hl hss

namespace Excerpt

variable (e : Excerpt)

/-! ### Names -/

/-- A name that is found from a place on. -/
def Found (text : String) (start : Nat) : Prop :=
  text ≠ "" ∧ ∃ i, start ≤ i ∧ StandsAt e.chars text i

/-- Names that stand one behind the other, none of them before a place. -/
def Follow : Nat → List String → Prop
  | _, [] => True
  | lower, text :: texts =>
    text ≠ "" ∧ ∃ i, lower ≤ i ∧ StandsAt e.chars text i ∧ Follow (i + text.length) texts

variable {e} {U : Prop}

theorem Follow.mono {lower lower' : Nat} (h : lower' ≤ lower) : ∀ {texts : List String},
    e.Follow lower texts → e.Follow lower' texts
  | [], _ => trivial
  | _ :: _, ⟨htext, i, hi, hstands⟩ => ⟨htext, i, h.trans hi, hstands⟩

theorem marks_locate {text : String} {start : Nat} (h : U → e.Found text start) :
    e.Marks U (e.locate text start) := by
  refine ⟨fun l hl => ?_, fun hU => ?_⟩
  · obtain ⟨i, hi, rfl⟩ := Option.map_eq_some_iff.mp hl
    exact proper_of_find hi
  · obtain ⟨htext, i, hi, hstands⟩ := h hU
    obtain ⟨j, hj, -⟩ := e.exists_find htext hi hstands
    rw [locate, hj]
    rfl

theorem marked_name {text : String} {start : Nat} (h : U → e.Found text start) :
    (e.name text start).Marked e U := by
  refine Node.all_mk ⟨marks_locate h, rfl, fun s l heq => ?_⟩ (by simp)
  obtain ⟨hslots, hloc⟩ : [Slot.text text] = [.text s] ∧ e.locate text start = some l := by
    injection heq with _ hslots hloc
    exact ⟨hslots, hloc⟩
  obtain rfl : text = s := by simpa using hslots
  obtain ⟨i, hi, rfl⟩ := Option.map_eq_some_iff.mp hloc
  exact ⟨i, (standsAt_of_find hi).2.2, rfl⟩

/-- A name that is found does not end after its place. -/
theorem endOr_name_le {text : String} (htext : text ≠ "") {start i : Nat} (hi : start ≤ i)
    (h : StandsAt e.chars text i) (other : Nat) :
    endOr (e.name text start) other ≤ i + text.length := by
  obtain ⟨j, hj, -, hle⟩ := e.exists_find htext hi h
  have hend : endOr (e.name text start) other = j + text.length := by
    rw [endOr, name, Node.loc, locate, hj]
    exact Int.toNat_natCast _
  omega

theorem marked_namedType {text : String} {start : Nat} (h : U → e.Found text start) :
    (e.namedType text start).Marked e U :=
  Node.marked_mk (by decide) (marks_locate h) (by simp [marked_name h])

/-- The names of the places a directive is declared for. -/
theorem marked_locationNames : ∀ {start : Nat} {names : List String}, e.Follow start names →
    Slot.Marked e U (.many (e.locationNames start names))
  | _, [], _ => nofun
  | start, text :: names, ⟨htext, i, hi, hstands, hnames⟩ => by
    have hrest := marked_locationNames (hnames.mono (endOr_name_le htext hi hstands start))
    intro n hn
    rw [locationNames] at hn
    rcases List.mem_cons.mp hn with rfl | hn
    · exact marked_name fun _ => ⟨htext, i, hi, hstands⟩
    · exact hrest n hn

/-- A type marked non-null or not. -/
theorem all_nonNull {P : Node → Prop} {t : Node} (h : t.All P) (nonNull : Bool) (s : Source.Span)
    (hP : P (.nonNullType (.node t) (e.ofSpan s))) :
    (if nonNull then .nonNullType (.node t) (e.ofSpan s) else t).All P := by
  cases nonNull with
  | false => exact h
  | true => exact Node.all_mk hP (by simp [h])

/-- Literals hold no nodes. -/
theorem all_literal {P : Node → Prop} (l : Option Location) (raw : String)
    (k : Written.LiteralKind) (h : P (literal l raw k)) : (literal l raw k).All P := by
  cases k <;> exact Node.all_mk h (by simp)

theorem marked_literal {l : Option Location} (hl : e.Marks U l) (raw : String)
    (k : Written.LiteralKind) : (literal l raw k).Marked e U := by
  cases k <;> exact Node.marked_mk (by decide) hl (by simp)

theorem marks_directiveLocation {d : Written.Directive} (h : d.span.Within e.chars) :
    e.Marks U (e.directiveLocation d) := by
  unfold directiveLocation
  split
  · next i hi =>
    obtain ⟨htext, -, hstands⟩ := standsAt_of_find hi
    have hroom := length_of_standsAt htext hstands
    split_ifs
    · exact marks_proper ⟨i - 1, i + d.name.length, rfl, by omega⟩
    · exact marks_ofSpan h
  · exact marks_ofSpan h

end Excerpt

/-! ### Strings

In a document strings stand only where values do, and these are located by their tokens. -/

/-- A node below which all strings are located. -/
abbrev Node.StringsLocated (n : Node) : Prop := n.LocatedAt (· = .stringValue)

theorem Node.strings_mk {k : Kind} (hk : k ≠ .stringValue) {ss : List (Slot Node)}
    {l : Option Location} (hss : ∀ s ∈ ss, s.LocatedAt (· = .stringValue)) :
    (mk k ss l).StringsLocated :=
  all_mk (fun h => absurd h hk) hss

namespace Excerpt

open Node

variable (e : Excerpt)

theorem strings_name (text : String) (start : Nat) : (e.name text start).StringsLocated :=
  strings_mk (by decide) (by simp)

theorem strings_namedType (text : String) (start : Nat) :
    (e.namedType text start).StringsLocated :=
  strings_mk (by decide) (by simp [strings_name])

theorem strings_typeRef : ∀ t : Written.TypeRef, (e.typeRef t).StringsLocated
  | .named n nonNull s => all_nonNull (e.strings_namedType n s.start) nonNull s nofun
  | .list elem nonNull s =>
    all_nonNull (strings_mk (by decide) (by simp [strings_typeRef elem])) nonNull s nofun

mutual

theorem strings_value : ∀ v : Written.Value, (e.value v).StringsLocated
  | .variable n s => by
    rw [value]
    exact strings_mk (by decide) (by simp [strings_name])
  | .literal k raw s => by
    rw [value]
    exact all_literal _ raw k fun _ => by cases k <;> rfl
  | .list vs s => by
    rw [value, values_eq]
    exact strings_mk (by decide)
      (List.forall_mem_singleton.mpr (Slot.all_map (strings_values vs)))
  | .object fs s => by
    rw [value, objectFields_eq]
    exact strings_mk (by decide)
      (List.forall_mem_singleton.mpr (Slot.all_map (strings_objectFields fs)))

theorem strings_values : ∀ vs : List Written.Value, ∀ v ∈ vs, (e.value v).StringsLocated
  | [] => nofun
  | v :: vs => List.forall_mem_cons.mpr ⟨strings_value v, strings_values vs⟩

theorem strings_objectFields : ∀ fs : List (String × Source.Span × Written.Value),
    ∀ f ∈ fs, (e.objectField f).StringsLocated
  | [] => nofun
  | (n, s, v) :: fs => List.forall_mem_cons.mpr
    ⟨strings_mk (by decide) (by simp [strings_name, strings_value v]), strings_objectFields fs⟩

end

theorem strings_value? (v : Option Written.Value) :
    Slot.LocatedAt (· = .stringValue) (.one (e.value? v)) := by
  refine Slot.all_ofOption fun n hn => ?_
  obtain ⟨v, -, rfl⟩ := Option.map_eq_some_iff.mp hn
  exact e.strings_value v

theorem strings_arguments (args : List Written.Argument) :
    Slot.LocatedAt (· = .stringValue) (.many (e.arguments args)) := by
  rw [arguments_eq]
  exact Slot.all_map fun a _ =>
    strings_mk (by decide) (by simp [strings_name, strings_value])

theorem strings_directives (dirs : List Written.Directive) :
    Slot.LocatedAt (· = .stringValue) (.many (e.directives dirs)) := by
  rw [directives_eq]
  exact Slot.all_map fun d _ =>
    strings_mk (by decide) (by simp [strings_name, strings_arguments])

theorem strings_selectionSet {ns : List Node} (h : ∀ n ∈ ns, n.StringsLocated) :
    Slot.LocatedAt (· = .stringValue) (.one (e.selectionSet (placed ns))) :=
  Slot.all_one.mpr
    (strings_mk (by decide) (List.forall_mem_singleton.mpr (Slot.all_placed h)))

theorem strings_fieldAround (key n : String) (args : List Written.Argument)
    (dirs : List Written.Directive) {sel : Child Node}
    (hsel : Slot.LocatedAt (· = .stringValue) (.one sel)) (s : Source.Span) :
    (e.fieldAround key n args dirs sel s).StringsLocated := by
  unfold fieldAround
  split_ifs <;>
    exact strings_mk (by decide)
      (by simp [strings_name, strings_arguments, strings_directives, hsel])

mutual

theorem strings_selection : ∀ s : Written.Selection, (e.selection s).StringsLocated
  | .field key n args dirs none s => by
    rw [selection]
    exact e.strings_fieldAround key n args dirs Slot.all_absent s
  | .field key n args dirs (some ss) s => by
    rw [selection, selections_eq]
    exact e.strings_fieldAround key n args dirs
      (e.strings_selectionSet (List.forall_mem_map.mpr (strings_selections ss))) s
  | .spread n dirs s => by
    rw [selection]
    exact strings_mk (by decide) (by simp [strings_name, strings_directives])
  | .inline cond dirs ss s => by
    have hset := e.strings_selectionSet (List.forall_mem_map.mpr (strings_selections ss))
    rw [← selections_eq] at hset
    have hcond : Slot.LocatedAt (· = .stringValue)
        (.one (.ofOption (cond.map fun t => e.namedType t (e.afterOn s.start)))) := by
      refine Slot.all_ofOption fun n hn => ?_
      obtain ⟨t, -, rfl⟩ := Option.map_eq_some_iff.mp hn
      exact e.strings_namedType t _
    rw [selection]
    exact strings_mk (by decide) (by simp [hcond, strings_directives, hset])

theorem strings_selections : ∀ ss : List Written.Selection,
    ∀ s ∈ ss, (e.selection s).StringsLocated
  | [] => nofun
  | s :: ss => List.forall_mem_cons.mpr ⟨strings_selection s, strings_selections ss⟩

end

theorem strings_variableDefinitions (vs : List Written.VariableDefinition) :
    Slot.LocatedAt (· = .stringValue) (.many (e.variableDefinitions vs)) := by
  rw [show e.variableDefinitions vs = placed (vs.map e.variableDefinition) by
    simp [variableDefinitions]]
  refine Slot.all_map fun v _ => ?_
  have hvar : (Node.var (.node (e.name v.name v.span.start)) (e.ofSpan v.span)).StringsLocated :=
    strings_mk (by decide) (by simp [strings_name])
  exact strings_mk (by decide)
    (by simp [hvar, strings_typeRef, strings_value?, strings_directives])

theorem strings_operation (op : Written.OperationDefinition) :
    (e.operation op).StringsLocated := by
  have hset := e.strings_selectionSet (List.forall_mem_map.mpr (e.strings_selections op.selections))
  rw [← selections_eq] at hset
  have hname : Slot.LocatedAt (· = .stringValue) (.one (.ofOption
      (op.name.map fun n => e.name n (op.span.start + op.operation.keyword.length)))) := by
    refine Slot.all_ofOption fun n hn => ?_
    obtain ⟨s, -, rfl⟩ := Option.map_eq_some_iff.mp hn
    exact e.strings_name s _
  exact strings_mk (by decide)
    (by simp [hname, strings_variableDefinitions, strings_directives, hset])

theorem strings_fragment (f : Written.FragmentDefinition) : (e.fragment f).StringsLocated := by
  have hset := e.strings_selectionSet (List.forall_mem_map.mpr (e.strings_selections f.selections))
  rw [← selections_eq] at hset
  exact strings_mk (by decide) (by
    simp [strings_name, strings_variableDefinitions, strings_namedType, strings_directives, hset])

end Excerpt

/-- A document read from a text has the nodes of the operations and fragments written in it. -/
theorem exists_written_of_parseDocument {text : String} {doc : Node}
    (h : parseDocument text = .ok doc) :
    ∃ q ns l, Written.parseQuery text = .ok q ∧ doc = .document (placed ns) l ∧
      ∀ n ∈ ns, (∃ op ∈ q.operations, n = (Excerpt.mk text.toList .document).operation op) ∨
        ∃ f ∈ q.fragments, n = (Excerpt.mk text.toList .document).fragment f := by
  unfold parseDocument at h
  cases hq : Written.parseQuery text with
  | error err => simp [hq, Except.map] at h
  | ok q =>
    simp only [hq, Except.map, Except.ok.injEq] at h
    subst h
    set e : Excerpt := ⟨text.toList, .document⟩
    set defs : List (Nat × Node) := q.operations.map (fun op => (op.span.start, e.operation op))
      ++ q.fragments.map fun f => (f.span.start, e.fragment f) with hdefs
    refine ⟨q, (defs.mergeSort fun a b => a.1 ≤ b.1).map Prod.snd,
      if defs.isEmpty then none else some ⟨0, e.chars.length, 1, 1, e.origin⟩, rfl, ?_,
      fun n hn => ?_⟩
    · simp [Excerpt.queryDocument, hdefs]
    · obtain ⟨x, hx, rfl⟩ := List.mem_map.mp hn
      rcases List.mem_append.mp (List.mem_mergeSort.mp hx) with hx | hx
      · obtain ⟨op, hop, rfl⟩ := List.mem_map.mp hx
        exact .inl ⟨op, hop, rfl⟩
      · obtain ⟨f, hf, rfl⟩ := List.mem_map.mp hx
        exact .inr ⟨f, hf, rfl⟩

/-- **The strings of a document are located.** -/
theorem strings_parseDocument {text : String} {doc : Node} (h : parseDocument text = .ok doc) :
    doc.StringsLocated := by
  obtain ⟨q, ns, l, -, rfl, hns⟩ := exists_written_of_parseDocument h
  refine Node.strings_mk (by decide)
    (List.forall_mem_singleton.mpr (Slot.all_placed fun n hn => ?_))
  rcases hns n hn with ⟨op, -, rfl⟩ | ⟨f, -, rfl⟩
  · exact Excerpt.strings_operation _ op
  · exact Excerpt.strings_fragment _ f

end QueryCheck.Syntax
