import QueryCheck.Proofs.Syntax.Located
import QueryCheck.Proofs.Validation.FragmentNames
import QueryCheck.Proofs.Validation.Reports
import QueryCheck.Proofs.Validation.Unlocated
import QueryCheck.Proofs.Written.Documents

/-! # Spreads of unknown fragments

The fragments and the spreads of a document that was read from a text have names of the language,
since the reader takes nothing else for one. A problem in the name of the rule on spreads was found
at a spread of the document, whatever other rules run beside it and whatever the depth limit is.

* `all_wellNamed`: fragments and spreads in a text have names of the language.
* `Unknown`: a problem about a spread of a fragment that is not defined.
* `exists_unknown_of_validate`: every problem in the name of the rule on spreads is one. -/

namespace QueryCheck.Syntax

open QueryCheck.Source (IsName Lexeme)

/-! ### Typed clones -/

theorem Shape.holds_map {f : Node → Node} (hf : ∀ n, (f n).kind = n.kind) (shape : Shape)
    (s : Slot Node) : shape.holds (s.map f) = shape.holds s := by
  have htakes : shape.takes (s.map f) = shape.takes s := by cases shape <;> cases s <;> rfl
  rw [holds, holds, htakes, Slot.children_map, List.all_map]
  simp only [Function.comp_def, hf]

theorem Node.typed_cloneDeep (n : Node) : n.cloneDeep.typed = n.typed := by
  obtain ⟨k, ss, l⟩ := n
  rw [Bool.eq_iff_iff, typed_iff, typed_iff, cloneDeep_mk, kind, kind, slots, slots,
    List.forall₂_map_right_iff]
  simp only [Shape.holds_map kind_cloneDeep]

/-- A clone of a typed node is typed. -/
theorem Node.Typed.cloneDeep {n : Node} (h : n.Typed) : n.cloneDeep.Typed := by
  intro m hm
  rw [labels_cloneDeep] at hm
  obtain ⟨m', hm', rfl⟩ := List.mem_map.mp hm
  rw [typed_cloneDeep]
  exact h m' hm'

/-! ### Kinds without selections -/

/-- Whether nodes of a kind neither are nor hold selections. -/
def Kind.apart : Kind → Bool
  | .document | .operationDefinition | .fragmentDefinition | .selectionSet | .field | .inlineFragment
  | .fragmentSpread => false
  | _ => true

theorem Kind.apart_of_admits : ∀ k : Kind, k.apart = true → ∀ d ∈ k.declared, ∀ k',
    d.2.admits k' = true → k'.apart = true := by
  intro k
  cases k <;> simp [Kind.declared, Shape.admits, Wanted.admits, Family.kinds, Kind.apart]

end QueryCheck.Syntax

namespace QueryCheck.Validation

open QueryCheck.Schema
open QueryCheck.Source (IsName Lexeme)
open QueryCheck.Syntax
open QueryCheck.Walk
open Context

/-! ### Names of fragments in texts -/

/-- A fragment definition and a spread have names of the language. -/
def WellNamed (n : Node) : Prop :=
  n.kind = .fragmentDefinition ∨ n.kind = .fragmentSpread → IsName (fragmentNameOf n)

section Phrases

variable {S : Lexeme → Prop} {n : Node}

theorem wellNamed_of_kind (h : [Kind.fragmentDefinition, .fragmentSpread].contains n.kind = false) :
    WellNamed n := by
  intro hk
  have hmem : n.kind ∈ [Kind.fragmentDefinition, .fragmentSpread] := by simpa using hk
  rw [List.contains_iff_mem.mpr hmem] at h
  cases h

theorem all_wellNamed_of_apart (hn : n.Typed) (hk : n.kind.apart = true) : n.All WellNamed := by
  have hbelow := Node.Typed.all_kind (P := fun k => k.apart = true) Kind.apart_of_admits n hn hk
  have hkinds : ∀ k : Kind, k.apart = true →
      [Kind.fragmentDefinition, .fragmentSpread].contains k = false := by
    intro k
    cases k <;> decide
  exact fun m hm => wellNamed_of_kind (hkinds m.kind (hbelow m hm))

theorem all_wellNamed_name (s : String) : (Node.name s none).All WellNamed :=
  Node.all_mk (wellNamed_of_kind rfl) (by simp)

theorem all_wellNamed_selectionSet {ss : List Node} (h : ∀ n ∈ ss, n.All WellNamed) :
    (selectionSetOf ss).All WellNamed :=
  Node.all_mk (wellNamed_of_kind rfl) (by simpa using Slot.all_placed h)

/-- The items of a typed node that are apart. -/
theorem all_wellNamed_items {k : Kind} {slots : List (Slot Node)} {l : Option Location}
    {ns : List Node} (h : (Node.mk k slots l).Typed) (hslot : .many (placed ns) ∈ slots)
    (hns : ∀ n ∈ ns, n.kind.apart = true) : Slot.All WellNamed (.many (placed ns)) := by
  refine Slot.all_placed fun n hn => all_wellNamed_of_apart (h.child ?_) (hns n hn)
  exact Node.mem_children_mk.mpr ⟨_, hslot, by rwa [Slot.children_many]⟩

theorem apart_argument {constant : Bool} (h : IsArgument S constant n) : n.kind.apart = true := by
  cases h
  rfl

theorem apart_directive {constant : Bool} (h : IsDirective S constant n) :
    n.kind.apart = true := by
  cases h
  rfl

theorem apart_variableDefinition (h : IsVariableDefinition S n) : n.kind.apart = true := by
  cases h
  rfl

/-- The selections of a selection set are typed if the owner of the set is. -/
theorem typed_selection {k : Kind} {slots : List (Slot Node)} {l : Option Location} {ss : List Node}
    (h : (Node.mk k slots l).Typed) (hslot : .one (.node (selectionSetOf ss)) ∈ slots) :
    ∀ n ∈ ss, n.Typed := by
  intro n hn
  have hset : (selectionSetOf ss).Typed :=
    h.child (Node.mem_children_mk.mpr ⟨_, hslot, by rw [Slot.children_one]; simp⟩)
  exact hset.child (by simpa [Node.children_eq, Node.slots, Slot.children_many] using hn)

theorem all_wellNamed_selection (h : IsSelection S n) : n.Typed → n.All WellNamed := by
  induction h with
  | @field key s args dirs sel hkey hs hargs hdirs hne hsel ih =>
    intro hn
    have hkey : Slot.All WellNamed (.one (.ofOption (key.map fun k => .name k none))) := by
      refine Slot.all_ofOption fun n hn => ?_
      obtain ⟨k, -, rfl⟩ := Option.mem_map.mp hn
      exact all_wellNamed_name k
    have hargs := all_wellNamed_items hn (by simp) fun a ha => apart_argument (hargs a ha)
    have hdirs := all_wellNamed_items hn (by simp) fun d hd => apart_directive (hdirs d hd)
    have hset : Slot.All WellNamed (.one (.ofOption (sel.map selectionSetOf))) := by
      refine Slot.all_ofOption fun n hset => ?_
      obtain ⟨ss, rfl, rfl⟩ := Option.mem_map.mp hset
      have htyped : ∀ n ∈ ss, n.Typed := typed_selection hn (by simp [Child.ofOption])
      exact all_wellNamed_selectionSet fun n hn => ih ss rfl n hn (htyped n hn)
    exact Node.all_mk (wellNamed_of_kind rfl)
      (by simp [hkey, all_wellNamed_name, hargs, hdirs, hset])
  | @spread s dirs hs hon hdirs =>
    intro hn
    have hdirs := all_wellNamed_items hn (by simp) fun d hd => apart_directive (hdirs d hd)
    exact Node.all_mk (fun _ => hs) (by simp [all_wellNamed_name, hdirs])
  | @inline cond dirs ss hcond hdirs hne hss ih =>
    intro hn
    have hdirs := all_wellNamed_items hn (by simp) fun d hd => apart_directive (hdirs d hd)
    have hset := all_wellNamed_selectionSet fun n hmem =>
      ih n hmem (typed_selection hn (by simp) n hmem)
    have hcond : Slot.All WellNamed
        (.one (.ofOption (cond.map fun t => .namedType (nameIn t) none))) := by
      refine Slot.all_ofOption fun n hn => ?_
      obtain ⟨t, -, rfl⟩ := Option.mem_map.mp hn
      exact Node.all_mk (wellNamed_of_kind rfl) (by simp [all_wellNamed_name])
    exact Node.all_mk (wellNamed_of_kind rfl) (by simp [hcond, hdirs, hset])

theorem all_wellNamed_definition (h : IsDefinition S n) (hn : n.Typed) : n.All WellNamed := by
  cases h with
  | @operation op name vars dirs ss hname hvars hdirs hne hss =>
    have hname : Slot.All WellNamed (.one (.ofOption (name.map fun s => .name s none))) := by
      refine Slot.all_ofOption fun n hn => ?_
      obtain ⟨s, -, rfl⟩ := Option.mem_map.mp hn
      exact all_wellNamed_name s
    have hvars := all_wellNamed_items hn (by simp) fun v hv => apart_variableDefinition (hvars v hv)
    have hdirs := all_wellNamed_items hn (by simp) fun d hd => apart_directive (hdirs d hd)
    have hset := all_wellNamed_selectionSet fun n hmem =>
      all_wellNamed_selection (hss n hmem) (typed_selection hn (by simp) n hmem)
    exact Node.all_mk (wellNamed_of_kind rfl) (by simp [hname, hvars, hdirs, hset])
  | @fragment s t vars dirs ss hs hon hvars ht hdirs hne hss =>
    have hvars := all_wellNamed_items hn (by simp) fun v hv => apart_variableDefinition (hvars v hv)
    have hdirs := all_wellNamed_items hn (by simp) fun d hd => apart_directive (hdirs d hd)
    have hset := all_wellNamed_selectionSet fun n hmem =>
      all_wellNamed_selection (hss n hmem) (typed_selection hn (by simp) n hmem)
    have hcond : (Node.namedType (nameIn t) none).All WellNamed :=
      Node.all_mk (wellNamed_of_kind rfl) (by simp [all_wellNamed_name])
    exact Node.all_mk (fun _ => hs) (by simp [all_wellNamed_name, hvars, hcond, hdirs, hset])

theorem all_wellNamed_document (h : IsDocument S n) (hn : n.Typed) : n.All WellNamed := by
  obtain ⟨hds⟩ := h
  refine Node.all_mk (wellNamed_of_kind rfl) ?_
  rw [List.forall_mem_singleton]
  refine Slot.all_placed fun d hd => all_wellNamed_definition (hds d hd) (hn.child ?_)
  rw [Node.children_document]
  exact hd

end Phrases

/-- The name of a fragment is that of its clone. -/
theorem fragmentNameOf_cloneDeep {n : Node} (hn : n.typed = true)
    (hk : n.kind = .fragmentDefinition ∨ n.kind = .fragmentSpread) :
    fragmentNameOf n.cloneDeep = fragmentNameOf n := by
  rcases hk with hk | hk
  · obtain ⟨name, vars, cond, dirs, sel, l, rfl, -⟩ := Node.eq_fragmentDefinition_of_typed hn hk
    rw [Node.cloneDeep_mk]
    exact name.nameText_map_cloneDeep
  · obtain ⟨name, dirs, l, rfl, -⟩ := Node.eq_fragmentSpread_of_typed hn hk
    rw [Node.cloneDeep_mk]
    exact name.nameText_map_cloneDeep

/-- **Fragments and spreads in a text** have names of the language. -/
theorem all_wellNamed {text : String} {doc : Node} (h : parseDocument text = .ok doc) :
    doc.All WellNamed := by
  intro n hn hk
  have htyped := (whole_of_parseDocument h).typed
  have hclone := all_wellNamed_document (Written.Parser.isDocument_of_parseDocument h)
    htyped.cloneDeep n.cloneDeep (by rw [Node.labels_cloneDeep]; exact List.mem_map_of_mem hn)
  rw [← fragmentNameOf_cloneDeep (htyped n hn) hk]
  refine hclone ?_
  rwa [Node.kind_cloneDeep]

/-! ### Unknown fragments -/

/-- A problem about a spread of a fragment that the document does not define. -/
structure Unknown (doc spread : Node) (p : Problem) : Prop where
  kind : spread.kind = .fragmentSpread
  undefined : fragmentNameOf spread ∉ doc.fragments.map fragmentNameOf
  message : p.message = "Unknown fragment " ++ Text.quote (fragmentNameOf spread) ++ "."
  nodes : p.nodes = [namePlaceOf spread]

/-- No other rule reports in the name of the rule on spreads. -/
theorem Rule.eq_of_signs {r : Rule} {p : Problem} (h : r.Signs p)
    (hp : p.rule = Rule.knownFragmentNames.name) : r = .knownFragmentNames := by
  rw [Signs, hp] at h
  revert h
  cases r <;> decide

section Problems

variable {s : Option Schema} {doc : Node} (hdoc : doc.Typed)
  (hnamed : doc.All fun n => n.named = true)
  (hpresent : .null .fragmentDefinition ∉ doc.definitions)

include hdoc hnamed hpresent

/-- What the rule on spreads finds at a step is about the spread it enters. -/
theorem unknown_of_mem_act {st : Step} (hst : st.node ∈ doc.rose.labels) {memory : Memory}
    {p : Problem} (hp : p ∈ (act s doc st (.knownFragmentNames, memory)).problems) :
    Unknown doc st.node p := by
  cases st with
  | leave n above => cases hp
  | abandon n above => cases hp
  | enter n above =>
    rw [act, Rule.atEnter] at hp
    by_cases hk : n.kind = .fragmentSpread
    · obtain ⟨name, l', dirs, l, rfl⟩ :=
        eq_fragmentSpread_of_named (hdoc.below n hst) (hnamed n hst) hk
      rw [checkSpread_eq hdoc hnamed hpresent (coherent_alone _ _ _ _) rfl] at hp
      split_ifs at hp with hdefined
      · rw [withFragments_fields] at hp
        cases hp
      · rw [Context.report, withFragments_fields] at hp
        obtain rfl := List.mem_singleton.mp hp
        exact ⟨rfl, fun hmem => hdefined (List.contains_iff_mem.mpr hmem), rfl, rfl⟩
    · rw [Rule.onlyAt_checkSpread n _ hk] at hp
      cases hp

/-- **Every problem in the name of the rule on spreads** is about a spread of a fragment that is not
defined. -/
theorem exists_unknown_of_validate {rules : List Rule} {maxDepth : Int} {ps : List Problem}
    (hps : validate s doc rules maxDepth = some ps) :
    ∀ p ∈ ps, p.rule = Rule.knownFragmentNames.name →
      ∃ spread ∈ doc.rose.labels, Unknown doc spread p := by
  intro p hp hrule
  rw [validate_eq] at hps
  split_ifs at hps
  obtain rfl := Option.some.inj hps
  rcases List.mem_append.mp hp with hp | hp
  · obtain ⟨st, hst, r, -, memory, hact⟩ := exists_act_of_mem_found hp
    obtain rfl := Rule.eq_of_signs (signs_act st (r, memory) p hact) hrule
    exact ⟨st.node, hst, unknown_of_mem_act hdoc hnamed hpresent hst hact⟩
  · obtain ⟨n, -, rfl⟩ := Option.mem_map.mp (Option.mem_toList.mp hp)
    have hdepth : maxDepthRule ≠ Rule.knownFragmentNames.name := by decide
    exact absurd hrule hdepth

end Problems

end QueryCheck.Validation
