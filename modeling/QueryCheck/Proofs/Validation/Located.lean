import QueryCheck.Proofs.Validation.Appended
import QueryCheck.Proofs.Written.Queries

/-! # Problems are located

A document that was read from a text is whole and its fragments have names, so its validation has a
result, and every problem is about nodes of the document. Their locations are places of the text. A
problem has one if the words `on` of the inline fragments are spelled out; a string that says `on`
otherwise can hide the type behind it.

* `Location.LiesIn`: the line and the column of a location are those of a place in a text.
* `exists_nodes_of_validate`: every problem of a document is about nodes of it.
* `problems_located`: where the problems of a text are. -/

namespace QueryCheck.Syntax

/-- The line and the column of a location, both counted from one, are those of a place in a text: of
one of its characters or of the end of a line. -/
structure Location.LiesIn (text : List Char) (l : Location) : Prop where
  line_pos : 1 ≤ l.line
  line_le : l.line ≤ (Text.lines text).length
  column_pos : 1 ≤ l.column
  column_le : ∀ line, (Text.lines text)[(l.line - 1).toNat]? = some line →
    l.column ≤ line.length + 1

theorem Excerpt.liesIn_location (e : Excerpt) (i j : Nat) : (e.location i j).LiesIn e.chars := by
  have hline := e.line_location i j
  have hcolumn := e.column_location i j
  have hget := Text.getElem?_lines e.chars i
  obtain ⟨hlt, -⟩ := List.getElem?_eq_some_iff.mp hget
  refine ⟨by omega, by omega, by omega, fun line hline' => ?_⟩
  have hindex : ((e.location i j).line - 1).toNat = (e.chars.take i).count '\n' := by omega
  rw [hindex, hget] at hline'
  have hlength := congrArg List.length (Option.some.inj hline')
  rw [Text.lineAt, List.length_append] at hlength
  omega

/-- Places that hold nodes. -/
theorem exists_placed {P : Node → Prop} : ∀ {xs : List (Child Node)},
    (∀ x ∈ xs, ∃ m, x = .node m ∧ P m) → ∃ ms, xs = placed ms ∧ ∀ m ∈ ms, P m
  | [], _ => ⟨[], rfl, nofun⟩
  | _ :: xs, h => by
    obtain ⟨⟨m, rfl, hm⟩, hxs⟩ := List.forall_mem_cons.mp h
    obtain ⟨ms, rfl, hms⟩ := exists_placed hxs
    exact ⟨m :: ms, rfl, List.forall_mem_cons.mpr ⟨hm, hms⟩⟩

end QueryCheck.Syntax

namespace QueryCheck.Validation

open QueryCheck.Source (SpelledOut tokens)
open QueryCheck.Syntax
open QueryCheck.Typing (Resolvable resolvable_of_typeNamed)

/-- Such a place holds a node if the names of fragments are there. -/
theorem Shown.exists_node {n m : Node} {x : Child Node} (h : Shown m x)
    (hm : m ∈ n.rose.labels) (hnamed : m.named = true) : ∃ y ∈ n.rose.labels, x = .node y := by
  cases x with
  | node y => exact ⟨y, Node.labels_subset hm (h.below y rfl), rfl⟩
  | absent => cases h.filled hnamed
  | null k => cases h.filled hnamed

section Documents

variable (s : Option Schema) (rules : List Rule) (maxDepth : Int)

/-- **Every problem of a whole document is about nodes of it,** if its fragments have names and its
types can be resolved. -/
theorem exists_nodes_of_validate {ns : List Node} (l : Option Location)
    (hns : ∀ n ∈ ns, n.kind ∈ Family.definition.kinds ∧ n.Whole)
    (hnamed : ∀ n ∈ ns, n.All fun m => m.named = true)
    (htypes : Resolvable s (documentWith ns l)) :
    ∃ ps, validate s (documentWith ns l) rules maxDepth = some ps ∧
      ∀ p ∈ ps, ∃ ms, ms ≠ [] ∧ p.nodes = placed ms ∧
        ∀ m ∈ ms, ∃ n ∈ ns, m ∈ n.rose.labels := by
  have hshown : ∀ n ∈ ns, ∀ m ∈ n.rose.labels, ∀ x, Shown m x →
      ∃ y, x = .node y ∧ ∃ n ∈ ns, y ∈ n.rose.labels := by
    intro n hn m hm x hx
    obtain ⟨y, hy, rfl⟩ := hx.exists_node hm (hnamed n hn m hm)
    exact ⟨y, rfl, n, hn, hy⟩
  refine ⟨_, validate_documentWith s rules maxDepth ns l hns htypes, fun p hp => ?_⟩
  obtain ⟨hne, hnodes⟩ := about_route s rules maxDepth _ _ hshown p hp
  obtain ⟨ms, hms, hbelow⟩ := exists_placed hnodes
  exact ⟨ms, fun hnil => hne (by rw [hms, hnil]; rfl), hms, hbelow⟩

end Documents

/-- The locations of a problem that is about nodes. -/
theorem Problem.locations?_placed {p : Problem} {ms : List Node} (h : p.nodes = placed ms) :
    p.locations? = some (ms.filterMap Node.loc) := by
  have hall : (placed ms).mapM locationIn? = some (ms.map Node.loc) := by
    rw [placed, List.mapM_map]
    exact List.mapM_pure
  rw [locations?, h, hall]
  exact congrArg some (by rw [List.filterMap_map]; rfl)

/-- **The problems of a text are located in it.** The validation of a document that was read from a
text has a result, and the locations of its problems can be told: they are places of the text. If
every `on` behind dots is spelled out then every node below the document is located, and every
problem. -/
theorem problems_located {text : String} {doc : Node} (h : parseDocument text = .ok doc)
    (s : Option Schema) (rules : List Rule) (maxDepth : Int) :
    (SpelledOut text.toList (tokens text).tokens → ∀ n ∈ doc.children, ∀ m ∈ n.rose.labels,
      ∃ l, m.loc = some l ∧ l.LiesIn text.toList) ∧
    ∃ ps, validate s doc rules maxDepth = some ps ∧ ∀ p ∈ ps, ∃ ls, p.locations? = some ls ∧
      (∀ l ∈ ls, l.LiesIn text.toList) ∧
      (SpelledOut text.toList (tokens text).tokens → ls ≠ []) := by
  have hmarked := marked_parseDocument h
  have hliesIn : ∀ n ∈ doc.children, ∀ m ∈ n.rose.labels, ∀ l ∈ m.loc, l.LiesIn text.toList := by
    intro n hn m hm l hl
    obtain ⟨i, j, rfl, -⟩ := (hmarked n hn m hm).marks.1 l hl
    exact Excerpt.liesIn_location ⟨text.toList, .document⟩ i j
  have hlocated : SpelledOut text.toList (tokens text).tokens →
      ∀ n ∈ doc.children, ∀ m ∈ n.rose.labels, m.loc.isSome = true :=
    fun hspelled n hn m hm => (hmarked n hn m hm).marks.2 hspelled
  refine ⟨fun hspelled n hn m hm => ?_, ?_⟩
  · obtain ⟨l, hl⟩ := Option.isSome_iff_exists.mp (hlocated hspelled n hn m hm)
    exact ⟨l, hl, hliesIn n hn m hm l hl⟩
  · obtain ⟨ns, l, rfl, -, hns⟩ := read_parseDocument h
    rw [Node.children_document] at hmarked hliesIn hlocated
    obtain ⟨ps, hps, hnodes⟩ := exists_nodes_of_validate s rules maxDepth l
      (fun n hn => ⟨(hns n hn).kind_mem, (hns n hn).read.whole⟩)
      (fun n hn m hm => (hmarked n hn m hm).named)
      (resolvable_of_typeNamed s (Node.typeNamed_document fun n hn => (hns n hn).read.typeNamed))
    refine ⟨ps, hps, fun p hp => ?_⟩
    obtain ⟨ms, hne, hms, hbelow⟩ := hnodes p hp
    refine ⟨_, Problem.locations?_placed hms, fun l hl => ?_, fun hspelled hnil => ?_⟩
    · obtain ⟨m, hm, hl⟩ := List.mem_filterMap.mp hl
      obtain ⟨n, hn, hmem⟩ := hbelow m hm
      exact hliesIn n hn m hmem l hl
    · obtain ⟨m, ms, rfl⟩ := List.exists_cons_of_ne_nil hne
      obtain ⟨n, hn, hmem⟩ := hbelow m List.mem_cons_self
      have hnone := List.filterMap_eq_nil_iff.mp hnil m List.mem_cons_self
      have hsome := hlocated hspelled n hn m hmem
      rw [hnone] at hsome
      cases hsome

/-- An inline fragment with its `on` spelled out. -/
def plainFragment : String := "\x7b ... on T \x7b con \x7d \x7d"

/-- An inline fragment whose `on` is a string with an escape. The letters `on` first stand in the
name of the field, so the type is looked for behind it. -/
def hiddenFragment : String := "\x7b ... \"\\u006fn\" T \x7b con \x7d \x7d"

/-- The problems of a text that is read with a limit of four, without a schema. -/
def shallowProblems? (text : String) : Option (List Problem) :=
  (parseDocument text).toOption.bind fun doc => validate none doc [.knownTypeNames] 4

theorem exists_of_shallowProblems? {text : String} {ps : List Problem}
    (h : shallowProblems? text = some ps) :
    ∃ doc, parseDocument text = .ok doc ∧ validate none doc [.knownTypeNames] 4 = some ps := by
  unfold shallowProblems? at h
  cases hdoc : parseDocument text with
  | error e => simp [hdoc, Except.toOption] at h
  | ok doc => exact ⟨doc, rfl, by simpa [hdoc, Except.toOption] using h⟩

/-- The type of the fragment, which is nested too deep, is found where it stands. -/
theorem problems_located_plainFragment : ∃ doc p ls, parseDocument plainFragment = .ok doc ∧
    SpelledOut plainFragment.toList (tokens plainFragment).tokens ∧
    validate none doc [.knownTypeNames] 4 = some [p] ∧ p.locations? = some ls ∧ ls ≠ [] ∧
    ∀ l ∈ ls, l.LiesIn plainFragment.toList := by
  have hspelled : SpelledOut plainFragment.toList (tokens plainFragment).tokens := by decide +kernel
  have hlength : (shallowProblems? plainFragment).map List.length = some 1 := by decide +kernel
  obtain ⟨ps, hps, hone⟩ := Option.map_eq_some_iff.mp hlength
  obtain ⟨p, rfl⟩ := List.length_eq_one_iff.mp hone
  obtain ⟨doc, hdoc, hvalidate⟩ := exists_of_shallowProblems? hps
  obtain ⟨-, ps, hps, hlocated⟩ := problems_located hdoc none [.knownTypeNames] 4
  obtain rfl : [p] = ps := Option.some.inj (hvalidate.symm.trans hps)
  obtain ⟨ls, hls, hliesIn, hne⟩ := hlocated p List.mem_cons_self
  exact ⟨doc, p, ls, hdoc, hspelled, hvalidate, hls, hne hspelled, hliesIn⟩

/-- The same problem has no location if the `on` is hidden. -/
theorem problem_unlocated_hiddenFragment : ∃ doc p, parseDocument hiddenFragment = .ok doc ∧
    validate none doc [.knownTypeNames] 4 = some [p] ∧ p.locations? = some [] ∧
    ¬ SpelledOut hiddenFragment.toList (tokens hiddenFragment).tokens := by
  have hlocations : (shallowProblems? hiddenFragment).map (List.map Problem.locations?) =
      some [some []] := by decide +kernel
  obtain ⟨ps, hps, hone⟩ := Option.map_eq_some_iff.mp hlocations
  obtain ⟨p, rfl⟩ := List.length_eq_one_iff.mp (by simpa using congrArg List.length hone)
  obtain ⟨doc, hdoc, hvalidate⟩ := exists_of_shallowProblems? hps
  exact ⟨doc, p, hdoc, hvalidate, by simpa using hone, by decide +kernel⟩

end QueryCheck.Validation
