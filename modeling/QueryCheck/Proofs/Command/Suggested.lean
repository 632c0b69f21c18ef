import QueryCheck.Proofs.Command.Underlined
import QueryCheck.Proofs.Text.Ranked
import QueryCheck.Proofs.Validation.Spreads

/-! # Suggestions for unknown fragments

The help for an unknown fragment is found from the message: the name is read back from it, and the
nearest fragment of the document is offered. Names of the language are quoted as they are, so what
is read back is the name of the spread.

* `unknownFragment?_eq_some_iff`: which messages tell a name.
* `toList_quote_of_isName`, `unknownFragment?_message`: the message about a spread tells its name.
* `Check.exists_child_of_spread`, `Check.fragments_extended`: the spreads and the fragments behind
  which the definitions of a run stand.
* `escapedMarkAt_name`: no escaped mark stands where a name is.
* `help_unknownFragment`: the help for the problems about spreads. -/

namespace QueryCheck.Text

open QueryCheck.Source (IsName inName startsName isName_toList)

/-! ### Quoted names -/

theorem toNat_lt_of_inName {c : Char} (hc : inName c = true) : c.toNat < 128 := by
  have halpha : c.isAlpha = (decide (c.val ≥ 65 ∧ c.val ≤ 90) ||
      (decide (c.val ≥ 97) && decide (c.val ≤ 122))) := rfl
  have hdigit : c.isDigit = (decide (c.val ≥ 48) && decide (c.val ≤ 57)) := rfl
  rw [inName, startsName, halpha, hdigit] at hc
  simp only [Bool.or_eq_true, Bool.and_eq_true, decide_eq_true_eq, beq_iff_eq] at hc
  rcases hc with ((⟨-, hupper⟩ | ⟨-, hlower⟩) | rfl) | ⟨-, hdigit⟩
  · exact lt_of_le_of_lt (UInt32.le_iff_toNat_le.mp hupper) (by decide)
  · exact lt_of_le_of_lt (UInt32.le_iff_toNat_le.mp hlower) (by decide)
  · decide
  · exact lt_of_le_of_lt (UInt32.le_iff_toNat_le.mp hdigit) (by decide)

theorem quoteChar_of_inName {c : Char} (hc : inName c = true) :
    quoteChar c = [c] ∧ c ≠ '"' ∧ c ≠ '\\' := by
  have hall : ∀ n < 128, inName (.ofNat n) = true → quoteChar (.ofNat n) = [.ofNat n] ∧
      Char.ofNat n ≠ '"' ∧ Char.ofNat n ≠ '\\' := by
    decide +kernel
  have h := hall c.toNat (toNat_lt_of_inName hc)
  rw [Char.ofNat_toNat] at h
  exact h hc

/-- A name of the language is quoted as it is. -/
theorem toList_quote_of_isName {s : String} (h : IsName s) :
    (quote s).toList = '"' :: s.toList ++ ['"'] := by
  rw [quote, String.toList_ofList,
    List.flatMap_congr fun c hc => (quoteChar_of_inName (isName_toList h c hc)).1,
    List.flatMap_singleton']

end QueryCheck.Text

namespace QueryCheck.Command

open QueryCheck.Source (IsName StandsAt isName_toList)
open QueryCheck.Syntax
open QueryCheck.Text (Nearest nameDistance)
open QueryCheck.Validation

/-! ### Names in messages -/

/-- What stands in front of the name of an unknown fragment. -/
def opening : List Char := "Unknown fragment \"".toList

theorem takeWhile_ne_quote {name rest : List Char} (h : '"' ∉ name) :
    (name ++ '"' :: rest).takeWhile (· ≠ '"') = name := by
  have hname : ∀ c ∈ name, decide (c ≠ '"') = true := fun c hc =>
    decide_eq_true fun hquote => h (hquote ▸ hc)
  rw [List.takeWhile_append_of_pos hname, List.takeWhile_cons_of_neg (by simp), List.append_nil]

/-- What stands in front of the first quote of a text that has one. -/
theorem exists_quote_behind {cs : List Char} (h : (cs.takeWhile (· ≠ '"')).length ≠ cs.length) :
    ∃ rest, cs = cs.takeWhile (· ≠ '"') ++ '"' :: rest := by
  have hsplit := List.takeWhile_append_dropWhile (p := (· ≠ '"')) (l := cs)
  cases hrest : cs.dropWhile (· ≠ '"') with
  | nil =>
    rw [hrest, List.append_nil] at hsplit
    exact absurd (congrArg List.length hsplit) h
  | cons c rest =>
    have hhead := List.head?_dropWhile_not (· ≠ '"') cs
    rw [hrest] at hhead
    obtain rfl : c = '"' := by simpa using hhead
    exact ⟨rest, by rw [← hrest, hsplit]⟩

/-- **The messages that tell a name**: it stands between the opening and the next quote. -/
theorem unknownFragment?_eq_some_iff {message name : String} :
    unknownFragment? message = some name ↔ name ≠ "" ∧ '"' ∉ name.toList ∧
      ∃ rest, message.toList = opening ++ (name.toList ++ '"' :: rest) := by
  have hopening : "Unknown fragment \"".toList = opening := rfl
  rw [unknownFragment?]
  simp only [hopening]
  constructor
  · intro h
    split_ifs at h with hprefix hname
    obtain ⟨cs, hcs⟩ := List.isPrefixOf_iff_prefix.mp hprefix
    rw [← hcs, List.drop_left] at h hname
    simp only [Bool.or_eq_true, decide_eq_true_eq, not_or] at hname
    obtain ⟨rest, hrest⟩ := exists_quote_behind hname.2
    obtain rfl := Option.some.inj h
    rw [String.toList_ofList, ← hcs]
    refine ⟨fun hempty => hname.1 ?_, fun hquote => ?_, rest, congrArg (opening ++ ·) hrest⟩
    · rw [String.ofList_eq_empty_iff] at hempty
      rw [hempty]
      rfl
    · simpa using List.mem_takeWhile_imp hquote
  · rintro ⟨hne, hquote, rest, hrest⟩
    have hprefix : opening.isPrefixOf message.toList = true :=
      List.isPrefixOf_iff_prefix.mpr ⟨_, hrest.symm⟩
    rw [if_pos hprefix, hrest, List.drop_left, takeWhile_ne_quote hquote, if_neg, String.ofList_toList]
    simp [hne]

/-- **The message about a spread tells its name.** -/
theorem unknownFragment?_message {name : String} (h : IsName name) :
    unknownFragment? ("Unknown fragment " ++ Text.quote name ++ ".") = some name := by
  have hopening : opening = "Unknown fragment ".toList ++ ['"'] := by decide
  refine unknownFragment?_eq_some_iff.mpr ⟨?_, fun hquote => ?_, ['.'], ?_⟩
  · obtain ⟨c, cs, hcs, -⟩ := h
    rintro rfl
    cases hcs
  · exact (Text.quoteChar_of_inName (isName_toList h _ hquote)).2.1 rfl
  · rw [String.toList_append, String.toList_append, Text.toList_quote_of_isName h, hopening]
    simp only [List.append_assoc, List.cons_append, List.nil_append]
    rfl

/-! ### Fragments that may be meant -/

theorem fragmentNames_eq {doc : Node} (hdoc : doc.Typed) :
    fragmentNames doc = doc.fragments.map fragmentNameOf := by
  refine List.map_congr_left fun f hf => ?_
  obtain ⟨hchild, hk⟩ := mem_children_of_mem_definitionsOf hf
  obtain ⟨name, vars, cond, dirs, sel, l, rfl, -⟩ :=
    Node.eq_fragmentDefinition_of_typed (hdoc.child hchild).typed hk
  rfl

/-- The fragment that may be meant by a name is looked for among the names of the document. -/
theorem meantFragment?_eq {p : Problem} (hrule : p.rule = Rule.knownFragmentNames.name) {name : String}
    (hname : unknownFragment? p.message = some name) (doc : Node) :
    meantFragment? (.ofProblem p) (some doc) = Text.closest? name (fragmentNames doc) 5 := by
  have hguard : (Finding.ofProblem p).rule = Rule.knownFragmentNames.name := hrule
  have hmessage : unknownFragment? (Finding.ofProblem p).message = some name := hname
  rw [meantFragment?, hmessage, guard, if_pos hguard]
  rfl

/-! ### Documents with definitions behind them -/

namespace Check

variable {c : Check} (hdefs : ReadDefinitions c.definitions) {text : String} {doc : Node}
  (hdoc : parseDocument text = .ok doc)

include hdefs hdoc

theorem whole_extended : (c.extended doc).Whole := by
  obtain ⟨ns, l, -, hextended, hwhole, -, -⟩ := exists_extended hdefs hdoc
  rw [hextended]
  exact Node.whole_document hwhole

theorem all_named_extended : (c.extended doc).All fun n => n.named = true := by
  obtain ⟨ns, l, -, hextended, -, hnamed, -⟩ := exists_extended hdefs hdoc
  rw [hextended]
  exact Node.all_mk rfl (List.forall_mem_singleton.mpr (Slot.all_placed hnamed))

theorem resolvable_extended : Typing.Resolvable c.schema (c.extended doc) := by
  obtain ⟨ns, l, -, hextended, -, -, htypes⟩ := exists_extended hdefs hdoc
  rw [hextended]
  exact htypes

/-- No place of the document is left empty. -/
theorem null_not_mem_extended : .null .fragmentDefinition ∉ (c.extended doc).definitions := by
  obtain ⟨ns, l, -, hextended, -⟩ := exists_extended hdefs hdoc
  rw [hextended]
  simp [Node.definitions]

/-- The definitions of a run add no fragments. -/
theorem fragments_extended : (c.extended doc).fragments = doc.fragments := by
  obtain ⟨ns, l, rfl, hextended, -⟩ := exists_extended hdefs hdoc
  have hfragments : ∀ ns, (documentWith ns l).fragments =
      ns.filter fun d => d.kind == .fragmentDefinition := by
    intro ns
    simp [Node.fragments, Node.definitionsOf, Node.definitions, List.filterMap_map, Child.toOption,
      Function.comp_def]
  have hnone : (c.definitions.filter fun d => d.kind == .fragmentDefinition) = [] :=
    List.filter_eq_nil_iff.mpr fun d hd => by simp [(hdefs d hd).1]
  rw [hextended, hfragments, hfragments, List.filter_append, hnone, List.append_nil]

/-- The definitions of a run add no spreads. -/
theorem exists_child_of_spread {spread : Node} (hmem : spread ∈ (c.extended doc).rose.labels)
    (hk : spread.kind = .fragmentSpread) : ∃ n ∈ doc.children, spread ∈ n.rose.labels := by
  obtain ⟨ns, l, rfl, hextended, -⟩ := exists_extended hdefs hdoc
  rw [hextended, Node.labels_eq, Node.children_document] at hmem
  rw [Node.children_document]
  rcases List.mem_cons.mp hmem with rfl | hmem
  · cases hk
  · obtain ⟨n, hn, hbelow⟩ := List.mem_flatMap.mp hmem
    rcases List.mem_append.mp hn with hn | hd
    · exact ⟨n, hn, hbelow⟩
    · have hdefinitional :=
        definitional_of_mem_labels (hdefs n hd).1 (hdefs n hd).2.whole spread hbelow
      rw [hk] at hdefinitional
      cases hdefinitional

end Check

/-! ### Where names stand -/

/-- **No escaped mark stands where a name is.** -/
theorem escapedMarkAt_name {text name : String} (hname : IsName name) {i : Nat}
    (hstands : StandsAt text.toList name i) {l : Location} {j : Nat}
    (hl : l = (Excerpt.mk text.toList .document).location i j) :
    escapedMarkAt text ⟨l.line, l.column⟩ = false := by
  have hline : l.line = (text.toList.take i).count '\n' + 1 := hl ▸ Excerpt.line_location ..
  have hcolumn : l.column = (Text.lastLine (text.toList.take i)).length + 1 :=
    hl ▸ Excerpt.column_location ..
  have hindex : (l.line - 1).toNat = (text.toList.take i).count '\n' := by omega
  have hoffset : (l.column - 1).toNat = (Text.lastLine (text.toList.take i)).length := by omega
  have hbounds : ¬ (l.line < 1 ∨ l.column < 1) := by omega
  -- What stands there starts with the first character of the name.
  obtain ⟨c, cs, hcs, -⟩ := id hname
  obtain ⟨rest, hrest⟩ := hstands
  have hinName : Source.inName c = true := isName_toList hname c (by rw [hcs]; simp)
  have hslash : c ≠ '\\' := (Text.quoteChar_of_inName hinName).2.2
  have hbreak : c ≠ '\n' := by
    rintro rfl
    cases hinName
  have hdrop : (Text.lineAt text.toList i).drop (Text.lastLine (text.toList.take i)).length =
      c :: (cs ++ rest).takeWhile (· ≠ '\n') := by
    rw [Text.lineAt, List.drop_left, ← hrest, hcs, List.cons_append,
      List.takeWhile_cons_of_pos (by simpa using hbreak)]
  rw [escapedMarkAt, if_neg (by simpa using hbounds), hindex, Text.getElem?_lines]
  refine decide_eq_false fun htake => hslash ?_
  rw [hoffset, hdrop, List.take_succ_cons] at htake
  exact (List.cons.inj htake).1

/-! ### The help -/

/-- What is told about a problem with a spread in a document. -/
structure Advises (c : Check) (s : Source) (doc spread : Node) (p : Problem) : Prop where
  kept : p ∈ c.problems doc
  name : unknownFragment? p.message = some (fragmentNameOf spread)
  meant (name : String) : meantFragment? (.ofProblem p) (c.document s).document = some name ↔
    Nearest (fragmentNameOf spread) (doc.fragments.map fragmentNameOf) name ∧
      nameDistance (fragmentNameOf spread) name ≤ 5
  offered : (∃ name, meantFragment? (.ofProblem p) (c.document s).document = some name) ↔
    ∃ f ∈ doc.fragments, nameDistance (fragmentNameOf spread) (fragmentNameOf f) ≤ 5
  help : (c.document s).help (.ofProblem p) =
    (meantFragment? (.ofProblem p) (c.document s).document).toList.map
      fun name => "did you mean `" ++ name ++ "`?"

section Help

variable {c : Check} {s : Source} {doc spread : Node} {p : Problem}

/-- The problem is about the name of the spread, which is a node of the document. -/
theorem exists_name_of_unknown (hdoc : parseDocument s.text = .ok doc) {above n : Node}
    (hn : n ∈ doc.children) (hbelow : spread ∈ n.rose.labels) (h : Unknown above spread p) :
    ∃ l, p.nodes = placed [.name (fragmentNameOf spread) l] ∧
      .name (fragmentNameOf spread) l ∈ n.rose.labels := by
  have htyped := (whole_of_parseDocument hdoc).typed.below spread
    (Node.mem_labels_of_child hn spread hbelow)
  have hnamed := (marked_parseDocument hdoc n hn spread hbelow).named
  obtain ⟨name, l, dirs, l', rfl⟩ := eq_fragmentSpread_of_named htyped hnamed h.kind
  have hchild : Node.name name l ∈ (Node.fragmentSpread (.node (.name name l)) dirs l').children :=
    Node.mem_children_mk.mpr ⟨.one (.node (.name name l)), by simp, by simp⟩
  exact ⟨l, h.nodes, Node.labels_subset hbelow
    (Node.mem_labels_of_child hchild _ (Node.mem_labels_self _))⟩

/-- A problem that is about a name in the document is kept, and no escaped mark stands where it
is. -/
theorem kept_of_name (hdoc : parseDocument s.text = .ok doc) {n : Node} (hn : n ∈ doc.children)
    {name : String} (hname : IsName name) {l : Option Location}
    (hbelow : .name name l ∈ n.rose.labels) (hnodes : p.nodes = placed [.name name l]) :
    inDefinitions p = false ∧
      ((Finding.ofProblem p).places.head?.map (escapedMarkAt s.text)).getD false = false := by
  obtain ⟨hmarks, -, hstands⟩ := marked_parseDocument hdoc n hn _ hbelow
  have hlocation : firstLocation? p = l := by
    rw [firstLocation?, hnodes]
    cases l <;> rfl
  have hplaces : (Finding.ofProblem p).places = l.toList.map fun l => ⟨l.line, l.column⟩ := by
    rw [Finding.ofProblem, Problem.locations?_placed hnodes]
    cases l <;> rfl
  rw [inDefinitions, hlocation, hplaces]
  cases l with
  | none => exact ⟨rfl, rfl⟩
  | some l =>
    obtain ⟨i, hi, hl⟩ := hstands name l rfl
    refine ⟨?_, escapedMarkAt_name hname hi hl⟩
    rw [hl]
    rfl

end Help

/-- **The help for an unknown fragment is found from the right name.** A document that was read is
validated together with the definitions of the run. Every problem in the name of the rule on spreads
is about a spread in the document of a fragment that is not defined. It is kept, and its message
tells the name of the spread. A fragment is offered if and only if one is defined whose name is at a
distance of five at most: the first of the nearest ones. -/
theorem help_unknownFragment (c : Check) (definitionsText : String)
    (hdefs : parseDirectiveDefinitions definitionsText = .ok c.definitions) (s : Source) (doc : Node)
    (hdoc : parseDocument s.text = .ok doc) :
    ∃ ps, validate c.schema (c.extended doc) c.rules c.maxDepth = some ps ∧
      ∀ p ∈ ps, p.rule = Rule.knownFragmentNames.name →
        ∃ spread ∈ doc.rose.labels, Unknown doc spread p ∧ Advises c s doc spread p := by
  have hread := read_parseDirectiveDefinitions hdefs
  have hwhole := Check.whole_extended hread hdoc
  have htypes := Check.resolvable_extended hread hdoc
  have hfragments := Check.fragments_extended hread hdoc
  have hdocument : (c.document s).document = some (c.extended doc) := by
    rw [Check.document, hdoc]
  have hsource : (c.document s).source = s := by
    rw [Check.document, hdoc]
  refine ⟨_, validate_of_whole c.schema hwhole htypes c.rules c.maxDepth, fun p hp hrule => ?_⟩
  have hrun : p ∈ c.run (c.extended doc) := by
    rw [Check.run, validate_of_whole c.schema hwhole htypes]
    exact hp
  obtain ⟨spread, hlabel, hunknown⟩ := exists_unknown_of_validate hwhole.typed
    (Check.all_named_extended hread hdoc) (Check.null_not_mem_extended hread hdoc)
    (validate_of_whole c.schema hwhole htypes c.rules c.maxDepth) p hp hrule
  obtain ⟨n, hn, hbelow⟩ := Check.exists_child_of_spread hread hdoc hlabel hunknown.kind
  have hmem : spread ∈ doc.rose.labels := Node.mem_labels_of_child hn spread hbelow
  have hname : IsName (fragmentNameOf spread) := all_wellNamed hdoc spread hmem (.inr hunknown.kind)
  have htold : unknownFragment? p.message = some (fragmentNameOf spread) := by
    rw [hunknown.message]
    exact unknownFragment?_message hname
  obtain ⟨l, hnodes, hplace⟩ := exists_name_of_unknown hdoc hn hbelow hunknown
  obtain ⟨hkept, hmark⟩ := kept_of_name hdoc hn hname hplace hnodes
  have hmeant : meantFragment? (.ofProblem p) (c.document s).document =
      Text.closest? (fragmentNameOf spread) (doc.fragments.map fragmentNameOf) 5 := by
    rw [hdocument, meantFragment?_eq hrule htold, fragmentNames_eq hwhole.typed, hfragments]
  refine ⟨spread, hmem, ⟨hunknown.kind, ?_, hunknown.message, hunknown.nodes⟩, ?_, htold, ?_, ?_, ?_⟩
  · rw [← hfragments]
    exact hunknown.undefined
  · exact List.mem_filter.mpr ⟨hrun, by rw [hkept]; rfl⟩
  · intro name
    rw [hmeant, Text.closest?_eq_some_iff]
    norm_cast
  · rw [hmeant, Text.exists_closest?_iff]
    simp only [List.mem_map, exists_exists_and_eq_and]
    norm_cast
  · rw [Verdict.help, hsource, hmark, Bool.and_false, if_neg Bool.false_ne_true]
    cases meantFragment? (.ofProblem p) (c.document s).document <;> rfl

/-- A fragment with two spreads of fragments that are not defined: one with its own name misspelled,
and one with a name far from it. -/
def misspelledFragment : String := "fragment UserFields on User \x7b ...UserFeilds ...Avatar \x7d"

/-- The fragment is offered for the misspelled name, and none for the other. -/
theorem help_unknownFragment_misspelledFragment : ∃ (c : Check) (doc : Node) (near far : Problem),
    parseDirectiveDefinitions "directive @d on FIELD" = .ok c.definitions ∧
    c.definitions.length = 1 ∧ parseDocument misspelledFragment = .ok doc ∧
    c.problems doc = [near, far] ∧
    (c.document ⟨"q.graphql", misspelledFragment⟩).help (.ofProblem near) =
      ["did you mean `UserFields`?"] ∧
    (c.document ⟨"q.graphql", misspelledFragment⟩).help (.ofProblem far) = [] := by
  obtain ⟨defs, doc, hdefs, hdoc, hfacts⟩ := exists_parsed "directive @d on FIELD" misspelledFragment
    (f := fun defs doc => (defs.length, doc.fragments.map fragmentNameOf,
      ((plainCheck defs).problems doc).map fun p => (p.rule, unknownFragment? p.message)))
    (b := (1, ["UserFields"], [("KnownFragmentNames", some "UserFeilds"),
      ("KnownFragmentNames", some "Avatar")])) (by decide +kernel)
  simp only [Prod.mk.injEq] at hfacts
  obtain ⟨hlength, hfragments, hproblems⟩ := hfacts
  obtain ⟨ps, hps, hadvises⟩ := help_unknownFragment (plainCheck defs) _ hdefs
    ⟨"q.graphql", misspelledFragment⟩ doc hdoc
  have hspread : ∀ p ∈ (plainCheck defs).problems doc, ∀ name,
      (p.rule, unknownFragment? p.message) = ("KnownFragmentNames", some name) → ∃ spread,
        fragmentNameOf spread = name ∧
        Advises (plainCheck defs) ⟨"q.graphql", misspelledFragment⟩ doc spread p := by
    intro p hp name hfact
    obtain ⟨hrule, hname⟩ := Prod.mk.inj hfact
    have hmem : p ∈ ps := by
      have hrun := (List.mem_filter.mp hp).1
      rwa [Check.run, hps] at hrun
    obtain ⟨spread, -, -, hadvice⟩ := hadvises p hmem hrule
    exact ⟨spread, Option.some.inj (hadvice.name.symm.trans hname), hadvice⟩
  obtain ⟨near, ps', hcons, hnear, hrest⟩ := List.map_eq_cons_iff.mp hproblems
  obtain ⟨far, hsingle, hfar⟩ := List.map_eq_singleton_iff.mp hrest
  rw [hsingle] at hcons
  rw [hcons] at hspread
  obtain ⟨spread, hname, hadvice⟩ := hspread near (by simp) _ hnear
  obtain ⟨spread', hname', hadvice'⟩ := hspread far (by simp) _ hfar
  refine ⟨plainCheck defs, doc, near, far, hdefs, hlength, hdoc, hcons, ?_, ?_⟩
  · have hmeant := (hadvice.meant "UserFields").mpr <| by
      rw [hname, hfragments]
      exact ⟨⟨[], [], rfl, by simp, by simp⟩, by decide +kernel⟩
    rw [hadvice.help, hmeant]
    rfl
  · have hnone : ¬ ∃ f ∈ doc.fragments, nameDistance (fragmentNameOf spread') (fragmentNameOf f) ≤ 5 := by
      rintro ⟨f, hf, hle⟩
      have hmem : fragmentNameOf f ∈ doc.fragments.map fragmentNameOf := List.mem_map_of_mem hf
      rw [hfragments, List.mem_singleton] at hmem
      rw [hname', hmem] at hle
      revert hle
      decide +kernel
    rw [← hadvice'.offered, ← Option.isSome_iff_exists, Option.not_isSome_iff_eq_none] at hnone
    rw [hadvice'.help, hnone]
    rfl

end QueryCheck.Command
