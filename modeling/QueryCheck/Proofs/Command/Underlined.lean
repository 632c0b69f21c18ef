import QueryCheck.Proofs.Command.Verdicts
import QueryCheck.Proofs.Report.Underline
import QueryCheck.Proofs.Validation.Located

/-! # Reports underline the node they are about

The report of a text is made of the reports of its problems. A problem that is kept for a document
is about nodes of the document, and the first of them that is located tells what is shown: the line
on which it starts, and carets under it.

* `firstLocated?`: the first node of a problem that is located.
* `Check.exists_extended`: a document with the definitions of a run behind its own.
* `Check.exists_below_of_kept`: the node that is shown is a node of the document.
* `Verdict.text_eq`: the reports a verdict is made of.
* `report_underlines`: what the report of a problem shows. -/

namespace QueryCheck.Command

open QueryCheck.Report
open QueryCheck.Syntax
open QueryCheck.Validation

/-! ### The node that is shown -/

/-- The first node of a problem that is located. -/
def firstLocated? (p : Problem) : Option Node :=
  (p.nodes.filterMap Child.toOption).find? fun n => n.loc.isSome

theorem exists_loc_of_firstLocated? {p : Problem} {n : Node} (h : firstLocated? p = some n) :
    ∃ l, n.loc = some l := by
  have hloc := List.find?_some h
  exact Option.isSome_iff_exists.mp hloc

theorem findSome?_loc {n : Node} : ∀ xs : List (Child Node),
    ((xs.filterMap Child.toOption).find? fun n => n.loc.isSome) = some n →
    xs.findSome? (fun c => c.toOption.bind Node.loc) = n.loc
  | .absent :: xs, h => findSome?_loc xs h
  | .null _ :: xs, h => findSome?_loc xs h
  | .node m :: xs, h => by
    have hcons : (Child.node m :: xs).filterMap Child.toOption = m :: xs.filterMap Child.toOption :=
      rfl
    rw [hcons, List.find?_cons] at h
    rw [List.findSome?_cons]
    cases hm : m.loc with
    | none =>
      rw [hm] at h
      have hnone : (Child.node m).toOption.bind Node.loc = none := hm
      rw [hnone]
      exact findSome?_loc xs h
    | some l =>
      rw [hm] at h
      obtain rfl := Option.some.inj h
      have hsome : (Child.node m).toOption.bind Node.loc = some l := hm
      rw [hsome, hm]

theorem firstLocation?_eq {p : Problem} {n : Node} (h : firstLocated? p = some n) :
    firstLocation? p = n.loc := findSome?_loc p.nodes h

/-- The fragments of directive definitions have names, as there are none. -/
theorem named_definitions {d : Node} (hk : d.kind = .directiveDefinition) (h : d.Whole) :
    d.All fun m => m.named = true := by
  have hkinds : ∀ k, definitional k = true → k ∉ [.fragmentSpread, .fragmentDefinition] := by
    intro k
    cases k <;> decide
  exact fun m hm => Node.named_of_kind (hkinds _ (definitional_of_mem_labels hk h m hm))

/-- A document with the definitions of a run behind its own: all of them are whole, and their
fragments and types have names. -/
theorem Check.exists_extended {c : Check} (hdefs : ReadDefinitions c.definitions) {text : String}
    {doc : Node} (hdoc : parseDocument text = .ok doc) : ∃ ns l, doc = .document (placed ns) l ∧
    c.extended doc = documentWith (ns ++ c.definitions) l ∧
    (∀ n ∈ ns ++ c.definitions, n.kind ∈ Family.definition.kinds ∧ n.Whole) ∧
    (∀ n ∈ ns ++ c.definitions, n.All fun m => m.named = true) ∧
    Typing.Resolvable c.schema (documentWith (ns ++ c.definitions) l) := by
  have hmarked := marked_parseDocument hdoc
  obtain ⟨ns, l, rfl, -, hns⟩ := read_parseDocument hdoc
  rw [Node.children_document] at hmarked
  refine ⟨ns, l, rfl, c.extended_document ns l, ?_, ?_, ?_⟩
  · exact List.forall_mem_append.mpr ⟨fun n hn => ⟨(hns n hn).kind_mem, (hns n hn).read.whole⟩,
      fun d hd => ⟨by rw [(hdefs d hd).1]; decide, (hdefs d hd).2.whole⟩⟩
  · exact List.forall_mem_append.mpr ⟨fun n hn m hm => (hmarked n hn m hm).named,
      fun d hd => named_definitions (hdefs d hd).1 (hdefs d hd).2.whole⟩
  · exact Typing.resolvable_of_typeNamed _ (Node.typeNamed_document (List.forall_mem_append.mpr
      ⟨fun n hn => (hns n hn).read.typeNamed, fun d hd => (hdefs d hd).2.typeNamed⟩))

/-- **The problems that are kept for a document** are about nodes, the first located of which is a
node of the document. -/
theorem Check.exists_below_of_kept {c : Check} (hdefs : ReadDefinitions c.definitions) {text : String}
    {doc : Node} (hdoc : parseDocument text = .ok doc) :
    ∀ p ∈ c.problems doc, (∃ ms, p.nodes = placed ms) ∧
      ∀ n, firstLocated? p = some n → ∃ m ∈ doc.children, n ∈ m.rose.labels := by
  intro p hp
  obtain ⟨hrun, hkept⟩ := List.mem_filter.mp hp
  obtain ⟨ns, l, rfl, hextended, hwhole, hnamed, htypes⟩ := Check.exists_extended hdefs hdoc
  rw [Node.children_document]
  obtain ⟨ps, hps, hnodes⟩ :=
    exists_nodes_of_validate c.schema c.rules c.maxDepth l hwhole hnamed htypes
  rw [Check.run, hextended, hps] at hrun
  obtain ⟨ms, -, hms, hbelow⟩ := hnodes p hrun
  refine ⟨⟨ms, hms⟩, fun n hn => ?_⟩
  have hmem := List.mem_of_find?_eq_some hn
  rw [hms, List.filterMap_map] at hmem
  obtain ⟨m, hm, hmem⟩ := hbelow n (by simpa [Child.toOption] using hmem)
  rcases List.mem_append.mp hm with hm | hm
  · exact ⟨m, hm, hmem⟩
  · -- A node of the definitions is located there, and then the problem is not kept.
    obtain ⟨l, hl⟩ := exists_loc_of_firstLocated? hn
    have horigin := ((hdefs m hm).2 n hmem).2.2 l hl
    rw [inDefinitions, firstLocation?_eq hn, hl] at hkept
    simp [horigin] at hkept

/-! ### Reports -/

namespace Verdict

/-- The report of a problem. -/
def reportOf (v : Verdict) (p : Problem) : String :=
  (v.diagnostic (.ofProblem p)).render v.source.text

theorem foldl_reports (v : Verdict) (fs : List Finding) : ∀ report : String,
    fs.foldl (fun report f => report ++ (v.diagnostic f).render v.source.text ++ "\n") report =
      report ++ String.join (fs.map fun f => (v.diagnostic f).render v.source.text ++ "\n") := by
  induction fs with
  | nil => simp
  | cons f fs ih =>
    intro report
    rw [List.foldl_cons, ih, List.map_cons, String.join_cons, String.append_assoc,
      String.append_assoc, String.append_assoc]

theorem text_eq (v : Verdict) : v.text = v.heading ++
    String.join (v.findings.map fun f => (v.diagnostic f).render v.source.text ++ "\n") :=
  foldl_reports v v.findings v.heading

end Verdict

/-- The place and the span of a problem are those of its first located node. -/
theorem ofProblem_located {p : Problem} {ms : List Node} (hms : p.nodes = placed ms) {n : Node}
    {l : Location} (hn : firstLocated? p = some n) (hl : n.loc = some l) :
    (Finding.ofProblem p).places.head? = some ⟨l.line, l.column⟩ ∧
      (Finding.ofProblem p).span = l.stop - l.start := by
  have hfirst : firstLocation? p = some l := by rw [firstLocation?_eq hn, hl]
  have hhead : (ms.filterMap Node.loc).head? = some l := by
    rw [List.head?_filterMap, ← hfirst, firstLocation?, hms, List.findSome?_map]
    rfl
  refine ⟨?_, ?_⟩
  · rw [Finding.ofProblem, Problem.locations?_placed hms]
    simp [hhead]
  · rw [Finding.ofProblem, hfirst]

/-- The report of a problem that is about a stretch of the text. -/
theorem Verdict.reportOf_located (v : Verdict) {p : Problem} {ms : List Node}
    (hms : p.nodes = placed ms) {n : Node} {e : Excerpt} (he : e.chars = v.source.text.toList)
    {start stop : Nat} (hlt : start < stop) (hstop : stop ≤ e.chars.length)
    (hn : firstLocated? p = some n) (hl : n.loc = some (e.location start stop)) :
    ∃ rest, shownLine e.chars start = shownBefore e.chars start ++ clipped e.chars start stop ++ rest ∧
      v.reportOf p =
        location v.source.name (e.location start stop).line (e.location start stop).column ++ "\n"
          ++ (underlinedLine (toString (e.location start stop).line) (shownBefore e.chars start)
            (clipped e.chars start stop) rest ++ messageBehind p.message)
          ++ (v.diagnostic (.ofProblem p)).helpText := by
  obtain ⟨hplace, hspan⟩ := ofProblem_located hms hn hl
  set d := v.diagnostic (.ofProblem p) with hd
  have hline : d.line = (e.location start stop).line := by
    rw [hd, diagnostic, hplace]
    rfl
  have hcolumn : d.column = (e.location start stop).column := by
    rw [hd, diagnostic, hplace]
    rfl
  have hlength : d.length = stop - start := by
    have hpos : 0 < (stop : Int) - start := by omega
    rw [hd, diagnostic, hspan]
    exact if_pos hpos
  rw [he] at hstop ⊢
  rw [← hline, ← hcolumn]
  refine render_stretch (d := d) hlt hstop ?_ ?_ hlength
  · rw [hline, Excerpt.line_location, he]
  · rw [hcolumn, Excerpt.column_location, he]

/-- **Reports underline the nodes they are about.** The report of a document is made of the reports
of the problems that are kept for it. The first node of a problem that is located is a stretch of
the text; the report shows the line on which it starts, without a carriage return at the end and
with blanks for tabs, and carets stand under the part of the stretch on this line. This part is the
text of the node if it is a name on one line. -/
theorem report_underlines (c : Check) (definitionsText : String)
    (hdefs : parseDirectiveDefinitions definitionsText = .ok c.definitions) (s : Source) (doc : Node)
    (hdoc : parseDocument s.text = .ok doc) :
    (c.document s).text = (c.document s).heading ++
      String.join ((c.problems doc).map fun p => (c.document s).reportOf p ++ "\n") ∧
    ∀ p ∈ c.problems doc, ∀ n, firstLocated? p = some n → ∃ (l : Location) (start stop : Nat)
      (rest : List Char), n.loc = some l ∧ l.start = start ∧ l.stop = stop ∧ start < stop ∧
      stop ≤ s.text.toList.length ∧
      shownLine s.text.toList start =
        shownBefore s.text.toList start ++ clipped s.text.toList start stop ++ rest ∧
      (c.document s).reportOf p = location s.name l.line l.column ++ "\n"
        ++ (underlinedLine (toString l.line) (shownBefore s.text.toList start)
          (clipped s.text.toList start stop) rest ++ messageBehind p.message)
        ++ ((c.document s).diagnostic (.ofProblem p)).helpText ∧
      ∀ value, n = .name value (some l) → stop ≤ shownEnd s.text.toList start →
        clipped s.text.toList start stop = value.toList := by
  have hdocument : c.document s = ⟨s, some (c.extended doc), (c.problems doc).map .ofProblem⟩ := by
    rw [Check.document, hdoc]
  have hsource : (c.document s).source = s := by rw [hdocument]
  refine ⟨?_, fun p hp n hn => ?_⟩
  · rw [Verdict.text_eq, hdocument, List.map_map]
    rfl
  · obtain ⟨⟨ms, hms⟩, hbelow⟩ :=
      Check.exists_below_of_kept (read_parseDirectiveDefinitions hdefs) hdoc p hp
    obtain ⟨m, hm, hmem⟩ := hbelow n hn
    obtain ⟨hmarks, -, hname⟩ := marked_parseDocument hdoc m hm n hmem
    obtain ⟨l, hl⟩ := exists_loc_of_firstLocated? hn
    obtain ⟨start, stop, rfl, hlt, hstop⟩ := hmarks.1 l hl
    obtain ⟨rest, hrest, hreport⟩ := (c.document s).reportOf_located hms
      (e := ⟨s.text.toList, .document⟩) (by rw [hsource]) hlt hstop hn hl
    rw [hsource] at hreport
    refine ⟨_, start, stop, rest, hl, rfl, rfl, hlt, hstop, hrest, hreport, fun value heq hend => ?_⟩
    obtain ⟨i, hstands, hplace⟩ := hname value _ heq
    obtain ⟨rfl, rfl⟩ : start = i ∧ stop = i + value.length := by
      have hstart := congrArg Location.start hplace
      have hstop := congrArg Location.stop hplace
      simp only [Excerpt.location] at hstart hstop
      omega
    rw [clipped_of_le hend, List.drop_take, Nat.add_sub_cancel_left, ← String.length_toList]
    exact (List.prefix_iff_eq_take.mp hstands).symm

/-- What documents are checked with by default, without a schema. -/
def plainCheck (definitions : List Node) : Check where
  schema := none
  definitions
  rules := Rule.specified
  maxDepth := Walk.defaultMaxDepth

/-- The text and the location of the first located node of every problem, where it is a name. -/
def shownNames (c : Check) (doc : Node) : List (Option (String × Option Location)) :=
  (c.problems doc).map fun p => (firstLocated? p).bind fun
    | .name value l => some (value, l)
    | _ => none

theorem exists_name_of_shownNames {c : Check} {doc : Node} {value : String} {l : Location}
    (h : shownNames c doc = [some (value, some l)]) :
    ∃ p, c.problems doc = [p] ∧ firstLocated? p = some (.name value (some l)) := by
  obtain ⟨p, hp, hname⟩ := List.map_eq_singleton_iff.mp h
  obtain ⟨n, hn, hname⟩ := Option.bind_eq_some_iff.mp hname
  refine ⟨p, hp, hn.trans ?_⟩
  split at hname
  · cases hname
    rfl
  · cases hname

/-- A spread of a fragment that is missing, behind a tab and before a carriage return. -/
def missingFragment : String := "\x7b a\r\n\t...F\r\n\x7d"

/-- The name of the missing fragment is underlined. -/
theorem report_underlines_missingFragment : ∃ (c : Check) (doc : Node) (p : Problem) (n : Node),
    parseDirectiveDefinitions "" = .ok c.definitions ∧ parseDocument missingFragment = .ok doc ∧
    p ∈ c.problems doc ∧ firstLocated? p = some n ∧
    shownLine missingFragment.toList 9 = "\t...F".toList ∧
    clipped missingFragment.toList 9 10 = "F".toList ∧ ∃ rest,
      (c.document ⟨"q.graphql", missingFragment⟩).reportOf p = location "q.graphql" 2 5 ++ "\n"
        ++ (underlinedLine "2" "\t...".toList "F".toList rest ++ messageBehind p.message)
        ++ ((c.document ⟨"q.graphql", missingFragment⟩).diagnostic (.ofProblem p)).helpText := by
  obtain ⟨defs, doc, hdefs, hdoc, hnames⟩ := exists_parsed "" missingFragment
    (f := fun defs doc => shownNames (plainCheck defs) doc)
    (b := [some ("F", some ⟨9, 10, 2, 5, .document⟩)]) (by decide +kernel)
  obtain ⟨p, hp, hn⟩ := exists_name_of_shownNames hnames
  have hmem : p ∈ (plainCheck defs).problems doc := by
    rw [hp]
    exact List.mem_singleton_self p
  obtain ⟨-, hreports⟩ :=
    report_underlines (plainCheck defs) "" hdefs ⟨"q.graphql", missingFragment⟩ doc hdoc
  obtain ⟨l, start, stop, rest, hl, hstart, hstop, -, -, -, hreport, hvalue⟩ :=
    hreports p hmem _ hn
  obtain rfl := Option.some.inj hl
  obtain rfl : start = 9 := Int.ofNat.inj hstart.symm
  obtain rfl : stop = 10 := Int.ofNat.inj hstop.symm
  have hclipped := hvalue "F" rfl (by decide +kernel)
  have hbefore : shownBefore missingFragment.toList 9 = "\t...".toList := by decide +kernel
  have hprinted : _ = location "q.graphql" 2 5 ++ "\n" ++ (underlinedLine "2"
      (shownBefore missingFragment.toList 9) (clipped missingFragment.toList 9 10) rest
        ++ messageBehind p.message) ++ _ := hreport
  rw [hbefore, hclipped] at hprinted
  exact ⟨plainCheck defs, doc, p, _, hdefs, hdoc, hmem, hn, by decide +kernel, hclipped, rest,
    hprinted⟩

/-- A spread of a fragment that is missing, behind a tab. -/
def tabbedQuery : String := "\x7b\t...F \x7d"

/-- The report of this query. -/
def tabbedReport : String :=
  "✗ Query has 1 error:\n--> q.graphql:1:6\n1 | \x7b    ...F \x7d\n"
    ++ "  |         ^ Unknown fragment \"F\".\n"

/-- The line that holds the name of the fragment is printed with blanks for its tab. -/
theorem tabbedQuery_not_printed : ∃ (c : Check) (doc : Node) (p : Problem) (l : Location),
    parseDirectiveDefinitions "" = .ok c.definitions ∧ parseDocument tabbedQuery = .ok doc ∧
    c.problems doc = [p] ∧ firstLocated? p = some (.name "F" (some l)) ∧ l.start = 5 ∧
    shownLine tabbedQuery.toList 5 = tabbedQuery.toList ∧
    (c.document ⟨"q.graphql", tabbedQuery⟩).text = tabbedReport ∧
    ¬ tabbedQuery.toList <:+: (c.document ⟨"q.graphql", tabbedQuery⟩).text.toList := by
  obtain ⟨defs, doc, hdefs, hdoc, hfacts⟩ := exists_parsed "" tabbedQuery
    (f := fun defs doc => (shownNames (plainCheck defs) doc,
      ((plainCheck defs).document ⟨"q.graphql", tabbedQuery⟩).text))
    (b := ([some ("F", some ⟨5, 6, 1, 6, .document⟩)], tabbedReport)) (by decide +kernel)
  obtain ⟨hnames, htext⟩ := Prod.mk.inj hfacts
  obtain ⟨p, hp, hn⟩ := exists_name_of_shownNames hnames
  refine ⟨plainCheck defs, doc, p, _, hdefs, hdoc, hp, hn, rfl, by decide +kernel, htext, ?_⟩
  rw [htext]
  decide +kernel

end QueryCheck.Command
