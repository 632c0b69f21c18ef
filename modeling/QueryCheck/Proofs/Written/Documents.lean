import Mathlib.Data.List.Nodup
import QueryCheck.Proofs.Written.Completeness
import QueryCheck.Proofs.Written.Soundness

/-! # Documents are read

The definitions of a document are read one after the other. Operations and fragments are kept apart,
each sort in the order it was read, and put together again by the places of their first tokens.
Since tokens are ordered, this is the order in which the definitions were read.

* `run_queryDefinitions`: the definitions of a document are read, each placed at its first token.
* `queryDocument_eq`: a document has its definitions in the order of their places.
* `parseDocument_lexemes`: a text with the lexemes of a document is read as that document.
* `isDocument_of_strings`, `isDocument_of_parseDocument`: what is read from a text is a document of
  the grammar. -/

namespace QueryCheck.Written.Parser

open QueryCheck.Source
open QueryCheck.Syntax

variable {S : Lexeme → Prop}

/-- A definition as it is read. -/
abbrev Definition := OperationDefinition ⊕ FragmentDefinition

/-- Where a definition starts. -/
def Definition.start (w : Definition) :
    Nat := w.elim (fun op => op.span.start) fun f => f.span.start

/-- The node of a definition. -/
def Definition.node (e : Excerpt) (w : Definition) : Node := w.elim e.operation e.fragment

/-- A document with further definitions, each sort after those already there. -/
def addAll (doc : QueryDocument) (ws : List Definition) : QueryDocument :=
  ⟨doc.operations ++ ws.filterMap Sum.getLeft?, doc.fragments ++ ws.filterMap Sum.getRight?⟩

/-! ### The places of definitions -/

theorem span_operation {s s' : Stream} (hs : s.Sound) {op : OperationDefinition}
    (hr : operation.run s = .ok (op, s')) :
    op.span = s.peek.span := by
  rw [operation, run_peek_bind] at hr
  suffices h : Ensures (fun _ => True) _ fun op : OperationDefinition => op.span = s.peek.span from
    (h s hs.holds op s' hr).1
  refine .ite (fun _ => ensures_selectionSet.bind fun _ _ => .pure rfl) fun _ => ?_
  exact ensures_operationType.bind fun _ _ => ensures_optionalName fun _ _ =>
    ensures_variableDefinitions.bind fun _ _ => (ensures_directives false).bind fun _ _ =>
      ensures_selectionSet.bind fun _ _ => .pure rfl

theorem span_fragmentDefinition {s s' : Stream} (hs : s.Sound) {f : FragmentDefinition}
    (hr : fragmentDefinition.run s = .ok (f, s')) : f.span = s.peek.span := by
  rw [fragmentDefinition, run_peek_bind] at hr
  suffices h : Ensures (fun _ => True) _ fun f : FragmentDefinition => f.span = s.peek.span from
    (h s hs.holds f s' hr).1
  exact (EnsuresOn.expectWord "fragment").bind fun _ _ => ensures_fragmentName.bind fun _ _ =>
    ensures_variableDefinitions.bind fun _ _ => (EnsuresOn.expectWord "on").bind fun _ _ =>
      Ensures.name.bind fun _ _ => (ensures_directives false).bind fun _ _ =>
        ensures_selectionSet.bind fun _ _ => .pure rfl

/-! ### Definitions one after the other -/

theorem addAll_nil (doc : QueryDocument) : addAll doc [] = doc := by
  simp [addAll]

theorem addAll_inl (doc : QueryDocument) (op : OperationDefinition) :
    addAll doc [.inl op] = { doc with operations := doc.operations ++ [op] } :=
  congrArg (QueryDocument.mk (doc.operations ++ [op])) (List.append_nil doc.fragments)

theorem addAll_inr (doc : QueryDocument) (f : FragmentDefinition) :
    addAll doc [.inr f] = { doc with fragments := doc.fragments ++ [f] } :=
  congrArg (QueryDocument.mk · (doc.fragments ++ [f])) (List.append_nil doc.operations)

theorem addAll_cons (doc : QueryDocument) (w : Definition) (ws : List Definition) :
    addAll (addAll doc [w]) ws = addAll doc (w :: ws) := by
  have happ : ∀ {γ : Type} (f : Definition → Option γ),
      ([w] ++ ws).filterMap f = [w].filterMap f ++ ws.filterMap f :=
    fun f => List.filterMap_append
  simp only [addAll, List.append_assoc, ← happ, List.singleton_append]

/-- What a definition that was read is like: its node, where it starts, and how the stream goes
on. -/
structure DefinitionRead (s s' : Stream) (w : Definition) (d : Node) (rest : List Lexeme) :
    Prop where
  node : ∀ e, (w.node e).cloneDeep = d
  start : w.start = s.peek.span.start
  leads : s.Leads s'
  spells : s'.Spells rest

/-- One definition in front of others. -/
theorem run_definition {d : Node} (hd : IsDefinition S d) {s : Stream} (hs : s.Sound)
    {rest : List Lexeme}
    (hsp : s.Spells (d.lexemes ++ rest)) (hr : nextKind rest ∉ selectionAvoid)
    (doc : QueryDocument) (n : Nat) :
    ∃ w s', (queryDefinitions doc (n + 1)).run s = (queryDefinitions (addAll doc [w]) n).run s' ∧
      DefinitionRead s s' w d rest := by
  cases hd with
  | @operation op name vars dirs ss hname hvars hdirs hne hss =>
    rw [Node.lexemes_operationDefinition] at hsp
    have ht := Stream.Spells.peek hsp
    obtain ⟨o, s', hrun, ho, hsp'⟩ := reads_operation op hvars hdirs hne hss s rest hsp hr
    refine ⟨.inl o, s', ?_, ho, ?_, (ensures_operation s hs.holds o s' hrun).2, hsp'⟩
    · rw [queryDefinitions, run_peek_bind, Token.kind_of_lexeme ht, Token.value_of_lexeme ht,
        ofKeyword?_keyword]
      dsimp only
      rw [Option.isSome_some, if_pos rfl, run_bind_of_run hrun, addAll_inl]
    · exact congrArg Span.start (span_operation hs hrun)
  | @fragment f c vars dirs ss hf hon hvars hc hdirs hne hss =>
    rw [Node.lexemes_fragmentDefinition] at hsp
    have ht := Stream.Spells.peek hsp
    obtain ⟨o, s', hrun, ho, hsp'⟩ := reads_fragmentDefinition hon hvars hdirs hne hss s rest hsp hr
    refine ⟨.inr o, s', ?_, ho, ?_, (ensures_fragmentDefinition s hs.holds o s' hrun).2, hsp'⟩
    · rw [queryDefinitions, run_peek_bind, Token.kind_of_lexeme ht, Token.value_of_lexeme ht]
      dsimp only
      rw [if_neg (by decide), if_pos rfl, run_bind_of_run hrun, addAll_inr]
    · exact congrArg Span.start (span_fragmentDefinition hs hrun)

/-- A definition starts with a name. -/
theorem opens_definition {d : Node} (h : IsDefinition S d) : Opens d.lexemes [.name] := by
  cases h with
  | operation =>
    rw [Node.lexemes_operationDefinition]
    exact ⟨_, _, rfl, by simp⟩
  | fragment =>
    rw [Node.lexemes_fragmentDefinition]
    exact ⟨_, _, rfl, by simp⟩

/-- What follows a definition does not continue it. -/
theorem nextKind_definitions {ds : List Node} (h : ∀ d ∈ ds, IsDefinition S d) :
    nextKind (ds.flatMap Node.lexemes) ∉ selectionAvoid := by
  cases ds with
  | nil => decide
  | cons d ds =>
    rw [List.flatMap_cons, List.mem_singleton.mp ((opens_definition (h d (by simp))).append _)]
    decide

/-- The tokens behind a definition start behind it. -/
theorem start_lt_of_leads {s s' : Stream} (ho : s.Ordered) (hl : s.Leads s')
    (hlen : s'.tokens.length < s.tokens.length) :
    ∀ t ∈ s'.tokens, s.peek.span.start < t.span.start := by
  intro t ht
  unfold Stream.Ordered at ho
  cases hts : s.tokens with
  | nil => simp [hts] at hlen
  | cons u us =>
    have hsuf := hl.tokens
    rw [hts] at ho hlen hsuf
    rw [Stream.peek, hts, List.headD_cons]
    have hmem : t ∈ us := by
      rcases List.suffix_cons_iff.mp hsuf with heq | hsuf
      · rw [heq] at hlen
        exact absurd hlen (lt_irrefl _)
      · exact hsuf.subset ht
    exact (List.pairwise_cons.mp ho).1 t hmem

/-- What is read from the lexemes of some definitions: their nodes, in the order of their places. -/
structure DefinitionsRead (s : Stream) (ws : List Definition) (ds : List Node) : Prop where
  nodes : List.Forall₂ (fun w d => ∀ e, (Definition.node e w).cloneDeep = d) ws ds
  places : ∀ w ∈ ws, ∃ t ∈ s.tokens, w.start = t.span.start
  ordered : ws.Pairwise fun w w' => w.start < w'.start

/-- **Definitions are read** one after the other. -/
theorem run_queryDefinitions : ∀ {ds : List Node}, (∀ d ∈ ds, IsDefinition S d) →
    ∀ (n : Nat), ds.length < n →
    ∀ (doc : QueryDocument) {s : Stream}, s.Sound → s.Ordered → s.Spells (ds.flatMap Node.lexemes) →
      ∃ ws s', (queryDefinitions doc n).run s = .ok (addAll doc ws, s') ∧ DefinitionsRead s ws ds
  | [], _, n + 1, _, doc, s, _, _, hsp => by
    refine ⟨[], s, ?_, .nil, by simp, .nil⟩
    rw [queryDefinitions, run_peek_bind, hsp.kind_peek, addAll_nil]
    rfl
  | d :: ds, h, n + 1, hn, doc, s, hs, ho, hsp => by
    have hds : ∀ d ∈ ds, IsDefinition S d := fun d hd => h d (List.mem_cons_of_mem _ hd)
    have hd := h d (by simp)
    rw [List.flatMap_cons] at hsp
    obtain ⟨w, s₁, hrun, hw⟩ := run_definition hd hs hsp (nextKind_definitions hds) doc n
    have ho₁ : s₁.Ordered := List.Pairwise.sublist hw.leads.tokens.sublist ho
    obtain ⟨ws, s', hrun', hws⟩ := run_queryDefinitions hds n (by simpa using hn) (addAll doc [w])
      (hw.leads.sound hs) ho₁ hw.spells
    have hlen : s₁.tokens.length < s.tokens.length := by
      have hpos := (opens_definition hd).length_pos
      rw [hsp.length, hw.spells.length, List.length_append]
      omega
    have hlt := start_lt_of_leads ho hw.leads hlen
    refine ⟨w :: ws, s', ?_, .cons hw.node hws.nodes, ?_, ?_⟩
    · rw [hrun, hrun', addAll_cons]
    · have hpeek : s.peek ∈ s.tokens := by
        rw [Stream.peek]
        cases hts : s.tokens with
        | nil => simp [hts] at hlen
        | cons t ts => simp
      refine List.forall_mem_cons.mpr ⟨⟨s.peek, hpeek, hw.start⟩, fun v hv => ?_⟩
      obtain ⟨t, ht, htv⟩ := hws.places v hv
      exact ⟨t, hw.leads.tokens.subset ht, htv⟩
    · refine List.pairwise_cons.mpr ⟨fun v hv => ?_, hws.ordered⟩
      obtain ⟨t, ht, htv⟩ := hws.places v hv
      rw [hw.start, htv]
      exact hlt t ht

/-! ### The order of definitions -/

/-- Two sorts of definitions one after the other are the definitions in another order. -/
theorem perm_definitions (f : OperationDefinition → Nat × Node)
    (g : FragmentDefinition → Nat × Node) :
    ∀ ws : List Definition,
      ((ws.filterMap Sum.getLeft?).map f ++ (ws.filterMap Sum.getRight?).map g).Perm
      (ws.map (Sum.elim f g))
  | [] => .nil
  | .inl op :: ws => (perm_definitions f g ws).cons (f op)
  | .inr fr :: ws => List.perm_middle.trans ((perm_definitions f g ws).cons (g fr))

/-- Sorting by place gives a list back that was in the order of its places. -/
theorem mergeSort_eq_of_perm {L M : List (Nat × Node)} (h : M.Perm L)
    (hL : L.Pairwise fun a b => a.1 < b.1) : M.mergeSort (fun a b => a.1 ≤ b.1) = L := by
  have hnodup : (L.map Prod.fst).Nodup := (List.pairwise_map.mpr hL).imp fun h => Nat.ne_of_lt h
  have hperm : (M.mergeSort fun a b => a.1 ≤ b.1).Perm L := (List.mergeSort_perm M _).trans h
  have hsorted : (M.mergeSort fun a b => a.1 ≤ b.1).Pairwise
      fun a b => decide (a.1 ≤ b.1) = true := by
    refine List.pairwise_mergeSort (fun a b c hab hbc => ?_) (fun a b => ?_) M
    · simp only [decide_eq_true_eq] at hab hbc ⊢
      exact Nat.le_trans hab hbc
    · simp only [Bool.or_eq_true, decide_eq_true_eq]
      exact Nat.le_total a.1 b.1
  refine hperm.eq_of_pairwise (fun a b ha hb hab hba => ?_) hsorted
    (hL.imp fun h => decide_eq_true (Nat.le_of_lt h))
  refine List.inj_on_of_nodup_map hnodup (hperm.subset ha) hb ?_
  exact Nat.le_antisymm (of_decide_eq_true hab) (of_decide_eq_true hba)

/-- **A document has its definitions in the order of their places.** -/
theorem queryDocument_eq (e : Excerpt) {ws : List Definition}
    (h : ws.Pairwise fun w w' => w.start < w'.start) :
    (e.queryDocument (addAll {} ws)).cloneDeep =
      .document (placed (ws.map fun w => (w.node e).cloneDeep)) none := by
  have hperm := perm_definitions (fun op => (op.span.start, e.operation op))
    (fun f => (f.span.start, e.fragment f)) ws
  have hpair : ws.map (Sum.elim (fun op => (op.span.start, e.operation op))
      fun f => (f.span.start, e.fragment f)) = ws.map fun w => (w.start, w.node e) := by
    refine List.map_congr_left fun w _ => ?_
    cases w <;> rfl
  rw [hpair] at hperm
  have hsort := mergeSort_eq_of_perm hperm (List.pairwise_map.mpr h)
  rw [Excerpt.queryDocument, Node.cloneDeep_mk]
  simp only [addAll, List.nil_append, hsort]
  simp [Slot.map, Function.comp_def]

/-! ### Texts -/

theorem length_definitions_le : ∀ {ds : List Node}, (∀ d ∈ ds, IsDefinition S d) →
    ds.length ≤ (ds.flatMap Node.lexemes).length
  | [], _ => le_rfl
  | d :: ds, h => by
    have hpos := (opens_definition (h d (by simp))).length_pos
    have hle := length_definitions_le fun d hd => h d (List.mem_cons_of_mem _ hd)
    rw [List.flatMap_cons, List.length_append, List.length_cons]
    omega

/-- **A text with the lexemes of a document** is read as that document. -/
theorem parseDocument_lexemes {text : String} {ds : List Node} (hds : ∀ d ∈ ds, IsDefinition S d)
    (h : Lexes text.toList (ds.flatMap Node.lexemes)) :
    ∃ doc, parseDocument text = .ok doc ∧ doc.cloneDeep = .document (placed ds) none := by
  have hsp : (tokens text).Spells (ds.flatMap Node.lexemes) :=
    ⟨(lexes_tokens h).1, (lexes_tokens h).2⟩
  have hn : ds.length < (tokens text).tokens.length + 1 := by
    rw [hsp.length]
    exact Nat.lt_succ_of_le (length_definitions_le hds)
  obtain ⟨ws, s', hrun, hws⟩ :=
    run_queryDefinitions hds _ hn {} (sound_tokens text) (ordered_tokens text) hsp
  have hquery : parseQuery text = .ok (addAll {} ws) := by
    have hrun' : queryDocument.run (tokens text) = .ok (addAll {} ws, s') := hrun
    rw [parseQuery, hrun']
    rfl
  refine ⟨(Excerpt.mk text.toList .document).queryDocument (addAll {} ws), ?_, ?_⟩
  · rw [parseDocument, hquery]
    rfl
  · rw [queryDocument_eq _ hws.ordered,
      map_eq_of_forall₂ (f := fun e w => (Definition.node e w).cloneDeep) hws.nodes]

theorem isDocument_of_forall {ds : List (Nat × Node)} (h : ∀ d ∈ ds, IsDefinition S d.2.cloneDeep)
    (l : Option Location) : IsDocument S (Node.document (ds.map fun d => .node d.2) l).cloneDeep := by
  have hds : IsDocument S (.document (placed (ds.map fun d => d.2.cloneDeep)) none) :=
    .mk (List.forall_mem_map.mpr h)
  rw [Node.cloneDeep_mk]
  simpa [Slot.map, Function.comp_def] using hds

/-- **A document that was read** is one of the grammar, and the strings in it are tokens of the
text. -/
theorem isDocument_of_strings {text : String} (htext : (tokens text).Says S) {doc : Node}
    (h : parseDocument text = .ok doc) : IsDocument S doc.cloneDeep := by
  rw [parseDocument] at h
  cases hq : parseQuery text with
  | error e =>
    rw [hq] at h
    cases h
  | ok q =>
    rw [hq] at h
    obtain rfl := Except.ok.inj h
    have hread := isRead_of_parseQuery htext hq
    refine isDocument_of_forall (fun d hd => ?_) _
    rcases List.mem_append.mp (List.mem_mergeSort.mp hd) with hd | hd
    · obtain ⟨op, hop, rfl⟩ := List.mem_map.mp hd
      exact hread.operations op hop _
    · obtain ⟨f, hf, rfl⟩ := List.mem_map.mp hd
      exact hread.fragments f hf _

theorem isDocument_of_parseDocument {text : String} {doc : Node}
    (h : parseDocument text = .ok doc) : IsDocument IsString doc.cloneDeep :=
  isDocument_of_strings (sound_tokens text).strings h

end QueryCheck.Written.Parser
