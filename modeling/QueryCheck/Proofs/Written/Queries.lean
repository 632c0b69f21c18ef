import QueryCheck.Proofs.Written.Placed

/-! # The nodes of queries are located

The names of a query are looked for from the token that opens the phrase they belong to, or behind a
word that stands between. They are found there, with one exception: the type of an inline fragment
is looked for behind the letters `on`, and a string may say `on` without writing these letters. All
locations that are found mark stretches of the text.

* `ensures_word`, `ensures_optionalPlace`: how words and optional names move the place of what
  follows.
* `marked_field`, `marked_fragment`, `marked_selection`: what the readers of selections yield.
* `marked_operation`, `marked_fragmentDefinition`: what the readers of definitions yield.
* `marked_parseDocument`: the nodes of a document are marked, and located if every `on` is spelled
  out. -/

namespace QueryCheck.Syntax.Excerpt

open QueryCheck.Source (StandsAt)

variable {e : Excerpt} {U : Prop}

/-- The location of a selection set is that of its first selection. -/
theorem marked_selectionSet {ns : List Node} (hne : ns ≠ []) (h : ∀ n ∈ ns, n.Marked e U) :
    Slot.Marked e U (.one (e.selectionSet (placed ns))) := by
  have hloc : e.Marks U (e.setLocation (placed ns)) := by
    obtain ⟨n, ns, rfl⟩ := List.exists_cons_of_ne_nil hne
    obtain ⟨hproper, hsome⟩ := (h n List.mem_cons_self n n.mem_labels_self).marks
    refine ⟨fun l hl => ?_, fun hU => ?_⟩
    · obtain ⟨l', hl', rfl⟩ := Option.map_eq_some_iff.mp hl
      obtain ⟨i, j, rfl, hij⟩ := hproper l' hl'
      exact ⟨i, j, rfl, hij⟩
    · have hset : e.setLocation (placed (n :: ns)) =
          n.loc.map fun l => e.location l.start.toNat l.stop.toNat := rfl
      rw [hset, Option.isSome_map]
      exact hsome hU
  exact Slot.all_one.mpr (Node.marked_mk (by decide) hloc
    (List.forall_mem_singleton.mpr (Slot.all_placed h)))

/-- The place behind a word `on` that is looked for from a place on. -/
theorem afterOn_le {start i : Nat} (hi : start ≤ i) (h : StandsAt e.chars "on" i) :
    e.afterOn start ≤ i + 2 := by
  obtain ⟨j, hj, -, hle⟩ := e.exists_find (by decide) hi h
  rw [afterOn, hj]
  exact Nat.add_le_add_right hle 2

end QueryCheck.Syntax.Excerpt

namespace QueryCheck.Written.Parser

open QueryCheck.Source
open QueryCheck.Syntax

variable {α β : Type} {e : Excerpt} {U : Prop} {lower : Nat}

/-! ### Words and names between -/

/-- A word stands at its place, and what follows stands behind it. -/
theorem ensures_word {word : String} {f : Unit → Parser β} {Q : β → Prop}
    (hf : ∀ i, lower ≤ i → StandsAt e.chars word i →
      EnsuresOn (standing e U (i + word.length)) (f ()) Q) :
    EnsuresOn (standing e U lower) (expectWord word >>= f) Q := by
  intro s hs y s' hr
  obtain ⟨hk, hr⟩ := run_expectWord_bind hr
  have hlast : ¬ s.peek.IsLast := Token.not_isLast hk.1 (by decide)
  obtain ⟨hlower, hstands, hrest⟩ := hs.advance (hs.tokens_ne_nil hlast)
  obtain ⟨hplace, hstop⟩ := hstands.name hk.1
  rw [hstop] at hrest
  rw [hk.2] at hplace hrest
  obtain ⟨hy, hl⟩ := hf s.peek.span.start hlower hplace s.advance hrest y s' hr
  exact ⟨hy, s.leads_advance.trans hl⟩

theorem Needs.expectWord (word : String) : Needs (standing e U lower) (expectWord word) := by
  intro s hs hnil r hr
  rw [run_expectWord, if_neg fun h => hs.kind_ne hnil (by decide) h.1] at hr
  cases hr

theorem Needs.variableName : Needs (standing e U lower) variableName := by
  have hdollar : Needs (standing e U lower) (discard (Parser.expect .dollar)) :=
    (Needs.expect (k := .dollar) (by decide)).bind (f := fun _ => pure ())
  exact hdollar.bind

/-- The name of a fragment is a name. -/
theorem ensures_fragmentPlace {f : String → Parser β} {Q : β → Prop}
    (hf : ∀ n i, n ≠ "" → lower ≤ i → StandsAt e.chars n i →
      EnsuresOn (standing e U (i + n.length)) (f n) Q) :
    EnsuresOn (standing e U lower) (fragmentName >>= f) Q :=
  fun s hs y s' hr => ensures_name hf s hs y s' (run_name_of_fragmentName hr)

/-! ### Selections -/

theorem marked_fieldAround {key n : String} {args : List Argument} {dirs : List Directive}
    {sel : Child Node} {s : Span} (hspan : s.Within e.chars) (hkey : e.Found key s.start)
    (hname : e.Found n (if key = n then s.start else Excerpt.endOr (e.name key s.start) s.start))
    (hargs : Slot.Marked e U (.many (e.arguments args)))
    (hdirs : Slot.Marked e U (.many (e.directives dirs))) (hsel : Slot.Marked e U (.one sel)) :
    (e.fieldAround key n args dirs sel s).Marked e U := by
  have hloc := Excerpt.marks_ofSpan (U := U) hspan
  unfold Excerpt.fieldAround
  split_ifs at hname ⊢
  · exact Node.marked_mk (by decide) hloc
      (by simp [Excerpt.marked_name fun _ => hname, hargs, hdirs, hsel])
  · exact Node.marked_mk (by decide) hloc (by
      simp [Excerpt.marked_name fun _ => hkey, Excerpt.marked_name fun _ => hname, hargs, hdirs,
        hsel])

/-- A reader of selections yields marked ones, wherever it starts. -/
abbrev MarksSelection (e : Excerpt) (U : Prop) (p : Parser Selection) : Prop :=
  ∀ lower, EnsuresOn (standing e U lower) p fun s => (e.selection s).Marked e U

theorem marked_selections {ss : List Selection} (hne : ss ≠ [])
    (h : ∀ s ∈ ss, (e.selection s).Marked e U) :
    Slot.Marked e U (.one (e.selectionSet (e.selections ss))) := by
  rw [Excerpt.selections_eq]
  exact Excerpt.marked_selectionSet (by simpa using hne) (List.forall_mem_map.mpr h)

theorem marked_field {p : Parser Selection} (h : MarksSelection e U p) :
    MarksSelection e U (field p) := by
  intro lower
  refine ensures_here (fun _ => Needs.name.bind) fun t _ ht => ensures_name
    fun key i hkey hi hstands => ?_
  have hkeyFound : e.Found key t.span.start := ⟨hkey, i, hi, hstands⟩
  -- What follows the name of the field, which is looked for behind its key.
  have hrest : ∀ n lower, e.Found n (if key = n then t.span.start
      else Excerpt.endOr (e.name key t.span.start) t.span.start) →
      EnsuresOn (standing e U lower) (do
        let args ← arguments false
        let dirs ← directives false
        let sel ← if (← peek).kind = .braceL then pure (some (← nonEmpty .braceL .braceR p))
          else pure none
        return .field key n args dirs sel t.span) fun s => (e.selection s).Marked e U := by
    intro n lower hfound
    refine (marked_arguments false).bind fun args hargs => (marked_directives false).bind
      fun dirs hdirs => ensures_optionalSet (h lower) fun sel hsel => .pure ?_
    cases sel with
    | none =>
      rw [Excerpt.selection]
      exact marked_fieldAround ht.within hkeyFound hfound hargs.weaken hdirs.weaken Slot.all_absent
    | some ss =>
      rw [Excerpt.selection]
      obtain ⟨hne, hss⟩ := hsel ss rfl
      exact marked_fieldAround ht.within hkeyFound hfound hargs.weaken hdirs.weaken
        (marked_selections hne hss)
  refine (EnsuresOn.skip .colon).bind fun _ _ => .ite (fun _ => ensures_name
    fun n j hn hj hplace => hrest n _ ⟨hn, j, ?_, hplace⟩) fun _ => ?_
  · have hend := Excerpt.endOr_name_le hkey hi hstands t.span.start
    split_ifs <;> omega
  · exact hrest key _ (by rw [if_pos rfl]; exact hkeyFound)

/-- An inline fragment behind its type condition, if it has one. -/
theorem marked_inline {p : Parser Selection} (h : MarksSelection e U p) {cond : Option String}
    {s : Span} (hspan : s.Within e.chars)
    (hcond : ∀ c ∈ cond, U → e.Found c (e.afterOn s.start)) :
    EnsuresOn (standing e U lower) (do
      let dirs ← directives false
      return .inline cond dirs (← requiredSet p) s) fun sel => (e.selection sel).Marked e U := by
  refine (marked_directives false).bind fun dirs hdirs => (h lower).requiredSet.bind
    fun ss hss => .pure ?_
  have htype : Slot.Marked e U
      (.one (.ofOption (cond.map fun t => e.namedType t (e.afterOn s.start)))) := by
    refine Slot.all_ofOption fun n hn => ?_
    obtain ⟨c, hc, rfl⟩ := Option.map_eq_some_iff.mp hn
    exact Excerpt.marked_namedType (hcond c hc)
  rw [Excerpt.selection]
  exact Node.marked_mk (by decide) (Excerpt.marks_ofSpan hspan)
    (by simp [htype, hdirs.weaken, marked_selections hss.1 hss.2])

theorem marked_spread {s : Span} (hspan : s.Within e.chars) :
    EnsuresOn (standing e U s.start) (do
      let n ← fragmentName
      return .spread n (← directives false) s) fun sel => (e.selection sel).Marked e U := by
  refine ensures_fragmentPlace fun n i hn hi hstands => (marked_directives false).bind
    fun dirs hdirs => .pure ?_
  rw [Excerpt.selection]
  exact Node.marked_named (by decide) rfl (Excerpt.marks_ofSpan hspan)
    (by simp [Excerpt.marked_name fun _ => ⟨hn, i, hi, hstands⟩, hdirs.weaken])

/-- The token behind dots that says `on` spells it out, under the condition that all do. -/
theorem Stands.spells {s : Stream} (hs : Stands e U lower s) (hdots : s.peek.kind = .spread)
    (hne : s.advance.tokens ≠ []) (hon : s.advance.peek.value = "on") (hU : U) :
    s.advance.peek.Spells e.chars "on" := by
  have hspelled := hs.spelled hU
  rw [SpelledOut, Stream.tokens_eq_cons (Stream.tokens_ne_nil_of_advance hne),
    Stream.tokens_eq_cons hne, List.isChain_cons_cons] at hspelled
  exact hspelled.1 hdots hon

/-- **A spread or an inline fragment.** The type of an inline fragment is found behind its `on` if
that is spelled out. -/
theorem marked_fragment {p : Parser Selection} (h : MarksSelection e U p) :
    MarksSelection e U (fragment p) := by
  intro lower s hs sel s' hr
  obtain ⟨hdots, hr⟩ := run_discard_expect_bind hr
  have hlast : ¬ s.peek.IsLast := Token.not_isLast hdots (by decide)
  obtain ⟨-, -, hrest⟩ := hs.advance (hs.tokens_ne_nil hlast)
  rw [run_peek_bind] at hr
  suffices hmarked : (e.selection sel).Marked e U ∧ s.advance.Leads s' from
    ⟨hmarked.1, s.leads_advance.trans hmarked.2⟩
  split_ifs at hr with hname hon
  · have hne := hrest.tokens_ne_nil (Token.not_isLast hname.1 (by decide))
    exact marked_spread (hrest.advance hne).2.1.within s.advance hrest.fromPeek sel s' hr
  · have hne : s.advance.tokens ≠ [] := fun hnil =>
      Needs.after leads_next.discard (fun _ => Needs.name.bind) s.advance hrest hnil _ hr
    obtain ⟨-, hstands, hbehind⟩ := hrest.advance hne
    have htype : EnsuresOn (standing e U s.advance.peek.span.stop) (do
        let n ← name
        let dirs ← directives false
        return .inline (some n) dirs (← requiredSet p) s.advance.peek.span)
        fun sel => (e.selection sel).Marked e U := by
      refine ensures_name fun n i hn hi hplace => marked_inline h hstands.within fun c hc hU => ?_
      obtain rfl := Option.some.inj hc
      obtain ⟨k, hk, hstop, hletters⟩ := hs.spells hdots hne hon hU
      have hafter := Excerpt.afterOn_le hk hletters
      have hlength : "on".length = 2 := by decide
      exact ⟨hn, i, by omega, hplace⟩
    obtain ⟨hsel, hl⟩ := htype s.advance.advance hbehind sel s' hr
    exact ⟨hsel, s.advance.leads_advance.trans hl⟩
  · have hr : (do
        let dirs ← directives false
        return .inline none dirs (← requiredSet p) s.advance.peek.span : Parser Selection).run
          s.advance = .ok (sel, s') := hr
    have hne : s.advance.tokens ≠ [] := fun hnil =>
      Needs.after (marked_directives false) (fun _ => Needs.requiredSet.bind) s.advance hrest hnil _ hr
    exact marked_inline h (hrest.advance hne).2.1.within (fun _ hc => by cases hc) s.advance hrest sel s' hr

theorem marked_selection : ∀ depth, MarksSelection e U (selection depth)
  | 0, _ => .unexpected
  | depth + 1, lower => leads_peek.bind fun _ _ => .ite
      (fun _ => marked_fragment (marked_selection depth) lower)
      fun _ => marked_field (marked_selection depth) lower

theorem marked_selectionSet : EnsuresOn (standing e U lower) selectionSet
    fun ss => Slot.Marked e U (.one (e.selectionSet (e.selections ss))) :=
  EnsuresOn.bound.bind fun depth _ => ((marked_selection depth lower).requiredSet).mono
    fun _ hss => marked_selections hss.1 hss.2

/-! ### Definitions -/

theorem marked_variableDefinitions :
    EnsuresOn (standing e U lower) variableDefinitions fun vs =>
      Slot.Marked e U (.many (e.variableDefinitions vs)) := by
  have hdefinition : EnsuresOn (standing e U lower) variableDefinition
      fun v => (e.variableDefinition v).Marked e U := by
    refine ensures_here (fun _ => Needs.variableName.bind) fun t _ ht => ?_
    rw [variableName, bind_assoc]
    refine (leads_expect .dollar).discard.bind fun _ _ => ensures_name fun n i hn hi hstands =>
      (leads_expect .colon).discard.bind fun _ _ => marked_typeRef.bind fun type htype =>
        marked_defaultValue.bind fun default hdefault => (marked_directives false).bind
          fun dirs hdirs => .pure ?_
    have hloc : e.Marks U (e.ofSpan t.span) := Excerpt.marks_ofSpan ht.within
    have hvar : (Node.var (.node (e.name n t.span.start)) (e.ofSpan t.span)).Marked e U :=
      Node.marked_mk (by decide) hloc
        (by simp [Excerpt.marked_name fun _ => ⟨hn, i, hi, hstands⟩])
    exact Node.marked_mk (by decide) hloc
      (by simp [hvar, htype.weaken, hdefault.weaken, hdirs.weaken])
  refine hdefinition.nonEmpty.mono fun vs hvs => ?_
  rw [show e.variableDefinitions vs = placed (vs.map e.variableDefinition) by
    simp [Excerpt.variableDefinitions]]
  exact Slot.all_map hvs

/-- The name of an operation, looked for from a place on, if it has one. -/
theorem marked_optionalName {n : Option String} {start : Nat} (h : ∀ w ∈ n, e.Found w start) :
    Slot.Marked e U (.one (.ofOption (n.map fun w => e.name w start))) := by
  refine Slot.all_ofOption fun m hm => ?_
  obtain ⟨w, hw, rfl⟩ := Option.map_eq_some_iff.mp hm
  exact Excerpt.marked_name fun _ => h w hw

theorem keyword_of_ofKeyword? {s : String} {op : Operation} (h : Operation.ofKeyword? s = some op) :
    s = op.keyword := by
  unfold Operation.ofKeyword? at h
  split at h <;> first | cases h; rfl | cases h

theorem run_operationType {s s' : Stream} {op : Operation}
    (h : operationType.run s = .ok (op, s')) :
    s.peek.value = op.keyword ∧ s' = s.advance := by
  unfold operationType at h
  obtain ⟨s₀, s₁, hget, h⟩ := exists_run_of_bind h
  obtain ⟨rfl, rfl⟩ := Prod.mk.inj (Except.ok.inj hget)
  rw [run_next_bind] at h
  split at h
  · next hop =>
    obtain ⟨rfl, rfl⟩ := Prod.mk.inj (Except.ok.inj h)
    exact ⟨keyword_of_ofKeyword? hop, rfl⟩
  · split at h <;> cases h

/-- The name of an operation where one may stand. -/
theorem ensures_optionalPlace {f : Option String → Parser β} {Q : β → Prop}
    (hf : ∀ n, (∀ w ∈ n, e.Found w lower) → EnsuresOn (standing e U lower) (f n) Q) :
    EnsuresOn (standing e U lower) (do
      let n ← if (← peek).kind = .name then pure (some (← next).value) else pure none
      f n) Q := by
  intro s hs y s' hr
  rw [run_peek_bind] at hr
  dsimp only at hr
  split_ifs at hr with hk
  · rw [run_next_bind] at hr
    have hvalue : s.peek.value ≠ "" := (hs.sound.peek.isName hk).ne_empty
    obtain ⟨hlower, hstands, -⟩ := hs.advance (hs.tokens_ne_nil (Token.not_isLast hk (by decide)))
    have hfound : ∀ w ∈ some s.peek.value, e.Found w lower := fun w hw =>
      Option.some.inj hw ▸ ⟨hvalue, _, hlower, (hstands.name hk).1⟩
    obtain ⟨hy, hl⟩ := hf _ hfound s.advance ((standing e U lower).of_leads s.leads_advance hs)
      y s' hr
    exact ⟨hy, s.leads_advance.trans hl⟩
  · exact hf none (fun _ h => by cases h) s hs y s' hr

/-- **An operation.** Its name is looked for behind its keyword. -/
theorem marked_operation {s s' : Stream} (hs : Stands e U lower s)
    (hk : s.peek.kind = .braceL ∨ s.peek.kind = .name) {op : OperationDefinition}
    (hr : operation.run s = .ok (op, s')) : (e.operation op).Marked e U ∧ s.Leads s' := by
  have hlast : ¬ s.peek.IsLast := by
    rcases hk with hk | hk <;> exact Token.not_isLast hk (by decide)
  obtain ⟨-, hstands, hbehind⟩ := hs.advance (hs.tokens_ne_nil hlast)
  have hloc : e.Marks U (e.ofSpan s.peek.span) := Excerpt.marks_ofSpan hstands.within
  rw [operation, run_peek_bind] at hr
  split_ifs at hr with hbrace
  · have hread : EnsuresOn (standing e U lower) (do
        return ⟨.query, none, [], [], ← selectionSet, s.peek.span⟩ : Parser OperationDefinition)
        fun op => (e.operation op).Marked e U := by
      refine marked_selectionSet.bind fun ss hss => .pure ?_
      exact Node.marked_mk (by decide) hloc (by simpa [Excerpt.variableDefinitions,
        Excerpt.directives, Child.ofOption] using hss)
    exact hread s hs op s' hr
  · have hname := hk.resolve_left hbrace
    obtain ⟨kind, s₁, htype, hr⟩ := exists_run_of_bind hr
    obtain ⟨hkeyword, rfl⟩ := run_operationType htype
    rw [(hstands.name hname).2, hkeyword] at hbehind
    have hread : EnsuresOn (standing e U (s.peek.span.start + kind.keyword.length)) (do
        let n ← if (← peek).kind = .name then pure (some (← next).value) else pure none
        let vars ← variableDefinitions
        let dirs ← directives false
        return ⟨kind, n, vars, dirs, ← selectionSet, s.peek.span⟩ : Parser OperationDefinition)
        fun op => (e.operation op).Marked e U := by
      refine ensures_optionalPlace fun n hn => marked_variableDefinitions.bind fun vars hvars =>
        (marked_directives false).bind fun dirs hdirs => marked_selectionSet.bind
          fun ss hss => .pure ?_
      exact Node.marked_mk (by decide) hloc
        (by simp [marked_optionalName hn, hvars, hdirs.weaken, hss])
    obtain ⟨hop, hl⟩ := hread s.advance hbehind op s' hr
    exact ⟨hop, s.leads_advance.trans hl⟩

/-- **A fragment.** Its type is looked for behind the first `on` that follows its name. -/
theorem marked_fragmentDefinition : EnsuresOn (standing e U lower) fragmentDefinition
    fun f => (e.fragment f).Marked e U := by
  refine ensures_here (fun _ => (Needs.expectWord "fragment").bind) fun t _ ht => ensures_word
    fun i hi _ => ensures_fragmentPlace fun n j hn hj hname =>
      marked_variableDefinitions.bind fun vars hvars => ensures_word fun k hk hon =>
        ensures_name fun cond m hcond hm hplace => (marked_directives false).bind
          fun dirs hdirs => marked_selectionSet.bind fun ss hss => .pure ?_
  have hstart : t.span.start + "fragment".length ≤ j := by omega
  have hend := Excerpt.endOr_name_le hn hstart hname t.span.start
  have hafter := Excerpt.afterOn_le (hend.trans hk) hon
  have hlength : "on".length = 2 := by decide
  have hfound : U → e.Found n (t.span.start + "fragment".length) := fun _ => ⟨hn, j, hstart, hname⟩
  have htype : U → e.Found cond (e.afterOn (Excerpt.endOr
      (e.name n (t.span.start + "fragment".length)) t.span.start)) := fun _ =>
    ⟨hcond, m, by omega, hplace⟩
  exact Node.marked_named (by decide) rfl (Excerpt.marks_ofSpan ht.within) (by
    simp [Excerpt.marked_name hfound, hvars, Excerpt.marked_namedType htype, hdirs.weaken, hss])

/-- **The nodes of a query text are marked,** and located if every `on` behind dots is spelled
out. -/
theorem marked_of_parseQuery {text : String} (o : Origin) {doc : QueryDocument}
    (h : parseQuery text = .ok doc) :
    Consists (fun op => ((Excerpt.mk text.toList o).operation op).Marked ⟨text.toList, o⟩
        (SpelledOut text.toList (tokens text).tokens))
      (fun f => ((Excerpt.mk text.toList o).fragment f).Marked ⟨text.toList, o⟩
        (SpelledOut text.toList (tokens text).tokens)) doc := by
  obtain ⟨hstanding, hlast⟩ := standing_tokens text
  exact consists_of_parseQuery (fun s hs hk op s' hr => marked_operation hs hk hr)
    marked_fragmentDefinition ⟨sound_tokens text, hstanding, hlast, id⟩ h

end QueryCheck.Written.Parser

namespace QueryCheck.Syntax

open QueryCheck.Source
open QueryCheck.Written.Parser (marked_of_parseQuery)

/-- **The nodes of a document are marked,** and located if every `on` behind dots is spelled out. -/
theorem marked_parseDocument {text : String} {doc : Node} (h : parseDocument text = .ok doc) :
    ∀ n ∈ doc.children, n.Marked ⟨text.toList, .document⟩
      (SpelledOut text.toList (tokens text).tokens) := by
  obtain ⟨q, ns, l, hq, rfl, hns⟩ := exists_written_of_parseDocument h
  obtain ⟨hops, hfragments⟩ := marked_of_parseQuery .document hq
  intro n hn
  rw [Node.children_document] at hn
  rcases hns n hn with ⟨op, hop, rfl⟩ | ⟨f, hf, rfl⟩
  · exact hops op hop
  · exact hfragments f hf

end QueryCheck.Syntax
