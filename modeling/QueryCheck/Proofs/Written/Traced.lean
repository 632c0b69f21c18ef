import QueryCheck.Proofs.Syntax.Consistent
import QueryCheck.Proofs.Syntax.Sought
import QueryCheck.Proofs.Syntax.Typed

/-! # Names and their tokens

The nodes of a document keep the texts of their names, but not the tokens these were read from, and
the places of names are looked for anew. Aliases, and the names of fields without one, are looked
for from their own tokens on and located there. The names of operations, fragments and fields behind
an alias, and the types of inline fragments, are looked for across blanks and comments. The type of
a fragment is looked for across its parameters as well.

* `Node.Traced`: where the names that a node owns are read, and where they are located.
* `Lies`: tokens that stand in a text with gaps between them.
* `traced_field`, `traced_fragment`, `traced_operation`, `traced_fragmentDefinition`: what the
  readers of selections and definitions yield.
* `traced_parseDocument`: all names of a document are traced to their tokens. -/

namespace QueryCheck.Syntax

open QueryCheck.Source

/-- Where the names that a node owns are read, and where they are located. `S` holds all tokens, and
the reader of the node has reached `s`. -/
inductive Node.Traced (e : Excerpt) (S : Stream) : Node → Prop where
  /-- An operation without a name. -/
  | anonymous {keyword : String} {vars dirs : List (Child Node)} {set : Child Node}
      {l : Option Location} : Traced e S (.operationDefinition keyword .absent vars dirs set l)
  /-- The name of an operation is the token behind its keyword. -/
  | operation {s : Stream} {name : Node} {vars dirs : List (Child Node)} {set : Child Node}
      (hs : S.Leads s) (hname : e.SoughtAcross s.advance.peek s.peek.span.stop name) :
      Traced e S (.operationDefinition s.peek.value (.node name) vars dirs set
        (e.ofSpan s.peek.span))
  /-- The name of a field without an alias is its first token. -/
  | field {s : Stream} {args dirs : List (Child Node)} {set : Child Node} (hs : S.Leads s)
      (hk : s.peek.kind = .name) (hcolon : s.advance.peek.kind ≠ .colon) :
      Traced e S (.field .absent (.node (e.nameAt s.peek)) args dirs set (e.ofSpan s.peek.span))
  /-- An alias that says the same as the name is left out, and its token locates the name. -/
  | sameName {s : Stream} {args dirs : List (Child Node)} {set : Child Node} (hs : S.Leads s)
      (hk : s.peek.kind = .name) (hcolon : s.advance.peek.kind = .colon)
      (hname : s.advance.advance.peek.kind = .name)
      (hsame : s.peek.value = s.advance.advance.peek.value) :
      Traced e S (.field .absent (.node (e.nameAt s.peek)) args dirs set (e.ofSpan s.peek.span))
  /-- An alias is the first token of its field, and the name is the token behind the colon. -/
  | aliased {s : Stream} {name : Node} {args dirs : List (Child Node)} {set : Child Node}
      (hs : S.Leads s) (hk : s.peek.kind = .name) (hcolon : s.advance.peek.kind = .colon)
      (hne : s.peek.value ≠ s.advance.advance.peek.value)
      (hname : e.SoughtAcross s.advance.advance.peek s.peek.span.stop name) :
      Traced e S (.field (.node (e.nameAt s.peek)) (.node name) args dirs set
        (e.ofSpan s.peek.span))
  /-- An inline fragment without a type. -/
  | untyped {dirs : List (Child Node)} {set : Child Node} {l : Option Location} :
      Traced e S (.inlineFragment .absent dirs set l)
  /-- The type of an inline fragment is the token behind the word `on`. It is looked for across
  blanks and comments if that word is a name; it may also be a string that says so. -/
  | inlineFragment {s : Stream} {name : Node} {dirs : List (Child Node)} {set : Child Node}
      (hs : S.Leads s) (hdots : s.peek.kind = .spread) (hon : s.advance.peek.value = "on")
      (hname : e.Sought s.advance.advance.peek (e.afterOn s.advance.peek.span.start) name)
      (hword : s.advance.peek.kind = .name →
        e.SoughtAcross s.advance.advance.peek s.advance.peek.span.stop name) :
      Traced e S (.inlineFragment (.node (.namedType (.node name) name.loc)) dirs set
        (e.ofSpan s.advance.peek.span))
  /-- The name of a fragment is the token behind its keyword. Its type is the token behind the
  word `on` that follows its parameters, and located there if there are neither parameters nor
  comments. -/
  | fragmentDefinition {s s' : Stream} {name cond : Node}
      {params : List Written.VariableDefinition} {dirs : List (Child Node)} {set : Child Node}
      (hs : S.Leads s) (hkeyword : s.peek.value = "fragment")
      (hname : e.SoughtAcross s.advance.peek s.peek.span.stop name)
      (hparams : Written.Parser.variableDefinitions.run s.advance.advance = .ok (params, s'))
      (hon : s'.peek.kind = .name ∧ s'.peek.value = "on")
      (hcond : e.Sought s'.advance.peek (e.afterOn (Excerpt.endOr name s.peek.span.start)) cond)
      (hplaced : e.afterOn (Excerpt.endOr name s.peek.span.start) ≤ s'.advance.peek.span.start)
      (hplain : params = [] → '#' ∉ e.chars → cond = e.nameAt s'.advance.peek) :
      Traced e S (.fragmentDefinition (.node name) (e.variableDefinitions params)
        (.node (.namedType (.node cond) cond.loc)) dirs set (e.ofSpan s.peek.span))
  /-- Other nodes own no such names. -/
  | other {n : Node} (hk : n.kind ∉ [.operationDefinition, .field, .inlineFragment,
      .fragmentDefinition]) : Traced e S n

/-! ### Nodes without selections -/

/-- Whether nodes of a kind neither are nor own selections or definitions of a query. Spreads count
among them, since they own none either. -/
def Kind.inPhrase : Kind → Bool
  | .document | .operationDefinition | .fragmentDefinition | .selectionSet | .field
  | .inlineFragment => false
  | _ => true

theorem Kind.inPhrase_of_admits : ∀ k : Kind, k.inPhrase = true →
    ∀ d ∈ k.declared, ∀ k', d.2.admits k' = true → k'.inPhrase = true := by
  intro k
  cases k <;> simp [Kind.declared, Shape.admits, Wanted.admits, Family.kinds, Kind.inPhrase]

namespace Excerpt

variable {e : Excerpt} {S : Stream}

theorem traced_of_inPhrase {n : Node} (h : n.kind.inPhrase = true) : n.Traced e S := by
  refine .other fun hk => ?_
  simp only [List.mem_cons, List.not_mem_nil, or_false] at hk
  rcases hk with hk | hk | hk | hk <;>
    · rw [hk] at h
      cases h

/-- Below phrases all nodes are traced, since there are no names to be traced. -/
theorem traced_slot {o : Origin} {shape : Shape} {s : Slot Node} (h : s.ReadAs o shape)
    (hk : ∀ k, shape.admits k = true → k.inPhrase = true) : s.All (Node.Traced e S) := by
  intro n hn m hm
  have hkind := hk _ (Shape.admits_of_fits h.1 n hn)
  have hall := Node.Typed.all_kind (P := fun k => k.inPhrase = true) Kind.inPhrase_of_admits n
    (h.2 n hn).whole.typed hkind
  exact traced_of_inPhrase (hall m hm)

theorem traced_arguments (args : List Written.Argument) :
    Slot.All (Node.Traced e S) (.many (e.arguments args)) :=
  traced_slot (e.read_arguments args) fun k hk => by
    obtain rfl := eq_of_beq hk
    rfl

theorem traced_directives (dirs : List Written.Directive) :
    Slot.All (Node.Traced e S) (.many (e.directives dirs)) :=
  traced_slot (e.read_directives dirs) fun k hk => by
    obtain rfl := eq_of_beq hk
    rfl

theorem traced_variableDefinitions (vars : List Written.VariableDefinition) :
    Slot.All (Node.Traced e S) (.many (e.variableDefinitions vars)) :=
  traced_slot (e.read_variableDefinitions vars) fun k hk => by
    obtain rfl := eq_of_beq hk
    rfl

theorem traced_name (text : String) (start : Nat) : (e.name text start).All (Node.Traced e S) :=
  Node.all_mk (traced_of_inPhrase rfl) (by simp)

theorem traced_namedType (text : String) (start : Nat) :
    (e.namedType text start).All (Node.Traced e S) :=
  Node.all_mk (traced_of_inPhrase rfl) (by simp [traced_name])

theorem traced_selections {ss : List Written.Selection}
    (h : ∀ s ∈ ss, (e.selection s).All (Node.Traced e S)) :
    Slot.All (Node.Traced e S) (.one (e.selectionSet (e.selections ss))) := by
  rw [selections_eq]
  exact Slot.all_one.mpr (Node.all_mk (.other (by simp [Node.kind]))
    (List.forall_mem_singleton.mpr (Slot.all_map h)))

theorem traced_fieldAround {key n : String} {args : List Written.Argument}
    {dirs : List Written.Directive} {set : Child Node} {s : Span}
    (hfield : (e.fieldAround key n args dirs set s).Traced e S)
    (hset : Slot.All (Node.Traced e S) (.one set)) :
    (e.fieldAround key n args dirs set s).All (Node.Traced e S) := by
  unfold fieldAround at hfield ⊢
  split_ifs at hfield ⊢ <;>
    exact Node.all_mk hfield
      (by simp [traced_name, traced_arguments, traced_directives, hset])

theorem endOr_nameAt (t : Token) (start : Nat) : endOr (e.nameAt t) start = t.span.stop :=
  Int.toNat_natCast _

end Excerpt

end QueryCheck.Syntax

namespace QueryCheck.Written.Parser

open QueryCheck.Source
open QueryCheck.Syntax

variable {α β : Type} {e : Excerpt} {S s : Stream}

/-! ### Tokens with gaps between them -/

/-- The condition that a stream is what is left of the given one. -/
def leftOf (S : Stream) : Stream.Condition := ⟨S.Leads, fun hl hs => hs.trans hl⟩

/-- The tokens of a stream stand in a text with gaps between them. -/
structure Lies (e : Excerpt) (s : Stream) : Prop where
  stands : Stands e False 0 s
  spaced : Spaced e.chars s.tokens

namespace Lies

theorem of_leads {s' : Stream} (h : Lies e s) (hl : s.Leads s') : Lies e s' :=
  ⟨(standing e False 0).of_leads hl h.stands, h.spaced.of_suffix hl.tokens⟩

/-- A name that is next stands in the text, and what follows stands behind it. -/
theorem next_name (h : Lies e s) (hk : s.peek.kind = .name) : s.peek.StandsIn e.chars ∧
    IsName s.peek.value ∧ Stands e False s.peek.span.stop s.advance := by
  have hlast : ¬ s.peek.IsLast := Token.not_isLast hk (by decide)
  obtain ⟨-, hstands, hbehind⟩ := h.stands.advance (h.stands.tokens_ne_nil hlast)
  exact ⟨hstands, h.stands.sound.peek.isName hk, hbehind⟩

theorem name_eq_nameAt (h : Lies e s) (hk : s.peek.kind = .name) :
    e.name s.peek.value s.peek.span.start = e.nameAt s.peek := by
  obtain ⟨hstands, hname, -⟩ := h.next_name hk
  exact Excerpt.name_eq_nameAt hstands hk hname.ne_empty

/-- Two tokens one behind the other have a gap between them. -/
theorem gap (h : Lies e s) (hne : s.advance.tokens ≠ []) :
    s.peek.span.stop ≤ s.advance.peek.span.start ∧
      Gap e.chars s.peek.span.stop s.advance.peek.span.start := by
  have hfirst := Stream.tokens_ne_nil_of_advance hne
  obtain ⟨-, -, hbehind⟩ := h.stands.advance hfirst
  refine ⟨(hbehind.advance hne).1, ?_⟩
  have hgaps := h.spaced.gaps
  rw [Stream.tokens_eq_cons hfirst, Stream.tokens_eq_cons hne, List.isChain_cons_cons] at hgaps
  exact hgaps.1

/-- A name behind a token is looked for across the gap between them. -/
theorem soughtAcross (h : Lies e s) (hk : s.advance.peek.kind = .name) :
    e.SoughtAcross s.advance.peek s.peek.span.stop
      (e.name s.advance.peek.value s.peek.span.stop) := by
  have hrest := h.of_leads s.leads_advance
  obtain ⟨hstands, hname, -⟩ := hrest.next_name hk
  obtain ⟨hle, hgap⟩ := h.gap (hrest.stands.tokens_ne_nil (Token.not_isLast hk (by decide)))
  exact Excerpt.soughtAcross_name hstands hk hname hle hgap

/-- The place behind a word `on` that is found at its token. -/
theorem afterOn_eq (h : Lies e s) (hk : s.peek.kind = .name) (hon : s.peek.value = "on")
    {start : Nat} (hat : e.name s.peek.value start = e.nameAt s.peek) :
    e.afterOn start = s.peek.span.stop := by
  obtain ⟨hstands, -, -⟩ := h.next_name hk
  have hfind := (Excerpt.name_eq_nameAt_iff hstands hk).mp hat
  rw [hon] at hfind
  rw [Excerpt.afterOn, hfind, (hstands.name hk).2, hon]
  rfl

/-- A colon between the two belongs to the gap. -/
theorem soughtAcross_colon (h : Lies e s) (hcolon : s.advance.peek.kind = .colon)
    (hk : s.advance.advance.peek.kind = .name) :
    e.SoughtAcross s.advance.advance.peek s.peek.span.stop
      (e.name s.advance.advance.peek.value s.peek.span.stop) := by
  have hrest := h.of_leads s.leads_advance
  have hlast := hrest.of_leads s.advance.leads_advance
  obtain ⟨hstands, hname, -⟩ := hlast.next_name hk
  have hne := hrest.stands.tokens_ne_nil (Token.not_isLast hcolon (by decide))
  obtain ⟨hle, hgap⟩ := h.gap hne
  obtain ⟨hle', hgap'⟩ :=
    hrest.gap (hlast.stands.tokens_ne_nil (Token.not_isLast hk (by decide)))
  have hmem : s.advance.peek ∈ s.advance.tokens := by
    rw [Stream.tokens_eq_cons hne]
    exact List.mem_cons_self
  obtain ⟨hchar, hstop⟩ := hrest.spaced.colons _ hmem hcolon
  rw [hstop] at hle' hgap'
  exact Excerpt.soughtAcross_name hstands hk hname (by omega)
    ((hgap.blank hchar (by decide)).trans hgap' (by omega))

end Lies

/-! ### Readers that take tokens -/

theorem leads_leftOf (hS : Lies e S) {p : Parser α} {P : α → Prop}
    (h : Ensures (fun _ => True) p P) :
    EnsuresOn (leftOf S) p fun _ => True :=
  fun s hs x s' hr => ⟨trivial, (h s (hs.sound hS.stands.sound).holds x s' hr).2⟩

/-- Where a list that needs an item has none, nothing is taken. -/
theorem run_nonEmpty_nil {start close : TokenKind} {p : Parser α} {s' : Stream}
    (h : (nonEmpty start close p).run s = .ok ([], s')) : s' = s := by
  obtain ⟨b, s₁, hskip, hr⟩ := exists_run_of_bind h
  rw [run_skip] at hskip
  split_ifs at hskip <;> obtain ⟨rfl, rfl⟩ := Prod.mk.inj (Except.ok.inj hskip)
  · rw [if_pos rfl, run_peek_bind] at hr
    split_ifs at hr with hclose
    · cases hr
    · exact absurd rfl (EnsuresOn.untilClose_ne_nil hclose hr)
  · obtain ⟨-, rfl⟩ := Prod.mk.inj (Except.ok.inj hr)
    rfl

/-! ### Selections -/

/-- A reader of selections yields traced ones. -/
abbrev TracesSelection (e : Excerpt) (S : Stream) (p : Parser Selection) : Prop :=
  EnsuresOn (leftOf S) p fun sel => (e.selection sel).All (Node.Traced e S)

/-- A field behind its names, if these are traced. -/
theorem traced_fieldRest (hS : Lies e S) {p : Parser Selection} (h : TracesSelection e S p)
    {key n : String} {here : Span}
    (hfield : ∀ args dirs set, (e.fieldAround key n args dirs set here).Traced e S) :
    TracesSelection e S (do
      let args ← arguments false
      let dirs ← directives false
      let sel ← if (← peek).kind = .braceL then pure (some (← nonEmpty .braceL .braceR p))
        else pure none
      return .field key n args dirs sel here) := by
  refine (leads_leftOf hS (ensures_arguments false)).bind fun args _ =>
    (leads_leftOf hS (ensures_directives false)).bind fun dirs _ =>
      ensures_optionalSet h fun sel hsel => .pure ?_
  cases sel with
  | none =>
    rw [Excerpt.selection]
    exact Excerpt.traced_fieldAround (hfield args dirs _) Slot.all_absent
  | some ss =>
    rw [Excerpt.selection]
    exact Excerpt.traced_fieldAround (hfield args dirs _)
      (Excerpt.traced_selections (hsel ss rfl).2)

/-- The names of a field that has no colon behind its first name. -/
theorem traced_plainField (h : Lies e s) (hs : S.Leads s) (hk : s.peek.kind = .name)
    (hcolon : s.advance.peek.kind ≠ .colon) (args : List Argument) (dirs : List Directive)
    (set : Child Node) :
    (e.fieldAround s.peek.value s.peek.value args dirs set s.peek.span).Traced e S := by
  rw [Excerpt.fieldAround, if_pos rfl, h.name_eq_nameAt hk]
  exact .field hs hk hcolon

/-- The names of a field that has two. -/
theorem traced_aliasedField (h : Lies e s) (hs : S.Leads s) (hk : s.peek.kind = .name)
    (hcolon : s.advance.peek.kind = .colon) (hname : s.advance.advance.peek.kind = .name)
    (args : List Argument) (dirs : List Directive) (set : Child Node) :
    (e.fieldAround s.peek.value s.advance.advance.peek.value args dirs set s.peek.span).Traced
      e S := by
  unfold Excerpt.fieldAround
  split_ifs with hsame
  · rw [← hsame, h.name_eq_nameAt hk]
    exact .sameName hs hk hcolon hname hsame
  · rw [h.name_eq_nameAt hk, Excerpt.endOr_nameAt]
    exact .aliased hs hk hcolon hsame (h.soughtAcross_colon hcolon hname)

/-- **A field.** -/
theorem traced_field (hS : Lies e S) {p : Parser Selection} (h : TracesSelection e S p) :
    TracesSelection e S (field p) := by
  intro s hs sel s' hr
  have hlies := hS.of_leads hs
  rw [field, run_peek_bind] at hr
  obtain ⟨hk, hr⟩ := run_name_bind hr
  obtain ⟨b, s₁, hskip, hr⟩ := exists_run_of_bind hr
  rw [run_skip] at hskip
  split_ifs at hskip with hcolon <;> obtain ⟨rfl, rfl⟩ := Prod.mk.inj (Except.ok.inj hskip)
  · rw [if_pos rfl] at hr
    obtain ⟨hname, hr⟩ := run_name_bind hr
    have hl : s.Leads s.advance.advance.advance := s.leads_advance.trans
      (s.advance.leads_advance.trans s.advance.advance.leads_advance)
    obtain ⟨hsel, hl'⟩ := traced_fieldRest hS h
      (traced_aliasedField hlies hs hk hcolon hname) _ (hs.trans hl) sel s' hr
    exact ⟨hsel, hl.trans hl'⟩
  · obtain ⟨hsel, hl'⟩ := traced_fieldRest hS h (traced_plainField hlies hs hk hcolon) _
      (hs.trans s.leads_advance) sel s' hr
    exact ⟨hsel, s.leads_advance.trans hl'⟩

/-- An inline fragment behind its type, if that is traced. -/
theorem traced_inlineRest (hS : Lies e S) {p : Parser Selection} (h : TracesSelection e S p)
    (cond : Option String) {here : Span}
    (hinline : ∀ dirs set, (Node.inlineFragment
      (.ofOption (cond.map fun t => e.namedType t (e.afterOn here.start))) dirs set
      (e.ofSpan here)).Traced e S) :
    TracesSelection e S (do
      let dirs ← directives false
      return .inline cond dirs (← requiredSet p) here) := by
  refine (leads_leftOf hS (ensures_directives false)).bind fun dirs _ => h.requiredSet.bind
    fun ss hss => .pure ?_
  have hcond : Slot.All (Node.Traced e S)
      (.one (.ofOption (cond.map fun t => e.namedType t (e.afterOn here.start)))) := by
    refine Slot.all_ofOption fun n hn => ?_
    obtain ⟨t, -, rfl⟩ := Option.map_eq_some_iff.mp hn
    exact Excerpt.traced_namedType t _
  rw [Excerpt.selection]
  exact Node.all_mk (hinline _ _)
    (by simp [hcond, Excerpt.traced_directives, Excerpt.traced_selections hss.2])

/-- The type of an inline fragment. -/
theorem traced_inlineType (h : Lies e s) (hs : S.Leads s) (hdots : s.peek.kind = .spread)
    (hon : s.advance.peek.value = "on") (hk : s.advance.advance.peek.kind = .name)
    (dirs : List (Child Node)) (set : Child Node) :
    (Node.inlineFragment (.node (e.namedType s.advance.advance.peek.value
        (e.afterOn s.advance.peek.span.start))) dirs set
      (e.ofSpan s.advance.peek.span)).Traced e S := by
  have hrest := h.of_leads s.leads_advance
  obtain ⟨hstands, hname, -⟩ := (hrest.of_leads s.advance.leads_advance).next_name hk
  refine .inlineFragment hs hdots hon (Excerpt.sought_name hstands hk hname.ne_empty _)
    fun hword => ?_
  -- a name is found where it stands, so the type is looked for right behind it
  rw [hrest.afterOn_eq hword hon (hrest.name_eq_nameAt hword)]
  exact hrest.soughtAcross hk

/-- **A spread or an inline fragment.** -/
theorem traced_fragment (hS : Lies e S) {p : Parser Selection} (h : TracesSelection e S p) :
    TracesSelection e S (fragment p) := by
  intro s hs sel s' hr
  obtain ⟨hdots, hr⟩ := run_discard_expect_bind hr
  have hs₁ : S.Leads s.advance := hs.trans s.leads_advance
  rw [run_peek_bind] at hr
  suffices htraced : (e.selection sel).All (Node.Traced e S) ∧ s.advance.Leads s' from
    ⟨htraced.1, s.leads_advance.trans htraced.2⟩
  split_ifs at hr with hname hon
  · have hspread : TracesSelection e S (do
        let n ← fragmentName
        return .spread n (← directives false) s.advance.peek.span) := by
      refine (leads_leftOf hS ensures_fragmentName).bind fun n _ =>
        (leads_leftOf hS (ensures_directives false)).bind fun dirs _ => .pure ?_
      rw [Excerpt.selection]
      exact Node.all_mk (Excerpt.traced_of_inPhrase rfl)
        (by simp [Excerpt.traced_name, Excerpt.traced_directives])
    exact hspread _ hs₁ sel s' hr
  · have hr : (do
        let n ← name
        let dirs ← directives false
        return .inline (some n) dirs (← requiredSet p) s.advance.peek.span : Parser Selection).run
          s.advance.advance = .ok (sel, s') := hr
    obtain ⟨hk, hr⟩ := run_name_bind hr
    have hl : s.advance.Leads s.advance.advance.advance :=
      s.advance.leads_advance.trans s.advance.advance.leads_advance
    obtain ⟨hsel, hl'⟩ := traced_inlineRest hS h (some _)
      (traced_inlineType (hS.of_leads hs) hs hdots hon hk) _ (hs₁.trans hl) sel s' hr
    exact ⟨hsel, hl.trans hl'⟩
  · exact traced_inlineRest hS h none (fun _ _ => .untyped) _ hs₁ sel s' hr

theorem traced_selection (hS : Lies e S) : ∀ depth, TracesSelection e S (selection depth)
  | 0 => .unexpected
  | depth + 1 => leads_peek.bind fun _ _ => .ite
      (fun _ => traced_fragment hS (traced_selection hS depth))
      fun _ => traced_field hS (traced_selection hS depth)

theorem traced_selectionSet (hS : Lies e S) : EnsuresOn (leftOf S) selectionSet
    fun ss => Slot.All (Node.Traced e S) (.one (e.selectionSet (e.selections ss))) :=
  EnsuresOn.bound.bind fun depth _ => ((traced_selection hS depth).requiredSet).mono
    fun _ hss => Excerpt.traced_selections hss.2

/-! ### Definitions -/

/-- The parts of an operation behind its name, if that is traced. -/
theorem traced_operationRest (hS : Lies e S) {kind : Operation} {n : Option String} {here : Span}
    (hoperation : ∀ vars dirs set, (Node.operationDefinition kind.keyword
      (.ofOption (n.map fun w => e.name w (here.start + kind.keyword.length))) vars dirs set
      (e.ofSpan here)).Traced e S) :
    EnsuresOn (leftOf S) (do
      let vars ← variableDefinitions
      let dirs ← directives false
      return ⟨kind, n, vars, dirs, ← selectionSet, here⟩ : Parser OperationDefinition)
      fun op => (e.operation op).All (Node.Traced e S) := by
  refine (leads_leftOf hS ensures_variableDefinitions).bind fun vars _ =>
    (leads_leftOf hS (ensures_directives false)).bind fun dirs _ =>
      (traced_selectionSet hS).bind fun ss hss => .pure ?_
  have hname : Slot.All (Node.Traced e S)
      (.one (.ofOption (n.map fun w => e.name w (here.start + kind.keyword.length)))) := by
    refine Slot.all_ofOption fun m hm => ?_
    obtain ⟨w, -, rfl⟩ := Option.map_eq_some_iff.mp hm
    exact Excerpt.traced_name w _
  exact Node.all_mk (hoperation _ _ _)
    (by simp [hname, Excerpt.traced_variableDefinitions, Excerpt.traced_directives, hss])

/-- **An operation.** -/
theorem traced_operation (hS : Lies e S) (hs : S.Leads s)
    (hk : s.peek.kind = .braceL ∨ s.peek.kind = .name) {s' : Stream} {op : OperationDefinition}
    (hr : operation.run s = .ok (op, s')) :
    (e.operation op).All (Node.Traced e S) ∧ s.Leads s' := by
  have hlies := hS.of_leads hs
  rw [operation, run_peek_bind] at hr
  split_ifs at hr with hbrace
  · have hread : EnsuresOn (leftOf S) (do
        return ⟨.query, none, [], [], ← selectionSet, s.peek.span⟩ : Parser OperationDefinition)
        fun op => (e.operation op).All (Node.Traced e S) :=
      (traced_selectionSet hS).bind fun ss hss => .pure (Node.all_mk .anonymous
        (by simpa [Excerpt.variableDefinitions, Excerpt.directives, Child.ofOption] using hss))
    exact hread s hs op s' hr
  · have hname := hk.resolve_left hbrace
    obtain ⟨kind, s₁, htype, hr⟩ := exists_run_of_bind hr
    obtain ⟨hkeyword, rfl⟩ := run_operationType htype
    have hstop : s.peek.span.stop = s.peek.span.start + kind.keyword.length := by
      rw [((hlies.next_name hname).1.name hname).2, hkeyword]
    rw [run_peek_bind] at hr
    dsimp only at hr
    split_ifs at hr with hnamed
    · rw [run_next_bind] at hr
      have hl : s.Leads s.advance.advance := s.leads_advance.trans s.advance.leads_advance
      have hoperation : ∀ vars dirs set, (Node.operationDefinition kind.keyword
          (.ofOption ((some s.advance.peek.value).map fun w =>
            e.name w (s.peek.span.start + kind.keyword.length))) vars dirs set
          (e.ofSpan s.peek.span)).Traced e S := by
        intro vars dirs set
        rw [← hstop, ← hkeyword]
        exact .operation hs (hlies.soughtAcross hnamed)
      obtain ⟨hop, hl'⟩ := traced_operationRest hS hoperation _ (hs.trans hl) op s' hr
      exact ⟨hop, hl.trans hl'⟩
    · obtain ⟨hop, hl⟩ := traced_operationRest hS (n := none) (fun _ _ _ => .anonymous) _
        (hs.trans s.leads_advance) op s' hr
      exact ⟨hop, s.leads_advance.trans hl⟩

/-- The type of a fragment is looked for from a place in front of its token. -/
theorem afterOn_endOr_le {s' : Stream} (h : Lies e s) (hname : s.advance.peek.kind = .name)
    (hl : s.advance.advance.Leads s') (hon : s'.peek.kind = .name ∧ s'.peek.value = "on")
    (hcond : s'.advance.peek.kind = .name) :
    e.afterOn (Excerpt.endOr (e.name s.advance.peek.value s.peek.span.stop) s.peek.span.start) ≤
      s'.advance.peek.span.start := by
  have hrest := h.of_leads s.leads_advance
  obtain ⟨hstands, hisName, hbehind⟩ := hrest.next_name hname
  obtain ⟨hplace, hstop⟩ := hstands.name hname
  have hend := Excerpt.endOr_name_le hisName.ne_empty (h.soughtAcross hname).placed hplace
    s.peek.span.start
  -- the word `on` stands behind the parameters, and these behind the name
  have hparams := (standing e False s.advance.peek.span.stop).of_leads hl hbehind
  obtain ⟨hle, honStands, htype⟩ :=
    hparams.advance (hparams.tokens_ne_nil (Token.not_isLast hon.1 (by decide)))
  obtain ⟨honPlace, honStop⟩ := honStands.name hon.1
  obtain ⟨hcondLe, -, -⟩ :=
    htype.advance (htype.tokens_ne_nil (Token.not_isLast hcond (by decide)))
  rw [hon.2] at honPlace honStop
  have hafter := Excerpt.afterOn_le (hend.trans (hstop.ge.trans hle)) honPlace
  have hlength : "on".length = 2 := by decide
  omega

/-- Without parameters and comments the type of a fragment is located at its token. -/
theorem fragmentType_eq_nameAt (h : Lies e s) (hname : s.advance.peek.kind = .name)
    (hon : s.advance.advance.peek.kind = .name ∧ s.advance.advance.peek.value = "on")
    (hcond : s.advance.advance.advance.peek.kind = .name) (hash : '#' ∉ e.chars) :
    e.name s.advance.advance.advance.peek.value (e.afterOn (Excerpt.endOr
      (e.name s.advance.peek.value s.peek.span.stop) s.peek.span.start)) =
        e.nameAt s.advance.advance.advance.peek := by
  have hnamed := h.of_leads s.leads_advance
  have hword := hnamed.of_leads s.advance.leads_advance
  rw [(h.soughtAcross hname).eq_nameAt hash, Excerpt.endOr_nameAt,
    hword.afterOn_eq hon.1 hon.2 ((hnamed.soughtAcross hon.1).eq_nameAt hash)]
  exact (hword.soughtAcross hcond).eq_nameAt hash

/-- **A fragment.** -/
theorem traced_fragmentDefinition (hS : Lies e S) : EnsuresOn (leftOf S) fragmentDefinition
    fun f => (e.fragment f).All (Node.Traced e S) := by
  intro s hs f s' hr
  have hlies := hS.of_leads hs
  rw [fragmentDefinition, run_peek_bind] at hr
  obtain ⟨⟨hk, hkeyword⟩, hr⟩ := run_expectWord_bind hr
  obtain ⟨hname, hr⟩ := run_name_bind (run_name_of_fragmentName hr)
  obtain ⟨params, s₁, hparams, hr⟩ := exists_run_of_bind hr
  obtain ⟨hon, hr⟩ := run_expectWord_bind hr
  obtain ⟨hcond, hr⟩ := run_name_bind hr
  have hl : s.Leads s.advance.advance := s.leads_advance.trans s.advance.leads_advance
  have hsound : s.advance.advance.Sound := (hs.trans hl).sound hS.stands.sound
  have hread : s.advance.advance.Leads s₁ := (ensures_variableDefinitions _ hsound.holds _ _ hparams).2
  have hbehind : s.Leads s₁.advance.advance :=
    hl.trans (hread.trans (s₁.leads_advance.trans s₁.advance.leads_advance))
  have htype : Lies e s₁.advance := hS.of_leads (hs.trans (hl.trans
    (hread.trans s₁.leads_advance)))
  have hstop : s.peek.span.start + "fragment".length = s.peek.span.stop := by
    rw [((hlies.next_name hk).1.name hk).2, hkeyword]
  have hrest : EnsuresOn (leftOf S) (do
      let dirs ← directives false
      return ⟨s.advance.peek.value, params, s₁.advance.peek.value, dirs, ← selectionSet,
        s.peek.span⟩ : Parser FragmentDefinition)
      fun f => (e.fragment f).All (Node.Traced e S) := by
    refine (leads_leftOf hS (ensures_directives false)).bind fun dirs _ =>
      (traced_selectionSet hS).bind fun ss hss => .pure ?_
    obtain ⟨hstands, hisName, -⟩ := htype.next_name hcond
    rw [Excerpt.fragment, hstop]
    refine Node.all_mk
      (.fragmentDefinition hs hkeyword (hlies.soughtAcross hname) hparams hon
        (Excerpt.sought_name hstands hcond hisName.ne_empty _)
        (afterOn_endOr_le hlies hname hread hon hcond) fun hnil hash => ?_)
      (by simp [Excerpt.traced_name, Excerpt.traced_variableDefinitions,
        Excerpt.traced_namedType, Excerpt.traced_directives, hss])
    obtain rfl : params = [] := hnil
    obtain rfl : s₁ = s.advance.advance := run_nonEmpty_nil hparams
    exact fragmentType_eq_nameAt hlies hname hon hcond hash
  obtain ⟨hf, hl'⟩ := hrest _ (hs.trans hbehind) f s' hr
  exact ⟨hf, hbehind.trans hl'⟩

theorem lies_tokens (text : String) (o : Origin) : Lies ⟨text.toList, o⟩ (tokens text) := by
  obtain ⟨hstanding, hlast⟩ := standing_tokens text
  exact ⟨⟨sound_tokens text, hstanding, hlast, nofun⟩, spaced_tokens text⟩

/-- **The names of a query text** are traced to its tokens. -/
theorem traced_of_parseQuery {text : String} (o : Origin) {doc : QueryDocument}
    (h : parseQuery text = .ok doc) :
    Consists (fun op => ((Excerpt.mk text.toList o).operation op).All
        (Node.Traced ⟨text.toList, o⟩ (tokens text)))
      (fun f => ((Excerpt.mk text.toList o).fragment f).All
        (Node.Traced ⟨text.toList, o⟩ (tokens text))) doc := by
  have hS := lies_tokens text o
  exact consists_of_parseQuery (C := leftOf (tokens text))
    (fun s hs hk op s' hr => traced_operation hS hs hk hr) (traced_fragmentDefinition hS)
    (.refl _) h

end QueryCheck.Written.Parser

namespace QueryCheck.Syntax

open QueryCheck.Source
open QueryCheck.Written.Parser (traced_of_parseQuery)

/-- **The names of a document are traced to its tokens.** Every name of an operation, a field, an
alias, a fragment or the type of one is the first occurrence of its text from a place in front of
the token it was read from. -/
theorem traced_parseDocument {text : String} {doc : Node} (h : parseDocument text = .ok doc) :
    doc.All (Node.Traced ⟨text.toList, .document⟩ (tokens text)) := by
  obtain ⟨q, ns, l, hq, rfl, hns⟩ := exists_written_of_parseDocument h
  obtain ⟨hops, hfragments⟩ := traced_of_parseQuery .document hq
  refine Node.all_mk (.other (by simp [Node.kind]))
    (List.forall_mem_singleton.mpr (Slot.all_placed fun n hn => ?_))
  rcases hns n hn with ⟨op, hop, rfl⟩ | ⟨f, hf, rfl⟩
  · exact hops op hop
  · exact hfragments f hf

/-- An operation with a name and a field with an alias. -/
def aliasedQuery : String := "query Q \x7b b: a \x7d"

theorem traced_parseDocument_aliasedQuery :
    ∃ doc, parseDocument aliasedQuery = .ok doc ∧
      nameLocations doc = [("Q", some ⟨6, 7, 1, 7, .document⟩),
        ("b", some ⟨10, 11, 1, 11, .document⟩), ("a", some ⟨13, 14, 1, 14, .document⟩)] ∧
      doc.All (Node.Traced ⟨aliasedQuery.toList, .document⟩ (tokens aliasedQuery)) := by
  have hnames : (parseDocument aliasedQuery).toOption.map nameLocations =
      some [("Q", some ⟨6, 7, 1, 7, .document⟩), ("b", some ⟨10, 11, 1, 11, .document⟩),
        ("a", some ⟨13, 14, 1, 14, .document⟩)] := by
    decide +kernel
  cases hdoc : parseDocument aliasedQuery with
  | error err => simp [hdoc, Except.toOption] at hnames
  | ok doc => exact ⟨doc, rfl, by simpa [hdoc, Except.toOption] using hnames,
      traced_parseDocument hdoc⟩

/-- An operation whose name also stands in a comment in front of it. -/
def echoedQuery : String := "query # Q\nQ \x7b a \x7d"

/-- **A name may be located in a comment.** The one token that says `Q` is on the second line, and
the name of the operation is located on the first. -/
theorem name_astray_echoedQuery :
    ∃ doc, parseDocument echoedQuery = .ok doc ∧
      nameLocations doc = [("Q", some ⟨8, 9, 1, 9, .document⟩),
        ("a", some ⟨14, 15, 2, 5, .document⟩)] ∧
      ((tokens echoedQuery).tokens.filter fun t => t.value = "Q").map Token.span =
        [⟨10, 11, 2⟩] := by
  have hnames : (parseDocument echoedQuery).toOption.map nameLocations =
      some [("Q", some ⟨8, 9, 1, 9, .document⟩), ("a", some ⟨14, 15, 2, 5, .document⟩)] := by
    decide +kernel
  cases hdoc : parseDocument echoedQuery with
  | error err => simp [hdoc, Except.toOption] at hnames
  | ok doc => exact ⟨doc, rfl, by simpa [hdoc, Except.toOption] using hnames, by decide +kernel⟩

/-- The type of a fragment may be located among its parameters. -/
example : (parseDocument "fragment F($on: T) on T \x7b a \x7d").toOption.map nameLocations =
    some [("F", some ⟨9, 10, 1, 10, .document⟩), ("on", some ⟨12, 14, 1, 13, .document⟩),
      ("T", some ⟨16, 17, 1, 17, .document⟩), ("T", some ⟨16, 17, 1, 17, .document⟩),
      ("a", some ⟨26, 27, 1, 27, .document⟩)] := by
  decide +kernel

end QueryCheck.Syntax
