import QueryCheck.Proofs.Syntax.Located
import QueryCheck.Proofs.Written.Soundness

/-! # What is read is located

The tokens of a text stand in it one behind the other, so that a name which has been read stands no
earlier than the place from which it is looked for. What a reader of phrases yields is therefore
located with all its parts. Only descriptions have no location.

* `standing`: the condition that tokens stand in a text from a place on.
* `Needs`: a reader that yields nothing at the end of a text, so that the next token stands there.
* `ensures_peek`, `ensures_here`, `ensures_name`: how the next token moves this place.
* `marked_value`, `marked_typeRef`, `marked_arguments`, `marked_directives`: what the readers of
  phrases yield.
* `DefinitionLocated`, `located_of_parseSchema`: the directive definitions of a text are located,
  and their locations mark stretches of it. -/

namespace QueryCheck.Written.Parser

open QueryCheck.Source
open QueryCheck.Syntax

variable {α β : Type} {e : Excerpt} {U : Prop} {lower : Nat}

/-! ### Places of tokens -/

/-- The tokens of a stream are sound and stand in a text one behind the other from a place on, and
behind them there is nothing to be read. Under a condition every `on` behind dots is spelled out. -/
structure Stands (e : Excerpt) (U : Prop) (lower : Nat) (s : Stream) : Prop where
  sound : s.Sound
  tokens : Standing e.chars lower s.tokens
  last : s.last.IsLast
  spelled : U → SpelledOut e.chars s.tokens

/-- The condition that the tokens of a stream stand in a text. -/
def standing (e : Excerpt) (U : Prop) (lower : Nat) : Stream.Condition where
  Holds := Stands e U lower
  of_leads hl hs :=
    ⟨hl.sound hs.sound, hs.tokens.of_suffix hl.tokens, by rw [hl.last]; exact hs.last,
      fun hU => (hs.spelled hU).suffix hl.tokens⟩

namespace Stands

variable {s : Stream}

theorem tokens_ne_nil (h : Stands e U lower s) (hk : ¬ s.peek.IsLast) : s.tokens ≠ [] := by
  intro hnil
  refine hk ?_
  rw [Stream.peek, hnil]
  exact h.last

/-- Where there is nothing, no token is next but one that stands for the end. -/
theorem kind_ne (h : Stands e U lower s) (hnil : s.tokens = []) {k : TokenKind}
    (hk : k ≠ .endOfText ∧ k ≠ .invalid) : s.peek.kind ≠ k :=
  fun hkind => h.tokens_ne_nil (Token.not_isLast hkind hk) hnil

/-- The next token stands in the text, and what follows stands behind it. -/
theorem advance (h : Stands e U lower s) (hne : s.tokens ≠ []) :
    lower ≤ s.peek.span.start ∧ s.peek.StandsIn e.chars ∧
      Stands e U s.peek.span.stop s.advance := by
  have hleads := (standing e U lower).of_leads s.leads_advance h
  have hstanding := h.tokens
  rw [Stream.tokens_eq_cons hne] at hstanding
  exact ⟨hstanding.1, hstanding.2.1, hleads.sound, hstanding.2.2, hleads.last, hleads.spelled⟩

/-- What is still to be read stands where the next token stands, or behind it. -/
theorem fromPeek (h : Stands e U lower s) : Stands e U s.peek.span.start s := by
  refine ⟨h.sound, ?_, h.last, h.spelled⟩
  have hstanding := h.tokens
  cases htokens : s.tokens with
  | nil => trivial
  | cons t ts =>
    rw [htokens] at hstanding
    have hpeek : s.peek = t := by rw [Stream.peek, htokens]; rfl
    exact ⟨hpeek ▸ le_rfl, hstanding.2⟩

end Stands

/-- What follows the next token stands where that token stands, or behind it. -/
theorem ensures_peek {f : Token → Parser β} {Q : β → Prop}
    (hf : ∀ t, (¬ t.IsLast → t.StandsIn e.chars) → EnsuresOn (standing e U t.span.start) (f t) Q) :
    EnsuresOn (standing e U lower) (peek >>= f) Q := by
  intro s hs y s' hr
  exact hf s.peek (fun hk => (hs.advance (hs.tokens_ne_nil hk)).2.1) s hs.fromPeek y s' hr

/-! ### Readers that need a token -/

/-- A reader that yields nothing at the end of a text. -/
def Needs (C : Stream.Condition) (p : Parser α) : Prop :=
  ∀ s, C.Holds s → s.tokens = [] → ∀ r, p.run s ≠ .ok r

namespace Needs

variable {C : Stream.Condition} {p q : Parser α} {f : α → Parser β}

theorem bind (h : Needs C p) : Needs C (p >>= f) := by
  intro s hs hnil r hr
  obtain ⟨x, s₁, hp, -⟩ := exists_run_of_bind hr
  exact h s hs hnil _ hp

/-- Readers in front leave nothing where there is nothing. -/
theorem after {P : α → Prop} (hp : EnsuresOn C p P) (hf : ∀ x, Needs C (f x)) :
    Needs C (p >>= f) := by
  intro s hs hnil r hr
  obtain ⟨x, s₁, hrun, hr⟩ := exists_run_of_bind hr
  obtain ⟨-, hl⟩ := hp s hs x s₁ hrun
  exact hf x s₁ (C.of_leads hl hs) (List.suffix_nil.mp (hnil ▸ hl.tokens)) r hr

theorem ite {c : Prop} [Decidable c] (hp : Needs C p) (hq : Needs C q) :
    Needs C (if c then p else q) := by
  split_ifs
  · exact hp
  · exact hq

theorem expect {k : TokenKind} (hk : k ≠ .endOfText ∧ k ≠ .invalid) :
    Needs (standing e U lower) (expect k) := by
  intro s hs hnil r hr
  rw [run_expect, if_neg (hs.kind_ne hnil hk)] at hr
  cases hr

theorem name : Needs (standing e U lower) name := (expect (by decide)).bind

theorem requiredSet {item : Parser α} : Needs (standing e U lower) (requiredSet item) := by
  intro s hs hnil r hr
  rw [Parser.requiredSet, run_peek_bind, if_neg (hs.kind_ne hnil (by decide))] at hr
  cases hr

theorem typeRefWithin : ∀ depth, Needs (standing e U lower) (typeRefWithin depth)
  | 0 => fun _ _ _ _ hr => by cases hr
  | depth + 1 => after (EnsuresOn.skip .bracketL) fun _ => .ite
      (after leads_peek fun _ => (typeRefWithin depth).bind) (after leads_peek fun _ => name.bind)

end Needs

/-- The next token stands in the text if a reader that follows needs it. -/
theorem ensures_here {f : Token → Parser β} {Q : β → Prop}
    (hneeds : ∀ t, Needs (standing e U lower) (f t))
    (hf : ∀ t, lower ≤ t.span.start → t.StandsIn e.chars →
      EnsuresOn (standing e U t.span.start) (f t) Q) :
    EnsuresOn (standing e U lower) (peek >>= f) Q := by
  intro s hs y s' hr
  have hne : s.tokens ≠ [] := fun hnil => hneeds s.peek s hs hnil _ hr
  obtain ⟨hlower, hstands, -⟩ := hs.advance hne
  exact hf s.peek hlower hstands s hs.fromPeek y s' hr

/-- The token of a name stands at its place, and what follows stands behind it. -/
theorem ensures_nameToken {f : Token → Parser β} {Q : β → Prop}
    (hf : ∀ t i, t.value ≠ "" → lower ≤ i → StandsAt e.chars t.value i →
      EnsuresOn (standing e U (i + t.value.length)) (f t) Q) :
    EnsuresOn (standing e U lower) (expect .name >>= f) Q := by
  intro s hs y s' hr
  obtain ⟨hk, hr⟩ := run_expect_bind hr
  have hvalue : s.peek.value ≠ "" := (hs.sound.peek.isName hk).ne_empty
  have hlast : ¬ s.peek.IsLast := Token.not_isLast hk (by decide)
  obtain ⟨hlower, hstands, hrest⟩ := hs.advance (hs.tokens_ne_nil hlast)
  obtain ⟨hplace, hstop⟩ := hstands.name hk
  rw [hstop] at hrest
  obtain ⟨hy, hl⟩ := hf s.peek s.peek.span.start hvalue hlower hplace s.advance hrest y s' hr
  exact ⟨hy, s.leads_advance.trans hl⟩

/-- A name stands at its place, and what follows stands behind it. -/
theorem ensures_name {f : String → Parser β} {Q : β → Prop}
    (hf : ∀ n i, n ≠ "" → lower ≤ i → StandsAt e.chars n i →
      EnsuresOn (standing e U (i + n.length)) (f n) Q) :
    EnsuresOn (standing e U lower) (name >>= f) Q := by
  rw [name, bind_assoc]
  exact ensures_nameToken fun t i hn hi hstands => hf t.value i hn hi hstands

/-! ### Values, types and directives -/

theorem marked_value (constant : Bool) : ∀ (depth lower : Nat),
    EnsuresOn (standing e U lower) (value constant depth) fun v => (e.value v).Marked e True
  | 0, _ => .unexpected
  | depth + 1, lower => ensures_peek fun t ht => by
    have hfield : ∀ lower, EnsuresOn (standing e U lower) (do
        let here := (← peek).span
        let n ← name
        discard (expect .colon)
        return (n, here, ← value constant depth) : Parser (String × Span × Value))
        fun f => (e.objectField f).Marked e True := fun lower => by
      refine ensures_here (fun _ => Needs.name.bind) fun t _ _ => ensures_name
        fun n i hn hi hstands => (leads_expect .colon).discard.bind fun _ _ =>
          (marked_value constant depth _).bind fun v hv => .pure ?_
      have hfound : True → e.Found n t.span.start := fun _ => ⟨hn, i, hi, hstands⟩
      exact Node.marked_mk (by decide) (Excerpt.marks_locate hfound)
        (by simp [Excerpt.marked_name hfound, hv])
    -- Every token a value may start with stands in the text.
    have hspan : ∀ k, t.kind = k → k ≠ .endOfText → k ≠ .invalid →
        e.Marks True (e.ofSpan t.span) := fun k hk hend hinvalid =>
      Excerpt.marks_ofSpan (ht (Token.not_isLast hk ⟨hend, hinvalid⟩)).within
    split
    · next hk =>
      refine (marked_value constant depth _).many.bind fun vs hvs => .pure ?_
      rw [Excerpt.value, Excerpt.values_eq]
      exact Node.marked_mk (by decide) (hspan _ hk (by decide) (by decide))
        (List.forall_mem_singleton.mpr (Slot.all_map hvs))
    · next hk =>
      refine (hfield _).many.bind fun fs hfs => .pure ?_
      rw [Excerpt.value, Excerpt.objectFields_eq]
      exact Node.marked_mk (by decide) (hspan _ hk (by decide) (by decide))
        (List.forall_mem_singleton.mpr (Slot.all_map hfs))
    · next hk =>
      refine .ite (fun _ => .unexpected) fun _ => ?_
      rw [variableName, bind_assoc]
      refine (leads_expect .dollar).discard.bind fun _ _ => ensures_name fun n i hn hi hstands =>
        .pure ?_
      rw [Excerpt.value]
      exact Node.marked_mk (by decide) (hspan _ hk (by decide) (by decide))
        (by simp [Excerpt.marked_name fun _ => ⟨hn, i, hi, hstands⟩])
    · split
      · next k hk =>
        refine leads_next.discard.bind fun _ _ => .pure ?_
        have hkind : t.kind ≠ .endOfText ∧ t.kind ≠ .invalid := by
          constructor <;> intro h <;> simp [literalKind?, h] at hk
        rw [Excerpt.value]
        exact Excerpt.marked_literal (hspan _ rfl hkind.1 hkind.2) _ _
      · exact .unexpected

theorem marked_anyValue (constant : Bool) :
    EnsuresOn (standing e U lower) (anyValue constant) fun v => (e.value v).Marked e True :=
  EnsuresOn.bound.bind fun depth _ => marked_value constant depth lower

theorem marked_typeRefWithin : ∀ depth lower,
    EnsuresOn (standing e U lower) (typeRefWithin depth) fun t => (e.typeRef t).Marked e True
  | 0, _ => .unexpected
  | depth + 1, _ => by
    have hnonNull : ∀ {t : Node} (b : Bool) {s : Span}, t.Marked e True → s.Within e.chars →
        (if b then .nonNullType (.node t) (e.ofSpan s) else t).Marked e True := fun b _ ht hs =>
      Excerpt.all_nonNull ht b _ ⟨Excerpt.marks_ofSpan hs, rfl, nofun⟩
    refine (EnsuresOn.skip .bracketL).bind fun _ _ => .ite (fun _ => ?_) fun _ => ?_
    · refine ensures_here (fun _ => (Needs.typeRefWithin depth).bind) fun t _ ht =>
        (marked_typeRefWithin depth _).bind fun _ helem =>
          (leads_expect .bracketR).discard.bind fun _ _ => (EnsuresOn.skip .bang).bind fun b _ =>
            .pure (hnonNull b (Node.marked_mk (by decide) (Excerpt.marks_ofSpan ht.within)
              (by simp [helem])) ht.within)
    · exact ensures_here (fun _ => Needs.name.bind) fun t _ ht => ensures_name
        fun _ i hn hi hstands => (EnsuresOn.skip .bang).bind fun b _ =>
          .pure (hnonNull b (Excerpt.marked_namedType fun _ => ⟨hn, i, hi, hstands⟩) ht.within)

theorem marked_typeRef :
    EnsuresOn (standing e U lower) typeRef fun t => (e.typeRef t).Marked e True :=
  EnsuresOn.bound.bind fun depth _ => marked_typeRefWithin depth lower

theorem marked_arguments (constant : Bool) :
    EnsuresOn (standing e U lower) (arguments constant) fun args =>
      Slot.Marked e True (.many (e.arguments args)) := by
  have hargument : EnsuresOn (standing e U lower) (argument constant)
      fun a => (e.argument a).Marked e True :=
    ensures_here (fun _ => Needs.name.bind) fun t _ ht => ensures_name fun n i hn hi hstands =>
      (leads_expect .colon).discard.bind fun _ _ => (marked_anyValue constant).bind fun v hv =>
        .pure (Node.marked_mk (by decide) (Excerpt.marks_ofSpan ht.within)
          (by simp [Excerpt.marked_name fun _ => ⟨hn, i, hi, hstands⟩, hv]))
  refine hargument.nonEmpty.mono fun args hargs => ?_
  rw [Excerpt.arguments_eq]
  exact Slot.all_map hargs

theorem marked_directives (constant : Bool) :
    EnsuresOn (standing e U lower) (directives constant) fun dirs =>
      Slot.Marked e True (.many (e.directives dirs)) := by
  have hdirective : EnsuresOn (standing e U lower) (directive constant)
      fun d => (e.directive d).Marked e True :=
    (leads_expect .atSign).discard.bind fun _ _ => ensures_here (fun _ => Needs.name.bind)
      fun t _ ht => ensures_name fun n i hn hi hstands =>
        (marked_arguments constant).bind fun args hargs =>
          .pure (Node.marked_mk (by decide) (Excerpt.marks_directiveLocation ht.within)
            (by simp [Excerpt.marked_name fun _ => ⟨hn, i, hi, hstands⟩, hargs]))
  refine (EnsuresOn.bound.bind fun n _ => hdirective.whileNext n).mono fun dirs hdirs => ?_
  rw [Excerpt.directives_eq]
  exact Slot.all_map hdirs

theorem marked_defaultValue :
    EnsuresOn (standing e U lower) defaultValue fun v => Slot.Marked e True (.one (e.value? v)) :=
  (EnsuresOn.skip .equals).bind fun _ _ => .ite
    (fun _ => (marked_anyValue true).bind fun _ hv => .pure (Slot.all_one.mpr hv))
    (fun _ => .pure nofun)

/-! ### Definitions -/

/-- All parts of an argument definition are located but for its description, and all locations mark
a stretch of the text. -/
structure InputLocated (e : Excerpt) (v : InputValue) : Prop where
  name : (e.name v.name v.span.start).Located
  type : (e.typeRef v.type).Located
  default : Slot.Located (.one (e.value? v.default))
  directives : Slot.Located (.many (e.directives v.directives))
  marked : (e.inputValue v).Marked e False

/-- All parts of a directive definition are located but for descriptions, and all locations mark a
stretch of the text. -/
structure DefinitionLocated (e : Excerpt) (d : DirectiveDefinition) : Prop where
  name : (e.name d.name d.span.start).Located
  arguments : ∀ a ∈ d.arguments, InputLocated e a
  locations : Slot.Located (.many
    (e.locationNames (Excerpt.endOr (e.name d.name d.span.start) d.span.start) d.locations))
  marked : (e.directiveDefinition d).Marked e False

/-- A description has no location that could mark anything. -/
theorem marked_description (s : String) : Slot.Marked e False (.one (Excerpt.description s)) := by
  unfold Excerpt.description
  split_ifs
  · exact Slot.all_absent
  · have hnowhere : e.Marks False none := ⟨nofun, nofun⟩
    exact Slot.all_one.mpr (Node.marked_mk (by decide) hnowhere (by simp))

theorem leads_description {C : Stream.Condition} : EnsuresOn C description fun _ => True :=
  leads_peek.bind fun _ _ => .ite
    (fun _ => leads_next.discard.bind fun _ _ => .pure trivial) fun _ => .pure trivial

theorem located_inputValue :
    EnsuresOn (standing e U lower) inputValue (InputLocated e) := by
  refine ensures_here (fun _ => .after leads_description fun _ => Needs.name.bind) fun t _ ht =>
    leads_description.bind fun desc _ =>
    ensures_name fun n i hn hi hstands => (leads_expect .colon).discard.bind fun _ _ =>
      marked_typeRef.bind fun type htype => marked_defaultValue.bind fun default hdefault =>
        (marked_directives true).bind fun dirs hdirs => .pure ?_
  have hname : (e.name n t.span.start).Marked e True :=
    Excerpt.marked_name fun _ => ⟨hn, i, hi, hstands⟩
  refine ⟨hname.located, htype.located, hdefault.located, hdirs.located, ?_⟩
  exact Node.marked_mk (by decide) (Excerpt.marks_ofSpan ht.within)
    (by simp [marked_description, hname.weaken, htype.weaken, hdefault.weaken, hdirs.weaken])

theorem located_argumentDefinitions :
    EnsuresOn (standing e U lower) argumentDefinitions fun args => ∀ a ∈ args, InputLocated e a :=
  located_inputValue.nonEmpty

/-- A place a directive is declared for stands at its place, and what follows stands behind it. -/
theorem ensures_directiveLocation {f : String → Parser β} {Q : β → Prop}
    (hf : ∀ n i, n ≠ "" → lower ≤ i → StandsAt e.chars n i →
      EnsuresOn (standing e U (i + n.length)) (f n) Q) :
    EnsuresOn (standing e U lower) (directiveLocation >>= f) Q := by
  rw [directiveLocation, bind_assoc]
  refine ensures_nameToken fun t i hn hi hstands => ?_
  split_ifs
  · rw [pure_bind]
    exact hf t.value i hn hi hstands
  · exact (EnsuresOn.unexpectedToken (P := fun _ => False) t).bind nofun

/-- The places behind the first stand one behind the other. -/
theorem follow_whileNext : ∀ bound lower, EnsuresOn (standing e U lower)
    (whileNext .pipe (do discard next; directiveLocation) bound) (e.Follow lower)
  | 0, _ => .pure trivial
  | bound + 1, lower => by
    refine leads_peek.bind fun t _ => .ite (fun _ => ?_) fun _ => .pure trivial
    rw [bind_assoc]
    exact leads_next.discard.bind fun _ _ => ensures_directiveLocation fun n i hn hi hstands =>
      (follow_whileNext bound _).bind fun names hnames => .pure ⟨hn, i, hi, hstands, hnames⟩

theorem follow_separated :
    EnsuresOn (standing e U lower) (separated .pipe directiveLocation) (e.Follow lower) :=
  (EnsuresOn.skip .pipe).discard.bind fun _ _ => ensures_directiveLocation
    fun _ i hn hi hstands => EnsuresOn.bound.bind fun bound _ => (follow_whileNext bound _).bind
      fun _ hnames => .pure ⟨hn, i, hi, hstands, hnames⟩

/-- **A directive definition that is read is located** but for descriptions. -/
theorem located_directiveDefinition (desc : String) :
    EnsuresOn (standing e U lower) (directiveDefinition desc) (DefinitionLocated e) := by
  refine (EnsuresOn.expectWord "directive").bind fun _ _ => (leads_expect .atSign).discard.bind
    fun _ _ => ensures_here (fun _ => Needs.name.bind) fun t _ ht =>
    ensures_name fun n i hn hi hstands =>
    located_argumentDefinitions.bind fun args hargs => leads_peek.bind fun _ _ => ?_
  have hname : (e.name n t.span.start).Marked e True :=
    Excerpt.marked_name fun _ => ⟨hn, i, hi, hstands⟩
  have hvalues : Slot.Marked e False (.many (args.map fun a => .node (e.inputValue a))) := by
    rw [show args.map (fun a => .node (e.inputValue a)) = placed (args.map e.inputValue) by simp]
    exact Slot.all_map fun a ha => (hargs a ha).marked
  have hrest : ∀ repeatable, EnsuresOn (standing e U (i + n.length)) (do
      expectWord "on"
      return ⟨desc, n, args, repeatable, ← separated .pipe directiveLocation, t.span⟩)
      (DefinitionLocated e) := fun repeatable =>
    (EnsuresOn.expectWord "on").bind fun _ _ => follow_separated.bind fun names hnames => by
      have hnames : Slot.Marked e True (.many (e.locationNames
          (Excerpt.endOr (e.name n t.span.start) t.span.start) names)) :=
        Excerpt.marked_locationNames (hnames.mono (Excerpt.endOr_name_le hn hi hstands _))
      refine .pure ⟨hname.located, hargs, hnames.located, ?_⟩
      exact Node.marked_mk (by decide) (Excerpt.marks_ofSpan ht.within)
        (by simp [marked_description, hname.weaken, hvalues, hnames.weaken])
  exact .ite (fun _ => leads_next.discard.bind fun _ _ => hrest true) fun _ => hrest false

/-! ### Other definitions

Of these it matters only that they take tokens. -/

theorem leads_directives (constant : Bool) :
    EnsuresOn (standing e U lower) (directives constant) fun _ => True :=
  (marked_directives constant).mono fun _ _ => trivial

theorem leads_typeRef : EnsuresOn (standing e U lower) typeRef fun _ => True :=
  marked_typeRef.mono fun _ _ => trivial

theorem leads_argumentDefinitions :
    EnsuresOn (standing e U lower) argumentDefinitions fun _ => True :=
  located_argumentDefinitions.mono fun _ _ => trivial

theorem leads_separated (separator : TokenKind) {C : Stream.Condition} :
    EnsuresOn C (separated separator name) fun _ => True :=
  (EnsuresOn.skip separator).discard.bind fun _ _ => leads_name.bind fun _ _ =>
    EnsuresOn.bound.bind fun bound _ =>
      (EnsuresOn.whileNext (leads_next.discard.bind fun _ _ => leads_name) bound).bind fun _ _ =>
        .pure trivial

theorem leads_fieldDefinitions :
    EnsuresOn (standing e U lower) fieldDefinitions fun _ => True :=
  (EnsuresOn.nonEmpty (P := fun _ => True) <| leads_peek.bind fun _ _ => leads_description.bind
    fun _ _ => leads_name.bind fun _ _ => leads_argumentDefinitions.bind fun _ _ =>
      (leads_expect .colon).discard.bind fun _ _ => leads_typeRef.bind fun _ _ =>
        (leads_directives true).bind fun _ _ => .pure trivial).mono fun _ _ => trivial

theorem leads_inputFields : EnsuresOn (standing e U lower) inputFields fun _ => True :=
  (EnsuresOn.nonEmpty (P := fun _ => True) <| located_inputValue.bind fun _ _ =>
    .pure trivial).mono fun _ _ => trivial

theorem leads_enumValues : EnsuresOn (standing e U lower) enumValues fun _ => True :=
  (EnsuresOn.nonEmpty (P := fun _ => True) <| leads_peek.bind fun _ _ => leads_description.bind
    fun _ _ => leads_name.bind fun _ _ => (leads_directives true).bind fun _ _ =>
      .pure trivial).mono fun _ _ => trivial

theorem leads_implementsInterfaces {C : Stream.Condition} :
    EnsuresOn C implementsInterfaces fun _ => True :=
  leads_peek.bind fun _ _ => .ite
    (fun _ => leads_next.discard.bind fun _ _ => leads_separated .amp) fun _ => .pure trivial

theorem leads_unionMembers {C : Stream.Condition} : EnsuresOn C unionMembers fun _ => True :=
  (EnsuresOn.skip .equals).bind fun _ _ => .ite (fun _ => leads_separated .pipe)
    fun _ => .pure trivial

theorem leads_schemaDefinition :
    EnsuresOn (standing e U lower) schemaDefinition fun _ => True :=
  (EnsuresOn.expectWord "schema").bind fun _ _ => leads_peek.bind fun _ _ =>
    (leads_directives true).bind fun _ _ =>
      (EnsuresOn.nonEmpty (P := fun _ => True) <| leads_peek.bind fun _ _ =>
        ensures_operationType.bind fun _ _ => (leads_expect .colon).discard.bind fun _ _ =>
          leads_name.bind fun _ _ => .pure trivial).bind fun _ _ => .pure trivial

theorem leads_typeDefinition (kind : TypeKind) (desc : String) :
    EnsuresOn (standing e U lower) (typeDefinition kind desc) fun _ => True := by
  refine (EnsuresOn.expectWord _).bind fun _ _ => leads_peek.bind fun _ _ => leads_name.bind
    fun n _ => .join (fun _ => leads_implementsInterfaces) (fun _ => .pure trivial)
      fun _ _ => (leads_directives true).bind fun _ _ => ?_
  cases kind with
  | scalar => exact .pure trivial
  | object | interface => exact leads_fieldDefinitions.bind fun _ _ => .pure trivial
  | union => exact leads_unionMembers.bind fun _ _ => .pure trivial
  | enum => exact leads_enumValues.bind fun _ _ => .pure trivial
  | inputObject => exact leads_inputFields.bind fun _ _ => .pure trivial

theorem leads_typeExtension (kind : TypeKind) :
    EnsuresOn (standing e U lower) (typeExtension kind) fun _ => True := by
  refine (EnsuresOn.expectWord _).bind fun _ _ => leads_peek.bind fun _ _ => leads_name.bind
    fun n _ => .join (fun _ => leads_implementsInterfaces) (fun _ => .pure trivial)
      fun _ _ => (leads_directives _).bind fun _ _ => ?_
  cases kind with
  | scalar => exact .ite (fun _ => .unexpected) fun _ => .pure trivial
  | object | interface =>
    exact leads_fieldDefinitions.bind fun _ _ => .ite (fun _ => .unexpected) fun _ => .pure trivial
  | union =>
    exact leads_unionMembers.bind fun _ _ => .ite (fun _ => .unexpected) fun _ => .pure trivial
  | enum =>
    exact leads_enumValues.bind fun _ _ => .ite (fun _ => .unexpected) fun _ => .pure trivial
  | inputObject =>
    exact leads_inputFields.bind fun _ _ => .ite (fun _ => .unexpected) fun _ => .pure trivial

/-! ### Whole texts -/

/-- All directive definitions of a schema text are located but for descriptions. -/
def DefinitionsLocated (e : Excerpt) (doc : SchemaDocument) : Prop :=
  ∀ d ∈ doc.directives, DefinitionLocated e d

theorem located_extension {doc : SchemaDocument} (h : DefinitionsLocated e doc) :
    EnsuresOn (standing e U lower) (extension doc) (DefinitionsLocated e) := by
  refine (EnsuresOn.expectWord _).bind fun _ _ => leads_peek.bind fun t _ =>
    .ite (fun _ => ?_) fun _ => ?_
  · exact (leads_schemaDefinition.bind fun _ _ => .ite (fun _ => .unexpected) fun _ =>
      .pure trivial).bind fun _ _ => .pure h
  · split
    · exact (leads_typeExtension _).bind fun _ _ => .pure h
    · exact .unexpected

theorem located_schemaEntry {doc : SchemaDocument} (h : DefinitionsLocated e doc) :
    EnsuresOn (standing e U lower) (schemaEntry doc) (DefinitionsLocated e) := by
  refine leads_peek.bind fun first _ => leads_description.bind fun desc _ => leads_peek.bind
    fun t _ => .ite (fun _ => .unexpected) fun _ => .ite (fun _ => ?_) fun _ =>
      .ite (fun _ => ?_) fun _ => .ite (fun _ => ?_) fun _ => ?_
  · exact leads_schemaDefinition.bind fun _ _ => .pure h
  · refine (located_directiveDefinition desc).bind fun d hd => .pure fun d' hd' => ?_
    rcases List.mem_append.mp hd' with hd' | hd'
    · exact h d' hd'
    · exact List.mem_singleton.mp hd' ▸ hd
  · exact .ite (fun _ => .unexpectedToken _) fun _ => located_extension h
  · split
    · exact (leads_typeDefinition _ _).bind fun _ _ => .pure h
    · exact .unexpected

theorem located_schemaEntries : ∀ (bound : Nat) {doc : SchemaDocument},
    DefinitionsLocated e doc →
    EnsuresOn (standing e U lower) (schemaEntries doc bound) (DefinitionsLocated e)
  | 0, _, h => .pure h
  | bound + 1, _, h => leads_peek.bind fun _ _ => .ite (fun _ => .pure h) fun _ =>
      (located_schemaEntry h).bind fun _ hdoc => located_schemaEntries bound hdoc

/-- **The directive definitions of a text are located** but for descriptions. -/
theorem located_of_parseSchema {text : String} {doc : SchemaDocument}
    (h : parseSchema text = .ok doc) (o : Origin) :
    DefinitionsLocated ⟨text.toList, o⟩ doc := by
  unfold parseSchema at h
  cases hr : schemaDocument.run (tokens text) with
  | error err =>
    rw [hr] at h
    cases h
  | ok r =>
    rw [hr] at h
    obtain rfl := Except.ok.inj h
    have hread : EnsuresOn (standing ⟨text.toList, o⟩ False 0) schemaDocument
        (DefinitionsLocated ⟨text.toList, o⟩) :=
      EnsuresOn.bound.bind fun bound _ => located_schemaEntries bound nofun
    obtain ⟨hstanding, hlast⟩ := standing_tokens text
    exact (hread _ ⟨sound_tokens text, hstanding, hlast, nofun⟩ r.1 r.2 hr).1

end QueryCheck.Written.Parser
