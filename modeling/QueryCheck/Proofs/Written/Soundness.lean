import QueryCheck.Proofs.Syntax.Unlocated
import QueryCheck.Proofs.Written.Yields

/-! # What is read is a phrase

On sound tokens, what a reader of phrases yields stands for a phrase of the grammar, whatever the
text it was read from.

* `ensures_value`, `ensures_typeRef`, `ensures_selection`, `ensures_operation`,
  `ensures_fragmentDefinition`: what the readers of phrases yield.
* `consists_of_parseQuery`: a text is made of what the readers of its definitions yield.
* `isRead_of_parseQuery`: what is read from a text stands for definitions. -/

namespace QueryCheck.Written.Parser

open QueryCheck.Source
open QueryCheck.Syntax

variable {α β : Type} {S : Lexeme → Prop}

/-! ### Values, types and directives -/

/-- A token that is a literal stands for a value. -/
theorem isValue_literal (constant : Bool) {t : Token} (ht : t.Sound) (hS : t.Says S)
    {k : LiteralKind} (hk : literalKind? t = some k) :
    IsValue S constant (Excerpt.literal none t.value k) := by
  unfold Token.Sound at ht
  unfold literalKind? at hk
  split at hk
  · next h =>
    rw [h] at ht
    obtain rfl := Option.some.inj hk
    exact .int ht
  · next h =>
    rw [h] at ht
    obtain rfl := Option.some.inj hk
    exact .float ht
  · next h =>
    obtain rfl := Option.some.inj hk
    have hstring := hS (.inl h)
    rw [Token.lexeme, h] at hstring
    exact .string hstring
  · next h =>
    obtain rfl := Option.some.inj hk
    have hstring := hS (.inr h)
    rw [Token.lexeme, h] at hstring
    exact .block hstring
  · next h =>
    rw [h] at ht
    split_ifs at hk with hb hn
    · obtain rfl := Option.some.inj hk
      exact .boolean _
    · obtain rfl := Option.some.inj hk
      exact .null
    · obtain rfl := Option.some.inj hk
      rw [not_or] at hb
      exact .enum ht (by simp [hb, hn])
  · cases hk

theorem ensures_value (constant : Bool) : ∀ depth,
    Ensures S (value constant depth) fun v => ∀ e : Excerpt, IsValue S constant (e.value v).cloneDeep
  | 0 => .unexpected
  | depth + 1 => Ensures.peek.bind fun t ht => by
    have ih := ensures_value constant depth
    have hfield : Ensures S (do
        let here := (← peek).span
        let n ← name
        discard (expect .colon)
        return (n, here, ← value constant depth) : Parser (String × Span × Value))
        fun f => IsName f.1 ∧ ∀ e : Excerpt, IsValue S constant (e.value f.2.2).cloneDeep :=
      Ensures.peek.bind fun _ _ => Ensures.name.bind fun n hn =>
        (Ensures.expect .colon).discard.bind fun _ _ => ih.bind fun v hv => .pure ⟨hn, hv⟩
    split
    · refine ih.many.bind fun vs hvs => .pure fun e => ?_
      rw [Excerpt.cloneDeep_list]
      refine .list fun n hn => ?_
      obtain ⟨v, hv, rfl⟩ := List.mem_map.mp hn
      exact hvs v hv e
    · refine hfield.many.bind fun fs hfs => .pure fun e => ?_
      rw [Excerpt.cloneDeep_object]
      have h : IsValue S constant
          (.objectValue
            (placed ((fs.map fun f => (f.1, (e.value f.2.2).cloneDeep)).map fieldOf)) none) := by
        refine .object ?_ ?_ <;>
        · intro g hg
          obtain ⟨f, hf, rfl⟩ := List.mem_map.mp hg
          first | exact (hfs f hf).1 | exact (hfs f hf).2 e
      rwa [List.map_map] at h
    · refine .ite (fun _ => .unexpected) fun hc => ?_
      refine ((Ensures.expect .dollar).discard.bind fun _ _ => Ensures.name).bind fun n hn =>
        .pure fun e => ?_
      exact .var (by simpa using hc) hn
    · split
      · next k hk =>
        refine Ensures.next.discard.bind fun _ _ => .pure fun e => ?_
        rw [Excerpt.cloneDeep_literal]
        exact isValue_literal constant ht.1 ht.2 hk
      · exact .unexpected

theorem ensures_anyValue (constant : Bool) :
    Ensures S (anyValue constant) fun v => ∀ e : Excerpt, IsValue S constant (e.value v).cloneDeep :=
  EnsuresOn.bound.bind fun depth _ => ensures_value constant depth

theorem ensures_typeRefWithin : ∀ depth,
    Ensures S (typeRefWithin depth) fun t => ∀ e : Excerpt, IsType (e.typeRef t).cloneDeep
  | 0 => .unexpected
  | depth + 1 => (EnsuresOn.skip .bracketL).bind fun _ _ => .ite
      (fun _ => Ensures.peek.bind fun _ _ => (ensures_typeRefWithin depth).bind fun elem helem =>
        (Ensures.expect .bracketR).discard.bind fun _ _ => (EnsuresOn.skip .bang).bind fun b _ =>
          .pure fun e => by
          rw [Excerpt.cloneDeep_listType]
          exact .list b (helem e))
      (fun _ => Ensures.peek.bind fun _ _ => Ensures.name.bind fun n hn =>
        (EnsuresOn.skip .bang).bind fun b _ => .pure fun e => by
          rw [Excerpt.cloneDeep_named]
          exact .named b hn)

theorem ensures_typeRef : Ensures S typeRef fun t => ∀ e : Excerpt, IsType (e.typeRef t).cloneDeep :=
  EnsuresOn.bound.bind fun depth _ => ensures_typeRefWithin depth

theorem ensures_arguments (constant : Bool) :
    Ensures S (arguments constant) fun args =>
      ∀ a ∈ args, ∀ e : Excerpt, IsArgument S constant (e.argument a).cloneDeep :=
  .nonEmpty <| Ensures.peek.bind fun _ _ => Ensures.name.bind fun n hn =>
    (Ensures.expect .colon).discard.bind fun _ _ => (ensures_anyValue constant).bind fun v hv =>
      .pure fun e => by
      rw [Excerpt.cloneDeep_argument]
      exact .mk hn (hv e)

theorem ensures_directives (constant : Bool) :
    Ensures S (directives constant) fun dirs =>
      ∀ d ∈ dirs, ∀ e : Excerpt, IsDirective S constant (e.directive d).cloneDeep :=
  EnsuresOn.bound.bind fun n _ => .whileNext (p := directive constant)
    ((Ensures.expect .atSign).discard.bind fun _ _ => Ensures.peek.bind fun _ _ =>
      Ensures.name.bind fun n hn =>
      (ensures_arguments constant).bind fun args hargs => .pure fun e => by
        rw [Excerpt.cloneDeep_directive]
        exact .mk hn (List.forall_mem_map.mpr fun a ha => hargs a ha e)) n

theorem ensures_defaultValue :
    Ensures S defaultValue fun v => ∀ d ∈ v, ∀ e : Excerpt, IsValue S true (e.value d).cloneDeep :=
  (EnsuresOn.skip .equals).bind fun _ _ => .ite
    (fun _ => (ensures_anyValue true).bind fun v hv => .pure fun d hd => by
      obtain rfl := Option.some.inj hd
      exact hv)
    (fun _ => .pure fun d hd => by cases hd)

/-! ### Selections -/

theorem ensures_fragmentName : Ensures S fragmentName fun n => IsName n ∧ n ≠ "on" := by
  intro s hs n s' hr
  rw [fragmentName, run_peek_bind] at hr
  split_ifs at hr with hon
  · cases hr
  · obtain ⟨hn, hl⟩ := Ensures.name s hs n s' hr
    obtain ⟨t, s₁, ht, hr⟩ := exists_run_of_bind hr
    rw [run_expect] at ht
    split_ifs at ht
    · obtain ⟨rfl, rfl⟩ := Prod.mk.inj (Except.ok.inj ht)
      obtain ⟨rfl, rfl⟩ := Prod.mk.inj (Except.ok.inj hr)
      exact ⟨⟨hn, hon⟩, hl⟩
    · cases ht

/-- A selection set where one may stand. -/
theorem ensures_optionalSet {C : Stream.Condition} {p : Parser α} {P : α → Prop}
    (h : EnsuresOn C p P) {f : Option (List α) → Parser β} {Q : β → Prop}
    (hf : ∀ sel, (∀ ss ∈ sel, ss ≠ [] ∧ ∀ a ∈ ss, P a) → EnsuresOn C (f sel) Q) :
    EnsuresOn C (do
      let sel ← if (← peek).kind = .braceL then pure (some (← nonEmpty .braceL .braceR p))
        else pure none
      f sel) Q := by
  intro s hs y s' hr
  rw [run_peek_bind] at hr
  dsimp only at hr
  split_ifs at hr with hk
  · obtain ⟨as, s₁, has, hr⟩ := exists_run_of_bind hr
    obtain ⟨hP, hl⟩ := h.nonEmpty_next hs hk has
    obtain ⟨hy, hl'⟩ := hf (some as) (fun ss hss => Option.some.inj hss ▸ hP) _
      (C.of_leads hl hs) y s' hr
    exact ⟨hy, hl.trans hl'⟩
  · exact hf none (fun _ h => by cases h) _ hs y s' hr

/-- A reader of selections yields selections. -/
abbrev EnsuresSelection (S : Lexeme → Prop) (p : Parser Selection) : Prop :=
  Ensures S p fun sel => ∀ e : Excerpt, IsSelection S (e.selection sel).cloneDeep

theorem ensures_field {p : Parser Selection} (h : EnsuresSelection S p) :
    EnsuresSelection S (field p) := by
  refine Ensures.peek.bind fun _ _ => Ensures.name.bind fun key hkey => (EnsuresOn.skip .colon).bind
    fun _ _ =>
    .join (fun _ => Ensures.name) (fun _ => .pure hkey) fun n hn => (ensures_arguments false).bind
      fun args hargs => (ensures_directives false).bind fun dirs hdirs => ensures_optionalSet h
        fun sel hsel => .pure fun e => ?_
  rw [Excerpt.cloneDeep_field]
  refine .field ?_ hn (List.forall_mem_map.mpr fun a ha => hargs a ha e)
    (List.forall_mem_map.mpr fun d hd => hdirs d hd e) ?_ ?_
  · intro k hk
    unfold Excerpt.keyOf at hk
    split_ifs at hk with hkn
    · cases hk
    · obtain rfl := Option.some.inj hk
      exact ⟨hkey, hkn⟩
  · intro ss' hss'
    obtain ⟨ss, hss, rfl⟩ := Option.map_eq_some_iff.mp hss'
    simpa using (hsel ss hss).1
  · intro ss' hss'
    obtain ⟨ss, hss, rfl⟩ := Option.map_eq_some_iff.mp hss'
    exact List.forall_mem_map.mpr fun s hs => (hsel ss hss).2 s hs e

theorem ensures_fragment {p : Parser Selection} (h : EnsuresSelection S p) :
    EnsuresSelection S (fragment p) := by
  refine (Ensures.expect .spread).discard.bind fun _ _ => Ensures.peek.bind fun t ht =>
    .ite (fun _ => ?_) fun _ => ?_
  · refine ensures_fragmentName.bind fun n hn => (ensures_directives false).bind fun dirs hdirs =>
      .pure fun e => ?_
    rw [Excerpt.cloneDeep_spread]
    exact .spread hn.1 hn.2 (List.forall_mem_map.mpr fun d hd => hdirs d hd e)
  · have hrest : ∀ cond : Option String, (∀ t ∈ cond, IsName t) → EnsuresSelection S (do
        let dirs ← directives false
        return .inline cond dirs (← requiredSet p) t.span) := by
      intro cond hcond
      refine (ensures_directives false).bind fun dirs hdirs => h.requiredSet.bind fun ss hss =>
        .pure fun e => ?_
      rw [Excerpt.cloneDeep_inline]
      exact .inline hcond (List.forall_mem_map.mpr fun d hd => hdirs d hd e) (by simpa using hss.1)
        (List.forall_mem_map.mpr fun s hs => hss.2 s hs e)
    refine .ite (fun _ => Ensures.next.discard.bind fun _ _ => Ensures.name.bind fun n hn => ?_)
      fun _ => ?_
    · exact hrest (some n) fun t ht => Option.some.inj ht ▸ hn
    · exact hrest none fun t ht => by cases ht

theorem ensures_selection : ∀ depth, EnsuresSelection S (selection depth)
  | 0 => .unexpected
  | depth + 1 =>
    Ensures.peek.bind fun _ _ => .ite (fun _ => ensures_fragment (ensures_selection depth))
      fun _ => ensures_field (ensures_selection depth)

theorem ensures_selectionSet :
    Ensures S selectionSet
      fun ss => ss ≠ [] ∧ ∀ s ∈ ss, ∀ e : Excerpt, IsSelection S (e.selection s).cloneDeep :=
  EnsuresOn.bound.bind fun depth _ => (ensures_selection depth).requiredSet

/-! ### Definitions -/

theorem ensures_variableDefinitions :
    Ensures S variableDefinitions fun vars =>
      ∀ v ∈ vars, ∀ e : Excerpt, IsVariableDefinition S (e.variableDefinition v).cloneDeep := by
  refine .nonEmpty <| Ensures.peek.bind fun _ _ =>
    ((Ensures.expect .dollar).discard.bind fun _ _ => Ensures.name).bind fun n hn =>
      (Ensures.expect .colon).discard.bind fun _ _ => ensures_typeRef.bind fun t ht =>
        ensures_defaultValue.bind fun d hd => (ensures_directives false).bind fun dirs hdirs =>
          .pure fun e => ?_
  rw [Excerpt.cloneDeep_variableDefinition]
  refine .mk hn (ht e) ?_ (List.forall_mem_map.mpr fun d hd => hdirs d hd e)
  intro v hv
  obtain ⟨w, hw, rfl⟩ := Option.map_eq_some_iff.mp hv
  exact hd w hw e

theorem ensures_operationType {C : Stream.Condition} :
    EnsuresOn C operationType fun _ => True := by
  refine .get fun s => leads_next.bind fun t _ => ?_
  split
  · exact .pure trivial
  · split
    · exact .complain _ _
    · exact .unexpectedToken _

/-- The name of an operation where one may stand. -/
theorem ensures_optionalName {f : Option String → Parser β} {Q : β → Prop}
    (hf : ∀ n, (∀ s ∈ n, IsName s) → Ensures S (f n) Q) :
    Ensures S (do
      let n ← if (← peek).kind = .name then pure (some (← next).value) else pure none
      f n) Q := by
  intro s hs y s' hr
  rw [run_peek_bind] at hr
  dsimp only at hr
  split_ifs at hr with hk
  · rw [run_next_bind] at hr
    have hl := s.leads_advance
    have hname : ∀ w ∈ some s.peek.value, IsName w :=
      fun w hw => Option.some.inj hw ▸ hs.1.peek.isName hk
    obtain ⟨hy, hl'⟩ := hf _ hname _ ((Stream.soundness S).of_leads hl hs) y s' hr
    exact ⟨hy, hl.trans hl'⟩
  · exact hf none (fun _ h => by cases h) _ hs y s' hr

theorem ensures_operation :
    Ensures S operation fun op => ∀ e : Excerpt, IsDefinition S (e.operation op).cloneDeep := by
  refine Ensures.peek.bind fun t _ => .ite (fun _ => ?_) fun _ => ?_
  · refine ensures_selectionSet.bind fun ss hss => .pure fun e => ?_
    rw [Excerpt.cloneDeep_operation]
    exact .operation .query (by simp) (by simp) (by simp) (by simpa using hss.1)
      (List.forall_mem_map.mpr fun s hs => hss.2 s hs e)
  · refine ensures_operationType.bind fun op _ => ensures_optionalName fun n hn =>
      ensures_variableDefinitions.bind fun vars hvars => (ensures_directives false).bind
      fun dirs hdirs => ensures_selectionSet.bind fun ss hss =>
        .pure fun e => ?_
    rw [Excerpt.cloneDeep_operation]
    exact .operation op hn (List.forall_mem_map.mpr fun v hv => hvars v hv e)
      (List.forall_mem_map.mpr fun d hd => hdirs d hd e)
      (by simpa using hss.1) (List.forall_mem_map.mpr fun s hs => hss.2 s hs e)

theorem ensures_fragmentDefinition :
    Ensures S fragmentDefinition fun f => ∀ e : Excerpt, IsDefinition S (e.fragment f).cloneDeep := by
  refine Ensures.peek.bind fun t _ => (EnsuresOn.expectWord "fragment").bind fun _ _ =>
    ensures_fragmentName.bind fun n hn => ensures_variableDefinitions.bind fun vars hvars =>
    (EnsuresOn.expectWord "on").bind fun _ _ =>
      Ensures.name.bind fun cond hcond => (ensures_directives false).bind fun dirs hdirs =>
        ensures_selectionSet.bind fun ss hss => .pure fun e => ?_
  rw [Excerpt.cloneDeep_fragment]
  exact .fragment hn.1 hn.2 (List.forall_mem_map.mpr fun v hv => hvars v hv e) hcond
    (List.forall_mem_map.mpr fun d hd => hdirs d hd e) (by simpa using hss.1)
      (List.forall_mem_map.mpr fun s hs => hss.2 s hs e)

/-! ### Whole texts -/

/-- A document made of operations and fragments with certain properties. -/
structure Consists (P : OperationDefinition → Prop) (Q : FragmentDefinition → Prop)
    (doc : QueryDocument) : Prop where
  operations : ∀ op ∈ doc.operations, P op
  fragments : ∀ f ∈ doc.fragments, Q f

section Consists

variable {P : OperationDefinition → Prop} {Q : FragmentDefinition → Prop} {doc : QueryDocument}

theorem Consists.addOperation (h : Consists P Q doc) {op : OperationDefinition} (hop : P op) :
    Consists P Q { doc with operations := doc.operations ++ [op] } where
  operations o ho := by
    rcases List.mem_append.mp ho with ho | ho
    · exact h.operations o ho
    · rw [List.mem_singleton.mp ho]
      exact hop
  fragments := h.fragments

theorem Consists.addFragment (h : Consists P Q doc) {f : FragmentDefinition} (hf : Q f) :
    Consists P Q { doc with fragments := doc.fragments ++ [f] } where
  operations := h.operations
  fragments g hg := by
    rcases List.mem_append.mp hg with hg | hg
    · exact h.fragments g hg
    · rw [List.mem_singleton.mp hg]
      exact hf

variable {C : Stream.Condition}
  (hop : ∀ s, C.Holds s → s.peek.kind = .braceL ∨ s.peek.kind = .name →
    ∀ op s', operation.run s = .ok (op, s') → P op ∧ s.Leads s')
  (hf : EnsuresOn C fragmentDefinition Q)
include hop hf

/-- **The definitions of a text** are what the readers of operations and fragments yield. An
operation is only read where its keyword or a brace is next. -/
theorem ensures_queryDefinitions : ∀ (bound : Nat) {doc : QueryDocument}, Consists P Q doc →
    EnsuresOn C (queryDefinitions doc bound) (Consists P Q)
  | 0, _, h => .pure h
  | bound + 1, doc, h => by
    have hoperation : ∀ s, C.Holds s → s.peek.kind = .braceL ∨ s.peek.kind = .name →
        ∀ y s', (do
          let op ← operation
          queryDefinitions { doc with operations := doc.operations ++ [op] } bound).run s =
            .ok (y, s') → Consists P Q y ∧ s.Leads s' := by
      intro s hs hk y s' hr
      obtain ⟨op, s₁, hrun, hr⟩ := exists_run_of_bind hr
      obtain ⟨hP, hl⟩ := hop s hs hk op s₁ hrun
      obtain ⟨hy, hl'⟩ := ensures_queryDefinitions bound (h.addOperation hP) s₁ (C.of_leads hl hs)
        y s' hr
      exact ⟨hy, hl.trans hl'⟩
    intro s hs y s' hr
    rw [queryDefinitions, run_peek_bind] at hr
    split at hr
    · exact (EnsuresOn.pure h) s hs y s' hr
    · next hk => exact hoperation s hs (.inl hk) y s' hr
    · next hk =>
      split_ifs at hr
      · exact hoperation s hs (.inr hk) y s' hr
      · exact (hf.bind fun f hQ => ensures_queryDefinitions bound (h.addFragment hQ)) s hs y s' hr
      · exact EnsuresOn.unexpected s hs y s' hr
    · exact EnsuresOn.unexpected s hs y s' hr

theorem consists_of_parseQuery {text : String} (htext : C.Holds (tokens text))
    {doc : QueryDocument} (h : parseQuery text = .ok doc) : Consists P Q doc := by
  unfold parseQuery at h
  cases hr : queryDocument.run (tokens text) with
  | error e =>
    rw [hr] at h
    cases h
  | ok r =>
    rw [hr] at h
    obtain rfl := Except.ok.inj h
    have hread : EnsuresOn C queryDocument (Consists P Q) :=
      EnsuresOn.bound.bind fun n _ => ensures_queryDefinitions hop hf n ⟨by simp, by simp⟩
    exact (hread _ htext r.1 r.2 hr).1

end Consists

/-- A document whose definitions all stand for definitions of the grammar. -/
abbrev IsRead (S : Lexeme → Prop) : QueryDocument → Prop :=
  Consists (fun op => ∀ e : Excerpt, IsDefinition S (e.operation op).cloneDeep)
    fun f => ∀ e : Excerpt, IsDefinition S (e.fragment f).cloneDeep

/-- **What is read from a text** stands for definitions of the grammar, with strings that are tokens
of the text. -/
theorem isRead_of_parseQuery {text : String} (htext : (tokens text).Says S) {doc : QueryDocument}
    (h : parseQuery text = .ok doc) : IsRead S doc :=
  consists_of_parseQuery (fun s hs _ => ensures_operation s hs) ensures_fragmentDefinition
    ⟨sound_tokens text, htext⟩ h

end QueryCheck.Written.Parser
