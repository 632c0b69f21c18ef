import QueryCheck.Proofs.Syntax.Unlocated
import QueryCheck.Proofs.Written.Takes

/-! # Phrases are read

A reader that meets the lexemes of a phrase reads the phrase: the node of what it yields, without
locations, is the phrase, whatever the text is.

* `reads_value`, `reads_typeRef`, `reads_argument`, `reads_directives`, `reads_selection`,
  `reads_variableDefinition`: the parts of definitions.
* `reads_operation`, `reads_fragmentDefinition`: definitions. -/

namespace QueryCheck.Written.Parser

open QueryCheck.Source
open QueryCheck.Syntax

variable {α β : Type} {S : Lexeme → Prop}

/-! ### Values -/

/-- Items that were read for other items have the same nodes, in every text. -/
theorem map_eq_map_of_forall₂ {f : Excerpt → α → Node} {g : β → Node} {as : List α} {bs : List β}
    (h : List.Forall₂ (fun a b => ∀ e, f e a = g b) as bs) (e : Excerpt) :
    as.map (f e) = bs.map g := by
  induction h with
  | nil => rfl
  | cons ha _ ih => rw [List.map_cons, ha e, ih, List.map_cons]

/-- Items that were read for nodes have these nodes, in every text. -/
theorem map_eq_of_forall₂ {f : Excerpt → α → Node} {as : List α} {ns : List Node}
    (h : List.Forall₂ (fun a n => ∀ e, f e a = n) as ns) (e : Excerpt) : as.map (f e) = ns :=
  (map_eq_map_of_forall₂ (g := id) h e).trans (List.map_id ns)

/-- The kinds of lexemes a value may start with. -/
def valueKinds : List TokenKind :=
  [.dollar, .int, .float, .string, .blockString, .name, .bracketL, .braceL]

theorem opens_value {constant : Bool} {n : Node} (h : IsValue S constant n) :
    Opens n.lexemes valueKinds := by
  cases h with
  | list h =>
    rw [Node.lexemes_listValue]
    exact ⟨_, _, rfl, by decide⟩
  | object h h' =>
    rw [Node.lexemes_objectValue]
    exact ⟨_, _, rfl, by decide⟩
  | _ => exact ⟨_, _, rfl, by simp [valueKinds, mark]⟩

/-- A value that is a single literal. -/
theorem reads_literal (constant : Bool) (depth : Nat) {l : Lexeme} (k : LiteralKind) {n : Node}
    (hk : ∀ t : Token, t.lexeme = l → literalKind? t = some k)
    (hn : Excerpt.literal none l.2 k = n) :
    Reads (value constant (depth + 1)) [l] []
      fun v => ∀ e : Excerpt, (e.value v).cloneDeep = n := by
  refine .peek fun t ht => ?_
  have hlit := hk t ht
  have hread : Reads (do
      discard next
      return .literal k t.value t.span : Parser Value) [l] []
        fun v => ∀ e : Excerpt, (e.value v).cloneDeep = n := by
    refine Reads.next.discard.after fun _ _ => .pure fun e => ?_
    rw [Excerpt.cloneDeep_literal, ← hn, ← ht]
    rfl
  split
  · next h => simp [literalKind?, h] at hlit
  · next h => simp [literalKind?, h] at hlit
  · next h => simp [literalKind?, h] at hlit
  · rw [hlit]
    exact hread

/-- A field of an object value, given a reader of its value. -/
theorem reads_objectField {p : Parser Value} {f : String × Node}
    (h : Reads p f.2.lexemes [] fun v => ∀ e : Excerpt, (e.value v).cloneDeep = f.2) :
    Reads (do
      let here := (← peek).span
      let n ← name
      discard (expect .colon)
      return (n, here, ← p) : Parser (String × Span × Value))
      (fieldOf f).lexemes []
      fun g => ∀ e : Excerpt, fieldOf (g.1, (e.value g.2.2).cloneDeep) = fieldOf f := by
  rw [Node.lexemes_fieldOf]
  refine .peekAny fun t => (Reads.name _).step fun n hn =>
    (Reads.expect .colon "").discard.step fun _ _ => h.after fun v hv => .pure fun e => ?_
  rw [hn, hv e]

/-- An item of a list has no more lexemes than the list. -/
theorem length_le_flatMap (lex : β → List Lexeme) {bs : List β} {b : β} (h : b ∈ bs) :
    (lex b).length ≤ (bs.flatMap lex).length :=
  (List.sublist_flatten_of_mem (List.mem_map_of_mem h)).length_le

/-- **Values are read** as they are, by a reader that may go deep enough. -/
theorem reads_value {constant : Bool} {n : Node} (h : IsValue S constant n) :
    ∀ depth, n.lexemes.length ≤ depth →
    Reads (value constant (depth + 1)) n.lexemes []
      fun v => ∀ e : Excerpt, (e.value v).cloneDeep = n := by
  induction h with
  | var hc hs =>
    intro depth _
    refine .peek fun t ht => ?_
    rw [Token.kind_of_lexeme ht, hc]
    refine ((Reads.expect .dollar "").discard.step fun _ _ => Reads.name _).after fun n hn =>
      .pure fun e => ?_
    rw [Excerpt.cloneDeep_variable, hn]
  | int hs =>
    intro depth _
    exact reads_literal constant depth .int
      (fun t ht => by simp [literalKind?, Token.kind_of_lexeme ht]) rfl
  | float hs =>
    intro depth _
    exact reads_literal constant depth .float
      (fun t ht => by simp [literalKind?, Token.kind_of_lexeme ht]) rfl
  | string hs =>
    intro depth _
    exact reads_literal constant depth .string
      (fun t ht => by simp [literalKind?, Token.kind_of_lexeme ht]) rfl
  | block hs =>
    intro depth _
    exact reads_literal constant depth .block
      (fun t ht => by simp [literalKind?, Token.kind_of_lexeme ht]) rfl
  | boolean b =>
    intro depth _
    refine reads_literal constant depth .boolean (fun t ht => ?_) ?_
    · cases b <;> simp [literalKind?, Token.kind_of_lexeme ht, Token.value_of_lexeme ht]
    · cases b <;> rfl
  | null =>
    intro depth _
    refine reads_literal constant depth .null (fun t ht => ?_) rfl
    simp [literalKind?, Token.kind_of_lexeme ht, Token.value_of_lexeme ht]
  | enum hs hne =>
    intro depth _
    refine reads_literal constant depth .enum (fun t ht => ?_) rfl
    simp only [List.mem_cons, List.not_mem_nil, or_false, not_or] at hne
    simp [literalKind?, Token.kind_of_lexeme ht, Token.value_of_lexeme ht, hne]
  | @list vs hvs ih =>
    intro depth hd
    rw [Node.lexemes_listValue] at hd ⊢
    simp only [enclosed, List.length_cons, List.length_append] at hd
    obtain ⟨depth, rfl⟩ :=
      Nat.exists_eq_add_one_of_ne_zero (Nat.ne_zero_of_lt (Nat.lt_of_succ_le hd))
    have hitems : Items (value constant (depth + 1)) Node.lexemes
        (fun v n => ∀ e : Excerpt, (e.value v).cloneDeep = n) [] valueKinds vs := by
      refine ⟨fun v hv => ih v hv depth ?_, fun v hv => opens_value (hvs v hv), by simp⟩
      have hle := length_le_flatMap Node.lexemes hv
      omega
    refine .peek fun t ht => ?_
    rw [Token.kind_of_lexeme ht]
    refine (hitems.many .bracketL .bracketR (by decide)).after fun as has => .pure fun e => ?_
    rw [Excerpt.cloneDeep_list, map_eq_of_forall₂ has e]
  | @object fs hnames hvs ih =>
    intro depth hd
    rw [Node.lexemes_objectValue] at hd ⊢
    simp only [enclosed, List.length_cons, List.length_append] at hd
    obtain ⟨depth, rfl⟩ :=
      Nat.exists_eq_add_one_of_ne_zero (Nat.ne_zero_of_lt (Nat.lt_of_succ_le hd))
    have hle : ∀ f ∈ fs, f.2.lexemes.length ≤ depth := by
      intro f hf
      have hle := length_le_flatMap (fun f => (fieldOf f).lexemes) hf
      rw [Node.lexemes_fieldOf] at hle
      simp only [List.length_cons] at hle
      omega
    have hitems : Items _ (fun f => (fieldOf f).lexemes)
        (fun (g : String × Span × Value) f => ∀ e : Excerpt,
          fieldOf (g.1, (e.value g.2.2).cloneDeep) = fieldOf f) [] [.name] fs :=
      ⟨fun f hf => reads_objectField (ih f hf depth (hle f hf)),
        fun f _ => ⟨_, _, Node.lexemes_fieldOf f, by simp⟩, by simp⟩
    refine .peek fun t ht => ?_
    rw [Token.kind_of_lexeme ht]
    refine (hitems.many .braceL .braceR (by decide)).after fun gs hgs => .pure fun e => ?_
    rw [Excerpt.cloneDeep_object, map_eq_map_of_forall₂ hgs e]

theorem reads_anyValue {constant : Bool} {n : Node} (h : IsValue S constant n) :
    Reads (anyValue constant) n.lexemes [] fun v => ∀ e : Excerpt, (e.value v).cloneDeep = n := by
  refine .bound fun depth hd => ?_
  obtain ⟨depth, rfl⟩ := Nat.exists_eq_add_one_of_ne_zero (Nat.ne_zero_of_lt hd)
  exact reads_value h depth (Nat.le_of_lt_succ hd)

/-! ### Types -/

/-- A mark that may be next is skipped exactly when it is. -/
theorem reads_flag (k : TokenKind) (b : Bool) :
    Reads (skip k) (if b then [mark k] else []) [k] fun c => c = b := by
  cases b with
  | false => exact Reads.skipNot k
  | true => exact (Reads.skip k "").mono (fun _ h => h) (by simp)

theorem reads_typeRefWithin {n : Node} (h : IsType n) : ∀ depth, n.lexemes.length ≤ depth →
    Reads (typeRefWithin depth) n.lexemes [.bang]
      fun t => ∀ e : Excerpt, (e.typeRef t).cloneDeep = n := by
  induction h with
  | @named s nonNull hs =>
    intro depth hd
    rw [Node.lexemes_marked, Node.lexemes_namedType] at hd ⊢
    rw [List.length_append, List.length_singleton] at hd
    obtain ⟨depth, rfl⟩ := Nat.exists_eq_add_one_of_ne_zero (by omega : depth ≠ 0)
    refine (Reads.skipNot .bracketL).before (fun b hb => ?_) fun _ _ => by simp [nextKind]
    rw [hb, if_neg (by simp)]
    refine .peekAny fun t => (Reads.name s).step fun m hm => (reads_flag .bang nonNull).after
      fun c hc => .pure fun e => ?_
    rw [Excerpt.cloneDeep_named, hm, hc]
  | @list t nonNull ht ih =>
    intro depth hd
    rw [Node.lexemes_marked, Node.lexemes_listType] at hd ⊢
    simp only [enclosed, List.length_append, List.length_cons] at hd
    obtain ⟨depth, rfl⟩ := Nat.exists_eq_add_one_of_ne_zero (by omega : depth ≠ 0)
    rw [enclosed, List.cons_append, List.append_assoc]
    refine (Reads.skip .bracketL "").step fun b hb => ?_
    rw [hb, if_pos rfl]
    refine .peekAny fun t => (ih depth (by omega)).bind (fun elem helem => ?_) fun _ _ => by
      simp [nextKind, mark]
    refine (Reads.expect .bracketR "").discard.step fun _ _ => (reads_flag .bang nonNull).after
      fun c hc => .pure fun e => ?_
    rw [Excerpt.cloneDeep_listType, hc, helem e]

theorem reads_typeRef {n : Node} (h : IsType n) :
    Reads typeRef n.lexemes [.bang] fun t => ∀ e : Excerpt, (e.typeRef t).cloneDeep = n :=
  .bound fun depth hd => reads_typeRefWithin h depth hd.le

/-! ### Arguments and directives -/

theorem opens_argument {constant : Bool} {n : Node} (h : IsArgument S constant n) :
    Opens n.lexemes [.name] := by
  obtain ⟨hs, hv⟩ := h
  exact ⟨_, _, Node.lexemes_argument _ _, by simp⟩

theorem reads_argument {constant : Bool} {n : Node} (h : IsArgument S constant n) :
    Reads (argument constant) n.lexemes []
      fun a => ∀ e : Excerpt, (e.argument a).cloneDeep = n := by
  obtain ⟨hs, hv⟩ := h
  rw [Node.lexemes_argument]
  refine .peekAny fun t => (Reads.name _).step fun m hm => (Reads.expect .colon "").discard.step
    fun _ _ => (reads_anyValue hv).after fun v hv => .pure fun e => ?_
  rw [Excerpt.cloneDeep_argument, hm, hv e]

/-- A list in parentheses that may be empty. -/
theorem reads_inParens {item : Parser α} {f : Excerpt → α → Node} {A K : List TokenKind}
    {ns : List Node}
    (h : Items item Node.lexemes (fun a n => ∀ e, f e a = n) A K ns)
    (hc : .parenR ∉ A ∧ .parenR ∉ K) :
    Reads (nonEmpty .parenL .parenR item) (Node.inParens ns) [.parenL]
      fun as => ∀ e, as.map (f e) = ns := by
  by_cases hns : ns = []
  · subst hns
    refine (Reads.skipNot .parenL).after fun b hb => ?_
    rw [hb]
    exact .pure fun _ => rfl
  · rw [Node.inParens_of_ne_nil hns]
    exact (h.nonEmpty .parenL .parenR hc hns).mono (fun as has => map_eq_of_forall₂ has) (by simp)

theorem reads_arguments {constant : Bool} {args : List Node}
    (h : ∀ a ∈ args, IsArgument S constant a) :
    Reads (arguments constant) (Node.inParens args) [.parenL]
      fun as => ∀ e : Excerpt, as.map (fun a => (e.argument a).cloneDeep) = args :=
  reads_inParens ⟨fun a ha => reads_argument (h a ha), fun a ha => opens_argument (h a ha), by simp⟩
    (by decide)

theorem reads_directives {constant : Bool} {dirs : List Node}
    (h : ∀ d ∈ dirs, IsDirective S constant d) :
    Reads (directives constant) (dirs.flatMap Node.lexemes) [.atSign, .parenL]
      fun ds => ∀ e : Excerpt, ds.map (fun d => (e.directive d).cloneDeep) = dirs := by
  have hitems : Items (directive constant) Node.lexemes
      (fun d n => ∀ e : Excerpt, (e.directive d).cloneDeep = n) [.parenL] [.atSign] dirs := by
    refine ⟨fun d hd => ?_, fun d hd => ?_, by decide⟩
    · obtain ⟨hs, hargs⟩ := h d hd
      rw [Node.lexemes_directive]
      refine (Reads.expect .atSign "").discard.step fun _ _ => .peekAny fun t => (Reads.name _).step
        fun m hm => (reads_arguments hargs).after fun as has => .pure fun e => ?_
      rw [Excerpt.cloneDeep_directive, hm, has e]
    · obtain ⟨hs, hargs⟩ := h d hd
      exact ⟨_, _, Node.lexemes_directive _ _, by simp [mark]⟩
  refine .bound fun n hn => ?_
  have hread := hitems.whileNext (B := [.atSign, .parenL]) (by simp) (by simp) n
    (hitems.length_le.trans hn.le)
  exact hread.mono (fun ds hds => map_eq_of_forall₂ hds) (by simp)

/-! ### Selections -/

/-- The kinds of lexemes that would continue a selection. -/
def selectionAvoid : List TokenKind := [.colon, .parenL, .atSign, .braceL]

/-- The kinds of lexemes a selection may start with. -/
def selectionKinds : List TokenKind := [.name, .spread]

theorem mayOpen_inParens (ns : List Node) : MayOpen (Node.inParens ns) [.parenL] := by
  by_cases hns : ns = []
  · subst hns
    intro l hl
    cases hl
  · rw [Node.inParens_of_ne_nil hns]
    exact Opens.mayOpen ⟨_, _, rfl, by simp [mark]⟩

theorem mayOpen_directives {constant : Bool} {dirs : List Node}
    (h : ∀ d ∈ dirs, IsDirective S constant d) :
    MayOpen (dirs.flatMap Node.lexemes) [.atSign] := by
  cases dirs with
  | nil =>
    intro l hl
    cases hl
  | cons d dirs =>
    obtain ⟨hs, hargs⟩ := h d (by simp)
    rw [List.flatMap_cons, Node.lexemes_directive]
    exact Opens.mayOpen ⟨_, _, rfl, by simp [mark]⟩

theorem opens_selectionSetOf (ss : List Node) : Opens (selectionSetOf ss).lexemes [.braceL] :=
  ⟨_, _, Node.lexemes_selectionSetOf ss, by simp [mark]⟩

theorem mayOpen_setLexemes (sel : Option (List Node)) :
    MayOpen (Node.setLexemes sel) [.braceL] := by
  cases sel with
  | none =>
    intro l hl
    cases hl
  | some ss => exact (opens_selectionSetOf ss).mayOpen

theorem opens_selection {n : Node} (h : IsSelection S n) : Opens n.lexemes selectionKinds := by
  cases h with
  | @field key s args dirs sel =>
    rw [Node.lexemes_field]
    cases key <;> exact ⟨_, _, rfl, by simp [selectionKinds]⟩
  | spread =>
    rw [Node.lexemes_fragmentSpread]
    exact ⟨_, _, rfl, by simp [selectionKinds, mark]⟩
  | inline =>
    rw [Node.lexemes_inlineFragment]
    exact ⟨_, _, rfl, by simp [selectionKinds, mark]⟩

/-- A reader of selections reads each of some selections. -/
abbrev SelectionItems (p : Parser Selection) (ss : List Node) : Prop :=
  Items p Node.lexemes (fun s n => ∀ e : Excerpt, (e.selection s).cloneDeep = n)
    selectionAvoid selectionKinds ss

theorem SelectionItems.nonEmpty {p : Parser Selection} {ss : List Node} (h : SelectionItems p ss)
    (hne : ss ≠ []) :
    Reads (nonEmpty .braceL .braceR p) (selectionSetOf ss).lexemes []
      fun sel => ∀ e : Excerpt, sel.map (fun s => (e.selection s).cloneDeep) = ss := by
  rw [Node.lexemes_selectionSetOf]
  exact (Items.nonEmpty h .braceL .braceR (by decide) hne).mono (fun _ hs => map_eq_of_forall₂ hs)
    (by simp)

theorem SelectionItems.requiredSet {p : Parser Selection} {ss : List Node} (h : SelectionItems p ss)
    (hne : ss ≠ []) :
    Reads (requiredSet p) (selectionSetOf ss).lexemes []
      fun sel => ∀ e : Excerpt, sel.map (fun s => (e.selection s).cloneDeep) = ss := by
  have hread := h.nonEmpty hne
  rw [Node.lexemes_selectionSetOf] at hread ⊢
  refine .peek fun t ht => ?_
  rw [if_pos (Token.kind_of_lexeme ht)]
  exact hread

/-- A selection set where one may stand. -/
theorem reads_optionalSet {p : Parser Selection} {sel : Option (List Node)}
    (hne : ∀ ss ∈ sel, ss ≠ [])
    (h : ∀ ss ∈ sel, SelectionItems p ss) {f : Option (List Selection) → Parser β} {Q : β → Prop}
    (hf : ∀ set, (∀ e : Excerpt, set.map (List.map fun s => (e.selection s).cloneDeep) = sel) →
      Reads (f set) [] selectionAvoid Q) :
    Reads (do
      let set ← if (← peek).kind = .braceL then pure (some (← nonEmpty .braceL .braceR p))
        else pure none
      f set) (Node.setLexemes sel) selectionAvoid Q := by
  cases sel with
  | none =>
    refine .peekAfter fun t ht => ?_
    dsimp only
    rw [if_neg fun he => ht (by rw [he]; decide)]
    exact hf none fun _ => rfl
  | some ss =>
    have hread := (h ss rfl).nonEmpty (hne ss rfl)
    have hread' :
      Reads (nonEmpty .braceL .braceR p >>= fun set => f (some set)) (selectionSetOf ss).lexemes
        selectionAvoid Q := (hread.mono (fun _ h => h) (by simp)).after fun set hset =>
      hf (some set) fun e => congrArg some (hset e)
    rw [Node.lexemes_selectionSetOf] at hread'
    rw [Node.setLexemes, Option.elim_some, Node.lexemes_selectionSetOf]
    refine .peek fun t ht => ?_
    dsimp only
    rw [if_pos (Token.kind_of_lexeme ht)]
    exact hread'

theorem reads_field {key : Option String} {s : String} {args dirs : List Node}
    {sel : Option (List Node)} (hkey : ∀ k ∈ key, k ≠ s) (hargs : ∀ a ∈ args, IsArgument S false a)
      (hdirs : ∀ d ∈ dirs, IsDirective S false d)
    (hne : ∀ ss ∈ sel, ss ≠ []) {p : Parser Selection} (h : ∀ ss ∈ sel, SelectionItems p ss) :
    Reads (field p) (Node.keyLexemes key ++ ((.name, s) :: (Node.inParens args ++
        (dirs.flatMap Node.lexemes ++ Node.setLexemes sel)))) selectionAvoid
      fun x => ∀ e : Excerpt, (e.selection x).cloneDeep =
        .field (.ofOption (key.map fun k => .name k none)) (nameIn s) (placed args) (placed dirs)
          (.ofOption (sel.map selectionSetOf)) none := by
  have hopen :=
    ((mayOpen_inParens args).append ((mayOpen_directives hdirs).append (mayOpen_setLexemes sel)))
  have hrest : ∀ (k : String) (here : Span), Excerpt.keyOf k s = key → Reads (do
      let args ← arguments false
      let dirs ← directives false
      let set ← if (← peek).kind = .braceL then pure (some (← nonEmpty .braceL .braceR p))
        else pure none
      return .field k s args dirs set here : Parser Selection)
      (Node.inParens args ++ (dirs.flatMap Node.lexemes ++ Node.setLexemes sel)) selectionAvoid
      fun x => ∀ e : Excerpt, (e.selection x).cloneDeep =
        .field (.ofOption (key.map fun k => .name k none)) (nameIn s) (placed args) (placed dirs)
          (.ofOption (sel.map selectionSetOf)) none := by
    intro k here hk
    have hnext := (mayOpen_directives hdirs).append (mayOpen_setLexemes sel)
    refine (reads_arguments hargs).andThen hnext (by decide) (by decide) fun as has => ?_
    refine (reads_directives hdirs).andThen (mayOpen_setLexemes sel) (by decide) (by decide)
      fun ds hds => ?_
    refine reads_optionalSet hne h fun set hset => .pure fun e => ?_
    rw [Excerpt.cloneDeep_field, hk, has e, hds e, hset e]
  refine .peekAny fun t => ?_
  cases key with
  | none =>
    refine (Reads.name s).step fun k hk => (Reads.skipNot .colon).before (fun b hb => ?_)
      fun rest hr => ?_
    · dsimp only
      rw [hb, if_neg (by simp), hk]
      exact hrest s t.span (by simp [Excerpt.keyOf])
    · exact hopen.notMem (by decide) fun hk => hr (by rw [List.mem_singleton.mp hk]; decide)
  | some k =>
    refine (Reads.name k).step fun k' hk => (Reads.skip .colon "").step fun b hb => ?_
    dsimp only
    rw [hb, if_pos rfl, hk]
    refine (Reads.name s).step fun n hn => ?_
    rw [hn]
    exact hrest k t.span (by simp [Excerpt.keyOf, hkey k rfl])

/-- Directives and a selection set at the end of a phrase. -/
theorem reads_body {dirs ss : List Node} (hdirs : ∀ d ∈ dirs, IsDirective S false d)
    {p : Parser (List Selection)}
    (hp : Reads p (selectionSetOf ss).lexemes []
      fun sel => ∀ e : Excerpt, sel.map (fun s => (e.selection s).cloneDeep) = ss)
    {f : List Directive → List Selection → α} {P : α → Prop}
    (hf : ∀ ds sel, (∀ e : Excerpt, ds.map (fun d => (e.directive d).cloneDeep) = dirs) →
      (∀ e : Excerpt, sel.map (fun s => (e.selection s).cloneDeep) = ss) → P (f ds sel)) :
    Reads (do
      let dirs ← directives false
      return f dirs (← p))
      (dirs.flatMap Node.lexemes ++ (selectionSetOf ss).lexemes) selectionAvoid P := by
  refine (reads_directives hdirs).andThen (opens_selectionSetOf ss).mayOpen (by decide) (by decide)
    fun ds hds => ?_
  exact (hp.mono (fun _ h => h) (by simp)).after fun sel hsel => .pure (hf ds sel hds hsel)

theorem reads_fragmentName {s : String} (hs : s ≠ "on") :
    Reads fragmentName [(.name, s)] [] fun n => n = s :=
  .peek fun t ht => by
    rw [if_neg (by rw [Token.value_of_lexeme ht]; exact hs)]
    exact Reads.name s

theorem reads_spread {s : String} (hs : s ≠ "on") {dirs : List Node}
    (hdirs : ∀ d ∈ dirs, IsDirective S false d) (p : Parser Selection) :
    Reads (fragment p) (mark .spread :: (.name, s) :: dirs.flatMap Node.lexemes) selectionAvoid
      fun x => ∀ e : Excerpt,
        (e.selection x).cloneDeep = .fragmentSpread (nameIn s) (placed dirs) none := by
  refine (Reads.expect .spread "").discard.step fun _ _ => .peek fun t ht => ?_
  rw [if_pos ⟨Token.kind_of_lexeme ht, by rw [Token.value_of_lexeme ht]; exact hs⟩]
  refine (reads_fragmentName hs).step fun n hn =>
    ((reads_directives hdirs).mono (fun _ h => h) (by decide)).after fun ds hds => .pure fun e => ?_
  rw [Excerpt.cloneDeep_spread, hn, hds e]

theorem reads_inline {cond : Option String} {dirs ss : List Node}
    (hdirs : ∀ d ∈ dirs, IsDirective S false d) (hne : ss ≠ []) {p : Parser Selection}
    (h : SelectionItems p ss) :
    Reads (fragment p) (mark .spread :: (Node.conditionLexemes cond ++
        (dirs.flatMap Node.lexemes ++ (selectionSetOf ss).lexemes))) selectionAvoid
      fun x => ∀ e : Excerpt, (e.selection x).cloneDeep =
        .inlineFragment (.ofOption (cond.map fun t => .namedType (nameIn t) none)) (placed dirs)
          (.node (selectionSetOf ss)) none := by
  have hrest : ∀ (c : Option String) (here : Span), c = cond → Reads (do
      let dirs ← directives false
      return .inline c dirs (← requiredSet p) here : Parser Selection)
      (dirs.flatMap Node.lexemes ++ (selectionSetOf ss).lexemes) selectionAvoid
      fun x => ∀ e : Excerpt, (e.selection x).cloneDeep =
        .inlineFragment (.ofOption (cond.map fun t => .namedType (nameIn t) none)) (placed dirs)
          (.node (selectionSetOf ss)) none := by
    rintro c here rfl
    refine reads_body hdirs (h.requiredSet hne) fun ds sel hds hsel e => ?_
    rw [Excerpt.cloneDeep_inline, hds e, hsel e]
  refine (Reads.expect .spread "").discard.step fun _ _ => ?_
  cases cond with
  | some c =>
    refine .peek fun t ht => ?_
    rw [if_neg (by simp [Token.value_of_lexeme ht])]
    dsimp only
    rw [if_pos (Token.value_of_lexeme ht)]
    refine Reads.next.discard.step fun _ _ => (Reads.name c).step fun n hn => ?_
    exact hrest (some n) t.span (by rw [hn])
  | none =>
    have hfirst : ∃ k ls,
        dirs.flatMap Node.lexemes ++ (selectionSetOf ss).lexemes = mark k :: ls ∧ k ≠ .name := by
      cases dirs with
      | nil => exact ⟨_, _, Node.lexemes_selectionSetOf ss, by simp⟩
      | cons d dirs =>
        obtain ⟨hs, hargs⟩ := hdirs d (by simp)
        rw [List.flatMap_cons, Node.lexemes_directive]
        exact ⟨_, _, rfl, by simp⟩
    obtain ⟨k, ls, hls, hk⟩ := hfirst
    rw [Node.conditionLexemes, Option.elim_none, List.nil_append]
    rw [hls] at hrest ⊢
    refine .peek fun t ht => ?_
    rw [if_neg fun h => hk (Token.kind_of_lexeme ht ▸ h.1)]
    dsimp only
    rw [if_neg (by rw [Token.value_of_lexeme ht]; decide)]
    exact hrest none t.span rfl

/-- The reader of the selections in a set may go less deep by one. -/
theorem selectionItems_of_length_le {ss : List Node} {depth : Nat}
    (hd : (selectionSetOf ss).lexemes.length ≤ depth) (hss : ∀ n ∈ ss, IsSelection S n)
    (ih : ∀ n ∈ ss, ∀ depth, n.lexemes.length ≤ depth →
      Reads (selection (depth + 1)) n.lexemes selectionAvoid
        fun s => ∀ e : Excerpt, (e.selection s).cloneDeep = n) :
    SelectionItems (selection depth) ss := by
  rw [Node.lexemes_selectionSetOf] at hd
  simp only [enclosed, List.length_cons, List.length_append] at hd
  obtain ⟨depth, rfl⟩ := Nat.exists_eq_add_one_of_ne_zero (Nat.ne_zero_of_lt (Nat.lt_of_succ_le hd))
  refine ⟨fun n hn => ih n hn depth ?_, fun n hn => opens_selection (hss n hn), by decide⟩
  have hle := length_le_flatMap Node.lexemes hn
  omega

/-- **Selections are read** as they are, by a reader that may go deep enough. -/
theorem reads_selection {n : Node} (h : IsSelection S n) : ∀ depth, n.lexemes.length ≤ depth →
    Reads (selection (depth + 1)) n.lexemes selectionAvoid
      fun s => ∀ e : Excerpt, (e.selection s).cloneDeep = n := by
  induction h with
  | @field key s args dirs sel hkey hs hargs hdirs hne hsel ih =>
    intro depth hd
    rw [Node.lexemes_field] at hd ⊢
    have hitems : ∀ ss ∈ sel, SelectionItems (selection depth) ss := by
      intro ss hss
      refine selectionItems_of_length_le ?_ (hsel ss hss) (ih ss hss)
      rw [Option.mem_def.mp hss] at hd
      simp only [List.length_append, List.length_cons, Node.setLexemes, Option.elim_some] at hd
      omega
    have hread := reads_field (fun k hk => (hkey k hk).2) hargs hdirs hne hitems
    have hfirst : ∃ v ls, Node.keyLexemes key ++ ((.name, s) :: (Node.inParens args ++
        (dirs.flatMap Node.lexemes ++ Node.setLexemes sel))) = (.name, v) :: ls := by
      cases key <;> exact ⟨_, _, rfl⟩
    obtain ⟨v, ls, hls⟩ := hfirst
    rw [hls] at hread ⊢
    refine .peek fun t ht => ?_
    rw [if_neg (by rw [Token.kind_of_lexeme ht]; decide)]
    exact hread
  | spread hs hon hdirs =>
    intro depth _
    rw [Node.lexemes_fragmentSpread]
    refine .peek fun t ht => ?_
    rw [if_pos (Token.kind_of_lexeme ht)]
    exact reads_spread hon hdirs _
  | @inline cond dirs ss hcond hdirs hne hss ih =>
    intro depth hd
    rw [Node.lexemes_inlineFragment] at hd ⊢
    simp only [List.length_append, List.length_cons] at hd
    refine .peek fun t ht => ?_
    rw [if_pos (Token.kind_of_lexeme ht)]
    exact reads_inline hdirs hne (selectionItems_of_length_le (by omega) hss ih)

theorem reads_selectionSet {ss : List Node} (hne : ss ≠ []) (hss : ∀ n ∈ ss, IsSelection S n) :
    Reads selectionSet (selectionSetOf ss).lexemes []
      fun sel => ∀ e : Excerpt, sel.map (fun s => (e.selection s).cloneDeep) = ss :=
  .bound fun _ hd => (selectionItems_of_length_le hd.le hss fun n hn =>
    reads_selection (hss n hn)).requiredSet hne

/-! ### Definitions -/

theorem reads_defaultValue {default : Option Node} (h : ∀ v ∈ default, IsValue S true v) :
    Reads defaultValue (Node.defaultLexemes default) [.equals]
      fun d => ∀ e : Excerpt, d.map (fun v => (e.value v).cloneDeep) = default := by
  cases default with
  | none =>
    refine (Reads.skipNot .equals).after fun b hb => ?_
    rw [hb]
    exact .pure fun _ => rfl
  | some v =>
    refine (Reads.skip .equals "").step fun b hb => ?_
    rw [hb, if_pos rfl]
    exact ((reads_anyValue (h v rfl)).mono (fun _ h => h) (by simp)).after fun v hv =>
      .pure fun e => congrArg some (hv e)

theorem mayOpen_defaultLexemes (default : Option Node) :
    MayOpen (Node.defaultLexemes default) [.equals] := by
  cases default with
  | none =>
    intro l hl
    cases hl
  | some v => exact Opens.mayOpen ⟨_, _, rfl, by simp [mark]⟩

theorem reads_variableName (s : String) :
    Reads variableName [mark .dollar, (.name, s)] [] fun n => n = s :=
  (Reads.expect .dollar "").discard.step fun _ _ => Reads.name s

theorem reads_variableDefinition {n : Node} (h : IsVariableDefinition S n) :
    Reads variableDefinition n.lexemes [.bang, .equals, .atSign, .parenL]
      fun v => ∀ e : Excerpt, (e.variableDefinition v).cloneDeep = n := by
  obtain ⟨hs, ht, hdef, hdirs⟩ := h
  rw [Node.lexemes_variableDefinition]
  refine .peekAny fun _ => (reads_variableName _).bind (fun m hm => ?_) fun _ _ => by simp
  refine (Reads.expect .colon "").discard.step fun _ _ => (reads_typeRef ht).andThen
    ((mayOpen_defaultLexemes _).append (mayOpen_directives hdirs)) (by decide) (by decide)
      fun t ht => ?_
  refine (reads_defaultValue hdef).andThen (mayOpen_directives hdirs) (by decide) (by decide)
    fun d hd => ?_
  refine ((reads_directives hdirs).mono (fun _ h => h) (by decide)).after fun ds hds =>
    .pure fun e => ?_
  rw [Excerpt.cloneDeep_variableDefinition, hm, ht e, hd e, hds e]

theorem reads_variableDefinitions {vars : List Node} (h : ∀ v ∈ vars, IsVariableDefinition S v) :
    Reads variableDefinitions (Node.inParens vars) [.parenL]
      fun vs => ∀ e : Excerpt, vs.map (fun v => (e.variableDefinition v).cloneDeep) = vars := by
  refine reads_inParens (K := [.dollar])
    ⟨fun v hv => reads_variableDefinition (h v hv), fun v hv => ?_, by decide⟩ (by decide)
  obtain ⟨hs, ht, hdef, hdirs⟩ := h v hv
  exact ⟨_, _, Node.lexemes_variableDefinition _ _ _ _, by simp [mark]⟩

theorem ofKeyword?_keyword (op : Operation) : Operation.ofKeyword? op.keyword = some op := by
  cases op <;> rfl

theorem reads_operationType (op : Operation) :
    Reads operationType [(.name, op.keyword)] [] fun o => o = op := by
  refine .get fun s => Reads.next.step fun t ht => ?_
  rw [Token.value_of_lexeme ht, ofKeyword?_keyword]
  exact .pure rfl

theorem reads_operation (op : Operation) {name : Option String} {vars dirs ss : List Node}
    (hvars : ∀ v ∈ vars, IsVariableDefinition S v) (hdirs : ∀ d ∈ dirs, IsDirective S false d)
    (hne : ss ≠ []) (hss : ∀ n ∈ ss, IsSelection S n) :
    Reads operation ((.name, op.keyword) :: (name.elim [] (fun s => [(.name, s)]) ++
        (Node.inParens vars ++ (dirs.flatMap Node.lexemes ++ (selectionSetOf ss).lexemes))))
          selectionAvoid
      fun o => ∀ e : Excerpt, (e.operation o).cloneDeep =
        .operationDefinition op.keyword (.ofOption (name.map fun s => .name s none)) (placed vars)
          (placed dirs) (.node (selectionSetOf ss)) none := by
  have hrest : ∀ (n : Option String) (here : Span), n = name → Reads (do
      let vars ← variableDefinitions
      let dirs ← directives false
      return ⟨op, n, vars, dirs, ← selectionSet, here⟩ : Parser OperationDefinition)
      (Node.inParens vars ++ (dirs.flatMap Node.lexemes ++ (selectionSetOf ss).lexemes))
        selectionAvoid
      fun o => ∀ e : Excerpt, (e.operation o).cloneDeep =
        .operationDefinition op.keyword (.ofOption (name.map fun s => .name s none)) (placed vars)
          (placed dirs) (.node (selectionSetOf ss)) none := by
    rintro n here rfl
    refine (reads_variableDefinitions hvars).andThen ((mayOpen_directives hdirs).append
      (opens_selectionSetOf ss).mayOpen) (by decide) (by decide) fun vs hvs => ?_
    refine reads_body hdirs (reads_selectionSet hne hss) fun ds sel hds hsel e => ?_
    rw [Excerpt.cloneDeep_operation, hvs e, hds e, hsel e]
  refine .peek fun t ht => ?_
  rw [if_neg (by rw [Token.kind_of_lexeme ht]; decide)]
  refine (reads_operationType op).step fun o ho => ?_
  rw [ho]
  cases name with
  | some s =>
    refine .peek fun t' ht' => ?_
    dsimp only
    rw [if_pos (Token.kind_of_lexeme ht')]
    refine Reads.next.step fun t'' ht'' => ?_
    exact hrest (some t''.value) t.span (by rw [Token.value_of_lexeme ht''])
  | none =>
    obtain ⟨l, ls, hls, hk⟩ : Opens (Node.inParens vars ++
        (dirs.flatMap Node.lexemes ++ (selectionSetOf ss).lexemes)) [.parenL, .atSign, .braceL] :=
      (mayOpen_inParens vars).opens_append ((mayOpen_directives hdirs).opens_append
        (opens_selectionSetOf ss))
    rw [Option.elim_none, List.nil_append]
    rw [hls] at hrest ⊢
    refine .peek fun t' ht' => ?_
    dsimp only
    rw [if_neg fun he => absurd hk (by rw [← Token.kind_of_lexeme ht', he]; decide)]
    exact hrest none t.span rfl

theorem reads_fragmentDefinition {s c : String} {vars dirs ss : List Node} (hs : s ≠ "on")
    (hvars : ∀ v ∈ vars, IsVariableDefinition S v) (hdirs : ∀ d ∈ dirs, IsDirective S false d)
    (hne : ss ≠ []) (hss : ∀ n ∈ ss, IsSelection S n) :
    Reads fragmentDefinition ((.name, "fragment") :: (.name, s) :: (Node.inParens vars ++
        ((.name, "on") :: (.name, c) :: (dirs.flatMap Node.lexemes ++ (selectionSetOf ss).lexemes))))
      selectionAvoid fun f => ∀ e : Excerpt, (e.fragment f).cloneDeep =
        .fragmentDefinition (nameIn s) (placed vars) (.node (.namedType (nameIn c) none))
          (placed dirs) (.node (selectionSetOf ss)) none := by
  refine .peekAny fun t => (Reads.expectWord "fragment").step fun _ _ =>
    (reads_fragmentName hs).step fun n hn => ?_
  refine (reads_variableDefinitions hvars).bind (fun vs hvs => ?_) fun _ _ => by simp [nextKind]
  refine (Reads.expectWord "on").step fun _ _ => (Reads.name c).step fun m hm => ?_
  refine reads_body hdirs (reads_selectionSet hne hss) fun ds sel hds hsel e => ?_
  rw [Excerpt.cloneDeep_fragment, hn, hm, hvs e, hds e, hsel e]

end QueryCheck.Written.Parser
