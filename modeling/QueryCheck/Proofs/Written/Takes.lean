import Mathlib.Data.List.Forall2
import QueryCheck.Proofs.Source.Lexemes
import QueryCheck.Proofs.Written.Yields

/-! # Which lexemes readers take

A reader that meets certain lexemes takes them and stops behind them, provided that the next lexeme
does not go on with them. `Reads` says which lexemes a reader takes, which kinds of lexemes may not
come next, and what the reader yields.

* `Reads.bind`, `Reads.andThen`, `Reads.step`, `Reads.after`: readers one after the other.
* `Reads.peek`, `Reads.peekAfter`: a look at the next lexeme.
* `Items`: readers of lists, from a reader of items. -/

namespace QueryCheck.Source

theorem Token.kind_of_lexeme {t : Token} {k : TokenKind} {v : String} (h : t.lexeme = (k, v)) :
    t.kind = k :=
  congrArg Prod.fst h

theorem Token.value_of_lexeme {t : Token} {k : TokenKind} {v : String} (h : t.lexeme = (k, v)) :
    t.value = v :=
  congrArg Prod.snd h

/-- The kind of the first of some lexemes, or of the end. -/
def nextKind (ls : List Lexeme) : TokenKind := (ls.head?.map Prod.fst).getD .endOfText

/-- Some lexemes are there, and the first is of one of the given kinds. -/
def Opens (ls : List Lexeme) (kinds : List TokenKind) : Prop := ∃ l ls', ls = l :: ls' ∧ l.1 ∈ kinds

theorem Opens.append {ls : List Lexeme} {kinds : List TokenKind} (h : Opens ls kinds)
    (rest : List Lexeme) :
    nextKind (ls ++ rest) ∈ kinds := by
  obtain ⟨l, ls', rfl, hl⟩ := h
  exact hl

theorem Opens.length_pos {ls : List Lexeme} {kinds : List TokenKind} (h : Opens ls kinds) :
    0 < ls.length := by
  obtain ⟨l, ls', rfl, -⟩ := h
  simp

/-- If there are lexemes, the first is of one of the given kinds. -/
def MayOpen (ls : List Lexeme) (kinds : List TokenKind) : Prop := ∀ l ∈ ls.head?, l.1 ∈ kinds

theorem Opens.mayOpen {ls : List Lexeme} {kinds : List TokenKind} (h : Opens ls kinds) :
    MayOpen ls kinds := by
  obtain ⟨l, ls', rfl, hl⟩ := h
  intro l' hl'
  rwa [← Option.some.inj hl']

theorem MayOpen.append {ls ls' : List Lexeme} {kinds kinds' : List TokenKind} (h : MayOpen ls kinds)
    (h' : MayOpen ls' kinds') : MayOpen (ls ++ ls') (kinds ++ kinds') := by
  intro l hl
  cases ls with
  | nil => exact List.mem_append_right _ (h' l hl)
  | cons l' ls => exact List.mem_append_left _ (h l hl)

theorem MayOpen.opens_append {ls ls' : List Lexeme} {kinds kinds' : List TokenKind}
    (h : MayOpen ls kinds) (h' : Opens ls' kinds') : Opens (ls ++ ls') (kinds ++ kinds') := by
  cases ls with
  | nil =>
    obtain ⟨l, ls'', rfl, hl⟩ := h'
    exact ⟨l, ls'', rfl, List.mem_append_right _ hl⟩
  | cons l ls => exact ⟨l, ls ++ ls', rfl, List.mem_append_left _ (h l rfl)⟩

/-- Lexemes of kinds that need not be avoided may come in front. -/
theorem MayOpen.notMem {ls rest : List Lexeme} {kinds avoid : List TokenKind} (h : MayOpen ls kinds)
    (hk : ∀ k ∈ kinds, k ∉ avoid) (hr : nextKind rest ∉ avoid) : nextKind (ls ++ rest) ∉ avoid := by
  cases ls with
  | nil => exact hr
  | cons l ls => exact hk _ (h l rfl)

/-- A stream has the given lexemes up to its end. -/
structure Stream.Spells (s : Stream) (ls : List Lexeme) : Prop where
  tokens : s.tokens.map Token.lexeme = ls
  last : s.last.kind = .endOfText

namespace Stream.Spells

variable {s : Stream} {l : Lexeme} {ls : List Lexeme}

theorem peek (h : s.Spells (l :: ls)) : s.peek.lexeme = l := by
  obtain ⟨t, ts, ht, rfl, -⟩ := List.map_eq_cons_iff.mp h.tokens
  rw [Stream.peek, ht]
  rfl

theorem advance (h : s.Spells (l :: ls)) : s.advance.Spells ls := by
  obtain ⟨t, ts, ht, -, rfl⟩ := List.map_eq_cons_iff.mp h.tokens
  refine ⟨?_, h.last⟩
  rw [Stream.advance, ht]
  rfl

theorem kind_peek (h : s.Spells ls) : s.peek.kind = nextKind ls := by
  cases ls with
  | nil =>
    rw [Stream.peek, List.map_eq_nil_iff.mp h.tokens]
    exact h.last
  | cons l ls =>
    rw [← h.peek]
    rfl

theorem length (h : s.Spells ls) : s.tokens.length = ls.length := by
  rw [← h.tokens, List.length_map]

end Stream.Spells

end QueryCheck.Source

namespace QueryCheck.Written.Parser

open QueryCheck.Source

variable {α β γ : Type}

/-! ### What readers take -/

/-- A reader takes some lexemes, when none of the kinds to avoid comes next, and yields a result
with a property. -/
def Reads (p : Parser α) (ls : List Lexeme) (avoid : List TokenKind) (P : α → Prop) : Prop :=
  ∀ s rest, s.Spells (ls ++ rest) → nextKind rest ∉ avoid →
    ∃ x s', p.run s = .ok (x, s') ∧ P x ∧ s'.Spells rest

namespace Reads

variable {p q : Parser α} {f : α → Parser β} {ls ls' : List Lexeme} {l : Lexeme}
  {A B : List TokenKind} {P : α → Prop}
  {Q : β → Prop}

theorem mono (h : Reads p ls A P) {P' : α → Prop} (hP : ∀ x, P x → P' x) (hA : A ⊆ B) :
    Reads p ls B P' := by
  intro s rest hs hr
  obtain ⟨x, s', hrun, hx, hs'⟩ := h s rest hs fun hk => hr (hA hk)
  exact ⟨x, s', hrun, hP x hx, hs'⟩

theorem pure {x : α} (h : P x) : Reads (pure x : Parser α) [] A P :=
  fun s _ hs _ => ⟨x, s, rfl, h, hs⟩

/-- Two readers one after the other; what the second takes must not continue what the first
takes. -/
theorem bind (hp : Reads p ls A P) (hf : ∀ x, P x → Reads (f x) ls' B Q)
    (hA : ∀ rest, nextKind rest ∉ B → nextKind (ls' ++ rest) ∉ A) :
    Reads (p >>= f) (ls ++ ls') B Q := by
  intro s rest hs hr
  rw [List.append_assoc] at hs
  obtain ⟨x, s₁, hrun, hx, hs₁⟩ := hp s _ hs (hA rest hr)
  obtain ⟨y, s₂, hrun', hy, hs₂⟩ := hf x hx s₁ rest hs₁ hr
  exact ⟨y, s₂, (run_bind_of_run hrun f).trans hrun', hy, hs₂⟩

/-- Two readers one after the other, where the second takes lexemes of known kinds first. -/
theorem andThen (hp : Reads p ls A P) {K : List TokenKind} (ho : MayOpen ls' K)
    (hK : ∀ k ∈ K, k ∉ A) (hB : A ⊆ B)
    (hf : ∀ x, P x → Reads (f x) ls' B Q) : Reads (p >>= f) (ls ++ ls') B Q :=
  hp.bind hf fun _ hr => ho.notMem hK fun hk => hr (hB hk)

/-- A reader of one lexeme before another reader. -/
theorem step (hp : Reads p [l] [] P) (hf : ∀ x, P x → Reads (f x) ls B Q) :
    Reads (p >>= f) (l :: ls) B Q :=
  hp.bind hf fun _ _ => by simp

/-- A reader that takes nothing before another reader. -/
theorem before (hp : Reads p [] A P) (hf : ∀ x, P x → Reads (f x) ls B Q)
    (hA : ∀ rest, nextKind rest ∉ B → nextKind (ls ++ rest) ∉ A) : Reads (p >>= f) ls B Q :=
  hp.bind hf hA

/-- A reader before another that takes nothing. -/
theorem after (hp : Reads p ls A P) (hf : ∀ x, P x → Reads (f x) [] A Q) :
    Reads (p >>= f) ls A Q := by
  have := hp.bind hf fun _ hr => hr
  rwa [List.append_nil] at this

theorem discard (h : Reads p ls A P) : Reads (discard p) ls A fun _ => True :=
  h.after fun _ _ => .pure trivial

/-- Looking at the first lexeme a reader takes. -/
theorem peek {f : Token → Parser β} (h : ∀ t : Token, t.lexeme = l → Reads (f t) (l :: ls) B Q) :
    Reads (peek >>= f) (l :: ls) B Q := by
  intro s rest hs hr
  rw [run_peek_bind]
  exact h s.peek (Stream.Spells.peek hs) s rest hs hr

/-- Looking at the lexeme after those a reader takes. -/
theorem peekAfter {f : Token → Parser β} (h : ∀ t : Token, t.kind ∉ B → Reads (f t) [] B Q) :
    Reads (Parser.peek >>= f) [] B Q := by
  intro s rest hs hr
  rw [run_peek_bind]
  exact h s.peek (hs.kind_peek ▸ hr) s rest hs hr

/-- Looking at the next lexeme without regard to what it is. -/
theorem peekAny {f : Token → Parser β} (h : ∀ t : Token, Reads (f t) ls B Q) :
    Reads (Parser.peek >>= f) ls B Q := by
  intro s rest hs hr
  rw [run_peek_bind]
  exact h s.peek s rest hs hr

theorem get {f : Stream → Parser β} (h : ∀ s, Reads (f s) ls B Q) : Reads (get >>= f) ls B Q :=
  fun s rest hs hr => h s s rest hs hr

/-- A bound is larger than the number of lexemes a reader takes. -/
theorem bound {f : Nat → Parser β} (h : ∀ n, ls.length < n → Reads (f n) ls B Q) :
    Reads (bound >>= f) ls B Q := by
  intro s rest hs hr
  have hlen : ls.length < s.tokens.length + 1 := by
    rw [hs.length, List.length_append]
    omega
  exact h _ hlen s rest hs hr

theorem next : Reads next [l] [] fun t => t.lexeme = l := fun s _ hs _ =>
  ⟨s.peek, s.advance, rfl, Stream.Spells.peek hs, Stream.Spells.advance hs⟩

theorem expect (k : TokenKind) (v : String) :
    Reads (expect k) [(k, v)] [] fun t => t.lexeme = (k, v) := by
  intro s rest hs _
  have ht : s.peek.lexeme = (k, v) := Stream.Spells.peek hs
  refine ⟨s.peek, s.advance, ?_, ht, Stream.Spells.advance hs⟩
  rw [run_expect, if_pos (Token.kind_of_lexeme ht)]

theorem name (n : String) : Reads name [(.name, n)] [] fun m => m = n :=
  (expect .name n).after fun _ ht => .pure (Token.value_of_lexeme ht)

theorem expectWord (word : String) : Reads (expectWord word) [(.name, word)] [] fun _ => True := by
  intro s rest hs _
  have ht : s.peek.lexeme = (.name, word) := Stream.Spells.peek hs
  refine ⟨(), s.advance, ?_, trivial, Stream.Spells.advance hs⟩
  rw [run_expectWord, if_pos ⟨Token.kind_of_lexeme ht, Token.value_of_lexeme ht⟩]

/-- A mark that is next is skipped. -/
theorem skip (k : TokenKind) (v : String) : Reads (skip k) [(k, v)] [] fun b => b = true := by
  intro s rest hs _
  have ht : s.peek.lexeme = (k, v) := Stream.Spells.peek hs
  refine ⟨true, s.advance, ?_, rfl, Stream.Spells.advance hs⟩
  rw [run_skip, if_pos (Token.kind_of_lexeme ht)]

/-- A mark that is not next is not skipped. -/
theorem skipNot (k : TokenKind) : Reads (Parser.skip k) [] [k] fun b => b = false := by
  intro s rest hs hr
  have hk : s.peek.kind ≠ k := fun hk => hr (by rw [← hk, hs.kind_peek]; simp)
  exact ⟨false, s, by rw [run_skip, if_neg hk], rfl, hs⟩

end Reads

/-! ### Lists -/

/-- A reader of items takes the lexemes of each of some items, none of which starts with a kind of
lexemes that would continue the one before it. -/
structure Items (item : Parser α) (lex : β → List Lexeme) (R : α → β → Prop)
    (avoid kinds : List TokenKind)
    (bs : List β) : Prop where
  reads : ∀ b ∈ bs, Reads item (lex b) avoid fun a => R a b
  opens : ∀ b ∈ bs, Opens (lex b) kinds
  disjoint : ∀ k ∈ kinds, k ∉ avoid

namespace Items

variable {item : Parser α} {lex : β → List Lexeme} {R : α → β → Prop} {A B K : List TokenKind}
  {start close : TokenKind}

theorem tail {b : β} {bs : List β} (h : Items item lex R A K (b :: bs)) : Items item lex R A K bs :=
  ⟨fun c hc => h.reads c (List.mem_cons_of_mem b hc), fun c hc =>
    h.opens c (List.mem_cons_of_mem b hc), h.disjoint⟩

/-- There are at most as many items as lexemes. -/
theorem length_le : ∀ {bs : List β}, Items item lex R A K bs → bs.length ≤ (bs.flatMap lex).length
  | [], _ => le_rfl
  | b :: bs, h => by
    have hpos := (h.opens b (by simp)).length_pos
    have hle := h.tail.length_le
    rw [List.flatMap_cons, List.length_append, List.length_cons]
    omega

/-- What follows an item does not continue it. -/
theorem nextKind_notMem {bs : List β} (h : Items item lex R A K bs) {rest : List Lexeme}
    (hr : nextKind rest ∉ A) :
    nextKind (bs.flatMap lex ++ rest) ∉ A := by
  cases bs with
  | nil => exact hr
  | cons b bs =>
    rw [List.flatMap_cons, List.append_assoc]
    exact h.disjoint _ ((h.opens b (by simp)).append _)

theorem untilClose (hc : close ∉ A ∧ close ∉ K) : ∀ {bs : List β}, Items item lex R A K bs →
    ∀ n, bs.length < n → Reads (untilClose close item n) (bs.flatMap lex ++ [mark close]) []
      fun as => List.Forall₂ R as bs
  | [], _, n + 1, _ => .peek fun t ht => by
    rw [if_pos (Token.kind_of_lexeme ht)]
    exact Reads.next.discard.after fun _ _ => .pure .nil
  | b :: bs, h, n + 1, hn => by
    rw [List.flatMap_cons, List.append_assoc]
    obtain ⟨l, ls, hl, hk⟩ := h.opens b (by simp)
    have hb := h.reads b (by simp)
    rw [hl] at hb ⊢
    refine .peek fun t ht => ?_
    rw [if_neg fun he => hc.2 (by rw [← he, Token.kind_of_lexeme ht]; exact hk)]
    refine hb.bind (fun a ha => ?_) fun rest _ => ?_
    · exact (untilClose hc h.tail n (by simpa using hn)).after fun as has => .pure (.cons ha has)
    · rw [List.append_assoc]
      exact h.tail.nextKind_notMem hc.1

theorem whileNext (hB : A ⊆ B) (hB' : start ∈ B) : ∀ {bs : List β},
    Items item lex R A [start] bs → ∀ n, bs.length ≤ n →
      Reads (whileNext start item n) (bs.flatMap lex) B fun as => List.Forall₂ R as bs
  | [], _, 0, _ => .pure .nil
  | [], _, n + 1, _ => .peekAfter fun t ht => by
    rw [if_neg fun he => ht (by rw [he]; exact hB')]
    exact .pure .nil
  | b :: bs, h, n + 1, hn => by
    rw [List.flatMap_cons]
    obtain ⟨l, ls, hl, hk⟩ := h.opens b (by simp)
    have hb := h.reads b (by simp)
    rw [hl] at hb ⊢
    refine .peek fun t ht => ?_
    rw [if_pos (by rw [Token.kind_of_lexeme ht]; exact List.mem_singleton.mp hk)]
    refine hb.bind (fun a ha => ?_) fun rest hr => h.tail.nextKind_notMem fun hk => hr (hB hk)
    exact (whileNext hB hB' h.tail n (by simpa using hn)).after fun as has => .pure (.cons ha has)

theorem many {bs : List β} (h : Items item lex R A K bs) (start close : TokenKind)
    (hc : close ∉ A ∧ close ∉ K) :
    Reads (many start close item) (enclosed start close (bs.flatMap lex)) [] fun as =>
      List.Forall₂ R as bs := by
  refine (Reads.skip start "").step fun _ hb => ?_
  rw [hb, if_pos rfl]
  refine .bound fun n hn => h.untilClose hc n ?_
  have := h.length_le
  rw [List.length_append] at hn
  omega

theorem nonEmpty {bs : List β} (h : Items item lex R A K bs) (start close : TokenKind)
    (hc : close ∉ A ∧ close ∉ K) (hne : bs ≠ []) :
    Reads (nonEmpty start close item) (enclosed start close (bs.flatMap lex)) [] fun as =>
      List.Forall₂ R as bs := by
  refine (Reads.skip start "").step fun _ hb => ?_
  rw [hb, if_pos rfl]
  have hread : Reads (Parser.bound >>= fun n => Parser.untilClose close item n)
      (bs.flatMap lex ++ [mark close]) [] fun as => List.Forall₂ R as bs := by
    refine .bound fun n hn => h.untilClose hc n ?_
    have := h.length_le
    rw [List.length_append] at hn
    omega
  obtain ⟨b, bs', rfl⟩ := List.exists_cons_of_ne_nil hne
  obtain ⟨l, ls, hl, hk⟩ := h.opens b (by simp)
  rw [List.flatMap_cons, hl] at hread ⊢
  refine .peek fun t ht => ?_
  rw [if_neg fun he => hc.2 (by rw [← he, Token.kind_of_lexeme ht]; exact hk)]
  exact hread

end Items

end QueryCheck.Written.Parser
