import QueryCheck.Proofs.Source.Lexemes
import QueryCheck.Written.Parser

/-! # What readers yield

A reader takes tokens from a stream and yields a result or a complaint. On tokens that meet a
condition every result of a reader has certain properties, and the stream it leaves is the rest of
the one it was given. The readers are put together from smaller ones, and so are the proofs:
`EnsuresOn` says what a reader yields, and `Ensures` says it of sound tokens.

* `Stream.Condition`: a condition that the rest of a stream meets with the stream.
* `run_expect`, `run_skip`, `run_expectWord`: readers of single tokens.
* `run_expect_bind`, `run_name_bind` and their kin: what is read behind a token.
* `EnsuresOn.bind`, `EnsuresOn.ite`, `EnsuresOn.join`: readers one after the other, and by choice.
* `EnsuresOn.untilClose`, `EnsuresOn.whileNext`, `EnsuresOn.many`, `EnsuresOn.nonEmpty`: readers of
  lists. -/

namespace QueryCheck.Source

/-- What a string may say: a block string says the value of one. -/
def IsString (l : Lexeme) : Prop := l.1 = .blockString → IsBlockValue l.2

/-- A token that meets a condition if it is a string. -/
def Token.Says (S : Lexeme → Prop) (t : Token) : Prop :=
  t.kind = .string ∨ t.kind = .blockString → S t.lexeme

namespace Stream

/-- Taking tokens of one stream leads to another. -/
structure Leads (s s' : Stream) : Prop where
  tokens : s'.tokens <:+ s.tokens
  last : s'.last = s.last

theorem Leads.refl (s : Stream) : s.Leads s := ⟨List.suffix_refl _, rfl⟩

theorem Leads.trans {s s' s'' : Stream} (h : s.Leads s') (h' : s'.Leads s'') : s.Leads s'' :=
  ⟨h'.tokens.trans h.tokens, h'.last.trans h.last⟩

theorem leads_advance (s : Stream) : s.Leads s.advance := ⟨List.tail_suffix _, rfl⟩

theorem Leads.sound {s s' : Stream} (h : s.Leads s') (hs : s.Sound) : s'.Sound :=
  ⟨fun t ht => hs.tokens t (h.tokens.subset ht), h.last ▸ hs.last⟩

/-- All tokens of a stream that are strings meet a condition. -/
structure Says (S : Lexeme → Prop) (s : Stream) : Prop where
  tokens : ∀ t ∈ s.tokens, t.Says S
  last : s.last.Says S

theorem says_true (s : Stream) : s.Says fun _ => True := ⟨fun _ _ _ => trivial, fun _ => trivial⟩

theorem Leads.strings {S : Lexeme → Prop} {s s' : Stream} (h : s.Leads s') (hs : s.Says S) :
    s'.Says S :=
  ⟨fun t ht => hs.tokens t (h.tokens.subset ht), h.last ▸ hs.last⟩

/-- A condition on streams that taking tokens keeps. -/
structure Condition where
  Holds : Stream → Prop
  of_leads : ∀ {s s' : Stream}, s.Leads s' → Holds s → Holds s'

/-- The condition that all tokens are sound, and that strings meet a condition. -/
def soundness (S : Lexeme → Prop) : Condition where
  Holds s := s.Sound ∧ s.Says S
  of_leads hl hs := ⟨hl.sound hs.1, hl.strings hs.2⟩

theorem Sound.holds {s : Stream} (hs : s.Sound) : (soundness fun _ => True).Holds s :=
  ⟨hs, s.says_true⟩

variable {s : Stream}

/-- A stream that holds tokens is made of the next one and of those behind it. -/
theorem tokens_eq_cons (h : s.tokens ≠ []) : s.tokens = s.peek :: s.advance.tokens := by
  obtain ⟨t, ts, htokens⟩ := List.exists_cons_of_ne_nil h
  rw [peek, advance, htokens]
  rfl

theorem tokens_ne_nil_of_advance (h : s.advance.tokens ≠ []) : s.tokens ≠ [] :=
  fun hnil => h (by rw [advance, hnil]; rfl)

/-- What holds of all tokens and of the last one holds of the next. -/
theorem peek_of_forall {P : Token → Prop} (htokens : ∀ t ∈ s.tokens, P t) (hlast : P s.last) :
    P s.peek := by
  cases h : s.tokens with
  | nil =>
    rw [Stream.peek, h]
    exact hlast
  | cons t ts =>
    rw [Stream.peek, h]
    exact htokens t (by simp [h])

theorem Sound.peek (hs : s.Sound) : s.peek.Sound := peek_of_forall hs.tokens hs.last

/-- What a string says, be it a block string or not. -/
theorem Sound.strings (hs : s.Sound) : s.Says IsString :=
  ⟨fun t ht _ => (hs.tokens t ht).isBlockValue, fun _ => hs.last.isBlockValue⟩

theorem Says.peek {S : Lexeme → Prop} (hs : s.Says S) : s.peek.Says S :=
  peek_of_forall hs.tokens hs.last

end Stream

end QueryCheck.Source

namespace QueryCheck.Written.Parser

open QueryCheck.Source

variable {α β : Type}

/-! ### Single tokens -/

/-- Two readers one after the other yield something only when both do. -/
theorem exists_run_of_bind {p : Parser α} {f : α → Parser β} {s s' : Stream} {y : β}
    (h : (p >>= f).run s = .ok (y, s')) :
    ∃ x s₁, p.run s = .ok (x, s₁) ∧ (f x).run s₁ = .ok (y, s') := by
  rw [StateT.run_bind] at h
  cases hp : p.run s with
  | error e =>
    rw [hp] at h
    cases h
  | ok r =>
    rw [hp] at h
    exact ⟨r.1, r.2, rfl, h⟩

theorem run_bind_of_run {p : Parser α} {s s' : Stream} {x : α} (h : p.run s = .ok (x, s'))
    (f : α → Parser β) :
    (p >>= f).run s = (f x).run s' := by
  rw [StateT.run_bind, h]
  rfl

theorem run_peek_bind (f : Token → Parser β) (s : Stream) : (peek >>= f).run s = (f s.peek).run s :=
  rfl

theorem run_next_bind (f : Token → Parser β) (s : Stream) :
    (next >>= f).run s = (f s.peek).run s.advance := rfl

theorem run_expect (k : TokenKind) (s : Stream) :
    (expect k).run s = if s.peek.kind = k then .ok (s.peek, s.advance)
      else (complain (.expectedKind k s.peek.kind) s.peek : Parser Token).run s := by
  rw [expect, run_peek_bind]
  split_ifs <;> rfl

theorem run_skip (k : TokenKind) (s : Stream) :
    (skip k).run s = if s.peek.kind = k then .ok (true, s.advance) else .ok (false, s) := by
  rw [skip, run_peek_bind]
  split_ifs <;> rfl

theorem run_expectWord (word : String) (s : Stream) :
    (expectWord word).run s =
      if s.peek.kind = .name ∧ s.peek.value = word then .ok ((), s.advance)
      else (complain (.expectedWord word s.peek) s.peek : Parser Unit).run s := by
  rw [expectWord, run_peek_bind]
  split_ifs <;> rfl

section Bind

variable {s : Stream} {r : β × Stream}

/-! What a reader that goes on yields, it yields behind the tokens it took first. -/

theorem run_expect_bind {k : TokenKind} {f : Token → Parser β}
    (h : (expect k >>= f).run s = .ok r) :
    s.peek.kind = k ∧ (f s.peek).run s.advance = .ok r := by
  obtain ⟨t, s₁, hexpect, hr⟩ := exists_run_of_bind h
  rw [run_expect] at hexpect
  split_ifs at hexpect with hk
  · obtain ⟨rfl, rfl⟩ := Prod.mk.inj (Except.ok.inj hexpect)
    exact ⟨hk, hr⟩
  · cases hexpect

theorem run_discard_expect_bind {k : TokenKind} {f : Unit → Parser β}
    (h : (discard (expect k) >>= f).run s = .ok r) :
    s.peek.kind = k ∧ (f ()).run s.advance = .ok r := by
  obtain ⟨u, s₁, hdiscard, hr⟩ := exists_run_of_bind h
  have hbind : (expect k >>= fun _ => pure ()).run s = .ok (u, s₁) := hdiscard
  obtain ⟨hk, hpure⟩ := run_expect_bind hbind
  obtain ⟨-, rfl⟩ := Prod.mk.inj (Except.ok.inj hpure)
  exact ⟨hk, hr⟩

theorem run_name_bind {f : String → Parser β} (h : (name >>= f).run s = .ok r) :
    s.peek.kind = .name ∧ (f s.peek.value).run s.advance = .ok r := by
  rw [name, bind_assoc] at h
  exact run_expect_bind h

/-- What is read as the name of a fragment is read as a name. -/
theorem run_name_of_fragmentName {f : String → Parser β}
    (h : (fragmentName >>= f).run s = .ok r) : (name >>= f).run s = .ok r := by
  obtain ⟨n, s₁, hname, hr⟩ := exists_run_of_bind h
  rw [fragmentName, run_peek_bind] at hname
  split_ifs at hname
  · cases hname
  · rw [run_bind_of_run hname]
    exact hr

theorem run_expectWord_bind {word : String} {f : Unit → Parser β}
    (h : (expectWord word >>= f).run s = .ok r) :
    (s.peek.kind = .name ∧ s.peek.value = word) ∧ (f ()).run s.advance = .ok r := by
  obtain ⟨u, s₁, hword, hr⟩ := exists_run_of_bind h
  rw [run_expectWord] at hword
  split_ifs at hword with hk
  · obtain ⟨rfl, rfl⟩ := Prod.mk.inj (Except.ok.inj hword)
    exact ⟨hk, hr⟩
  · cases hword

end Bind

/-! ### What readers yield -/

/-- On tokens that meet a condition, a reader yields only results with a property, and only takes
tokens. -/
def EnsuresOn (C : Stream.Condition) (p : Parser α) (P : α → Prop) : Prop :=
  ∀ s, C.Holds s → ∀ x s', p.run s = .ok (x, s') → P x ∧ s.Leads s'

/-- What a reader yields on sound tokens with strings that meet a condition. -/
abbrev Ensures (S : Lexeme → Prop) (p : Parser α) (P : α → Prop) : Prop :=
  EnsuresOn (Stream.soundness S) p P

namespace EnsuresOn

variable {C : Stream.Condition} {p q : Parser α} {P Q : α → Prop}

theorem mono (h : EnsuresOn C p P) (hPQ : ∀ x, P x → Q x) : EnsuresOn C p Q := by
  intro s hs x s' hr
  obtain ⟨hx, hl⟩ := h s hs x s' hr
  exact ⟨hPQ x hx, hl⟩

theorem pure {x : α} (h : P x) : EnsuresOn C (pure x : Parser α) P := by
  intro s _ y s' hr
  obtain ⟨rfl, rfl⟩ := Prod.mk.inj (Except.ok.inj hr)
  exact ⟨h, .refl s⟩

theorem bind {f : α → Parser β} {Q : β → Prop} (hp : EnsuresOn C p P)
    (hf : ∀ x, P x → EnsuresOn C (f x) Q) :
    EnsuresOn C (p >>= f) Q := by
  intro s hs y s' hr
  obtain ⟨x, s₁, hrp, hrf⟩ := exists_run_of_bind hr
  obtain ⟨hx, hl⟩ := hp s hs x s₁ hrp
  obtain ⟨hy, hl'⟩ := hf x hx s₁ (C.of_leads hl hs) y s' hrf
  exact ⟨hy, hl.trans hl'⟩

theorem discard (h : EnsuresOn C p P) : EnsuresOn C (discard p) fun _ => True :=
  h.bind fun _ _ => .pure trivial

theorem ite {c : Prop} [Decidable c] (hp : c → EnsuresOn C p P) (hq : ¬c → EnsuresOn C q P) :
    EnsuresOn C (if c then p else q) P := by
  split_ifs with h
  · exact hp h
  · exact hq h

/-- A choice between two readers before a third. -/
theorem join {c : Prop} [Decidable c] {f : α → Parser β} {Q : β → Prop}
    (hp : c → EnsuresOn C p P) (hq : ¬c → EnsuresOn C q P)
    (hf : ∀ x, P x → EnsuresOn C (f x) Q) :
    EnsuresOn C (if c then p >>= f else q >>= f) Q :=
  .ite (fun h => (hp h).bind hf) fun h => (hq h).bind hf

theorem complain (c : Complaint) (t : Token) : EnsuresOn C (complain c t : Parser α) P :=
  fun _ _ _ _ hr => by cases hr

theorem unexpectedToken (t : Token) : EnsuresOn C (unexpectedToken t : Parser α) P :=
  .complain _ t

theorem unexpected : EnsuresOn C (unexpected : Parser α) P := fun _ _ _ _ hr => by cases hr

theorem get {f : Stream → Parser β} {Q : β → Prop} (hf : ∀ s, EnsuresOn C (f s) Q) :
    EnsuresOn C (get >>= f) Q :=
  fun s hs y s' hr => hf s s hs y s' hr

theorem peek {P : Token → Prop} (h : ∀ s, C.Holds s → P s.peek) : EnsuresOn C peek P := by
  intro s hs t s' hr
  obtain ⟨rfl, rfl⟩ := Prod.mk.inj (Except.ok.inj hr)
  exact ⟨h s hs, .refl s⟩

theorem next {P : Token → Prop} (h : ∀ s, C.Holds s → P s.peek) : EnsuresOn C next P := by
  intro s hs t s' hr
  obtain ⟨rfl, rfl⟩ := Prod.mk.inj (Except.ok.inj hr)
  exact ⟨h s hs, s.leads_advance⟩

theorem expect {P : Token → Prop} (k : TokenKind)
    (h : ∀ s, C.Holds s → s.peek.kind = k → P s.peek) : EnsuresOn C (expect k) P := by
  intro s hs t s' hr
  rw [run_expect] at hr
  split_ifs at hr with hk
  · obtain ⟨rfl, rfl⟩ := Prod.mk.inj (Except.ok.inj hr)
    exact ⟨h s hs hk, s.leads_advance⟩
  · cases hr

theorem bound : EnsuresOn C bound fun _ => True := by
  intro s hs n s' hr
  obtain ⟨rfl, rfl⟩ := Prod.mk.inj (Except.ok.inj hr)
  exact ⟨trivial, .refl s⟩

theorem skip (k : TokenKind) : EnsuresOn C (skip k) fun _ => True := by
  intro s hs b s' hr
  rw [run_skip] at hr
  split_ifs at hr <;> obtain ⟨rfl, rfl⟩ := Prod.mk.inj (Except.ok.inj hr)
  · exact ⟨trivial, s.leads_advance⟩
  · exact ⟨trivial, .refl s⟩

theorem expectWord (word : String) : EnsuresOn C (expectWord word) fun _ => True := by
  intro s hs b s' hr
  rw [run_expectWord] at hr
  split_ifs at hr
  · obtain ⟨rfl, rfl⟩ := Prod.mk.inj (Except.ok.inj hr)
    exact ⟨trivial, s.leads_advance⟩
  · cases hr

end EnsuresOn

section Leads

variable {C : Stream.Condition}

theorem leads_peek : EnsuresOn C peek fun _ => True := .peek fun _ _ => trivial

theorem leads_next : EnsuresOn C next fun _ => True := .next fun _ _ => trivial

theorem leads_expect (k : TokenKind) : EnsuresOn C (expect k) fun _ => True :=
  .expect k fun _ _ _ => trivial

theorem leads_name : EnsuresOn C name fun _ => True :=
  (leads_expect .name).bind fun _ _ => .pure trivial

end Leads

/-! ### Lists -/

namespace EnsuresOn

variable {C : Stream.Condition} {p q : Parser α} {P Q : α → Prop} {close start : TokenKind}

theorem untilClose (h : EnsuresOn C p P) : ∀ bound,
    EnsuresOn C (untilClose close p bound) fun as => ∀ a ∈ as, P a
  | 0 => unexpected
  | bound + 1 => leads_peek.bind fun t _ => .ite
      (fun _ => leads_next.discard.bind fun _ _ => .pure (by simp))
      (fun _ => h.bind fun a ha => (untilClose h bound).bind fun as has =>
        .pure (List.forall_mem_cons.mpr ⟨ha, has⟩))

theorem whileNext (h : EnsuresOn C p P) : ∀ bound,
    EnsuresOn C (whileNext start p bound) fun as => ∀ a ∈ as, P a
  | 0 => .pure (by simp)
  | bound + 1 => leads_peek.bind fun t _ => .ite
      (fun _ => h.bind fun a ha => (whileNext h bound).bind fun as has =>
        .pure (List.forall_mem_cons.mpr ⟨ha, has⟩))
      (fun _ => .pure (by simp))

theorem many (h : EnsuresOn C p P) : EnsuresOn C (many start close p) fun as => ∀ a ∈ as, P a :=
  (skip start).bind fun _ _ => .ite
    (fun _ => bound.bind fun n _ => h.untilClose n)
    (fun _ => .pure (by simp))

theorem nonEmpty (h : EnsuresOn C p P) :
    EnsuresOn C (nonEmpty start close p) fun as => ∀ a ∈ as, P a :=
  (skip start).bind fun _ _ => .ite
    (fun _ => leads_peek.bind fun t _ => .ite
      (fun _ => .complain _ t)
      (fun _ => bound.bind fun n _ => h.untilClose n))
    (fun _ => .pure (by simp))

theorem untilClose_ne_nil {s s' : Stream} {as : List α} (hk : s.peek.kind ≠ close) :
    ∀ {bound}, (Parser.untilClose close p bound).run s = .ok (as, s') → as ≠ []
  | 0, hr => by cases hr
  | bound + 1, hr => by
    rw [Parser.untilClose, run_peek_bind, if_neg hk] at hr
    obtain ⟨a, s₁, -, hr⟩ := exists_run_of_bind hr
    obtain ⟨as', s₂, -, hr⟩ := exists_run_of_bind hr
    obtain ⟨rfl, -⟩ := Prod.mk.inj (Except.ok.inj hr)
    simp

/-- A list that has its opening token has an item. -/
theorem nonEmpty_next (h : EnsuresOn C p P) {s s' : Stream} (hs : C.Holds s)
    (hk : s.peek.kind = start) {as : List α}
    (hr : (Parser.nonEmpty start close p).run s = .ok (as, s')) :
    (as ≠ [] ∧ ∀ a ∈ as, P a) ∧ s.Leads s' := by
  obtain ⟨has, hl⟩ := h.nonEmpty s hs as s' hr
  refine ⟨⟨?_, has⟩, hl⟩
  have hskip : (Parser.skip start).run s = .ok (true, s.advance) := by rw [run_skip, if_pos hk]
  rw [Parser.nonEmpty, run_bind_of_run hskip, if_pos rfl, run_peek_bind] at hr
  split_ifs at hr with hc
  · cases hr
  · exact untilClose_ne_nil hc hr

theorem requiredSet (h : EnsuresOn C p P) :
    EnsuresOn C (requiredSet p) fun as => as ≠ [] ∧ ∀ a ∈ as, P a := by
  intro s hs as s' hr
  rw [Parser.requiredSet, run_peek_bind] at hr
  split_ifs at hr with hk
  · exact h.nonEmpty_next hs hk hr
  · cases hr

end EnsuresOn

/-! ### Sound tokens -/

namespace Ensures

variable {S : Lexeme → Prop}

theorem peek : Ensures S peek fun t => t.Sound ∧ t.Says S :=
  EnsuresOn.peek fun _ hs => ⟨hs.1.peek, hs.2.peek⟩

theorem next : Ensures S next Token.Sound := EnsuresOn.next fun _ hs => hs.1.peek

theorem expect (k : TokenKind) : Ensures S (expect k) fun t => t.Sound ∧ t.kind = k :=
  EnsuresOn.expect k fun _ hs hk => ⟨hs.1.peek, hk⟩

theorem name : Ensures S name IsName :=
  (expect .name).bind fun _ ht => .pure (ht.1.isName ht.2)

end Ensures

end QueryCheck.Written.Parser
