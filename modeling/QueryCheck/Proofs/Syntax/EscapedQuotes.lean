import QueryCheck.Proofs.Source.Lexemes
import QueryCheck.Syntax.Printer

/-! # Block strings as they are printed

A block string is printed with a backslash in front of every three quotes in a row. When it is read
again, all characters up to the last one that is not a quote are read as they are. What follows is a
run of quotes and the three quotes that end the literal: of these quotes the first that no backslash
protects ends the literal, so that one or two quotes at the end of a block string are not read with
it. A backslash at its end protects the quotes that were to end it.

* `readBlock_front`: reading up to the last character that is not a quote.
* `readBlock_quotes`: reading a run of quotes and the end of the literal.
* `readBlock_escapeQuotes`, `readBlock_slashed`: reading a block string as it is printed. -/

namespace QueryCheck.Syntax

open QueryCheck.Source
open QueryCheck.Syntax.Printer (escapeQuotes)

/-- A run of quotes. -/
abbrev quotes (n : Nat) : List Char := List.replicate n '"'

/-- The quotes that end a block string, and a text behind them. -/
abbrev closed (rest : List Char) : List Char := '"' :: '"' :: '"' :: rest

/-! ### Runs of quotes -/

theorem escapeQuotes_cons {c : Char} (hc : c ≠ '"') (cs : List Char) :
    escapeQuotes (c :: cs) = c :: escapeQuotes cs := by
  rw [escapeQuotes]
  exact fun _ h => absurd h hc

/-- A run of quotes is escaped apart from what follows it. -/
theorem escapeQuotes_quotes {d : Char} (hd : d ≠ '"') (cs : List Char) : ∀ n,
    escapeQuotes (quotes n ++ d :: cs) = escapeQuotes (quotes n) ++ d :: escapeQuotes cs
  | 0 => escapeQuotes_cons hd cs
  | 1 => by simp [escapeQuotes, escapeQuotes_cons, hd]
  | 2 => by simp [List.replicate, escapeQuotes, escapeQuotes_cons, hd]
  | n + 3 => by
    have ih := escapeQuotes_quotes hd cs n
    simp only [quotes, List.replicate_succ, List.cons_append, escapeQuotes] at ih ⊢
    rw [ih]

/-- Behind a run of quotes that is escaped there are not three quotes in a row. -/
theorem escapeQuotes_quotes_ne {d : Char} (hd : d ≠ '"') (cs w : List Char) : ∀ n,
    escapeQuotes (quotes n) ++ d :: cs ≠ closed w
  | 0 => by simp [escapeQuotes, hd]
  | 1 => by simp [escapeQuotes, hd]
  | 2 => by simp [List.replicate, escapeQuotes, hd]
  | n + 3 => by simp [List.replicate, escapeQuotes]

theorem quotes_append_cons (n : Nat) (cs : List Char) :
    quotes n ++ '"' :: cs = quotes (n + 1) ++ cs := by
  rw [quotes, quotes, List.replicate_succ', List.append_assoc, List.singleton_append]

/-! ### Reading characters -/

/-- A character that neither is one of three quotes in a row nor protects them is read as it is. -/
theorem readBlock_cons {c : Char} (hc : InBlock c) {cs : List Char}
    (hquote : c = '"' → ∀ w, cs ≠ '"' :: '"' :: w) (hslash : c = '\\' → ∀ w, cs ≠ closed w)
    (value : List Char) (cur : Cursor) :
    ∃ cur', readBlock value cur (c :: cs) = readBlock (c :: value) cur' cs := by
  have hreturn : c ≠ '\r' := by
    rintro rfl
    rcases hc with h | h | h <;> exact absurd h (by decide)
  rw [readBlock.eq_def]
  split
  · next heq => cases heq
  · next heq =>
    obtain ⟨rfl, rfl⟩ := List.cons.inj heq
    exact absurd rfl (hquote rfl _)
  · next heq =>
    obtain ⟨rfl, rfl⟩ := List.cons.inj heq
    exact absurd rfl (hslash rfl _)
  · next heq => exact absurd (List.cons.inj heq).1 hreturn
  · next heq => exact absurd (List.cons.inj heq).1 hreturn
  · next heq =>
    obtain ⟨rfl, rfl⟩ := List.cons.inj heq
    exact ⟨_, rfl⟩
  · next hfeed heq =>
    obtain ⟨rfl, rfl⟩ := List.cons.inj heq
    have hcontrol : ¬(c.toNat < 32 ∧ c ≠ '\t') := by
      rintro ⟨hlt, htab⟩
      rcases hc with rfl | rfl | hge
      · exact hfeed rfl
      · exact htab rfl
      · omega
    exact ⟨_, if_neg (by simpa using hcontrol)⟩

/-- A quote is read as it is unless two more follow it. -/
theorem readBlock_quote {cs : List Char} (h : ∀ w, cs ≠ '"' :: '"' :: w) (value : List Char)
    (cur : Cursor) : ∃ cur', readBlock value cur ('"' :: cs) = readBlock ('"' :: value) cur' cs :=
  readBlock_cons (.inr (.inr (by decide))) (fun _ => h) (fun h => absurd h (by decide)) value cur

/-- A run of quotes in front of another character is read as it is. -/
theorem readBlock_run {d : Char} (hd : d ≠ '"') (cs : List Char) : ∀ (n : Nat)
    (value : List Char) (cur : Cursor), ∃ cur',
    readBlock value cur (escapeQuotes (quotes n) ++ d :: cs) =
      readBlock (quotes n ++ value) cur' (d :: cs)
  | 0, value, cur => ⟨cur, rfl⟩
  | 1, value, cur => readBlock_quote (by simp [escapeQuotes, hd]) value cur
  | 2, value, cur => by
    have htwo : ∀ w, '"' :: d :: cs ≠ '"' :: '"' :: w := by simp [hd]
    have hone : ∀ w, d :: cs ≠ '"' :: '"' :: w := by simp [hd]
    obtain ⟨cur₁, h₁⟩ := readBlock_quote htwo value cur
    obtain ⟨cur₂, h₂⟩ := readBlock_quote hone ('"' :: value) cur₁
    exact ⟨cur₂, h₁.trans h₂⟩
  | n + 3, value, cur => by
    obtain ⟨cur', h⟩ := readBlock_run hd cs n ('"' :: '"' :: '"' :: value) (cur.move 4)
    refine ⟨cur', ?_⟩
    rw [quotes_append_cons, quotes_append_cons, quotes_append_cons] at h
    rw [← h]
    simp [List.replicate_succ, escapeQuotes, readBlock]

/-! ### Reading a block string up to its last character that is not a quote -/

section Front

variable {d : Char} (hd : d ≠ '"') (t z : List Char)
include hd

theorem escapeQuotes_front_ne (w : List Char) : ∀ (b : List Char) (n : Nat),
    escapeQuotes (quotes n ++ (b ++ d :: t)) ++ z ≠ closed w
  | [], n => by
    rw [List.nil_append, escapeQuotes_quotes hd, List.append_assoc]
    exact escapeQuotes_quotes_ne hd _ w n
  | c :: b, n => by
    rw [List.cons_append]
    by_cases hc : c = '"'
    · rw [hc, quotes_append_cons]
      exact escapeQuotes_front_ne w b (n + 1)
    · rw [escapeQuotes_quotes hc, List.append_assoc]
      exact escapeQuotes_quotes_ne hc _ w n

/-- **Up to the last character that is not a quote** everything is read as it is. -/
theorem readBlock_front : ∀ (b : List Char), (∀ c ∈ b, InBlock c) →
    ∀ (n : Nat) (value : List Char) (cur : Cursor), ∃ cur',
    readBlock value cur (escapeQuotes (quotes n ++ (b ++ d :: t)) ++ z) =
      readBlock (b.reverse ++ (quotes n ++ value)) cur' (d :: (escapeQuotes t ++ z))
  | [], _, n, value, cur => by
    rw [List.nil_append, escapeQuotes_quotes hd, List.append_assoc, List.cons_append]
    exact readBlock_run hd _ n value cur
  | c :: b, hb, n, value, cur => by
    obtain ⟨hc, hb⟩ := List.forall_mem_cons.mp hb
    rw [List.cons_append]
    by_cases hquote : c = '"'
    · obtain ⟨cur', h⟩ := readBlock_front b hb (n + 1) value cur
      rw [hquote, quotes_append_cons]
      exact ⟨cur', by simpa [List.replicate_succ] using h⟩
    · rw [escapeQuotes_quotes hquote, List.append_assoc, List.cons_append]
      obtain ⟨cur₁, h₁⟩ := readBlock_run hquote (escapeQuotes (b ++ d :: t) ++ z) n value cur
      have hne : ∀ w, escapeQuotes (b ++ d :: t) ++ z ≠ closed w := fun w =>
        escapeQuotes_front_ne hd t z w b 0
      obtain ⟨cur₂, h₂⟩ := readBlock_cons hc (fun h => absurd h hquote) (fun _ => hne)
        (quotes n ++ value) cur₁
      obtain ⟨cur', h⟩ := readBlock_front b hb 0 (c :: (quotes n ++ value)) cur₂
      exact ⟨cur', by simpa using h₁.trans (h₂.trans h)⟩

end Front

/-! ### Reading the end of a block string -/

/-- **Three quotes that are not escaped end a block string**: quotes in front of them that do not
make up threes are read as the first of the three, and as many are left behind the literal. -/
theorem readBlock_quotes (rest : List Char) : ∀ (n : Nat) (value : List Char) (cur : Cursor),
    ∃ cur', readBlock value cur (escapeQuotes (quotes n) ++ closed rest) =
      .ok ⟨value.reverse ++ quotes (n - n % 3), closed (quotes (n % 3) ++ rest), cur'⟩
  | 0, value, cur => ⟨cur, by simp [escapeQuotes, readBlock]⟩
  | 1, value, cur => ⟨cur, by simp [escapeQuotes, readBlock]⟩
  | 2, value, cur => ⟨cur, by simp [escapeQuotes, readBlock, List.replicate_succ]⟩
  | n + 3, value, cur => by
    obtain ⟨cur', h⟩ := readBlock_quotes rest n ('"' :: '"' :: '"' :: value) (cur.move 4)
    refine ⟨cur', ?_⟩
    have hthree : n + 3 - (n + 3) % 3 = n - n % 3 + 3 := by
      have := Nat.mod_le n 3
      omega
    rw [hthree, Nat.add_mod_right]
    simpa [List.replicate_succ, escapeQuotes, readBlock] using h

/-! ### Reading a block string as it is printed -/

/-- The number of quotes at the end of a text. -/
def trailingQuotes (cs : List Char) : Nat := (cs.rtakeWhile (· == '"')).length

@[simp] theorem trailingQuotes_append_quote (cs : List Char) :
    trailingQuotes (cs ++ ['"']) = trailingQuotes cs + 1 := by
  simp [trailingQuotes]

@[simp] theorem trailingQuotes_concat {d : Char} (hd : d ≠ '"') (cs : List Char) :
    trailingQuotes (cs ++ [d]) = 0 := by
  simp [trailingQuotes, hd]

/-- A text that does not consist of quotes has a last character that is none. -/
theorem eq_append_trailingQuotes (cs : List Char) :
    cs = quotes (trailingQuotes cs) ∨
      ∃ b d, d ≠ '"' ∧ cs = b ++ d :: quotes (trailingQuotes cs) := by
  induction cs using List.reverseRecOn with
  | nil => exact .inl rfl
  | append_singleton cs c ih =>
    by_cases hc : c = '"'
    · rw [hc, trailingQuotes_append_quote, quotes, List.replicate_succ', ← quotes]
      rcases ih with ih | ⟨b, d, hd, ih⟩
      · exact .inl (congrArg (· ++ ['"']) ih)
      · exact .inr ⟨b, d, hd, by simpa using congrArg (· ++ ['"']) ih⟩
    · exact .inr ⟨cs, c, hc, by rw [trailingQuotes_concat hc]; rfl⟩

/-- A text ends with a backslash and not enough quotes behind it for one that is escaped. -/
def Slashed (cs : List Char) : Prop := ∃ b n, n < 3 ∧ cs = b ++ '\\' :: quotes n

variable {cs rest : List Char}

/-- **A block string is read as it was printed** but for the quotes at its end that do not make up
threes. -/
theorem readBlock_escapeQuotes (hcs : ∀ c ∈ cs, InBlock c) (hslash : ¬Slashed cs)
    (rest : List Char) (cur : Cursor) :
    ∃ w cur', cs = w ++ quotes (trailingQuotes cs % 3) ∧
      readBlock [] cur (escapeQuotes cs ++ closed rest) =
        .ok ⟨w, closed (quotes (trailingQuotes cs % 3) ++ rest), cur'⟩ := by
  generalize hn : trailingQuotes cs = n
  have hrun : quotes (n - n % 3) ++ quotes (n % 3) = quotes n := by
    rw [List.replicate_append_replicate, Nat.sub_add_cancel (Nat.mod_le n 3)]
  rcases hn ▸ eq_append_trailingQuotes cs with rfl | ⟨b, d, hd, rfl⟩
  · obtain ⟨cur', h⟩ := readBlock_quotes rest n [] cur
    exact ⟨quotes (n - n % 3), cur', hrun.symm, h⟩
  · have hne : d = '\\' → ∀ w, escapeQuotes (quotes n) ++ closed rest ≠ closed w := by
      rintro rfl w
      obtain ⟨m, rfl⟩ : ∃ m, n = m + 3 :=
        Nat.exists_eq_add_of_le' (Nat.not_lt.mp fun hlt => hslash ⟨b, n, hlt, rfl⟩)
      simp [List.replicate_succ, escapeQuotes]
    have hb : ∀ c ∈ b, InBlock c := fun c hc => hcs c (List.mem_append_left _ hc)
    obtain ⟨cur₁, h₁⟩ := readBlock_front hd (quotes n) (closed rest) b hb 0 [] cur
    obtain ⟨cur₂, h₂⟩ := readBlock_cons (hcs d (by simp)) (fun h => absurd h hd) hne
      (b.reverse ++ (quotes 0 ++ [])) cur₁
    obtain ⟨cur', h⟩ := readBlock_quotes rest n (d :: (b.reverse ++ (quotes 0 ++ []))) cur₂
    refine ⟨b ++ d :: quotes (n - n % 3), cur', by simp [hrun], ?_⟩
    simpa using h₁.trans (h₂.trans h)

/-- **A backslash at the end of a block string** protects the quotes that were to end it. -/
theorem readBlock_slashed (hcs : ∀ c ∈ cs, InBlock c) (hslash : Slashed cs) (rest : List Char)
    (cur : Cursor) :
    ∃ n value cur', n < 3 ∧ readBlock [] cur (escapeQuotes cs ++ closed rest) =
      readBlock value cur' (quotes n ++ rest) := by
  obtain ⟨b, n, hn, rfl⟩ := hslash
  have hb : ∀ c ∈ b, InBlock c := fun c hc => hcs c (List.mem_append_left _ hc)
  obtain ⟨cur', h⟩ := readBlock_front (by decide : '\\' ≠ '"') (quotes n) (closed rest) b hb 0 []
    cur
  have hclosed : ∀ n < 3, escapeQuotes (quotes n) ++ closed rest = closed (quotes n ++ rest)
    | 0, _ | 1, _ | 2, _ => rfl
  refine ⟨n, '"' :: '"' :: '"' :: (b.reverse ++ (quotes 0 ++ [])), cur'.move 4, hn, h.trans ?_⟩
  rw [hclosed n hn, readBlock]

/-- A block string does not end before there are three quotes. -/
theorem three_le_count_of_readBlock {value : List Char} {cur : Cursor} {r : Reading (List Char)}
    (h : readBlock value cur cs = .ok r) : 3 ≤ cs.count '"' := by
  fun_induction readBlock value cur cs with
  | case2 value cur rest => simp
  | case3 value cur rest ih => simp
  | case4 value cur rest ih => simpa using ih h
  | case5 value cur rest _ ih => simpa using ih h
  | case6 value cur rest ih => simpa using ih h
  | case8 value cur c rest _ _ _ _ _ _ ih => exact (ih h).trans (List.count_le_count_cons)
  | _ => cases h

/-! ### Block strings that survive printing -/

/-- A block string that is read as it is printed: unless it has one line only, some line of it is
not indented; the quotes at its end make up threes; and it does not end with a backslash. -/
structure Enclosable (v : String) : Prop where
  flush : Flush v.toList
  quotes : trailingQuotes v.toList % 3 = 0
  slash : v.toList.getLast? ≠ some '\\'

instance (v : String) : Decidable (Enclosable v) :=
  decidable_of_iff (Flush v.toList ∧ trailingQuotes v.toList % 3 = 0 ∧
      v.toList.getLast? ≠ some '\\')
    ⟨fun ⟨hflush, hquotes, hslash⟩ => ⟨hflush, hquotes, hslash⟩,
      fun h => ⟨h.flush, h.quotes, h.slash⟩⟩

theorem trailingQuotes_append_quotes {d : Char} (hd : d ≠ '"') (b : List Char) : ∀ n,
    trailingQuotes (b ++ d :: quotes n) = n
  | 0 => trailingQuotes_concat hd b
  | n + 1 => by
    rw [quotes, List.replicate_succ', ← List.cons_append, ← List.append_assoc,
      trailingQuotes_append_quote, trailingQuotes_append_quotes hd b n]

theorem Enclosable.not_slashed {v : String} (h : Enclosable v) : ¬Slashed v.toList := by
  rintro ⟨b, n, hn, hv⟩
  have hzero := h.quotes
  have hlast := h.slash
  rw [hv, trailingQuotes_append_quotes (by decide), Nat.mod_eq_of_lt hn] at hzero
  rw [hv, hzero] at hlast
  simp at hlast

theorem toList_block_append (v : String) (rest : List Char) :
    (Printer.block v).toList ++ rest = closed (escapeQuotes v.toList ++ closed rest) := by
  simp [Printer.block]

/-- What is read at the three quotes that start a block string. -/
theorem readNext_closed (cur : Cursor) (cs : List Char) :
    readNext cur (closed cs) =
      match readBlock [] (cur.move 3) cs with
      | .ok r => quotedToken .blockString 3 cur.offset (blockValue r.value) r.rest r.cursor
      | .error (f, here) => invalidToken (cur.offset + 3) f here := rfl

variable {v : String} {last : TokenKind} {ls : List Lexeme}

/-- A printed block string in front of a text. What it says is the value of what is left when the
quotes that do not make up threes are taken off its end; these belong to what follows it. -/
theorem exists_lexes_block (hv : ∀ c ∈ v.toList, InBlock c) (hslash : ¬Slashed v.toList) :
    ∃ w, v.toList = w ++ quotes (trailingQuotes v.toList % 3) ∧
      ∀ {last rest ls}, LexesTo last (quotes (trailingQuotes v.toList % 3) ++ rest) ls →
        LexesTo last ((Printer.block v).toList ++ rest) ((.blockString, blockValue w) :: ls) := by
  obtain ⟨w, -, hw, -⟩ := readBlock_escapeQuotes hv hslash [] .start
  refine ⟨w, hw, fun {last rest ls} h => ?_⟩
  rw [toList_block_append]
  refine LexesTo.next (startsToken_of (by decide)) (fun cur => ?_) ?_ h
  · obtain ⟨w', cur', hw', hread⟩ := readBlock_escapeQuotes hv hslash rest (cur.move 3)
    obtain rfl : w' = w := List.append_cancel_right (hw'.symm.trans hw)
    rw [readNext_closed, hread]
    exact ⟨_, _, rfl, rfl⟩
  · have := Nat.mod_lt (trailingQuotes v.toList) (by decide : 0 < 3)
    simp only [List.length_append, List.length_cons, List.length_replicate]
    omega

/-- **An enclosable block string** in front of a text. -/
theorem lexes_block (hv : IsBlockValue v) (h : Enclosable v) {rest : List Char}
    (hrest : LexesTo last rest ls) :
    LexesTo last ((Printer.block v).toList ++ rest) ((.blockString, v) :: ls) := by
  obtain ⟨w, hw, hlexes⟩ := exists_lexes_block hv.inBlock h.not_slashed
  rw [h.quotes] at hw hlexes
  obtain rfl : v.toList = w := by simpa using hw
  have hvalue := (blockValue_eq_self_iff hv).mpr h.flush
  rw [hvalue] at hlexes
  exact hlexes hrest

theorem writes_block (hv : IsBlockValue v) (h : Enclosable v) :
    Writes (Printer.block v) [(.blockString, v)] := fun _ _ _ _ hl => lexes_block hv h hl

/-- Nothing can be read where the end of a printed block string is protected, if no more quotes
follow. -/
theorem lexes_slashed (hv : ∀ c ∈ v.toList, InBlock c) (hslash : Slashed v.toList)
    {rest : List Char} (hrest : '"' ∉ rest) :
    LexesTo .invalid ((Printer.block v).toList ++ rest) [] := by
  rw [toList_block_append]
  refine LexesTo.stop (startsToken_of (by decide)) fun cur => ?_
  obtain ⟨n, value, cur', hn, hread⟩ := readBlock_slashed hv hslash rest (cur.move 3)
  have hcount : (quotes n ++ rest).count '"' < 3 := by
    simpa [List.count_eq_zero.mpr hrest] using hn
  rw [readNext_closed, hread]
  cases hblock : readBlock value cur' (quotes n ++ rest) with
  | error e => exact ⟨_, _, rfl, rfl⟩
  | ok r => exact absurd (three_le_count_of_readBlock hblock) (by omega)

end QueryCheck.Syntax
