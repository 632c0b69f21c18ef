import QueryCheck.Proofs.Source.Places
import QueryCheck.Proofs.Syntax.RoundTrip

/-! # Block strings are read again

A block string stands as the argument of a query. When the query is printed and read again, the same
block string is found there if it is enclosable. If it is not, no token of the text is that block
string: what is read has lost indentation or the quotes at its end, or the literal does not end.

* `lexes_argumentQuery`: the lexemes of a query of one field with one argument.
* `exists_lexes_of_not_enclosable`: what is read of a block string that is not enclosable.
* `read_print_blockString`: the block strings that survive printing. -/

namespace QueryCheck.Syntax

open QueryCheck.Data (Value)
open QueryCheck.Source

/-! ### One argument -/

variable {S : Lexeme → Prop} {f a : String} {v : Node}

theorem placed_injective : Function.Injective placed :=
  List.map_injective_iff.mpr fun _ _ => Child.node.inj

theorem isValue_of_argumentField (h : IsSelection S (argumentField f a v)) : IsValue S false v := by
  generalize hn : argumentField f a v = n at h
  cases h with
  | @field key s args dirs sel hkey hs hargs hdirs hne hsel =>
    simp only [argumentField, Node.mk.injEq, List.cons.injEq, Slot.many.injEq] at hn
    obtain rfl := @placed_injective [_] _ hn.2.1.2.2.1
    have harg := hargs _ (List.mem_singleton_self _)
    cases harg with
    | mk ha hv => exact hv
  | _ => cases hn

theorem isValue_of_argumentOperation (h : IsDefinition S (argumentOperation f a v)) :
    IsValue S false v := by
  generalize hn : argumentOperation f a v = n at h
  cases h with
  | @operation op name vars dirs ss hname hvars hdirs hne hss =>
    simp only [argumentOperation, Node.mk.injEq, List.cons.injEq, Slot.one.injEq,
      Child.node.injEq, Slot.many.injEq] at hn
    obtain rfl := @placed_injective [_] _ hn.2.1.2.2.2.2.1.2.1.1
    exact isValue_of_argumentField (hss _ (List.mem_singleton_self _))
  | fragment => cases hn

/-- The argument of a query is a value of the language. -/
theorem isValue_of_argumentQuery (h : IsDocument S (argumentQuery f a v)) : IsValue S false v := by
  generalize hn : argumentQuery f a v = n at h
  cases h with
  | mk hds =>
    simp only [argumentQuery, Node.mk.injEq, List.cons.injEq, Slot.many.injEq] at hn
    obtain rfl := @placed_injective [_] _ hn.2.1.1
    exact isValue_of_argumentOperation (hds _ (List.mem_singleton_self _))

theorem print_argumentField :
    (argumentField f a v).print = f ++ ("(" ++ (a ++ (": " ++ (v.print ++ ")")))) := by
  have harg : (Node.argument (nameIn a) (.node v) none).print = a ++ ": " ++ v.print := by
    rw [Node.print_mk]
    rfl
  rw [argumentField, Node.print_mk]
  change "" ++ f ++ ("(" ++ Printer.joined ", " (printedIn [_]) ++ ")") ++ "" ++ "" = _
  rw [joined_printedIn, List.map_singleton, String.intercalate_singleton, harg]
  simp only [String.empty_append, String.append_empty, String.append_assoc]

theorem print_argumentQuery :
    (argumentQuery f a v).print = "query" ++ (" " ++ ("\x7b " ++
      (f ++ ("(" ++ (a ++ (": " ++ (v.print ++ (")" ++ " \x7d")))))))) := by
  have hset : (selectionSetOf [argumentField f a v]).print =
      "\x7b " ++ (argumentField f a v).print ++ " \x7d" := by
    rw [Node.print_mk]
    change "\x7b " ++ Printer.joined " " (printedIn [_]) ++ " \x7d" = _
    rw [joined_printedIn, List.map_singleton, String.intercalate_singleton]
  have hoperation : (argumentOperation f a v).print =
      "query" ++ "" ++ "" ++ "" ++ (" " ++ (selectionSetOf [argumentField f a v]).print) := by
    rw [argumentOperation, Node.print_mk]
    rfl
  rw [argumentQuery, Node.print_mk]
  change Printer.joined "\n\n" (printedIn [_]) = _
  rw [joined_printedIn, List.map_singleton, String.intercalate_singleton, hoperation, hset,
    print_argumentField]
  simp only [String.append_empty, String.append_assoc]

variable {last : TokenKind} {ls : List Lexeme}

/-- What stands behind the argument of a query. -/
theorem lexes_close : Lexes [')', ' ', '\x7d'] [mark .parenR, mark .braceR] :=
  .mark rfl (.blank (.inl rfl) (.mark rfl lexes_nil))

/-- The lexemes of a query from those of its argument and what stands behind it. -/
theorem lexes_argumentQuery (hf : IsName f) (ha : IsName a)
    (h : LexesTo last (v.print.toList ++ [')', ' ', '\x7d']) ls) :
    LexesTo last (argumentQuery f a v).print.toList
      ((.name, "query") :: mark .braceL :: (.name, f) :: mark .parenL :: (.name, a) ::
        mark .colon :: ls) := by
  have harg : LexesTo last (a.toList ++ (':' :: ' ' :: (v.print.toList ++ [')', ' ', '\x7d'])))
      ((.name, a) :: mark .colon :: ls) :=
    .name ha (ends_cons (by decide)) (.mark rfl (.blank (.inl rfl) h))
  have hfield := LexesTo.name hf (ends_cons (by decide)) (LexesTo.mark (c := '(') rfl harg)
  rw [print_argumentQuery]
  simp only [String.toList_append]
  exact .name (isName_keyword .query) (ends_cons (by decide))
    (.blank (.inl rfl) (.mark rfl (.blank (.inl rfl) hfield)))

/-! ### Block strings that are not enclosable -/

/-- A string does not end where no quote stands. -/
theorem readString_error_of_notMem {cs : List Char} (h : '"' ∉ cs) (value : List Char)
    (cur : Cursor) : ∃ e, readString value cur cs = .error e := by
  fun_induction readString value cur cs with
  | case2 => simp at h
  | case3 value cur a b c d e rest ch _ ih => exact ih (by simp_all)
  | case5 value cur c rest _ ch _ ih => exact ih (by simp_all)
  | case10 value cur c rest _ _ _ _ _ _ ih => exact ih (by simp_all)
  | _ => exact ⟨_, rfl⟩

/-- One or two quotes that are left in front of a text are no block string. -/
theorem exists_lexes_quotes {n : Nat} (hn : n < 3) {rest : List Char} (hquote : '"' ∉ rest)
    (hends : Ends rest) (h : LexesTo last rest ls) (hls : ∀ l ∈ ls, l.1 ≠ .blockString) :
    ∃ last' ls', LexesTo last' (quotes n ++ rest) ls' ∧ ∀ l ∈ ls', l.1 ≠ .blockString := by
  match n with
  | 0 => exact ⟨last, ls, h, hls⟩
  | 1 =>
    refine ⟨.invalid, [], LexesTo.stop (startsToken_of (by decide)) fun cur => ?_, by simp⟩
    obtain ⟨e, hread⟩ := readString_error_of_notMem hquote [] (cur.move 1)
    have hne : ∀ w, rest ≠ '"' :: '"' :: w := by
      rintro w rfl
      simp at hquote
    have hnext := readNext_quote hne cur
    rw [hread] at hnext
    exact ⟨_, _, hnext, rfl⟩
  | 2 =>
    have hempty := lexes_quote (s := "") (by simp) hends h
    exact ⟨last, (.string, "") :: ls, hempty, by simpa using hls⟩

/-- **A block string that is not enclosable** is not read as it was printed. -/
theorem exists_lexes_of_not_enclosable {v : String} (hv : IsBlockValue v) (hnot : ¬Enclosable v)
    {rest : List Char} (hquote : '"' ∉ rest) (hends : Ends rest) (h : LexesTo last rest ls)
    (hls : ∀ l ∈ ls, l.1 ≠ .blockString) :
    ∃ last' ls', LexesTo last' ((Printer.block v).toList ++ rest) ls' ∧ (.blockString, v) ∉ ls' := by
  by_cases hslash : Slashed v.toList
  · exact ⟨_, _, lexes_slashed hv.inBlock hslash hquote, by simp⟩
  obtain ⟨w, hw, hlexes⟩ := exists_lexes_block hv.inBlock hslash
  generalize hr : trailingQuotes v.toList % 3 = r at hw hlexes
  have hlt : r < 3 := hr ▸ Nat.mod_lt _ (by decide)
  obtain ⟨last', ls', h', hls'⟩ := exists_lexes_quotes hlt hquote hends h hls
  have hne : v ≠ blockValue w := by
    intro heq
    -- quotes that are left behind the literal are missed in it; if none are left, it was not flush
    rcases Nat.eq_zero_or_pos r with rfl | hpos
    · obtain rfl : v.toList = w := by simpa using hw
      refine hnot ⟨(blockValue_eq_self_iff hv).mp heq.symm, hr, fun hlast => hslash ?_⟩
      obtain ⟨b, hb⟩ := List.getLast?_eq_some_iff.mp hlast
      exact ⟨b, 0, by decide, hb⟩
    · have hcount := count_blockValue_le (by decide : '"' ≠ '\n') w
      rw [← heq, hw, List.count_append, List.count_replicate_self] at hcount
      omega
  refine ⟨last', _, hlexes h', fun hmem => ?_⟩
  rcases List.mem_cons.mp hmem with heq | hmem
  · exact hne (congrArg Prod.snd heq)
  · exact hls' _ hmem rfl

/-! ### Block strings that survive printing -/

/-- A query whose argument is a block string that is not enclosable is read as another one, if at
all. -/
theorem cloneDeep_ne_argumentQuery (hf : IsName f) (ha : IsName a) {v : String}
    (hv : IsBlockValue v) (hnot : ¬Enclosable v) {doc : Node}
    (h : parseDocument (argumentQuery f a (.stringValue v true none)).print = .ok doc) :
    doc.cloneDeep ≠ argumentQuery f a (.stringValue v true none) := by
  obtain ⟨last, ls, hlexes, hls⟩ := exists_lexes_of_not_enclosable hv hnot (by decide)
    (ends_cons (by decide)) lexes_close (by simp [mark])
  obtain ⟨htokens, -⟩ := lexes_tokens
    (lexes_argumentQuery (v := .stringValue v true none) hf ha hlexes)
  generalize (argumentQuery f a (.stringValue v true none)).print = text at h htokens
  have hmem : ∀ t ∈ (tokens text).tokens, t.lexeme ≠ (.blockString, v) := by
    intro t ht heq
    have hmem := List.mem_map_of_mem (f := Token.lexeme) ht
    rw [htokens, heq] at hmem
    exact hls (by simpa [mark] using hmem)
  have hlast : (tokens text).last.Says (· ≠ (.blockString, v)) := by
    intro hk
    rcases (standing_tokens text).2 with h | h <;> rw [h] at hk <;> simp at hk
  have hstrings : (tokens text).Says (· ≠ (.blockString, v)) :=
    ⟨fun t ht _ => hmem t ht, hlast⟩
  intro hdoc
  have hdocument := Written.Parser.isDocument_of_strings hstrings h
  rw [hdoc] at hdocument
  generalize hn : Node.stringValue v true none = n at hdocument
  cases isValue_of_argumentQuery hdocument with
  | @block s hne =>
    obtain rfl : v = s := by simpa using hn
    exact hne rfl
  | _ => cases hn

/-- A query whose argument is an enclosable block string is read as it was printed. -/
theorem exists_parseDocument_argumentQuery (hf : IsName f) (ha : IsName a) {v : String}
    (hv : IsBlockValue v) (h : Enclosable v) :
    ∃ doc, parseDocument (argumentQuery f a (.stringValue v true none)).print = .ok doc ∧
      doc.cloneDeep = argumentQuery f a (.stringValue v true none) := by
  have hstring : IsValue IsString false (.stringValue v true none) := .block fun _ => hv
  have hlexes : Lexes (argumentQuery f a (.stringValue v true none)).print.toList
      ([argumentOperation f a (.stringValue v true none)].flatMap Node.lexemes) :=
    lexes_argumentQuery (v := .stringValue v true none) hf ha (lexes_block hv h lexes_close)
  exact Written.Parser.parseDocument_lexemes
    (List.forall_mem_singleton.mpr (isDefinition_argumentOperation hf ha hstring)) hlexes

/-- **A block string survives printing** if it is enclosable, and in no other case. Only then is it
read as it was printed where it is the argument of a query; and then every document is read again in
which no other literal and no variable definition gets lost, but for locations as it was. -/
theorem read_print_blockString {text : String} {t : Token} (ht : t ∈ (tokens text).tokens)
    (hk : t.kind = .blockString) :
    (∀ {f a : String}, IsName f → IsName a →
      ((∃ doc, parseDocument (argumentQuery f a (.stringValue t.value true none)).print = .ok doc ∧
        doc.cloneDeep = argumentQuery f a (.stringValue t.value true none)) ↔
          Enclosable t.value)) ∧
      (Enclosable t.value → ∀ {source : String} {doc : Node}, parseDocument source = .ok doc →
        (∀ n ∈ doc.rose.labels, n.fragmentParameters = []) →
        (∀ n ∈ doc.rose.labels, n.Legible ∨ ∃ l, n = .stringValue t.value true l) →
        ∃ doc', parseDocument doc.print = .ok doc' ∧ doc'.cloneDeep = doc.cloneDeep ∧
          (doc.equal doc' = true ↔ doc.shape.depth ≤ Value.maxNesting) ∧
            doc'.print = doc.print) := by
  have hv : IsBlockValue t.value := ((sound_tokens text).tokens t ht).isBlockValue hk
  refine ⟨fun hf ha => ⟨fun ⟨doc, hparse, hdoc⟩ => ?_, ?_⟩,
    fun h source doc hdoc hparams hlegible => ?_⟩
  · by_contra hnot
    exact cloneDeep_ne_argumentQuery hf ha hv hnot hparse hdoc
  · exact exists_parseDocument_argumentQuery hf ha hv
  · refine exists_same_of_lasting hdoc ⟨fun n hn => ?_, hparams⟩
    rcases hlegible n hn with hn | ⟨l, rfl⟩
    · exact hn
    · exact h

/-- A query with a block string of two lines that holds three quotes. -/
def quotedBlock : String := "\x7b a(b: \"\"\"x\n  \\\"\"\"y\"\"\") \x7d"

theorem read_print_blockString_quotedBlock :
    ∃ t ∈ (tokens quotedBlock).tokens, t.lexeme = (.blockString, "x\n  \"\"\"y") ∧
      (∃ doc, parseDocument (argumentQuery "f" "a" (.stringValue t.value true none)).print = .ok doc ∧
        doc.cloneDeep = argumentQuery "f" "a" (.stringValue t.value true none)) ∧
      ∃ doc doc', parseDocument quotedBlock = .ok doc ∧ parseDocument doc.print = .ok doc' ∧
        doc'.cloneDeep = doc.cloneDeep ∧
          (doc.equal doc' = true ↔ doc.shape.depth ≤ Value.maxNesting) ∧
            doc'.print = doc.print := by
  have htoken : (.blockString, "x\n  \"\"\"y") ∈ (tokens quotedBlock).tokens.map Token.lexeme := by
    decide +kernel
  obtain ⟨t, ht, hlexeme⟩ := List.mem_map.mp htoken
  obtain ⟨hk, hvalue⟩ : t.kind = .blockString ∧ t.value = "x\n  \"\"\"y" := Prod.ext_iff.mp hlexeme
  have henclosable : Enclosable t.value := by
    rw [hvalue]
    decide +kernel
  have hlabels : (parseDocument quotedBlock).toOption.any (fun doc => decide
      ((∀ n ∈ doc.rose.labels, n.fragmentParameters.isEmpty = true) ∧
        ∀ n ∈ doc.rose.labels, n.Legible)) = true := by
    decide +kernel
  obtain ⟨harg, hdoc⟩ := read_print_blockString ht hk
  refine ⟨t, ht, hlexeme, (harg (isName_of_all rfl rfl rfl) (isName_of_all rfl rfl rfl)).mpr
    henclosable, ?_⟩
  cases h : parseDocument quotedBlock with
  | error e =>
    rw [h] at hlabels
    cases hlabels
  | ok doc =>
    rw [h] at hlabels
    obtain ⟨hparams, hlegible⟩ := of_decide_eq_true hlabels
    obtain ⟨doc', hdoc'⟩ := hdoc henclosable h (fun n hn => List.isEmpty_iff.mp (hparams n hn))
      fun n hn => .inl (hlegible n hn)
    exact ⟨doc, doc', rfl, hdoc'⟩

/-- A block string may end with a quote, and what is printed of it cannot be read. -/
theorem read_print_trailingQuote :
    ((tokens "\"\"\"x\"\n\"\"\"").tokens.map Token.lexeme = [(.blockString, "x\"")]) ∧
      (parseDocument (argumentQuery "a" "b" (.stringValue "x\"" true none)).print).toOption.isNone =
        true := by
  decide +kernel

end QueryCheck.Syntax
