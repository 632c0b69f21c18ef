import QueryCheck.Proofs.Source.Lexemes
import QueryCheck.Proofs.Text.Quoted
import QueryCheck.Syntax.Printer

/-! # Quoted strings are read again

A string literal is printed as a quoted text. The escapes of quoted texts and those of string
literals are the same for most characters, but a quoted text has short escapes for the bell and the
vertical tab, escapes of two digits, and escapes of eight. None of these may stand in a string
literal.

* `Spellable`: the characters that are printed as a string literal may hold them.
* `readString_flatMap`, `readString_flatMap_error`: reading printed characters.
* `lexes_quote`: a printed string in front of a text.
* `tokens_print_stringValue`: the texts that survive printing. -/

namespace QueryCheck.Syntax

open QueryCheck.Data (hexDigit hexDigits)
open QueryCheck.Source
open QueryCheck.Text

/-! ### Characters -/

/-- A character that is printed in a way string literals know: it is printable, or it has a short
escape in them, or its number takes four digits and more than two. -/
def Spellable (c : Char) : Prop :=
  isPrintable c = true ∨ c.toNat ∈ [8, 9, 10, 12, 13] ∨ 0x80 ≤ c.toNat ∧ c.toNat < 0x10000

instance (c : Char) : Decidable (Spellable c) := by
  unfold Spellable
  infer_instance

theorem le_of_isPrintable {c : Char} (h : isPrintable c = true) : 32 ≤ c.toNat := by
  obtain ⟨r, hr, hc⟩ := List.any_eq_true.mp h
  have hlow : ∀ r ∈ printableRanges, 32 ≤ r.1 := by decide +kernel
  simp only [Bool.and_eq_true, decide_eq_true_eq] at hc
  exact (hlow r hr).trans hc.1

theorem hexValue?_hexDigit : ∀ n < 16, hexValue? (hexDigit n) = some n := by decide

/-- A number below the surrogates or above them is told by its four digits. -/
theorem unicodeEscape?_hexDigits {c : Char} (h : c.toNat < 0x10000) :
    ∃ d₁ d₂ d₃ d₄, hexDigits 4 c.toNat = [d₁, d₂, d₃, d₄] ∧
      unicodeEscape? d₁ d₂ d₃ d₄ = some c := by
  have hdigit : ∀ n, hexValue? (hexDigit (n % 16)) = some (n % 16) := fun n =>
    hexValue?_hexDigit _ (Nat.mod_lt n (by decide))
  have hsum : ((c.toNat / 16 / 16 / 16 % 16 * 16 + c.toNat / 16 / 16 % 16) * 16 +
      c.toNat / 16 % 16) * 16 + c.toNat % 16 = c.toNat := by omega
  have hchar : charOrReplacement c.toNat = c := by
    have hvalid : c.toNat.isValidChar := c.valid
    rw [charOrReplacement, if_pos hvalid, Char.ofNat_toNat]
  refine ⟨_, _, _, _, rfl, ?_⟩
  simp only [unicodeEscape?, hdigit, Option.bind_eq_bind, Option.bind_some, Option.pure_def, hsum,
    hchar]

/-- A character behind a backslash that is a short escape of string literals. -/
theorem readString_short {k c : Char} (h : shortEscape? k = some c) (value : List Char)
    (cur : Cursor) (rest : List Char) :
    readString value cur ('\\' :: k :: rest) = readString (c :: value) (cur.move 2) rest := by
  have hu : k ≠ 'u' := by
    rintro rfl
    cases h
  rw [readString.eq_def]
  simp [h, hu]

/-- A character behind a backslash that starts no escape of string literals. -/
theorem readString_unknown {k : Char} (h : shortEscape? k = none) (hu : k ≠ 'u')
    (value : List Char) (cur : Cursor) (rest : List Char) :
    ∃ e, readString value cur ('\\' :: k :: rest) = .error e := by
  rw [readString.eq_def]
  simp [h, hu]

/-- **A spellable character is read as it was printed**, whatever stands behind it. -/
theorem readString_quoteChar {c : Char} (hc : Spellable c) (value : List Char) (cur : Cursor)
    {rest : List Char} (hrest : rest ≠ []) :
    ∃ cur', readString value cur (quoteChar c ++ rest) = readString (c :: value) cur' rest := by
  have hchar : ∀ {n : Nat}, c.toNat = n → c = .ofNat n := fun h => by rw [← h, Char.ofNat_toNat]
  have hshort : ∀ {k : Char}, shortEscape? k = some c →
      ∃ cur', readString value cur (['\\', k] ++ rest) = readString (c :: value) cur' rest :=
    fun h => ⟨_, readString_short h value cur rest⟩
  unfold quoteChar
  split_ifs with hquote hslash hprint
  · exact hshort (by rw [hquote]; rfl)
  · exact hshort (by rw [hslash]; rfl)
  · have hle := le_of_isPrintable hprint
    have hfeed : c ≠ '\n' ∧ c ≠ '\r' := by
      constructor <;> rintro rfl <;> exact absurd hle (by decide)
    refine ⟨cur.move 1, ?_⟩
    rw [List.singleton_append, readString.eq_def]
    simp [hslash, hfeed, Nat.not_lt.mpr hle]
  · rcases hc with hp | hlow | ⟨hge, hlt⟩
    · exact absurd hp hprint
    · simp only [List.mem_cons, List.not_mem_nil, or_false] at hlow
      rcases hlow with h | h | h | h | h <;>
      · rw [h]
        exact hshort (by rw [hchar h]; rfl)
    · obtain ⟨d₁, d₂, d₃, d₄, hdigits, hread⟩ := unicodeEscape?_hexDigits hlt
      obtain ⟨e, rest, rfl⟩ := List.exists_cons_of_ne_nil hrest
      refine ⟨cur.move 6, ?_⟩
      split
      case h_8 =>
        rw [if_neg (by omega), if_pos hlt, hdigits]
        simp [readString, hread]
      all_goals omega

/-- **A character that is not spellable** is printed with an escape that string literals do not
know. -/
theorem readString_quoteChar_error {c : Char} (hc : ¬Spellable c) (value : List Char)
    (cur : Cursor) (rest : List Char) :
    ∃ e, readString value cur (quoteChar c ++ rest) = .error e := by
  have hunknown : ∀ {k : Char} {ds : List Char}, shortEscape? k = none → k ≠ 'u' →
      ∃ e, readString value cur ('\\' :: k :: ds ++ rest) = .error e :=
    fun h hu => readString_unknown h hu value cur _
  simp only [Spellable, not_or, List.mem_cons, List.not_mem_nil, or_false] at hc
  obtain ⟨hprint, hlow, hrange⟩ := hc
  unfold quoteChar
  split_ifs with hquote hslash
  · rw [hquote] at hprint
    exact absurd rfl hprint
  · rw [hslash] at hprint
    exact absurd rfl hprint
  · split
    case h_1 => exact hunknown rfl (by decide)
    case h_5 => exact hunknown rfl (by decide)
    case h_8 =>
      split_ifs
      · exact hunknown rfl (by decide)
      · omega
      · exact hunknown rfl (by decide)
    all_goals omega

/-! ### Texts -/

/-- **Spellable characters are read as they were printed** up to a closing quote. -/
theorem readString_flatMap : ∀ {cs : List Char}, (∀ c ∈ cs, Spellable c) →
    ∀ (value : List Char) (cur : Cursor) (rest : List Char), ∃ cur',
    readString value cur (cs.flatMap quoteChar ++ '"' :: rest) =
      .ok ⟨String.ofList (value.reverse ++ cs), '"' :: rest, cur'⟩
  | [], _, value, cur, rest => ⟨cur, by simp [readString]⟩
  | c :: cs, h, value, cur, rest => by
    obtain ⟨hc, hcs⟩ := List.forall_mem_cons.mp h
    have hne : cs.flatMap quoteChar ++ '"' :: rest ≠ [] := by simp
    obtain ⟨cur₁, hread⟩ := readString_quoteChar hc value cur hne
    obtain ⟨cur', hread'⟩ := readString_flatMap hcs (c :: value) cur₁ rest
    exact ⟨cur', by simp [hread, hread']⟩

/-- Reading stops at the first character that is not spellable. -/
theorem readString_flatMap_error : ∀ {cs : List Char}, (∃ c ∈ cs, ¬Spellable c) →
    ∀ (value : List Char) (cur : Cursor) (rest : List Char), ∃ e,
    readString value cur (cs.flatMap quoteChar ++ '"' :: rest) = .error e
  | [], h, _, _, _ => by simp at h
  | c :: cs, h, value, cur, rest => by
    rw [List.flatMap_cons, List.append_assoc]
    by_cases hc : Spellable c
    · have hne : cs.flatMap quoteChar ++ '"' :: rest ≠ [] := by simp
      obtain ⟨cur₁, hread⟩ := readString_quoteChar hc value cur hne
      rw [hread]
      exact readString_flatMap_error (by simpa [hc] using h) (c :: value) cur₁ rest
    · exact readString_quoteChar_error hc value cur _

/-- What is read at an opening quote, unless two more quotes follow it. -/
theorem readNext_quote {cs : List Char} (h : ∀ rest, cs ≠ '"' :: '"' :: rest) (cur : Cursor) :
    readNext cur ('"' :: cs) =
      match readString [] (cur.move 1) cs with
      | .ok r => quotedToken .string 1 cur.offset r.value r.rest r.cursor
      | .error (f, here) => invalidToken (cur.offset + 1) f here := by
  rw [readNext.eq_def]
  split
  · next heq => cases heq
  · next heq => exact absurd (List.cons.inj heq).1 (by decide)
  · next heq => exact absurd (List.cons.inj heq).2 (h _)
  · next heq =>
    obtain rfl := (List.cons.inj heq).2
    rfl
  · next hne heq => exact absurd (List.cons.inj heq).1.symm hne

/-- The printed characters of a text do not start with two quotes, unless there are none and the
text behind them starts with a quote. -/
theorem flatMap_quoteChar_ne {cs rest : List Char} (hrest : Ends rest) (rest' : List Char) :
    cs.flatMap quoteChar ++ '"' :: rest ≠ '"' :: '"' :: rest' := by
  cases cs with
  | nil =>
    intro heq
    obtain rfl := (List.cons.inj heq).2
    exact (hrest '"' rfl).2.2 rfl
  | cons c cs =>
    rw [List.flatMap_cons, List.append_assoc]
    exact (quoting_quoteChar c).append_ne _ _

theorem toList_quote_append (s : String) (rest : List Char) :
    (quote s).toList ++ rest = '"' :: (s.toList.flatMap quoteChar ++ '"' :: rest) := by
  simp [quote]

/-- **A printed string** in front of a text that does not continue it. -/
theorem lexes_quote {last : TokenKind} {s : String} {rest : List Char} {ls : List Lexeme}
    (hs : ∀ c ∈ s.toList, Spellable c) (hr : Ends rest) (h : LexesTo last rest ls) :
    LexesTo last ((quote s).toList ++ rest) ((.string, s) :: ls) := by
  rw [toList_quote_append]
  refine LexesTo.next (startsToken_of (by decide)) (fun cur => ?_) ?_ h
  · obtain ⟨cur', hread⟩ := readString_flatMap hs [] (cur.move 1) rest
    rw [readNext_quote (flatMap_quoteChar_ne hr), hread]
    refine ⟨_, _, rfl, ?_⟩
    simp [Token.lexeme]
  · simp only [List.length_append, List.length_cons]
    omega

theorem writes_quote {s : String} (hs : ∀ c ∈ s.toList, Spellable c) :
    Writes (quote s) [(.string, s)] := fun _ _ _ he hl => lexes_quote hs he hl

/-- Nothing can be read where a printed string holds a character that is not spellable. -/
theorem tokens_quote_of_not_spellable {s : String} (hs : ∃ c ∈ s.toList, ¬Spellable c) :
    (tokens (quote s)).tokens = [] := by
  obtain ⟨e, hread⟩ := readString_flatMap_error hs [] (Cursor.start.move 1) []
  rw [tokens, ← List.append_nil (quote s).toList, toList_quote_append, readAll,
    startsToken_of (by decide)]
  simp only [readNext_quote (flatMap_quoteChar_ne ends_nil), hread, invalidToken]

/-- **A string survives printing** if it has only spellable characters, and in no other case. Then
the text of its literal is a string literal with that value. -/
theorem tokens_print_stringValue (v : String) (l : Option Location) :
    ((tokens (Node.stringValue v false l).print).tokens.map Token.lexeme = [(.string, v)] ∧
        (tokens (Node.stringValue v false l).print).last.kind = .endOfText) ↔
      ∀ c ∈ v.toList, Spellable c := by
  have hprint : (Node.stringValue v false l).print = quote v := rfl
  rw [hprint]
  refine ⟨fun h => ?_, fun h => lexes_tokens ?_⟩
  · by_contra hs
    push Not at hs
    rw [tokens_quote_of_not_spellable hs] at h
    cases h.1
  · have hlexes := lexes_quote h ends_nil lexes_nil
    rwa [List.append_nil] at hlexes

/-- The bell can be written in a string literal, and it is not read again as it is printed. -/
theorem tokens_print_bell :
    (tokens "\"\\u0007\"").tokens.map Token.lexeme = [(.string, String.singleton (.ofNat 7))] ∧
      (tokens "\"\\u0007\"").last.kind = .endOfText ∧
      (tokens (Node.stringValue (String.singleton (.ofNat 7)) false none).print).last.kind =
        .invalid := by
  decide +kernel

end QueryCheck.Syntax
