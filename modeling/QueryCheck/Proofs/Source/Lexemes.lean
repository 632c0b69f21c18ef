import QueryCheck.Proofs.Source.Tokens

/-! # Texts put together from lexemes

A token says what it is and where it stands; what it says is its lexeme. A text put together from
names, numbers, punctuation and blanks has the lexemes it was put together from, provided that a
name or a number is not continued by what follows it.

* `LexesTo`, `Lexes`: a text has the given lexemes, up to a token that cannot be read or to its end.
* `LexesTo.blank`, `LexesTo.mark`, `LexesTo.dots`, `LexesTo.name`, `LexesTo.number`: one more lexeme
  or blank in front of a text.
* `Writes`: a piece of text that has the given lexemes in front of every text that does not continue
  it. -/

namespace QueryCheck.Source

/-- What a token says, wherever it stands. -/
abbrev Lexeme := TokenKind × String

/-- What a token says. -/
def Token.lexeme (t : Token) : Lexeme := (t.kind, t.value)

/-- A lexeme without a value. -/
def mark (k : TokenKind) : Lexeme := (k, "")

/-- Lexemes between two marks. -/
def enclosed (start close : TokenKind) (ls : List Lexeme) : List Lexeme :=
  mark start :: (ls ++ [mark close])

/-- A text has the given lexemes up to the last token, which has the given kind. -/
def LexesTo (last : TokenKind) (cs : List Char) (ls : List Lexeme) : Prop :=
  ∀ fuel cur, cs.length < fuel →
    (readAll fuel cur cs).tokens.map Token.lexeme = ls ∧ (readAll fuel cur cs).last.kind = last

/-- A text has the given lexemes up to its end. -/
abbrev Lexes : List Char → List Lexeme → Prop := LexesTo .endOfText

theorem lexes_nil : Lexes [] [] := by
  intro fuel cur hf
  obtain ⟨fuel, rfl⟩ := Nat.exists_eq_add_one_of_ne_zero (Nat.ne_zero_of_lt hf)
  exact ⟨rfl, rfl⟩

/-! ### One more character -/

variable {last : TokenKind}

/-- A character between tokens as they are printed. -/
def IsBlank (c : Char) : Prop := c = ' ' ∨ c = ',' ∨ c = '\n'

theorem LexesTo.blank {c : Char} {cs : List Char} {ls : List Lexeme} (hc : IsBlank c)
    (h : LexesTo last cs ls) :
    LexesTo last (c :: cs) ls := by
  intro fuel cur hf
  obtain ⟨fuel, rfl⟩ := Nat.exists_eq_add_one_of_ne_zero (Nat.ne_zero_of_lt hf)
  have hskip : ∃ cur', skipBlanks false cur (c :: cs) = skipBlanks false cur' cs := by
    rcases hc with rfl | rfl | rfl
    · exact ⟨cur.move 1, by rw [skipBlanks.eq_def]; simp⟩
    · exact ⟨cur.move 1, by rw [skipBlanks.eq_def]; simp⟩
    · exact ⟨cur.newline, by rw [skipBlanks.eq_def]; simp [byteOrderMark]⟩
  obtain ⟨cur', hskip⟩ := hskip
  have hread : readAll (fuel + 1) cur (c :: cs) = readAll (fuel + 1) cur' cs := by
    rw [readAll, readAll, hskip]
  rw [hread]
  refine h _ _ ?_
  rw [List.length_cons] at hf
  omega

/-- A character that no blank and no comment starts with. -/
def StartsToken (c : Char) : Prop := ∀ cur cs, skipBlanks false cur (c :: cs) = (c :: cs, cur)

theorem startsToken_of {c : Char} (h : c ∉ ['#', '\t', ' ', ',', byteOrderMark, '\n', '\r']) :
    StartsToken c := by
  intro cur cs
  simp only [List.mem_cons, List.not_mem_nil, or_false, not_or] at h
  obtain ⟨h₁, h₂, h₃, h₄, h₅, h₆, h₇⟩ := h
  rw [skipBlanks.eq_def]
  simp [h₁, h₂, h₃, h₄, h₅, h₆, h₇]

/-- One more token in front of a text, wherever it stands. -/
theorem LexesTo.next {c : Char} {cs rest : List Char} {ls : List Lexeme} {l : Lexeme}
    (hc : StartsToken c)
    (hread : ∀ cur, ∃ t cur', readNext cur (c :: cs) = .token t rest cur' ∧ t.lexeme = l)
    (hlen : rest.length ≤ cs.length) (h : LexesTo last rest ls) :
    LexesTo last (c :: cs) (l :: ls) := by
  intro fuel cur hf
  obtain ⟨fuel, rfl⟩ := Nat.exists_eq_add_one_of_ne_zero (Nat.ne_zero_of_lt hf)
  obtain ⟨t, cur', ht, rfl⟩ := hread cur
  rw [List.length_cons] at hf
  obtain ⟨hmap, hlast⟩ := h fuel cur' (by omega)
  simp only [readAll, hc cur cs, ht, List.map_cons, hmap, hlast, and_true]

/-- A text that nothing can be read from. -/
theorem LexesTo.stop {c : Char} {cs : List Char} (hc : StartsToken c)
    (hread : ∀ cur, ∃ t f, readNext cur (c :: cs) = .last t f ∧ t.kind = last) :
    LexesTo last (c :: cs) [] := by
  intro fuel cur hf
  obtain ⟨fuel, rfl⟩ := Nat.exists_eq_add_one_of_ne_zero (Nat.ne_zero_of_lt hf)
  obtain ⟨t, f, ht, rfl⟩ := hread cur
  simp only [readAll, hc cur cs, ht, List.map_nil, and_self]

/-- One more token without quotes in front of a text. -/
theorem LexesTo.token {c : Char} {cs rest : List Char} {ls : List Lexeme} {l : Lexeme}
    (hc : StartsToken c)
    (hread : ∃ width, ∀ cur, readNext cur (c :: cs) = plainToken l.1 l.2 width rest cur)
    (hlen : rest.length ≤ cs.length) (h : LexesTo last rest ls) :
    LexesTo last (c :: cs) (l :: ls) := by
  obtain ⟨width, hread⟩ := hread
  exact .next hc (fun cur => ⟨_, _, hread cur, rfl⟩) hlen h

/-- Punctuation in front of a text. -/
theorem LexesTo.mark {c : Char} {k : TokenKind} {cs : List Char} {ls : List Lexeme}
    (hk : punctuation? c = some k)
    (h : LexesTo last cs ls) : LexesTo last (c :: cs) (mark k :: ls) := by
  refine LexesTo.token ?_ ⟨1, fun cur => ?_⟩ le_rfl h
  · apply startsToken_of
    unfold punctuation? at hk
    split at hk <;> first | decide | cases hk
  · unfold punctuation? at hk
    split at hk <;> first | (obtain rfl := Option.some.inj hk; rfl) | cases hk

/-- The dots of a spread in front of a text. -/
theorem LexesTo.dots {cs : List Char} {ls : List Lexeme} (h : LexesTo last cs ls) :
    LexesTo last ('.' :: '.' :: '.' :: cs) (Source.mark .spread :: ls) := by
  refine LexesTo.token (startsToken_of (by decide)) ⟨3, fun cur => rfl⟩ ?_ h
  simp only [List.length_cons]
  omega

/-! ### Names and numbers -/

/-- What is read where no punctuation, no string and no dots are. -/
theorem readNext_word {c : Char} {cs : List Char} (hp : punctuation? c = none) (hd : c ≠ '.')
    (hq : c ≠ '"') (cur : Cursor) :
    readNext cur (c :: cs) =
      if startsName c then
        plainToken .name (String.ofList ((c :: cs).takeWhile inName))
          ((c :: cs).takeWhile inName).length
          ((c :: cs).dropWhile inName) cur
      else if c.isDigit || c == '-' then
        match (readNumber (c :: cs)).fault with
        | none =>
          plainToken (if (readNumber (c :: cs)).float then .float else .int)
            (String.ofList (readNumber (c :: cs)).digits) (readNumber (c :: cs)).digits.length
            ((c :: cs).drop (readNumber (c :: cs)).digits.length) cur
        | some f => invalidToken cur.offset f (cur.move (readNumber (c :: cs)).digits.length)
      else invalidToken cur.offset (characterFault c) cur := by
  unfold readNext
  split
  · next h => cases h
  · next h => exact absurd (List.cons.inj h).1 hd
  · next h => exact absurd (List.cons.inj h).1 hq
  · next h => exact absurd (List.cons.inj h).1 hq
  · next h =>
    obtain ⟨rfl, rfl⟩ := List.cons.inj h
    split
    · next hk =>
      rw [hp] at hk
      cases hk
    · rfl

/-- What a character of a name or a minus sign is not. -/
theorem startsToken_word {c : Char} (hc : (inName c || c == '-') = true) :
    StartsToken c ∧ punctuation? c = none ∧ c ≠ '.' ∧ c ≠ '"' := by
  have hne : ∀ d, (inName d || d == '-') = false → c ≠ d := fun d hd hcd => by
    rw [hcd, hd] at hc
    cases hc
  refine ⟨startsToken_of ?_, ?_, hne _ (by decide), hne _ (by decide)⟩
  · simp only [List.mem_cons, List.not_mem_nil, or_false, not_or]
    refine ⟨hne _ ?_, hne _ ?_, hne _ ?_, hne _ ?_, hne _ ?_, hne _ ?_, hne _ ?_⟩ <;> decide
  · unfold punctuation?
    split <;> first | rfl | exact absurd rfl (hne _ (by decide))

theorem isName_toList {s : String} (hs : IsName s) : ∀ c ∈ s.toList, inName c = true := by
  obtain ⟨c, cs, he, hc, hcs⟩ := hs
  rw [he]
  simp only [List.mem_cons, forall_eq_or_imp]
  exact ⟨by simp [inName, hc], hcs⟩

theorem takeWhile_inName {w rest : List Char} (hw : ∀ c ∈ w, inName c = true) (hr : Ends rest) :
    (w ++ rest).takeWhile inName = w ∧ (w ++ rest).dropWhile inName = rest := by
  rw [List.takeWhile_append_of_pos hw, List.dropWhile_append_of_pos hw]
  cases rest with
  | nil => simp
  | cons c rest => simp [(hr c rfl).1]

/-- A name in front of a text that does not continue it. -/
theorem LexesTo.name {s : String} {rest : List Char} {ls : List Lexeme} (hs : IsName s)
    (hr : Ends rest) (h : LexesTo last rest ls) :
    LexesTo last (s.toList ++ rest) ((.name, s) :: ls) := by
  obtain ⟨htake, hdrop⟩ := takeWhile_inName (isName_toList hs) hr
  obtain ⟨c, cs, he, hc, -⟩ := hs
  obtain ⟨htok, hp, hd, hq⟩ := startsToken_word (c := c) (by simp [inName, hc])
  rw [he, List.cons_append] at htake hdrop ⊢
  refine LexesTo.token htok ⟨(c :: cs).length, fun cur => ?_⟩ (by simp) h
  rw [readNext_word hp hd hq, if_pos hc, htake, hdrop, ← he, String.ofList_toList]

theorem startsName_of_isDigit {c : Char} (h : c.isDigit = true) : startsName c = false := by
  have hne : c ≠ '_' := by
    rintro rfl
    exact absurd h (by decide)
  have hdigit : c.isDigit = (decide (c.val ≥ 48) && decide (c.val ≤ 57)) := rfl
  have halpha : c.isAlpha = (decide (c.val ≥ 65 ∧ c.val ≤ 90) ||
      (decide (c.val ≥ 97) && decide (c.val ≤ 122))) := rfl
  have hval : c.val ≤ 57 := by
    rw [hdigit, Bool.and_eq_true] at h
    exact of_decide_eq_true h.2
  have hupper : ¬c.val ≥ 65 := by grind
  have hlower : ¬c.val ≥ 97 := by grind
  simp [startsName, halpha, hne, hupper, hlower]

/-- The kind of the token of a number. -/
def numberKind (float : Bool) : TokenKind := if float then .float else .int

/-- A number in front of a text that does not continue it. -/
theorem LexesTo.number {float : Bool} {s : String} {rest : List Char} {ls : List Lexeme}
    (hs : IsNumber float s.toList) (hr : Ends rest) (h : LexesTo last rest ls) :
    LexesTo last (s.toList ++ rest) ((numberKind float, s) :: ls) := by
  have hread := readNumber_append hs hr
  obtain ⟨c, cs, he, hc⟩ := hs.head
  have hn : startsName c = false := by
    rcases Bool.or_eq_true_iff.mp hc with hd | hm
    · exact startsName_of_isDigit hd
    · rw [beq_iff_eq.mp hm]
      rfl
  obtain ⟨htok, hp, hd, hq⟩ := startsToken_word (c := c) (by simp [inName, hn, hc])
  rw [he, List.cons_append] at hread ⊢
  refine LexesTo.token htok ⟨(c :: cs).length, fun cur => ?_⟩ (by simp) h
  rw [readNext_word hp hd hq, hn, if_neg (by simp), if_pos hc, hread, ← he, String.ofList_toList,
    he, ← List.cons_append]
  dsimp only
  rw [List.drop_left, numberKind]

/-! ### Pieces of text -/

/-- The tokens of a text that has the given lexemes. -/
theorem lexes_tokens {text : String} {ls : List Lexeme} (h : LexesTo last text.toList ls) :
    (tokens text).tokens.map Token.lexeme = ls ∧ (tokens text).last.kind = last :=
  h _ _ (Nat.lt_succ_self _)

/-- A piece of text that has the given lexemes in front of every text that does not continue it. -/
def Writes (text : String) (ls : List Lexeme) : Prop :=
  ∀ last rest ls', Ends rest → LexesTo last rest ls' →
    LexesTo last (text.toList ++ rest) (ls ++ ls')

/-- A piece of text that has the given lexemes in front of every text. -/
def Marks (text : String) (ls : List Lexeme) : Prop :=
  ∀ last rest ls', LexesTo last rest ls' → LexesTo last (text.toList ++ rest) (ls ++ ls')

/-- A piece of text that may stand behind a name or a number. -/
structure Trails (text : String) (ls : List Lexeme) : Prop where
  writes : Writes text ls
  ends : Ends text.toList

/-- A piece of text that may stand between any two texts. -/
structure Separates (text : String) (ls : List Lexeme) : Prop where
  marks : Marks text ls
  ends : ∀ rest, Ends (text.toList ++ rest)

variable {a b : String} {la lb : List Lexeme}

theorem Writes.lexes (h : Writes a la) : Lexes a.toList la := by
  have hl := h _ [] [] ends_nil lexes_nil
  rwa [List.append_nil, List.append_nil] at hl

theorem writes_name {s : String} (h : IsName s) : Writes s [(.name, s)] :=
  fun _ _ _ he hl => .name h he hl

theorem writes_number {float : Bool} {s : String} (h : IsNumber float s.toList) :
    Writes s [(numberKind float, s)] := fun _ _ _ he hl => .number h he hl

theorem trails_empty : Trails "" [] := ⟨fun _ _ _ _ hl => hl, ends_nil⟩

theorem separates_punctuation {c : Char} {k : TokenKind} (ha : a.toList = [c])
    (hk : punctuation? c = some k) : Separates a [mark k] := by
  constructor
  · intro last rest ls' hl
    rw [ha]
    exact .mark hk hl
  · intro rest
    rw [ha]
    apply ends_cons
    unfold punctuation? at hk
    split at hk <;> first | decide | cases hk

theorem Ends.append {cs rest : List Char} (hc : Ends cs) (hr : Ends rest) : Ends (cs ++ rest) := by
  cases cs with
  | nil => exact hr
  | cons c cs => exact ends_cons (hc c rfl)

/-- A piece of text behind one that it cannot continue. -/
theorem Marks.append (ha : Marks a la) (hb : Writes b lb) : Writes (a ++ b) (la ++ lb) := by
  intro last rest ls' he hl
  rw [String.toList_append, List.append_assoc, List.append_assoc]
  exact ha _ _ _ (hb _ _ _ he hl)

/-- A piece of text behind one that it might continue. -/
theorem Writes.append (ha : Writes a la) (hb : Trails b lb) : Writes (a ++ b) (la ++ lb) := by
  intro last rest ls' he hl
  rw [String.toList_append, List.append_assoc, List.append_assoc]
  exact ha _ _ _ (hb.ends.append he) (hb.writes _ _ _ he hl)

theorem Trails.append (ha : Trails a la) (hb : Trails b lb) : Trails (a ++ b) (la ++ lb) := by
  refine ⟨ha.writes.append hb, ?_⟩
  rw [String.toList_append]
  exact ha.ends.append hb.ends

theorem Separates.append (ha : Separates a la) (hb : Writes b lb) : Trails (a ++ b) (la ++ lb) := by
  refine ⟨ha.marks.append hb, ?_⟩
  rw [String.toList_append]
  exact ha.ends _

theorem Separates.trails (h : Separates a la) : Trails a la := by
  have ht := h.append trails_empty.writes
  rwa [String.append_empty, List.append_nil] at ht

/-- A piece of text between two others. -/
theorem Writes.enclosed {o c : String} {start close : TokenKind}
    (ho : Separates o [Source.mark start])
    (h : Writes a la) (hc : Separates c [Source.mark close]) :
    Trails (o ++ a ++ c) (enclosed start close la) := (ho.append h).append hc.trails

end QueryCheck.Source
