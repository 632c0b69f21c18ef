import Mathlib.Data.List.Chain
import QueryCheck.Proofs.Source.Tokens

/-! # Where tokens stand

The span of a token tells where it stands in the text it was read from: the tokens of a text stand
one behind the other, and the text of a name is found at the span of its token.

* `Token.StandsIn`, `Standing`: a token, and tokens one behind the other, at their places in a text.
* `SpelledOut`: the words `on` behind dots are written as such.
* `skipBlanks_place`, `readString_place`, `readBlock_place`, `readNext_place`: what is still to be
  read is what stands behind the cursor.
* `standing_tokens`: the tokens of every text stand in it. -/

namespace QueryCheck.Source

/-- A text stands in another at an offset. -/
def StandsAt (chars : List Char) (text : String) (offset : Nat) : Prop :=
  text.toList <+: chars.drop offset

/-- A stretch of a text that is not empty. -/
def Span.Within (chars : List Char) (s : Span) : Prop := s.start < s.stop ∧ s.stop ≤ chars.length

/-- A token stands within a text, and if it is a name then its text stands at its place. -/
structure Token.StandsIn (chars : List Char) (t : Token) : Prop where
  within : t.span.Within chars
  name : t.kind = .name → StandsAt chars t.value t.span.start ∧
    t.span.stop = t.span.start + t.value.length

/-- A token that stands for the end of a text, or for what cannot be read. -/
def Token.IsLast (t : Token) : Prop := t.kind = .endOfText ∨ t.kind = .invalid

theorem Token.not_isLast {t : Token} {k : TokenKind} (h : t.kind = k)
    (hk : k ≠ .endOfText ∧ k ≠ .invalid) : ¬ t.IsLast := by
  rw [IsLast, h]
  exact not_or.mpr hk

/-- Tokens that stand in a text one behind the other, none of them before an offset. -/
def Standing (chars : List Char) : Nat → List Token → Prop
  | _, [] => True
  | lower, t :: ts => lower ≤ t.span.start ∧ t.StandsIn chars ∧ Standing chars t.span.stop ts

/-- A text stands inside the place of a token. -/
def Token.Spells (chars : List Char) (text : String) (t : Token) : Prop :=
  ∃ i, t.span.start ≤ i ∧ i + text.length ≤ t.span.stop ∧ StandsAt chars text i

/-- Every token right behind dots that says `on` is written with these letters. Names always are,
but a string may be written otherwise. -/
def SpelledOut (chars : List Char) (ts : List Token) : Prop :=
  ts.IsChain fun dots t => dots.kind = .spread → t.value = "on" → t.Spells chars "on"

instance (chars : List Char) (text : String) (t : Token) : Decidable (t.Spells chars text) :=
  decidable_of_iff (∃ i < t.span.stop + 1, t.span.start ≤ i ∧ i + text.length ≤ t.span.stop ∧
      text.toList <+: chars.drop i)
    ⟨fun ⟨i, _, h⟩ => ⟨i, h⟩, fun ⟨i, hi, hstop, h⟩ => ⟨i, by omega, hi, hstop, h⟩⟩

instance (chars : List Char) (ts : List Token) : Decidable (SpelledOut chars ts) :=
  inferInstanceAs (Decidable (ts.IsChain _))

variable {chars : List Char}

theorem Standing.mono {lower lower' : Nat} (h : lower' ≤ lower) : ∀ {ts : List Token},
    Standing chars lower ts → Standing chars lower' ts
  | [], _ => trivial
  | _ :: _, ⟨hlower, hts⟩ => ⟨h.trans hlower, hts⟩

theorem Standing.tail {lower : Nat} {t : Token} {ts : List Token}
    (h : Standing chars lower (t :: ts)) : Standing chars lower ts :=
  h.2.2.mono (h.1.trans h.2.1.within.1.le)

theorem Standing.of_suffix {lower : Nat} {ts us : List Token} (hts : Standing chars lower ts)
    (h : us <:+ ts) : Standing chars lower us := by
  obtain ⟨front, rfl⟩ := h
  induction front with
  | nil => exact hts
  | cons t front ih => exact ih hts.tail

/-! ### What is still to be read -/

/-- What is still to be read stands behind the cursor. -/
structure Remaining (chars : List Char) (cur : Cursor) (cs : List Char) : Prop where
  rest : cs = chars.drop cur.offset
  within : cur.offset ≤ chars.length

theorem Remaining.drop {cur : Cursor} {cs : List Char} (h : Remaining chars cur cs) {n : Nat}
    (hn : n ≤ cs.length) : Remaining chars (cur.move n) (cs.drop n) := by
  have hlength := congrArg List.length h.rest
  have hwithin := h.within
  rw [List.length_drop] at hlength
  exact ⟨by rw [h.rest, List.drop_drop, Cursor.offset_move], by rw [Cursor.offset_move]; omega⟩

theorem Remaining.newline {cur : Cursor} {c : Char} {cs : List Char}
    (h : Remaining chars cur (c :: cs)) : Remaining chars cur.newline cs := by
  obtain ⟨hrest, hwithin⟩ := h.drop (n := 1) (by simp)
  exact ⟨hrest, hwithin⟩

theorem skipBlanks_place (comment : Bool) (cur : Cursor) (cs : List Char)
    (h : Remaining chars cur cs) :
    Remaining chars (skipBlanks comment cur cs).2 (skipBlanks comment cur cs).1 := by
  fun_induction skipBlanks comment cur cs with
  | case1 => exact h
  | case2 comment cur c rest _ ih => exact ih (h.drop (n := 1) (by simp))
  | case3 comment cur c rest _ _ ih => exact ih (h.drop (n := 1) (by simp))
  | case4 comment cur c rest _ _ _ ih => exact ih (h.drop (n := 1) (by simp))
  | case5 comment cur c rest _ _ _ _ ih => exact ih h.newline
  | case6 comment cur c _ _ _ _ _ rest ih => exact ih (h.newline.drop (by simp))
  | case7 comment cur c _ _ _ _ _ rest _ ih => exact ih h.newline
  | case8 => exact h

theorem readString_place (value : List Char) (cur : Cursor) (cs : List Char) {r : Reading String}
    (h : Remaining chars cur cs) (hr : readString value cur cs = .ok r) :
    Remaining chars r.cursor r.rest ∧ 1 ≤ r.rest.length := by
  fun_induction readString value cur cs with
  | case2 value cur rest =>
    obtain rfl := Except.ok.inj hr
    exact ⟨h, by simp⟩
  | case3 value cur a b c d e rest _ _ ih => exact ih (h.drop (n := 6) (by simp)) hr
  | case5 value cur c rest _ _ _ ih => exact ih (h.drop (n := 2) (by simp)) hr
  | case10 value cur c rest _ _ _ _ _ _ ih => exact ih (h.drop (n := 1) (by simp)) hr
  | _ => cases hr

theorem readBlock_place (value : List Char) (cur : Cursor) (cs : List Char)
    {r : Reading (List Char)} (h : Remaining chars cur cs)
    (hr : readBlock value cur cs = .ok r) :
    Remaining chars r.cursor r.rest ∧ 3 ≤ r.rest.length := by
  fun_induction readBlock value cur cs with
  | case2 value cur rest =>
    obtain rfl := Except.ok.inj hr
    exact ⟨h, by simp⟩
  | case3 value cur rest ih => exact ih (h.drop (n := 4) (by simp)) hr
  | case4 value cur rest ih => exact ih (h.drop (n := 1) (by simp)).newline hr
  | case5 value cur rest _ ih => exact ih h.newline hr
  | case6 value cur rest ih => exact ih h.newline hr
  | case8 value cur c rest _ _ _ _ _ _ ih => exact ih (h.drop (n := 1) (by simp)) hr
  | _ => cases hr

/-- A token stands between two cursors, and behind the second there is what is still to be read. -/
structure TokenBetween (chars : List Char) (cur : Cursor) (t : Token) (rest : List Char)
    (cur' : Cursor) : Prop where
  start : t.span.start = cur.offset
  stop : t.span.stop = cur'.offset
  stands : t.StandsIn chars
  remaining : Remaining chars cur' rest

theorem tokenBetween_plain {kind : TokenKind} {value : String} {width : Nat} {cs rest : List Char}
    {cur cur' : Cursor} {t : Token} (h : Remaining chars cur cs)
    (ht : plainToken kind value width (cs.drop width) cur = .token t rest cur')
    (hwidth : 0 < width ∧ width ≤ cs.length)
    (hname : kind = .name → value.toList <+: cs ∧ width = value.length) :
    TokenBetween chars cur t rest cur' := by
  have hrest := h.drop hwidth.2
  simp only [plainToken, Next.token.injEq] at ht
  obtain ⟨rfl, rfl, rfl⟩ := ht
  refine ⟨rfl, rfl, ⟨⟨Nat.lt_add_of_pos_right hwidth.1, hrest.within⟩, fun hk => ?_⟩, hrest⟩
  obtain ⟨hvalue, hwidth⟩ := hname hk
  rw [h.rest] at hvalue
  exact ⟨hvalue, congrArg (cur.offset + ·) hwidth⟩

theorem tokenBetween_quoted {kind : TokenKind} {quotes : Nat} {value : String}
    {cs rest : List Char} {cur inside cur' : Cursor} {t : Token}
    (h : Remaining chars inside cs)
    (ht : quotedToken kind quotes cur.offset value cs inside = .token t rest cur')
    (hquotes : quotes ≤ cs.length) (hinside : cur.offset < inside.offset) (hkind : kind ≠ .name) :
    TokenBetween chars cur t rest cur' := by
  have hrest := h.drop hquotes
  simp only [quotedToken, Next.token.injEq] at ht
  obtain ⟨rfl, rfl, rfl⟩ := ht
  exact ⟨rfl, rfl, ⟨⟨hinside.trans_le (Nat.le_add_right _ _), hrest.within⟩,
    fun hk => absurd hk hkind⟩, hrest⟩

theorem drop_length_takeWhile {α : Type} (p : α → Bool) (as : List α) :
    as.drop (as.takeWhile p).length = as.dropWhile p :=
  calc as.drop (as.takeWhile p).length
      = (as.takeWhile p ++ as.dropWhile p).drop (as.takeWhile p).length := by
        rw [List.takeWhile_append_dropWhile]
    _ = as.dropWhile p := List.drop_left

/-- **What is read at a place stands there.** -/
theorem readNext_place {cur cur' : Cursor} {cs rest : List Char} {t : Token}
    (h : Remaining chars cur cs) (ht : readNext cur cs = .token t rest cur') :
    TokenBetween chars cur t rest cur' := by
  unfold readNext at ht
  split at ht
  · cases ht
  · exact tokenBetween_plain h ht ⟨by omega, by simp⟩ nofun
  · split at ht
    · next r hr =>
      have hoffset := readBlock_offset _ _ _ hr
      obtain ⟨hplace, hquotes⟩ := readBlock_place _ _ _ (h.drop (n := 3) (by simp)) hr
      rw [Cursor.offset_move] at hoffset
      exact tokenBetween_quoted hplace ht hquotes (by omega) nofun
    · cases ht
  · split at ht
    · next r hr =>
      have hoffset := readString_offset _ _ _ hr
      obtain ⟨hplace, hquotes⟩ := readString_place _ _ _ (h.drop (n := 1) (by simp)) hr
      rw [Cursor.offset_move] at hoffset
      exact tokenBetween_quoted hplace ht hquotes (by omega) nofun
    · cases ht
  · next c rest' _ _ _ =>
    split at ht
    · next kind hk =>
      refine tokenBetween_plain h ht ⟨by omega, by simp⟩ fun hname => ?_
      subst hname
      unfold punctuation? at hk
      split at hk <;> cases hk
    · split_ifs at ht with hname hnumber
      · have hin : inName c = true := by simp [inName, hname]
        have hstarts := List.takeWhile_prefix inName (l := c :: rest')
        rw [← drop_length_takeWhile] at ht
        refine tokenBetween_plain h ht ⟨?_, hstarts.length_le⟩ fun _ => ?_
        · simp [List.takeWhile_cons_of_pos hin]
        · rw [String.toList_ofList, String.length_ofList]
          exact ⟨hstarts, rfl⟩
      · dsimp only at ht
        split at ht
        · next hfault =>
          obtain ⟨hdigits, hstarts⟩ := isNumber_of_readNumber hfault
          obtain ⟨d, ds, hne, -⟩ := hdigits.head
          refine tokenBetween_plain h ht ⟨?_, hstarts.length_le⟩ fun hname => ?_
          · rw [hne, List.length_cons]
            exact Nat.succ_pos _
          · split_ifs at hname
        · cases ht
      · cases ht

theorem readAll_place : ∀ (fuel : Nat) (cur : Cursor) (cs : List Char), Remaining chars cur cs →
    Standing chars cur.offset (readAll fuel cur cs).tokens ∧ (readAll fuel cur cs).last.IsLast
  | 0, cur, cs, _ => ⟨trivial, .inl rfl⟩
  | fuel + 1, cur, cs, h => by
    have hskip := skipBlanks_offset false cur cs
    have hplace := skipBlanks_place false cur cs h
    rw [readAll]
    generalize skipBlanks false cur cs = skipped at hskip hplace ⊢
    obtain ⟨cs', cur'⟩ := skipped
    dsimp only at hskip hplace ⊢
    split
    · next t f hlast => exact ⟨trivial, readNext_last_kind hlast⟩
    · next t rest cur'' htoken =>
      obtain ⟨hstart, hstop, hstands, hremaining⟩ := readNext_place hplace htoken
      obtain ⟨hstanding, hlast⟩ := readAll_place fuel cur'' rest hremaining
      exact ⟨⟨by omega, hstands, hstop ▸ hstanding⟩, hlast⟩

/-- **The tokens of every text stand in it,** and there is nothing behind them that can be read. -/
theorem standing_tokens (text : String) :
    Standing text.toList 0 (tokens text).tokens ∧ (tokens text).last.IsLast :=
  readAll_place _ Cursor.start _ ⟨rfl, Nat.zero_le _⟩

end QueryCheck.Source
