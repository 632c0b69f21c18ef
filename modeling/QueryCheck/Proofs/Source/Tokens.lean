import QueryCheck.Proofs.Source.Blocks
import QueryCheck.Proofs.Source.Number

/-! # The tokens of a text

The tokens of every text are sound: a name token holds a name, a number token a number, and a block
string token the value of a block string. They are also ordered: each starts behind the one before
it.

* `readNext_token`: one token that is read at a place.
* `sound_tokens`, `ordered_tokens`: the tokens of every text are sound and ordered. -/

namespace QueryCheck.Source

/-- A name of the language. -/
def IsName (s : String) : Prop :=
  ∃ c cs, s.toList = c :: cs ∧ startsName c = true ∧ ∀ d ∈ cs, inName d = true

theorem isName_of_all {s : String} {c : Char} {cs : List Char} (hs : s.toList = c :: cs)
    (hc : startsName c = true) (hcs : cs.all inName = true) : IsName s :=
  ⟨c, cs, hs, hc, List.all_eq_true.mp hcs⟩

theorem IsName.ne_empty {s : String} (h : IsName s) : s ≠ "" := by
  rintro rfl
  obtain ⟨c, cs, hs, -⟩ := h
  cases hs

/-- A name token holds a name, a number token a number and a block string token the value of a block
string. -/
def Token.Sound (t : Token) : Prop :=
  match t.kind with
  | .name => IsName t.value
  | .int => IsNumber false t.value.toList
  | .float => IsNumber true t.value.toList
  | .blockString => IsBlockValue t.value
  | _ => True

theorem Token.Sound.isName {t : Token} (h : t.Sound) (hk : t.kind = .name) : IsName t.value := by
  unfold Token.Sound at h
  rwa [hk] at h

theorem Token.Sound.isBlockValue {t : Token} (h : t.Sound) (hk : t.kind = .blockString) :
    IsBlockValue t.value := by
  unfold Token.Sound at h
  rwa [hk] at h

@[simp] theorem Cursor.offset_move (c : Cursor) (n : Nat) : (c.move n).offset = c.offset + n := rfl

@[simp] theorem Cursor.offset_newline (c : Cursor) : c.newline.offset = c.offset + 1 := rfl

theorem readString_offset (value : List Char) (cur : Cursor) (cs : List Char) {r : Reading String}
    (h : readString value cur cs = .ok r) : cur.offset ≤ r.cursor.offset := by
  fun_induction readString value cur cs
  all_goals first
    | cases h
      done
    | obtain rfl := Except.ok.inj h
      exact le_rfl
    | next ih =>
      have := ih h
      simp only [Cursor.offset_move] at this
      omega

theorem readBlock_offset (value : List Char) (cur : Cursor) (cs : List Char)
    {r : Reading (List Char)} (h : readBlock value cur cs = .ok r) :
    cur.offset ≤ r.cursor.offset := by
  fun_induction readBlock value cur cs
  all_goals first
    | cases h
      done
    | obtain rfl := Except.ok.inj h
      exact le_rfl
    | next ih =>
      have := ih h
      simp only [Cursor.offset_move, Cursor.offset_newline] at this
      omega

theorem skipBlanks_offset (comment : Bool) (cur : Cursor) (cs : List Char) :
    cur.offset ≤ (skipBlanks comment cur cs).2.offset := by
  fun_induction skipBlanks comment cur cs
  all_goals first
    | exact le_rfl
    | next ih =>
      simp only [Cursor.offset_move, Cursor.offset_newline] at ih
      omega

/-- What a token read at a place is like: it is sound, it starts there, and the text after it is
read further on. -/
structure TokenAt (cur : Cursor) (t : Token) (cur' : Cursor) : Prop where
  sound : t.Sound
  start : t.span.start = cur.offset
  offset : cur.offset < cur'.offset

theorem tokenAt_plain {kind : TokenKind} {value : String} {width : Nat} {rest rest' : List Char}
    {cur cur' : Cursor}
    {t : Token} (hv : ∀ t : Token, t.kind = kind → t.value = value → t.Sound) (hw : 0 < width)
    (h : plainToken kind value width rest cur = .token t rest' cur') : TokenAt cur t cur' := by
  simp only [plainToken, Next.token.injEq] at h
  obtain ⟨rfl, -, rfl⟩ := h
  exact ⟨hv _ rfl rfl, rfl, by simp only [Cursor.offset_move]; omega⟩

/-- The kinds of tokens whose values are looked at. -/
def valuedKinds : List TokenKind := [.name, .int, .float, .blockString]

theorem sound_of_kind {t : Token} (h : t.kind ∉ valuedKinds) : t.Sound := by
  unfold Token.Sound
  split
  case h_5 => trivial
  all_goals
    next hk =>
      rw [hk] at h
      exact absurd h (by decide)

/-- Punctuation is sound whatever it says. -/
theorem sound_of_punctuation {c : Char} {kind : TokenKind} (h : punctuation? c = some kind)
    (t : Token) (ht : t.kind = kind) : t.Sound := by
  refine sound_of_kind ?_
  rw [ht]
  unfold punctuation? at h
  split at h <;> first | (obtain rfl := Option.some.inj h; decide) | cases h

theorem isName_takeWhile {c : Char} (hc : startsName c = true) (rest : List Char) :
    IsName (String.ofList ((c :: rest).takeWhile inName)) := by
  have hin : inName c = true := by simp [inName, hc]
  refine ⟨c, rest.takeWhile inName, ?_, hc, fun d hd => List.mem_takeWhile_imp hd⟩
  rw [String.toList_ofList, List.takeWhile_cons_of_pos hin]

/-- **What is read at a place is a sound token**, or the last one. -/
theorem readNext_token {cur cur' : Cursor} {cs rest : List Char} {t : Token}
    (h : readNext cur cs = .token t rest cur') : TokenAt cur t cur' := by
  unfold readNext at h
  split at h
  · cases h
  · exact tokenAt_plain (fun t ht _ => sound_of_kind (by rw [ht]; decide)) (by omega) h
  · split at h
    · next r hr =>
      have hle := readBlock_offset _ _ _ hr
      simp only [quotedToken, Next.token.injEq] at h
      obtain ⟨rfl, -, rfl⟩ := h
      simp only [Cursor.offset_move] at hle
      exact ⟨isBlockValue_of_readBlock hr, rfl, by simp only [Cursor.offset_move]; omega⟩
    · cases h
  · split at h
    · next r hr =>
      have hle := readString_offset _ _ _ hr
      simp only [quotedToken, Next.token.injEq] at h
      obtain ⟨rfl, -, rfl⟩ := h
      simp only [Cursor.offset_move] at hle
      exact ⟨sound_of_kind (by simp [valuedKinds]), rfl,
        by simp only [Cursor.offset_move]; omega⟩
    · cases h
  · next c rest' _ _ _ =>
    split at h
    · next kind hk => exact tokenAt_plain (fun t ht _ => sound_of_punctuation hk t ht) (by omega) h
    · split_ifs at h with hn hd
      · have hname := isName_takeWhile hn rest'
        refine tokenAt_plain (fun t ht hv => ?_) ?_ h
        · unfold Token.Sound
          rw [ht, hv]
          exact hname
        · have hin : inName c = true := by simp [inName, hn]
          simp [List.takeWhile_cons_of_pos hin]
      · dsimp only at h
        split at h
        · next hfault =>
          have hnum := (isNumber_of_readNumber hfault).1
          refine tokenAt_plain (fun t ht hv => ?_) ?_ h
          · unfold Token.Sound
            rw [ht, hv, String.toList_ofList]
            cases hf : (readNumber (c :: rest')).float <;> rw [hf] at hnum <;> exact hnum
          · obtain ⟨d, ds, he, -⟩ := hnum.head
            rw [he, List.length_cons]
            exact Nat.succ_pos _
        · cases h
      · cases h

/-- The last token is the end of the text, or it is invalid. -/
theorem readNext_last_kind {cur : Cursor} {cs : List Char} {t : Token} {f : Option Fault}
    (h : readNext cur cs = .last t f) : t.kind = .endOfText ∨ t.kind = .invalid := by
  have hinvalid : ∀ start f' cur', invalidToken start f' cur' = .last t f → t.kind = .invalid := by
    intro start f' cur' h
    simp only [invalidToken, Next.last.injEq] at h
    obtain ⟨rfl, -⟩ := h
    rfl
  unfold readNext at h
  split at h
  · simp only [Next.last.injEq] at h
    obtain ⟨rfl, -⟩ := h
    exact .inl rfl
  · cases h
  · split at h
    · cases h
    · exact .inr (hinvalid _ _ _ h)
  · split at h
    · cases h
    · exact .inr (hinvalid _ _ _ h)
  · split at h
    · cases h
    · split_ifs at h
      · cases h
      · dsimp only at h
        split at h
        · cases h
        · exact .inr (hinvalid _ _ _ h)
      · exact .inr (hinvalid _ _ _ h)

theorem readNext_last {cur : Cursor} {cs : List Char} {t : Token} {f : Option Fault}
    (h : readNext cur cs = .last t f) : t.Sound := by
  rcases readNext_last_kind h with hk | hk <;>
    exact sound_of_kind (by rw [hk]; decide)

/-- Every token of a stream is sound. -/
structure Stream.Sound (s : Stream) : Prop where
  tokens : ∀ t ∈ s.tokens, t.Sound
  last : s.last.Sound

/-- Every token of a stream starts behind the one before it. -/
def Stream.Ordered (s : Stream) : Prop := s.tokens.Pairwise fun t u => t.span.start < u.span.start

theorem readAll_sound : ∀ (fuel : Nat) (cur : Cursor) (cs : List Char),
    (readAll fuel cur cs).Sound ∧ (readAll fuel cur cs).Ordered ∧
      ∀ t ∈ (readAll fuel cur cs).tokens, cur.offset ≤ t.span.start
  | 0, cur, cs =>
    ⟨⟨by simp [readAll], sound_of_kind (by simp [readAll, valuedKinds])⟩,
      .nil, by simp [readAll]⟩
  | fuel + 1, cur, cs => by
    have hskip := skipBlanks_offset false cur cs
    rw [readAll]
    generalize skipBlanks false cur cs = skipped at hskip ⊢
    obtain ⟨cs', cur'⟩ := skipped
    dsimp only at hskip ⊢
    split
    · next t f hlast => exact ⟨⟨by simp, readNext_last hlast⟩, .nil, by simp⟩
    · next t rest cur'' htok =>
      have ht := readNext_token htok
      obtain ⟨hsound, hord, hstart⟩ := readAll_sound fuel cur'' rest
      have hlt := ht.start
      have hoff := ht.offset
      refine ⟨⟨?_, hsound.last⟩, ?_, ?_⟩
      · simp only [List.mem_cons, forall_eq_or_imp]
        exact ⟨ht.sound, hsound.tokens⟩
      · refine List.pairwise_cons.mpr ⟨fun u hu => ?_, hord⟩
        have := hstart u hu
        omega
      · simp only [List.mem_cons, forall_eq_or_imp]
        refine ⟨by omega, fun u hu => ?_⟩
        have := hstart u hu
        omega

/-- **The tokens of every text are sound.** -/
theorem sound_tokens (text : String) : (tokens text).Sound := (readAll_sound _ _ _).1

/-- **The tokens of every text are ordered.** -/
theorem ordered_tokens (text : String) : (tokens text).Ordered := (readAll_sound _ _ _).2.1

end QueryCheck.Source
