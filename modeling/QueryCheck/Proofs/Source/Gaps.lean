import QueryCheck.Proofs.Source.Places

/-! # Between tokens

Between two tokens of a text there are only blanks, commas and comments. So wherever a name seems to
begin between two tokens, it does so inside a comment.

* `InComment`: a stretch of a text that lies in a comment.
* `Gap`: a stretch in which names begin only inside comments.
* `gap_skipBlanks`: what is skipped in front of a token is such a stretch.
* `Spaced`, `spaced_tokens`: so is all that stands between the tokens of a text, and a colon is no
  part of a name either. -/

namespace QueryCheck.Source

/-! ### Stretches inside comments -/

/-- The stretch between `start` and `stop` lies in a comment that begins at `lower` or further
on. -/
def InComment (chars : List Char) (lower start stop : Nat) : Prop :=
  ∃ k, lower ≤ k ∧ k ≤ start ∧ chars[k]? = some '#' ∧
    ∀ j, k < j → j < stop → ∃ c, chars[j]? = some c ∧ inComment c = true

/-- Between two offsets names begin only inside comments that begin there as well. -/
def Gap (chars : List Char) (lower upper : Nat) : Prop :=
  ∀ i c, lower ≤ i → i < upper → chars[i]? = some c → inName c = true →
    InComment chars lower i (i + 1)

variable {chars : List Char} {lower upper start stop : Nat}

namespace InComment

theorem mono (h : InComment chars lower start stop) {lower' start' : Nat} (hlower : lower' ≤ lower)
    (hstart : start ≤ start') : InComment chars lower' start' stop := by
  obtain ⟨k, hk, hle, hhash, hrest⟩ := h
  exact ⟨k, hlower.trans hk, hle.trans hstart, hhash, hrest⟩

/-- A comment goes on with the characters that may stand in it. -/
theorem extend (h : InComment chars lower start stop) {stop' : Nat}
    (hchars : ∀ j, stop ≤ j → j < stop' → ∃ c, chars[j]? = some c ∧ inComment c = true) :
    InComment chars lower start stop' := by
  obtain ⟨k, hk, hle, hhash, hrest⟩ := h
  refine ⟨k, hk, hle, hhash, fun j hj hstop => ?_⟩
  by_cases hbefore : j < stop
  · exact hrest j hj hbefore
  · exact hchars j (by omega) hstop

theorem hash_mem (h : InComment chars lower start stop) : '#' ∈ chars := by
  obtain ⟨k, -, -, hhash, -⟩ := h
  exact List.mem_of_getElem? hhash

end InComment

/-- What may stand in a name may stand in a comment: no control character does. -/
theorem inComment_of_inName {c : Char} (h : inName c = true) : inComment c = true := by
  have hcontrol : ∀ n < 32, inName (Char.ofNat n) = false := by decide
  have hcode : 31 < c.toNat := by
    by_contra hle
    have hnot := hcontrol c.toNat (by omega)
    rw [Char.ofNat_toNat, h] at hnot
    cases hnot
  simp [inComment, hcode]

/-! ### Stretches between tokens -/

namespace Gap

theorem empty (lower : Nat) : Gap chars lower lower := fun _ _ hlower hupper => by omega

theorem trans {mid : Nat} (h : Gap chars lower mid) (h' : Gap chars mid upper)
    (hle : lower ≤ mid) : Gap chars lower upper := by
  intro i c hlower hupper hc hname
  by_cases hmid : i < mid
  · exact h i c hlower hmid hc hname
  · exact (h' i c (by omega) hupper hc hname).mono hle le_rfl

/-- A stretch with one more character. -/
theorem snoc (h : Gap chars lower upper) {c : Char} (hc : chars[upper]? = some c)
    (hname : inName c = true → InComment chars lower upper (upper + 1)) :
    Gap chars lower (upper + 1) := by
  intro i d hlower hupper hd hin
  by_cases hlast : i < upper
  · exact h i d hlower hlast hd hin
  · obtain rfl : i = upper := by omega
    obtain rfl := Option.some.inj (hc.symm.trans hd)
    exact hname hin

/-- A stretch with one more character, which stands in no name. -/
theorem blank (h : Gap chars lower upper) {c : Char} (hc : chars[upper]? = some c)
    (hname : inName c = false) : Gap chars lower (upper + 1) :=
  h.snoc hc fun hin => by rw [hname] at hin; cases hin

end Gap

theorem Remaining.head {cur : Cursor} {c : Char} {cs : List Char}
    (h : Remaining chars cur (c :: cs)) : chars[cur.offset]? = some c := by
  have hhead : (chars.drop cur.offset)[0]? = some c := by
    rw [← h.rest]
    rfl
  rwa [List.getElem?_drop, Nat.add_zero] at hhead

/-- **What is skipped is a gap.** Inside a comment the comment reaches up to the cursor. -/
theorem gap_skipBlanks (comment : Bool) (cur : Cursor) (cs : List Char)
    (h : Remaining chars cur cs) (hlower : lower ≤ cur.offset)
    (hcomment : comment = true → InComment chars lower cur.offset cur.offset)
    (hgap : Gap chars lower cur.offset) :
    Gap chars lower (skipBlanks comment cur cs).2.offset := by
  fun_induction skipBlanks comment cur cs with
  | case1 => exact hgap
  | case2 comment cur c rest hc ih =>
    obtain ⟨hin, hchar⟩ := Bool.and_eq_true_iff.mp hc
    have hreach : InComment chars lower cur.offset (cur.offset + 1) := by
      refine (hcomment hin).extend fun j hj hj' => ⟨c, ?_, hchar⟩
      obtain rfl : j = cur.offset := by omega
      exact h.head
    exact ih (h.drop (n := 1) (by simp)) (by simp; omega)
      (fun _ => hreach.mono le_rfl (Nat.le_succ _)) (hgap.snoc h.head fun _ => hreach)
  | case3 comment cur c rest _ hc ih =>
    obtain rfl : c = '#' := eq_of_beq hc
    have hbegins : InComment chars lower (cur.offset + 1) (cur.offset + 1) :=
      ⟨cur.offset, hlower, Nat.le_succ _, h.head, fun j hj hj' => by omega⟩
    exact ih (h.drop (n := 1) (by simp)) (by simp; omega) (fun _ => hbegins)
      (hgap.blank h.head (by decide))
  | case4 comment cur c rest _ _ hc ih =>
    have hname : inName c = false := by
      simp only [Bool.or_eq_true, beq_iff_eq] at hc
      rcases hc with ((rfl | rfl) | rfl) | rfl <;> decide
    exact ih (h.drop (n := 1) (by simp)) (by simp; omega) nofun (hgap.blank h.head hname)
  | case5 comment cur c rest _ _ _ hc ih =>
    obtain rfl : c = '\n' := eq_of_beq hc
    exact ih h.newline (by simp; omega) nofun (hgap.blank h.head (by decide))
  | case6 comment cur c _ _ _ _ hc rest ih =>
    obtain rfl : c = '\r' := eq_of_beq hc
    have hfeed := h.newline
    exact ih (hfeed.drop (by simp)) (by simp; omega) nofun
      ((hgap.blank h.head (by decide)).blank hfeed.head (by decide))
  | case7 comment cur c _ _ _ _ hc rest _ ih =>
    obtain rfl : c = '\r' := eq_of_beq hc
    exact ih h.newline (by simp; omega) nofun (hgap.blank h.head (by decide))
  | case8 => exact hgap

/-! ### The tokens of a text -/

/-- A colon stands at its place. -/
def Token.ColonStands (chars : List Char) (t : Token) : Prop :=
  t.kind = .colon → chars[t.span.start]? = some ':' ∧ t.span.stop = t.span.start + 1

/-- Tokens one behind the other with gaps between them. -/
structure Spaced (chars : List Char) (ts : List Token) : Prop where
  gaps : ts.IsChain fun t u => Gap chars t.span.stop u.span.start
  colons : ∀ t ∈ ts, t.ColonStands chars

theorem Spaced.of_suffix {ts us : List Token} (h : Spaced chars ts) (hus : us <:+ ts) :
    Spaced chars us :=
  ⟨h.gaps.suffix hus, fun t ht => h.colons t (hus.subset ht)⟩

theorem eq_colon_of_punctuation? {c : Char} (h : punctuation? c = some .colon) : c = ':' := by
  unfold punctuation? at h
  split at h <;> first | rfl | cases h

theorem readNext_colonStands {cur cur' : Cursor} {cs rest : List Char} {t : Token}
    (h : Remaining chars cur cs) (ht : readNext cur cs = .token t rest cur') :
    t.ColonStands chars := by
  intro hkind
  unfold readNext at ht
  split at ht
  · cases ht
  · obtain ⟨rfl, -, -⟩ := Next.token.inj ht
    cases hkind
  · split at ht
    · obtain ⟨rfl, -, -⟩ := Next.token.inj ht
      cases hkind
    · cases ht
  · split at ht
    · obtain ⟨rfl, -, -⟩ := Next.token.inj ht
      cases hkind
    · cases ht
  · split at ht
    · next kind hk =>
      obtain ⟨rfl, -, -⟩ := Next.token.inj ht
      obtain rfl : kind = .colon := hkind
      obtain rfl := eq_colon_of_punctuation? hk
      exact ⟨h.head, rfl⟩
    · split_ifs at ht
      · obtain ⟨rfl, -, -⟩ := Next.token.inj ht
        cases hkind
      · dsimp only at ht
        split at ht
        · obtain ⟨rfl, -, -⟩ := Next.token.inj ht
          split_ifs at hkind
        · cases ht
      · cases ht

theorem spaced_readAll (fuel : Nat) : ∀ (cur : Cursor) (cs : List Char), Remaining chars cur cs →
    Spaced chars (readAll fuel cur cs).tokens ∧
      ∀ t ∈ (readAll fuel cur cs).tokens.head?, Gap chars cur.offset t.span.start := by
  induction fuel with
  | zero => exact fun _ _ _ => ⟨⟨.nil, by simp [readAll]⟩, by simp [readAll]⟩
  | succ fuel ih =>
    intro cur cs h
    have hplace := skipBlanks_place false cur cs h
    have hgap := gap_skipBlanks false cur cs h le_rfl (by simp) (Gap.empty cur.offset)
    rw [readAll]
    generalize skipBlanks false cur cs = skipped at hplace hgap ⊢
    obtain ⟨cs', cur'⟩ := skipped
    dsimp only at hplace hgap ⊢
    split
    · exact ⟨⟨.nil, by simp⟩, by simp⟩
    · next t rest cur'' htoken =>
      obtain ⟨hstart, hstop, -, hremaining⟩ := readNext_place hplace htoken
      obtain ⟨⟨hgaps, hcolons⟩, hfirst⟩ := ih cur'' rest hremaining
      refine ⟨⟨List.isChain_cons.mpr ⟨fun u hu => hstop ▸ hfirst u hu, hgaps⟩, ?_⟩, ?_⟩
      · exact List.forall_mem_cons.mpr ⟨readNext_colonStands hplace htoken, hcolons⟩
      · intro u hu
        obtain rfl := Option.some.inj hu
        rw [hstart]
        exact hgap

/-- **Between the tokens of every text there are gaps.** -/
theorem spaced_tokens (text : String) : Spaced text.toList (tokens text).tokens :=
  (spaced_readAll _ Cursor.start _ ⟨rfl, Nat.zero_le _⟩).1

end QueryCheck.Source
