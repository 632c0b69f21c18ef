import QueryCheck.Proofs.Source.Gaps
import QueryCheck.Proofs.Source.Lexemes
import QueryCheck.Proofs.Syntax.Located

/-! # Names that are looked for

A name is read from a token, but it is located by looking for its text from some offset on. It is
located at its token exactly when its text stands nowhere between that offset and the token. Where
only blanks and comments stand between, the one place to miss the token for is inside a comment.

* `Excerpt.Clear`: a text stands nowhere between two offsets.
* `Excerpt.find_eq_some_iff`: what is found is the first place where a text stands.
* `Excerpt.Sought`, `sought_name`: a name that is looked for from an offset on.
* `Excerpt.SoughtAcross`, `soughtAcross_name`: a name that is looked for across blanks and comments.
* `SoughtAcross.eq_nameAt`: in a text without comments it is located at its token. -/

namespace QueryCheck.Syntax.Excerpt

open QueryCheck.Source

variable (e : Excerpt)

/-- A text stands nowhere between two offsets. -/
def Clear (text : String) (start stop : Nat) : Prop :=
  ∀ i, start ≤ i → i < stop → ¬ StandsAt e.chars text i

/-- A name that is located at its token. -/
def nameAt (t : Token) : Node := .name t.value (e.ofSpan t.span)

/-- A name that is read from a token and looked for from an offset on. It is located at the token
exactly when its text stands nowhere between. -/
structure Sought (t : Token) (start : Nat) (n : Node) : Prop where
  isName : t.kind = .name
  first : n = e.name t.value start
  atToken : n = e.nameAt t ↔ start ≤ t.span.start ∧ e.Clear t.value start t.span.start

/-- A name that is looked for across blanks and comments up to its token. It is located there or
inside a comment in front. -/
structure SoughtAcross (t : Token) (start : Nat) (n : Node) : Prop extends e.Sought t start n where
  placed : start ≤ t.span.start
  found : n = e.nameAt t ∨ ∃ i, n.loc = some (e.location i (i + t.value.length)) ∧
    i < t.span.start ∧ InComment e.chars start i (i + t.value.length)

variable {e} {t : Token} {start : Nat} {text : String}

/-! ### The first place -/

/-- **What is found** is the first place where a text stands. -/
theorem find_eq_some_iff (htext : text ≠ "") {i : Nat} :
    e.find text start = some i ↔ start ≤ i ∧ StandsAt e.chars text i ∧ e.Clear text start i := by
  constructor
  · intro h
    obtain ⟨-, hle, hstands⟩ := standsAt_of_find h
    refine ⟨hle, hstands, fun j hj hji hearlier => ?_⟩
    obtain ⟨k, hk, -, hkj⟩ := e.exists_find htext hj hearlier
    obtain rfl := Option.some.inj (h.symm.trans hk)
    omega
  · rintro ⟨hle, hstands, hclear⟩
    obtain ⟨j, hj, hstart, hji⟩ := e.exists_find htext hle hstands
    obtain ⟨-, -, hearlier⟩ := standsAt_of_find hj
    have hsame : j = i := by
      by_contra hne
      exact hclear j hstart (by omega) hearlier
    exact hsame ▸ hj

theorem name_of_find {i : Nat} (h : e.find text start = some i) :
    e.name text start = .name text (some (e.location i (i + text.length))) := by
  rw [name, locate, h]
  rfl

/-- A name is located at its token exactly when its text is found there. -/
theorem name_eq_nameAt_iff (ht : t.StandsIn e.chars) (hk : t.kind = .name) :
    e.name t.value start = e.nameAt t ↔ e.find t.value start = some t.span.start := by
  obtain ⟨-, hstop⟩ := ht.name hk
  have hat : e.nameAt t =
      .name t.value (some (e.location t.span.start (t.span.start + t.value.length))) := by
    rw [nameAt, ofSpan, hstop]
  constructor
  · intro h
    have hloc : e.locate t.value start =
        some (e.location t.span.start (t.span.start + t.value.length)) :=
      congrArg Node.loc (h.trans hat)
    obtain ⟨i, hi, hlocation⟩ := Option.map_eq_some_iff.mp hloc
    have hstart : (i : Int) = (t.span.start : Int) := congrArg Location.start hlocation
    rw [hi, Int.ofNat.inj hstart]
  · intro h
    rw [name_of_find h, hat]

/-! ### Names read from tokens -/

theorem sought_name (ht : t.StandsIn e.chars) (hk : t.kind = .name) (hvalue : t.value ≠ "")
    (start : Nat) : e.Sought t start (e.name t.value start) := by
  refine ⟨hk, rfl, ?_⟩
  rw [name_eq_nameAt_iff ht hk, find_eq_some_iff hvalue]
  exact and_congr_right fun _ => and_iff_right (ht.name hk).1

/-- A name that is looked for from its token on is located there. -/
theorem name_eq_nameAt (ht : t.StandsIn e.chars) (hk : t.kind = .name) (hvalue : t.value ≠ "") :
    e.name t.value t.span.start = e.nameAt t :=
  (sought_name ht hk hvalue _).atToken.mpr ⟨le_rfl, fun i hi hlt => by omega⟩

/-- Where a text stands its characters do. -/
theorem mem_of_standsAt {chars : List Char} {i j : Nat} (h : StandsAt chars text i) (hi : i ≤ j)
    (hj : j < i + text.length) : ∃ c ∈ text.toList, chars[j]? = some c := by
  have hlength : j - i < text.toList.length := by
    rw [String.length_toList]
    omega
  obtain ⟨rest, hrest⟩ := h
  have hsame : (chars.drop i)[j - i]? = some text.toList[j - i] := by
    rw [← hrest, List.getElem?_append_left hlength, List.getElem?_eq_getElem hlength]
  rw [List.getElem?_drop, Nat.add_sub_cancel' hi] at hsame
  exact ⟨_, List.getElem_mem hlength, hsame⟩

/-- **A name that is looked for across blanks and comments** is located at its token or inside a
comment. -/
theorem soughtAcross_name (ht : t.StandsIn e.chars) (hk : t.kind = .name) (hname : IsName t.value)
    (hstart : start ≤ t.span.start) (hgap : Gap e.chars start t.span.start) :
    e.SoughtAcross t start (e.name t.value start) := by
  have hvalue := hname.ne_empty
  have hplace := (ht.name hk).1
  refine ⟨sought_name ht hk hvalue start, hstart, ?_⟩
  obtain ⟨i, hi, hle, hbefore⟩ := e.exists_find hvalue hstart hplace
  rcases Nat.lt_or_eq_of_le hbefore with hearlier | rfl
  · right
    obtain ⟨-, -, hstands⟩ := standsAt_of_find hi
    have hchars : ∀ j, i ≤ j → j < i + t.value.length →
        ∃ c, e.chars[j]? = some c ∧ inName c = true := by
      intro j hj hstop
      obtain ⟨c, hc, hget⟩ := mem_of_standsAt hstands hj hstop
      exact ⟨c, hget, isName_toList hname c hc⟩
    have hroom := length_of_standsAt hvalue hstands
    obtain ⟨c, hc, hin⟩ := hchars i le_rfl hroom.1
    -- the comment that holds the first character of the name goes on to its last
    have hcomment : InComment e.chars start i (i + t.value.length) :=
      (hgap i c hle hearlier hc hin).extend fun j hj hstop => by
        obtain ⟨d, hd, hdin⟩ := hchars j (by omega) hstop
        exact ⟨d, hd, inComment_of_inName hdin⟩
    exact ⟨i, congrArg Node.loc (name_of_find hi), hearlier, hcomment⟩
  · exact .inl ((name_eq_nameAt_iff ht hk).mpr hi)

/-- In a text without comments such a name is located at its token. -/
theorem SoughtAcross.eq_nameAt {n : Node} (h : e.SoughtAcross t start n) (hash : '#' ∉ e.chars) :
    n = e.nameAt t := by
  rcases h.found with hat | ⟨i, -, -, hcomment⟩
  · exact hat
  · exact absurd hcomment.hash_mem hash

end QueryCheck.Syntax.Excerpt
