import Mathlib.Data.List.TakeWhile
import Mathlib.Tactic.Common
import QueryCheck.Source.Lexer

/-! # Numbers in a text

The literals of numbers: a sign, a whole part without needless zeros, digits after a point, and an
exponent, of which only the whole part has to be there. The reader of numbers accepts exactly these,
and it stops behind one as soon as the text goes on with a character that is neither a point nor
part of a name.

* `IsNumber`: a text is the literal of a number.
* `isNumber_of_readNumber`: what is read as a number is one.
* `readNumber_append`: a number in front of other text is read as it stands. -/

namespace QueryCheck.Source

/-! ### Literals -/

/-- A stretch of at least one digit. -/
def AreDigits (ds : List Char) : Prop := ds ≠ [] ∧ ∀ d ∈ ds, d.isDigit = true

/-- A whole part: a zero alone, or digits that do not start with one. -/
def IsWhole (w : List Char) : Prop := w = ['0'] ∨ AreDigits w ∧ w.head? ≠ some '0'

/-- A point with digits after it, or nothing. -/
def IsFraction (f : List Char) : Prop := f = [] ∨ ∃ ds, f = '.' :: ds ∧ AreDigits ds

/-- An exponent, or nothing. -/
def IsExponent (x : List Char) : Prop :=
  x = [] ∨ ∃ e sign ds, x = e :: (sign ++ ds) ∧ (e = 'e' ∨ e = 'E') ∧
    (sign = [] ∨ sign = ['-'] ∨ sign = ['+']) ∧ AreDigits ds

/-- The literal of a number. A number with a fraction or an exponent is a float. -/
def IsNumber (float : Bool) (cs : List Char) : Prop :=
  ∃ sign whole fraction exponent, cs = sign ++ (whole ++ (fraction ++ exponent)) ∧
    (sign = [] ∨ sign = ['-']) ∧ IsWhole whole ∧ IsFraction fraction ∧ IsExponent exponent ∧
    float = (!fraction.isEmpty || !exponent.isEmpty)

/-! ### What is read as a number is one -/

section Sound

variable {before cs ds rest : List Char} {float float' : Bool} {n : Number}

theorem readDigits_ok (h : readDigits before float cs = .ok (ds, rest)) :
    ∃ w, AreDigits w ∧ ds = before ++ w ∧ cs = w ++ rest := by
  unfold readDigits at h
  split at h
  · cases h
  · next hne =>
    simp only [Except.ok.injEq, Prod.mk.injEq] at h
    obtain ⟨rfl, rfl⟩ := h
    exact ⟨cs.takeWhile Char.isDigit, ⟨hne, fun d hd => List.mem_takeWhile_imp hd⟩, rfl,
      List.takeWhile_append_dropWhile.symm⟩

theorem readDigits_error (h : readDigits before float cs = .error n) : n.fault.isSome := by
  unfold readDigits at h
  split at h
  · obtain rfl := Except.error.inj h
    rfl
  · cases h

theorem readWhole_ok (h : readWhole before cs = .ok (ds, rest)) :
    ∃ w, IsWhole w ∧ ds = before ++ w ∧ cs = w ++ rest := by
  unfold readWhole at h
  split at h
  · next rest' =>
    have hz : ds = before ++ ['0'] ∧ rest = rest' := by
      split at h
      · split_ifs at h
        simpa [eq_comm] using h
      · simpa [eq_comm] using h
    obtain ⟨rfl, rfl⟩ := hz
    exact ⟨['0'], .inl rfl, rfl, rfl⟩
  · next hne =>
    obtain ⟨w, hw, rfl, rfl⟩ := readDigits_ok h
    refine ⟨w, .inr ⟨hw, fun hz => ?_⟩, rfl, rfl⟩
    obtain ⟨w', rfl⟩ := List.head?_eq_some_iff.mp hz
    exact hne _ rfl

theorem readWhole_error (h : readWhole before cs = .error n) : n.fault.isSome := by
  unfold readWhole at h
  split at h
  · split at h
    · split_ifs at h
      obtain rfl := Except.error.inj h
      rfl
    · cases h
  · exact readDigits_error h

theorem readFraction_ok (h : readFraction before cs = .ok (ds, float, rest)) :
    ∃ f, IsFraction f ∧ ds = before ++ f ∧ cs = f ++ rest ∧ float = !f.isEmpty := by
  unfold readFraction at h
  split at h
  · next rest' =>
    cases hd : readDigits (before ++ ['.']) true rest' with
    | error n => simp [hd, bind, Except.bind] at h
    | ok r =>
      obtain ⟨ds', rest''⟩ := r
      obtain ⟨w, hw, hds, rfl⟩ := readDigits_ok hd
      simp only [hd, bind, Except.bind, pure, Except.pure, Except.ok.injEq, Prod.mk.injEq] at h
      obtain ⟨rfl, rfl, rfl⟩ := h
      exact ⟨'.' :: w, .inr ⟨w, rfl, hw⟩, by rw [hds, List.append_assoc]; rfl, rfl, rfl⟩
  · simp only [Except.ok.injEq, Prod.mk.injEq] at h
    obtain ⟨rfl, rfl, rfl⟩ := h
    exact ⟨[], .inl rfl, (List.append_nil _).symm, rfl, rfl⟩

theorem readFraction_error (h : readFraction before cs = .error n) : n.fault.isSome := by
  unfold readFraction at h
  split at h
  · next rest' =>
    cases hd : readDigits (before ++ ['.']) true rest' with
    | error m =>
      simp only [hd, bind, Except.bind, Except.error.injEq] at h
      obtain rfl := h
      exact readDigits_error hd
    | ok r => simp [hd, bind, Except.bind, pure, Except.pure] at h
  · cases h

/-- An exponent from its letter, its sign and the digits that were read. -/
theorem readExponent_digits {e : Char} (he : e = 'e' ∨ e = 'E') {sign : List Char}
    (hs : sign = [] ∨ sign = ['-'] ∨ sign = ['+'])
    (h : (do
      let (ds, _) ← readDigits (before ++ e :: sign) true cs
      return (ds, true) : Except Number (List Char × Bool)) = .ok (ds, float')) :
    ∃ x rest, IsExponent x ∧ ds = before ++ x ∧ e :: (sign ++ cs) = x ++ rest ∧ float' = true ∧
      x.isEmpty = false := by
  cases hd : readDigits (before ++ e :: sign) true cs with
  | error n => simp [hd, bind, Except.bind] at h
  | ok r =>
    obtain ⟨ds', rest⟩ := r
    obtain ⟨w, hw, hds, rfl⟩ := readDigits_ok hd
    simp only [hd, bind, Except.bind, pure, Except.pure, Except.ok.injEq, Prod.mk.injEq] at h
    obtain ⟨rfl, rfl⟩ := h
    exact ⟨e :: (sign ++ w), rest,
      .inr ⟨e, sign, w, rfl, he, hs, hw⟩, by simp [hds], by simp, rfl, rfl⟩

theorem readExponent_ok (h : readExponent before float cs = .ok (ds, float')) :
    ∃ x rest, IsExponent x ∧ ds = before ++ x ∧ cs = x ++ rest ∧
      float' = (float || !x.isEmpty) := by
  have hnone : ∀ cs' : List Char, (ds, float') = (before, float) →
      ∃ x rest, IsExponent x ∧ ds = before ++ x ∧ cs' = x ++ rest ∧
        float' = (float || !x.isEmpty) := by
    rintro cs' h
    obtain ⟨rfl, rfl⟩ := Prod.mk.inj h
    exact ⟨[], cs', .inl rfl, by simp, rfl, by simp⟩
  unfold readExponent at h
  split at h
  · next e rest =>
    split_ifs at h with he
    · have he' : e = 'e' ∨ e = 'E' := by simpa using he
      split at h
      · next s rest' =>
        split_ifs at h with hs
        · have hs' : [s] = [] ∨ [s] = ['-'] ∨ [s] = ['+'] := by simpa using hs
          obtain ⟨x, r, hx, hds, hcs, hf, hne⟩ := readExponent_digits he' hs' h
          exact ⟨x, r, hx, hds, hcs, by simp [hf, hne]⟩
        · obtain ⟨x, r, hx, hds, hcs, hf, hne⟩ := readExponent_digits he' (.inl rfl) h
          exact ⟨x, r, hx, hds, hcs, by simp [hf, hne]⟩
      · cases h
    · exact hnone _ (Except.ok.inj h).symm
  · exact hnone _ (Except.ok.inj h).symm

theorem readExponent_error (h : readExponent before float cs = .error n) : n.fault.isSome := by
  have hdigits : ∀ before' cs', (do
      let (ds, _) ← readDigits before' true cs'
      return (ds, true) : Except Number (List Char × Bool)) = .error n → n.fault.isSome := by
    intro before' cs' h
    cases hd : readDigits before' true cs' with
    | error m =>
      simp only [hd, bind, Except.bind, Except.error.injEq] at h
      obtain rfl := h
      exact readDigits_error hd
    | ok r => simp [hd, bind, Except.bind, pure, Except.pure] at h
  unfold readExponent at h
  split at h
  · split_ifs at h
    · split at h
      · split_ifs at h
        · exact hdigits _ _ h
        · exact hdigits _ _ h
      · obtain rfl := Except.error.inj h
        rfl
  · cases h

/-- Reads a number after its sign. -/
def readParts (sign cs : List Char) : Except Number Number := do
  let (ds, cs) ← readWhole sign cs
  let (ds, float, cs) ← readFraction ds cs
  let (ds, float) ← readExponent ds float cs
  return ⟨ds, float, none⟩

/-- The number that was read, or as much of it as there is. -/
def reached : Except Number Number → Number
  | .ok n => n
  | .error n => n

theorem readNumber_minus (cs : List Char) :
    readNumber ('-' :: cs) = reached (readParts ['-'] cs) := by
  unfold readNumber reached
  rfl

theorem readNumber_plain (h : cs.head? ≠ some '-') : readNumber cs = reached (readParts [] cs) := by
  unfold readNumber reached
  split
  next sign rest heq =>
  obtain ⟨rfl, rfl⟩ : sign = [] ∧ rest = cs := by
    split at heq
    · simp at h
    · simpa [eq_comm] using heq
  rfl

theorem isNumber_of_readParts {sign : List Char} (hs : sign = [] ∨ sign = ['-'])
    (h : (reached (readParts sign cs)).fault = none) :
    IsNumber (reached (readParts sign cs)).float (reached (readParts sign cs)).digits ∧
      (reached (readParts sign cs)).digits <+: sign ++ cs := by
  unfold readParts at h ⊢
  cases hw : readWhole sign cs with
  | error n =>
    simp [hw, bind, Except.bind, reached, Option.isSome_iff_ne_none.mp (readWhole_error hw)] at h
  | ok r =>
    obtain ⟨ds₁, cs₁⟩ := r
    cases hf : readFraction ds₁ cs₁ with
    | error n =>
      simp [hw, hf, bind, Except.bind, reached, Option.isSome_iff_ne_none.mp
        (readFraction_error hf)] at h
    | ok r =>
      obtain ⟨ds₂, float, cs₂⟩ := r
      cases hx : readExponent ds₂ float cs₂ with
      | error n =>
        simp [hw, hf, hx, bind, Except.bind, reached,
          Option.isSome_iff_ne_none.mp (readExponent_error hx)] at h
      | ok r =>
        obtain ⟨ds₃, float'⟩ := r
        obtain ⟨w, hw', rfl, rfl⟩ := readWhole_ok hw
        obtain ⟨f, hf', rfl, rfl, rfl⟩ := readFraction_ok hf
        obtain ⟨x, rest, hx', rfl, rfl, rfl⟩ := readExponent_ok hx
        simp only [hf, hx, bind, Except.bind, pure, Except.pure, reached]
        exact ⟨⟨sign, w, f, x, by simp, hs, hw', hf', hx', rfl⟩, rest, by simp⟩

/-- **What is read as a number is one,** and the text starts with it. -/
theorem isNumber_of_readNumber (h : (readNumber cs).fault = none) :
    IsNumber (readNumber cs).float (readNumber cs).digits ∧ (readNumber cs).digits <+: cs := by
  by_cases hm : cs.head? = some '-'
  · obtain ⟨rest, rfl⟩ := List.head?_eq_some_iff.mp hm
    rw [readNumber_minus] at h ⊢
    exact isNumber_of_readParts (.inr rfl) h
  · rw [readNumber_plain hm] at h ⊢
    exact isNumber_of_readParts (.inl rfl) h

end Sound

/-- A number starts with a digit or a minus sign. -/
theorem IsNumber.head {float : Bool} {cs : List Char} (h : IsNumber float cs) :
    ∃ c cs', cs = c :: cs' ∧ (c.isDigit || c == '-') = true := by
  obtain ⟨sign, whole, fraction, exponent, rfl, rfl | rfl, hw, -⟩ := h
  · rcases hw with rfl | ⟨⟨hne, hd⟩, -⟩
    · exact ⟨'0', _, rfl, rfl⟩
    · obtain ⟨d, ds, rfl⟩ := List.exists_cons_of_ne_nil hne
      exact ⟨d, _, rfl, by simp [hd d (by simp)]⟩
  · exact ⟨'-', _, rfl, rfl⟩

/-! ### Numbers in front of other text -/

/-- A text that does not go on with a digit. -/
def NoDigit (rest : List Char) : Prop := ∀ c ∈ rest.head?, c.isDigit = false

/-- A text that goes on neither with a point, nor with a quote, nor with a character of a name:
names, numbers and strings in front of it end there. -/
def Ends (rest : List Char) : Prop := ∀ c ∈ rest.head?, inName c = false ∧ c ≠ '.' ∧ c ≠ '"'

theorem ends_nil : Ends [] := fun _ h => by cases h

theorem ends_cons {c : Char} {rest : List Char} (h : inName c = false ∧ c ≠ '.' ∧ c ≠ '"') :
    Ends (c :: rest) := by
  intro d hd
  obtain rfl := Option.some.inj hd
  exact h

theorem Ends.noDigit {rest : List Char} (h : Ends rest) : NoDigit rest := fun c hc => by
  have hn := (h c hc).1
  simp only [inName, Bool.or_eq_false_iff] at hn
  exact hn.2

theorem Ends.head?_ne {rest : List Char} (h : Ends rest) {c : Char} (hc : inName c = true) :
    rest.head? ≠ some c := fun he => by
  have hn := (h c (Option.mem_def.mpr he)).1
  rw [hc] at hn
  cases hn

section Complete

variable {rest : List Char}

theorem takeWhile_digits {ds : List Char} (hd : ∀ d ∈ ds, d.isDigit = true) (hr : NoDigit rest) :
    (ds ++ rest).takeWhile Char.isDigit = ds ∧ (ds ++ rest).dropWhile Char.isDigit = rest := by
  rw [List.takeWhile_append_of_pos hd, List.dropWhile_append_of_pos hd]
  cases rest with
  | nil => simp
  | cons c rest => simp [hr c rfl]

theorem readDigits_append {ds : List Char} (hd : AreDigits ds) (hr : NoDigit rest)
    (before : List Char)
    (float : Bool) : readDigits before float (ds ++ rest) = .ok (before ++ ds, rest) := by
  obtain ⟨h₁, h₂⟩ := takeWhile_digits hd.2 hr
  unfold readDigits
  rw [h₁, h₂]
  split
  · exact absurd rfl hd.1
  · rfl

theorem readWhole_append {w : List Char} (hw : IsWhole w) (hr : NoDigit rest) (before : List Char) :
    readWhole before (w ++ rest) = .ok (before ++ w, rest) := by
  rcases hw with rfl | ⟨hd, hz⟩
  · cases rest with
    | nil => rfl
    | cons c rest => simp [readWhole, hr c rfl]
  · obtain ⟨d, ds, rfl⟩ := List.exists_cons_of_ne_nil hd.1
    have hne : d ≠ '0' := by simpa using hz
    have h := readDigits_append hd hr before false
    unfold readWhole
    split
    · next heq =>
      injection heq with h0 _
      exact absurd h0 hne
    · exact h

theorem readFraction_append {f : List Char} (hf : IsFraction f) (hr : NoDigit rest)
    (hp : rest.head? ≠ some '.') (before : List Char) :
    readFraction before (f ++ rest) = .ok (before ++ f, !f.isEmpty, rest) := by
  rcases hf with rfl | ⟨ds, rfl, hd⟩
  · rw [List.append_nil, List.nil_append]
    unfold readFraction
    split
    · simp at hp
    · rfl
  · simp [readFraction, readDigits_append hd hr, bind, Except.bind, pure, Except.pure]

theorem readExponent_append {x : List Char} (hx : IsExponent x) (hr : Ends rest)
    (before : List Char) (float : Bool) :
    readExponent before float (x ++ rest) = .ok (before ++ x, float || !x.isEmpty) := by
  rcases hx with rfl | ⟨e, sign, ds, rfl, he, hs, hd⟩
  · rw [List.append_nil, List.nil_append]
    cases rest with
    | nil => simp [readExponent]
    | cons c rest =>
      have hc : ¬(c = 'e' ∨ c = 'E') := by
        rintro (rfl | rfl)
        · exact hr.head?_ne (c := 'e') (by decide) rfl
        · exact hr.head?_ne (c := 'E') (by decide) rfl
      simp [readExponent, hc]
  · obtain ⟨d, ds', rfl⟩ := List.exists_cons_of_ne_nil hd.1
    have hdig : ¬(d = '-' ∨ d = '+') := by
      have h := hd.2 d (by simp)
      rintro (rfl | rfl) <;> exact absurd h (by decide)
    have hread := readDigits_append hd hr.noDigit
    rw [List.cons_append] at hread
    rcases hs with rfl | rfl | rfl <;>
      simp [readExponent, he, hdig, hread, bind, Except.bind, pure, Except.pure]

/-- A text that starts with one of the parts of a number goes on without a digit. -/
theorem noDigit_append {f : List Char} (hf : ∀ c ∈ f.head?, c.isDigit = false) (hr : NoDigit rest) :
    NoDigit (f ++ rest) := by
  cases f with
  | nil => exact hr
  | cons c f => exact fun d hd => hf d hd

theorem readParts_append (sign : List Char) {whole fraction exponent : List Char}
    (hw : IsWhole whole) (hf : IsFraction fraction) (hx : IsExponent exponent) (hr : Ends rest) :
    readParts sign (whole ++ (fraction ++ (exponent ++ rest))) =
      .ok ⟨sign ++ whole ++ fraction ++ exponent,
        !fraction.isEmpty || !exponent.isEmpty, none⟩ := by
  have hxr : NoDigit (exponent ++ rest) := by
    refine noDigit_append ?_ hr.noDigit
    rcases hx with rfl | ⟨e, sign, ds, rfl, rfl | rfl, -, -⟩ <;> simp
  have hfr : NoDigit (fraction ++ (exponent ++ rest)) := by
    refine noDigit_append ?_ hxr
    rcases hf with rfl | ⟨ds, rfl, -⟩ <;> simp
  have hpoint : (exponent ++ rest).head? ≠ some '.' := by
    rcases hx with rfl | ⟨e, sign, ds, rfl, rfl | rfl, -, -⟩
    · exact fun he => (hr '.' he).2.1 rfl
    · simp
    · simp
  unfold readParts
  rw [readWhole_append hw hfr]
  simp only [bind, Except.bind]
  rw [readFraction_append hf hxr hpoint]
  simp only [readExponent_append hx hr, pure, Except.pure]

/-- **A number in front of other text** is read as it stands. -/
theorem readNumber_append {float : Bool} {cs : List Char} (h : IsNumber float cs) (hr : Ends rest) :
    readNumber (cs ++ rest) = ⟨cs, float, none⟩ := by
  obtain ⟨sign, whole, fraction, exponent, rfl, hs, hw, hf, hx, rfl⟩ := h
  have hread := readParts_append sign hw hf hx hr
  rcases hs with rfl | rfl
  · have hne : (whole ++ (fraction ++ (exponent ++ rest))).head? ≠ some '-' := by
      rcases hw with rfl | ⟨hd, -⟩
      · simp
      · obtain ⟨d, ds, rfl⟩ := List.exists_cons_of_ne_nil hd.1
        have hdig := hd.2 d (by simp)
        rintro he
        obtain rfl : d = '-' := by simpa using he
        exact absurd hdig (by decide)
    simp only [List.nil_append, List.append_assoc] at hread ⊢
    rw [readNumber_plain hne, hread]
    rfl
  · simp only [List.append_assoc, List.cons_append, List.nil_append] at hread ⊢
    rw [readNumber_minus, hread]
    rfl

end Complete

end QueryCheck.Source
