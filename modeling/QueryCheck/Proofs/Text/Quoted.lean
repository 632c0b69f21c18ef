import Mathlib.Algebra.Order.Ring.Nat
import Mathlib.Tactic.SplitIfs
import QueryCheck.Text.Quoted

/-! # Quoted texts tell their contents

A quoted text shows where it ends and what it quotes, so the parts of a message that are quoted can
be told from the message.

* `hexDigits_inj`: numbers of one width are told by their digits.
* `Quoting`, `quoting_quoteChar`: the three ways a character is written.
* `flatMap_quoting_inj`: characters written in these ways can be told.
* `quote_append_inj`: what is quoted and what stands behind it can be told. -/

namespace QueryCheck.Text

open QueryCheck.Data (hexDigit hexDigits)

/-! ### Digits -/

theorem length_hexDigits : ∀ (w n : Nat), (hexDigits w n).length = w
  | 0, _ => rfl
  | w + 1, n => by rw [hexDigits, List.length_append, length_hexDigits w]; rfl

theorem hexDigit_inj : ∀ m < 16, ∀ n < 16, hexDigit m = hexDigit n → m = n := by
  decide

/-- Numbers of one width are told by their digits. -/
theorem hexDigits_inj : ∀ {w m n : Nat}, m < 16 ^ w → n < 16 ^ w →
    hexDigits w m = hexDigits w n → m = n
  | 0, m, n, hm, hn, _ => by
    rw [Nat.pow_zero] at hm hn
    omega
  | w + 1, m, n, hm, hn, h => by
    rw [Nat.pow_succ] at hm hn
    have hlen : (hexDigits w (m / 16)).length = (hexDigits w (n / 16)).length := by
      rw [length_hexDigits, length_hexDigits]
    obtain ⟨hfront, hlast⟩ := List.append_inj h hlen
    have hlast := hexDigit_inj _ (Nat.mod_lt m (by decide)) _ (Nat.mod_lt n (by decide))
      (List.cons.inj hlast).1
    have hfront : m / 16 = n / 16 := hexDigits_inj (by omega) (by omega) hfront
    omega

/-! ### Characters -/

/-- The characters that are written as a backslash and one letter. -/
def shortEscapes : List (Char × Char) :=
  [('"', '"'), ('\\', '\\'), (.ofNat 7, 'a'), (.ofNat 8, 'b'), (.ofNat 9, 't'), (.ofNat 10, 'n'),
   (.ofNat 11, 'v'), (.ofNat 12, 'f'), (.ofNat 13, 'r')]

/-- The letters that start a number, and how many digits it has. -/
def longEscapes : List (Char × Nat) := [('x', 2), ('u', 4), ('U', 8)]

/-- How a character is written inside a quoted text. -/
inductive Quoting (c : Char) : List Char → Prop
  | plain (hquote : c ≠ '"') (hslash : c ≠ '\\') : Quoting c [c]
  | short {k : Char} (h : (c, k) ∈ shortEscapes) : Quoting c ['\\', k]
  | long {k : Char} {w : Nat} (h : (k, w) ∈ longEscapes) (hlt : c.toNat < 16 ^ w) :
      Quoting c ('\\' :: k :: hexDigits w c.toNat)

/-- **Every character is written in one of three ways.** -/
theorem quoting_quoteChar (c : Char) : Quoting c (quoteChar c) := by
  have hc : ∀ {n : Nat}, c.toNat = n → c = .ofNat n := fun h => by rw [← h, Char.ofNat_toNat]
  unfold quoteChar
  split_ifs with hquote hslash hprint
  · exact .short (by rw [hquote]; decide)
  · exact .short (by rw [hslash]; decide)
  · exact .plain hquote hslash
  · split
    case h_8 =>
      have hlt : c.toNat < 2 ^ 32 := c.val.toNat_lt
      split_ifs
      · exact .long (by decide) (by omega)
      · exact .long (by decide) (by omega)
      · exact .long (by decide) (by omega)
    all_goals
      next h => exact .short (by rw [hc h]; decide)

theorem shortEscapes_inj : ∀ p ∈ shortEscapes, ∀ q ∈ shortEscapes, p.2 = q.2 → p.1 = q.1 := by
  decide

theorem longEscapes_inj : ∀ p ∈ longEscapes, ∀ q ∈ longEscapes, p.1 = q.1 → p.2 = q.2 := by
  decide

theorem shortEscapes_ne_longEscapes : ∀ p ∈ shortEscapes, ∀ q ∈ longEscapes, p.2 ≠ q.1 := by
  decide

/-- **A character is told by how it is written**, whatever stands behind it. -/
theorem quoting_append_inj {c d : Char} {cs ds xs ys : List Char} (hc : Quoting c cs)
    (hd : Quoting d ds) (h : cs ++ xs = ds ++ ys) : c = d ∧ xs = ys := by
  cases hc with
  | plain hquote hslash =>
    cases hd with
    | plain => simpa using h
    | _ => exact absurd (List.cons.inj h).1 hslash
  | @short k hk =>
    cases hd with
    | plain _ hslash => exact absurd (List.cons.inj h).1.symm hslash
    | @short k' hk' =>
      simp only [List.cons_append, List.nil_append, List.cons.injEq, true_and] at h
      exact ⟨shortEscapes_inj _ hk _ hk' h.1, h.2⟩
    | @long k' w hk' =>
      simp only [List.cons_append, List.nil_append, List.cons.injEq, true_and] at h
      exact absurd h.1 (shortEscapes_ne_longEscapes _ hk _ hk')
  | @long k w hk hlt =>
    cases hd with
    | plain _ hslash => exact absurd (List.cons.inj h).1.symm hslash
    | @short k' hk' =>
      simp only [List.cons_append, List.nil_append, List.cons.injEq, true_and] at h
      exact absurd h.1.symm (shortEscapes_ne_longEscapes _ hk' _ hk)
    | @long k' w' hk' hlt' =>
      simp only [List.cons_append, List.cons.injEq, true_and] at h
      obtain rfl : w = w' := longEscapes_inj _ hk _ hk' h.1
      obtain ⟨hdigits, htail⟩ := List.append_inj h.2 (by rw [length_hexDigits, length_hexDigits])
      exact ⟨Char.toNat_inj.mp (hexDigits_inj hlt hlt' hdigits), htail⟩

/-- No character is written with a quote in front. -/
theorem Quoting.append_ne {c : Char} {cs : List Char} (h : Quoting c cs) (xs ys : List Char) :
    cs ++ xs ≠ '"' :: ys := by
  intro heq
  cases h with
  | plain hquote => exact hquote (List.cons.inj heq).1
  | _ => exact absurd (List.cons.inj heq).1 (by decide)

/-! ### Texts -/

/-- **Characters are told by how they are written** up to a closing quote. -/
theorem flatMap_quoting_inj {f : Char → List Char} (hf : ∀ c, Quoting c (f c)) :
    ∀ {cs ds xs ys : List Char},
    cs.flatMap f ++ '"' :: xs = ds.flatMap f ++ '"' :: ys → cs = ds ∧ xs = ys
  | [], [], xs, ys, h => ⟨rfl, (List.cons.inj h).2⟩
  | [], d :: ds, xs, ys, h => by
    rw [List.flatMap_cons, List.append_assoc] at h
    exact absurd h.symm ((hf d).append_ne _ _)
  | c :: cs, [], xs, ys, h => by
    rw [List.flatMap_cons, List.append_assoc] at h
    exact absurd h ((hf c).append_ne _ _)
  | c :: cs, d :: ds, xs, ys, h => by
    rw [List.flatMap_cons, List.flatMap_cons, List.append_assoc, List.append_assoc] at h
    obtain ⟨rfl, htail⟩ := quoting_append_inj (hf c) (hf d) h
    obtain ⟨rfl, rfl⟩ := flatMap_quoting_inj hf htail
    exact ⟨rfl, rfl⟩

/-- **A quoted text tells what it quotes** and what stands behind it. -/
theorem quote_append_inj {s t x y : String} (h : quote s ++ x = quote t ++ y) : s = t ∧ x = y := by
  have h := congrArg String.toList h
  simp only [quote, String.toList_append, String.toList_ofList, List.cons_append, List.cons.injEq,
    true_and, List.append_assoc, List.nil_append] at h
  obtain ⟨hs, hx⟩ := flatMap_quoting_inj quoting_quoteChar h
  exact ⟨String.toList_inj.mp hs, String.toList_inj.mp hx⟩

end QueryCheck.Text
