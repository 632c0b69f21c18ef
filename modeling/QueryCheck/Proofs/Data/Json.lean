import QueryCheck.Data.Json
import QueryCheck.Proofs.Text.Quoted

/-! # JSON texts tell their values

A value can be told from its JSON text. The first character shows what sort of value it is; texts
show where they end by their closing quote, lists and maps by their closing bracket, and a number
ends where no digit follows.

* `Json.quoting_escape`, `Json.text_append_inj`: texts.
* `Json.repr_append_inj`: whole numbers in front of what is no part of them.
* `Json.joined_append_inj`: what stands between brackets with commas.
* `Value.toJson_inj`: values.
* `Value.writtenAlike_iff`: two values have the same text when they are the same and have a text.
* `Value.toIndentedJson?_eq_ok_iff`: a value can be written indented unless it is nested too
  deep. -/

namespace QueryCheck.Data

open QueryCheck.Text (Quoting flatMap_quoting_inj)

namespace Json

/-! ### Texts -/

/-- **Every character is written in one of three ways.** -/
theorem quoting_escape (c : Char) : Quoting c (escape c) := by
  have hc : ∀ {n : Nat}, c.toNat = n → c = .ofNat n := fun h => by rw [← h, Char.ofNat_toNat]
  unfold escape
  split_ifs with hquote hslash hfeed hreturn htab hback hform hlong
  · exact .short (by rw [hquote]; decide)
  · exact .short (by rw [hslash]; decide)
  · exact .short (by rw [hfeed]; decide)
  · exact .short (by rw [hreturn]; decide)
  · exact .short (by rw [htab]; decide)
  · exact .short (by rw [hc hback]; decide)
  · exact .short (by rw [hc hform]; decide)
  · refine .long (by decide) ?_
    simp only [Bool.or_eq_true, decide_eq_true_eq] at hlong
    rcases hlong with ((((h | rfl) | rfl) | rfl) | h) | h <;> first | decide | omega
  · exact .plain hquote hslash

/-- A text tells what it writes and what stands behind it. -/
theorem text_append_inj {s t : String} {x y : List Char}
    (h : (text s).toList ++ x = (text t).toList ++ y) : s = t ∧ x = y := by
  simp only [text, String.toList_ofList, List.cons_append, List.cons.injEq, true_and,
    List.append_assoc, List.nil_append] at h
  obtain ⟨hs, hx⟩ := flatMap_quoting_inj quoting_escape h
  exact ⟨String.toList_inj.mp hs, hx⟩

/-! ### Numbers -/

theorem toDigits_inj {m n : Nat} (h : Nat.toDigits 10 m = Nat.toDigits 10 n) : m = n := by
  have digitChar_inj : ∀ a < 10, ∀ b < 10, Nat.digitChar a = Nat.digitChar b → a = b := by decide
  induction m using Nat.strongRecOn generalizing n with
  | ind m ih =>
    have hlast : ∀ {as : List Char} {a b : Char}, as ++ [a] = [b] → as = [] := by
      intro as a b heq
      simpa using congrArg List.length heq
    by_cases hm : m < 10
    · rw [Nat.toDigits_of_lt_base hm] at h
      by_cases hn : n < 10
      · rw [Nat.toDigits_of_lt_base hn] at h
        exact digitChar_inj m hm n hn (List.cons.inj h).1
      · rw [Nat.toDigits_of_base_le (by decide) (by omega)] at h
        exact absurd (hlast h.symm) Nat.toDigits_ne_nil
    · rw [Nat.toDigits_of_base_le (by decide) (by omega)] at h
      by_cases hn : n < 10
      · rw [Nat.toDigits_of_lt_base hn] at h
        exact absurd (hlast h) Nat.toDigits_ne_nil
      · rw [Nat.toDigits_of_base_le (n := n) (by decide) (by omega)] at h
        obtain ⟨hfront, hdigit⟩ := List.append_inj' h rfl
        have hdiv := ih (m / 10) (by omega) hfront
        have hmod := digitChar_inj (m % 10) (by omega) (n % 10) (by omega) (List.cons.inj hdigit).1
        omega

/-- Whether a character may stand in a whole number. -/
def inNumber (c : Char) : Bool := c.isDigit || c == '-'

/-- What may stand behind a value: it does not go on with a number. -/
def Ends (x : List Char) : Prop := ∀ c ∈ x.head?, inNumber c = false

theorem inNumber_of_mem_repr {i : Int} : ∀ c ∈ i.repr.toList, inNumber c = true := by
  have hdigits : ∀ {n : Nat}, ∀ c ∈ n.repr.toList, inNumber c = true := by
    intro n c hc
    rw [Nat.repr_eq_ofList_toDigits, String.toList_ofList] at hc
    rw [inNumber, Nat.isDigit_of_mem_toDigits (by decide) (by decide) hc, Bool.true_or]
  intro c hc
  cases i with
  | ofNat n => exact hdigits c hc
  | negSucc n =>
    rcases List.mem_append.mp (String.toList_append ▸ hc) with hc | hc
    · rw [List.mem_singleton.mp hc]
      decide
    · exact hdigits c hc

theorem repr_toList_ne_nil (i : Int) : i.repr.toList ≠ [] := by
  have hne : ∀ n : Nat, n.repr.toList ≠ [] := fun n => by
    rw [Nat.repr_eq_ofList_toDigits, String.toList_ofList]
    exact Nat.toDigits_ne_nil
  cases i with
  | ofNat n => exact hne n
  | negSucc n =>
    change ("-" ++ _).toList ≠ []
    simp

theorem repr_inj {i j : Int} (h : i.repr = j.repr) : i = j := by
  have hnat : ∀ {m n : Nat}, m.repr = n.repr → m = n := fun h => by
    rw [Nat.repr_eq_ofList_toDigits, Nat.repr_eq_ofList_toDigits, String.ofList_inj] at h
    exact toDigits_inj h
  have hsign : ∀ m n : Nat, m.repr ≠ "-" ++ n.repr := fun m n h => by
    have hminus : '-' ∈ m.repr.toList := by rw [h]; simp
    rw [Nat.repr_eq_ofList_toDigits, String.toList_ofList] at hminus
    exact absurd (Nat.isDigit_of_mem_toDigits (by decide) (by decide) hminus) (by decide)
  cases i with
  | ofNat m =>
    cases j with
    | ofNat n => exact congrArg Int.ofNat (hnat h)
    | negSucc n => exact absurd h (hsign m _)
  | negSucc m =>
    cases j with
    | ofNat n => exact absurd h.symm (hsign n _)
    | negSucc n =>
      have hrepr : (m + 1).repr = (n + 1).repr := by
        simpa using (String.append_right_inj "-").mp h
      rw [Nat.succ.inj (hnat hrepr)]

theorem takeWhile_inNumber {ds x : List Char} (hds : ∀ c ∈ ds, inNumber c = true) (hx : Ends x) :
    (ds ++ x).takeWhile inNumber = ds := by
  have htail : x.takeWhile inNumber = [] := by
    cases x with
    | nil => rfl
    | cons c x => rw [List.takeWhile_cons_of_neg (by simpa using hx c rfl)]
  rw [List.takeWhile_append_of_pos hds, htail, List.append_nil]

/-- A whole number is told in front of what does not go on with it. -/
theorem repr_append_inj {i j : Int} {x y : List Char} (hx : Ends x) (hy : Ends y)
    (h : i.repr.toList ++ x = j.repr.toList ++ y) : i = j ∧ x = y := by
  have hrepr : i.repr.toList = j.repr.toList := by
    rw [← takeWhile_inNumber inNumber_of_mem_repr hx, h,
      takeWhile_inNumber inNumber_of_mem_repr hy]
  rw [hrepr] at h
  exact ⟨repr_inj (String.toList_inj.mp hrepr), List.append_cancel_left h⟩

/-! ### Between brackets -/

section Joined

variable {α : Type} {f : α → List Char} {close : Char}

/-- What is written for `a` tells it, in front of what ends a value. -/
def Tells (f : α → List Char) (a : α) : Prop :=
  ∀ ⦃b : α⦄ ⦃x y : List Char⦄, Ends x → Ends y → f a ++ x = f b ++ y → a = b ∧ x = y

theorem intercalate_cons_eq (l : List Char) : ∀ ls : List (List Char),
    [','].intercalate (l :: ls) = l ++ ls.flatMap (',' :: ·)
  | [] => by simp
  | l' :: ls => by
    rw [List.intercalate_cons_cons, intercalate_cons_eq l' ls]
    simp

theorem ends_behind (hclose : inNumber close = false) (as : List α) (x : List Char) :
    Ends (as.flatMap (fun a => ',' :: f a) ++ close :: x) := by
  cases as with
  | nil =>
    rintro c ⟨⟩
    exact hclose
  | cons a as =>
    rintro c ⟨⟩
    decide

theorem behind_append_inj (hcomma : close ≠ ',') (hclose : inNumber close = false) :
    ∀ {as bs : List α} {x y : List Char}, (∀ a ∈ as, Tells f a) →
    as.flatMap (fun a => ',' :: f a) ++ close :: x =
      bs.flatMap (fun b => ',' :: f b) ++ close :: y → as = bs ∧ x = y
  | [], [], x, y, _, h => ⟨rfl, (List.cons.inj h).2⟩
  | [], b :: bs, x, y, _, h => absurd (List.cons.inj h).1 hcomma
  | a :: as, [], x, y, _, h => absurd (List.cons.inj h).1.symm hcomma
  | a :: as, b :: bs, x, y, tells, h => by
    rw [List.forall_mem_cons] at tells
    simp only [List.flatMap_cons, List.cons_append, List.cons.injEq, true_and,
      List.append_assoc] at h
    obtain ⟨rfl, hbehind⟩ := tells.1 (ends_behind hclose as x) (ends_behind hclose bs y) h
    obtain ⟨rfl, rfl⟩ := behind_append_inj hcomma hclose tells.2 hbehind
    exact ⟨rfl, rfl⟩

/-- **What stands between brackets** tells its items, if none of them starts with the bracket. -/
theorem joined_append_inj (hcomma : close ≠ ',') (hclose : inNumber close = false)
    {as bs : List α} {x y : List Char} (tells : ∀ a ∈ as, Tells f a)
    (hfront : ∀ a x y, f a ++ x ≠ close :: y)
    (h : [','].intercalate (as.map f) ++ close :: x = [','].intercalate (bs.map f) ++ close :: y) :
    as = bs ∧ x = y := by
  cases as with
  | nil =>
    cases bs with
    | nil => exact ⟨rfl, (List.cons.inj h).2⟩
    | cons b bs =>
      rw [List.map_cons, intercalate_cons_eq, List.append_assoc] at h
      exact absurd h.symm (hfront b _ _)
  | cons a as =>
    rw [List.map_cons, intercalate_cons_eq, List.append_assoc, List.flatMap_map] at h
    cases bs with
    | nil => exact absurd h (hfront a _ _)
    | cons b bs =>
      rw [List.map_cons, intercalate_cons_eq, List.append_assoc, List.flatMap_map] at h
      rw [List.forall_mem_cons] at tells
      obtain ⟨rfl, hbehind⟩ := tells.1 (ends_behind hclose as x) (ends_behind hclose bs y) h
      obtain ⟨rfl, rfl⟩ := behind_append_inj hcomma hclose tells.2 hbehind
      exact ⟨rfl, rfl⟩

end Joined

end Json

/-! ### Values -/

namespace Value

open Json

/-- The characters of a value on one line. -/
def jsonChars (v : Value) : List Char := v.toJson.toList

/-- The characters of an entry on one line. -/
def entryChars (e : String × Value) : List Char := (text e.1).toList ++ ':' :: e.2.jsonChars

theorem toJsonItems_eq (vs : List Value) : toJsonItems vs = vs.map toJson := by
  induction vs with
  | nil => rfl
  | cons v vs ih => rw [toJsonItems, ih, List.map_cons]

theorem toJsonEntries_eq (es : List (String × Value)) :
    toJsonEntries es = es.map fun e => text e.1 ++ ":" ++ e.2.toJson := by
  induction es with
  | nil => rfl
  | cons e es ih => rw [toJsonEntries, ih, List.map_cons]

theorem jsonChars_list (vs : List Value) :
    (list vs).jsonChars = '[' :: ([','].intercalate (vs.map jsonChars) ++ [']']) := by
  simp only [jsonChars, toJson, toJsonItems_eq, String.toList_append, String.toList_intercalate,
    List.map_map]
  rfl

theorem jsonChars_map (es : List (String × Value)) :
    (map es).jsonChars = '\x7b' :: ([','].intercalate (es.map entryChars) ++ ['\x7d']) := by
  have hentry : ∀ e : String × Value,
      (text e.1 ++ ":" ++ e.2.toJson).toList = entryChars e := fun e => by
    simp [entryChars, jsonChars]
  simp only [jsonChars, toJson, toJsonEntries_eq, String.toList_append, String.toList_intercalate,
    List.map_map, Function.comp_def, hentry]
  rfl

/-- The sort of value a text starts for. -/
def sortOf (c : Char) : Nat :=
  if c = 'n' then 0 else if c = 't' ∨ c = 'f' then 1 else if inNumber c then 2
  else if c = '"' then 3 else if c = '[' then 4 else 5

/-- The first character shows the sort of the value. -/
theorem exists_jsonChars (v : Value) : ∃ c cs, v.jsonChars = c :: cs ∧ sortOf c = v.ctorIdx ∧
    c ≠ ']' := by
  cases v with
  | null => exact ⟨'n', _, rfl, by decide, by decide⟩
  | bool b => cases b <;> exact ⟨_, _, rfl, by decide, by decide⟩
  | int i =>
    obtain ⟨c, cs, hcs⟩ := List.exists_cons_of_ne_nil (repr_toList_ne_nil i)
    have hc : inNumber c = true := inNumber_of_mem_repr c (by rw [hcs]; exact List.mem_cons_self)
    refine ⟨c, cs, hcs, ?_, ?_⟩
    · have hne : c ≠ 'n' ∧ c ≠ 't' ∧ c ≠ 'f' := by
        refine ⟨?_, ?_, ?_⟩ <;> rintro rfl <;> exact absurd hc (by decide)
      simp only [sortOf, hne, hc, or_self, if_false, if_true]
      rfl
    · rintro rfl
      exact absurd hc (by decide)
  | str s => exact ⟨'"', _, String.toList_ofList, rfl, by decide⟩
  | list vs => exact ⟨'[', _, jsonChars_list vs, rfl, by decide⟩
  | map es => exact ⟨'\x7b', _, jsonChars_map es, rfl, by decide⟩

theorem ctorIdx_eq_of_append {v w : Value} {x y : List Char}
    (h : v.jsonChars ++ x = w.jsonChars ++ y) : v.ctorIdx = w.ctorIdx := by
  obtain ⟨c, cs, hcs, hc, -⟩ := exists_jsonChars v
  obtain ⟨d, ds, hds, hd, -⟩ := exists_jsonChars w
  rw [hcs, hds] at h
  rw [← hc, ← hd, (List.cons.inj h).1]

/-- **A value is told by its text** in front of what ends a value. -/
theorem tells_jsonChars (v : Value) : Tells jsonChars v := by
  induction v using induct with
  | step v ih =>
    intro w x y hx hy h
    have hsort := ctorIdx_eq_of_append h
    cases v with
    | null =>
      cases w with
      | null => exact ⟨rfl, List.append_cancel_left h⟩
      | _ => cases hsort
    | bool a =>
      cases w with
      | bool b => cases a <;> cases b <;> first
        | exact ⟨rfl, List.append_cancel_left h⟩ | exact absurd (List.cons.inj h).1 (by decide)
      | _ => cases hsort
    | int i =>
      cases w with
      | int j =>
        obtain ⟨rfl, rfl⟩ := repr_append_inj hx hy h
        exact ⟨rfl, rfl⟩
      | _ => cases hsort
    | str s =>
      cases w with
      | str t =>
        obtain ⟨rfl, rfl⟩ := text_append_inj h
        exact ⟨rfl, rfl⟩
      | _ => cases hsort
    | list vs =>
      cases w with
      | list ws =>
        simp only [jsonChars_list, List.cons_append, List.append_assoc, List.nil_append,
          List.cons.injEq, true_and] at h
        have hfront : ∀ (v : Value) (x y : List Char), v.jsonChars ++ x ≠ ']' :: y := by
          intro v x y heq
          obtain ⟨c, cs, hcs, -, hc⟩ := exists_jsonChars v
          rw [hcs] at heq
          exact hc (List.cons.inj heq).1
        obtain ⟨rfl, rfl⟩ := joined_append_inj (by decide) (by decide) ih hfront h
        exact ⟨rfl, rfl⟩
      | _ => cases hsort
    | map es =>
      cases w with
      | map fs =>
        simp only [jsonChars_map, List.cons_append, List.append_assoc, List.nil_append,
          List.cons.injEq, true_and] at h
        have tells : ∀ e ∈ es, Tells entryChars e := by
          rintro ⟨k, v⟩ he ⟨k', v'⟩ x y hx hy heq
          simp only [entryChars, List.append_assoc, List.cons_append] at heq
          obtain ⟨rfl, hvalue⟩ := text_append_inj heq
          obtain ⟨rfl, rfl⟩ := ih v (List.mem_map_of_mem he) hx hy (List.cons.inj hvalue).2
          exact ⟨rfl, rfl⟩
        have hfront : ∀ (e : String × Value) (x y : List Char),
            entryChars e ++ x ≠ '\x7d' :: y := by
          intro e x y heq
          simp [entryChars, text] at heq
        obtain ⟨rfl, rfl⟩ := joined_append_inj (by decide) (by decide) tells hfront h
        exact ⟨rfl, rfl⟩
      | _ => cases hsort

/-- **Values are the same when their JSON texts are.** -/
theorem toJson_inj {v w : Value} : v.toJson = w.toJson ↔ v = w := by
  refine ⟨fun h => ?_, congrArg toJson⟩
  have hchars : v.jsonChars ++ [] = w.jsonChars ++ [] := by rw [jsonChars, jsonChars, h]
  exact (tells_jsonChars v (by simp [Ends]) (by simp [Ends]) hchars).1

/-! ### Values that are nested too deep -/

theorem depth_list_le_iff {items : List Value} {n : Nat} :
    (list items).depth ≤ n + 1 ↔ ∀ v ∈ items, v.depth ≤ n := by
  rw [depth, Nat.add_le_add_iff_right]
  induction items with
  | nil => simp [depthItems]
  | cons v vs ih => rw [depthItems, Nat.max_le, ih, List.forall_mem_cons]

theorem depth_map_le_iff {es : List (String × Value)} {n : Nat} :
    (map es).depth ≤ n + 1 ↔ ∀ e ∈ es, e.2.depth ≤ n := by
  rw [depth, Nat.add_le_add_iff_right]
  induction es with
  | nil => simp [depthEntries]
  | cons e es ih => rw [depthEntries, Nat.max_le, ih, List.forall_mem_cons]

theorem toJson?_eq_some_iff {v : Value} {s : String} :
    v.toJson? = some s ↔ v.depth ≤ maxNesting ∧ v.toJson = s := by
  rw [toJson?]
  split_ifs with h <;> simp [h]

/-- **Two values have the same text** when they are the same and not nested too deep. -/
theorem writtenAlike_iff {v w : Value} :
    v.writtenAlike w = true ↔ v = w ∧ v.depth ≤ maxNesting := by
  unfold writtenAlike
  split
  · next s t hv hw =>
    obtain ⟨hdepth, rfl⟩ := toJson?_eq_some_iff.mp hv
    obtain ⟨-, rfl⟩ := toJson?_eq_some_iff.mp hw
    rw [beq_iff_eq, toJson_inj, and_iff_left hdepth]
  · next hnone =>
    refine ⟨nofun, ?_⟩
    rintro ⟨rfl, hdepth⟩
    have hv := toJson?_eq_some_iff.mpr ⟨hdepth, rfl⟩
    exact absurd hv (hnone _ _ hv)

mutual

/-- No bracket stands inside `n` others when the value is at most `n` deep. -/
theorem bracketAt?_eq_none_iff : ∀ (v : Value) (n : Nat), v.bracketAt? n = none ↔ v.depth ≤ n
  | list _, 0 | map _, 0 => by simp [bracketAt?, depth]
  | list items, n + 1 => by
    rw [bracketAt?, depth, Nat.add_le_add_iff_right, bracketAtItems?_eq_none_iff items n]
  | map es, n + 1 => by
    rw [bracketAt?, depth, Nat.add_le_add_iff_right, bracketAtEntries?_eq_none_iff es n]
  | null, n | bool _, n | int _, n | str _, n => by cases n <;> simp [bracketAt?, depth]

theorem bracketAtItems?_eq_none_iff :
    ∀ (vs : List Value) (n : Nat), bracketAtItems? vs n = none ↔ depthItems vs ≤ n
  | [], n => by simp [bracketAtItems?, depthItems]
  | v :: vs, n => by
    rw [bracketAtItems?, depthItems, Option.or_eq_none_iff, bracketAt?_eq_none_iff v n,
      bracketAtItems?_eq_none_iff vs n, Nat.max_le]

theorem bracketAtEntries?_eq_none_iff :
    ∀ (es : List (String × Value)) (n : Nat), bracketAtEntries? es n = none ↔ depthEntries es ≤ n
  | [], n => by simp [bracketAtEntries?, depthEntries]
  | (_, v) :: es, n => by
    rw [bracketAtEntries?, depthEntries, Option.or_eq_none_iff, bracketAt?_eq_none_iff v n,
      bracketAtEntries?_eq_none_iff es n, Nat.max_le]

end

mutual

/-- Every map can be written in a value that is not nested too deep. -/
theorem tooDeepMap?_eq_none : ∀ {v : Value}, v.depth ≤ maxNesting → v.tooDeepMap? = none
  | list items, h => tooDeepMapItems?_eq_none (by rw [depth] at h; omega)
  | map es, h => by
    have hparts : depthEntries es ≤ maxNesting := by rw [depth] at h; omega
    rw [tooDeepMap?, tooDeepMapEntries?_eq_none hparts, (bracketAt?_eq_none_iff _ _).mpr h]
    rfl
  | null, _ | bool _, _ | int _, _ | str _, _ => rfl

theorem tooDeepMapItems?_eq_none :
    ∀ {vs : List Value}, depthItems vs ≤ maxNesting → tooDeepMapItems? vs = none
  | [], _ => rfl
  | v :: vs, h => by
    obtain ⟨hv, hvs⟩ := Nat.max_le.mp h
    rw [tooDeepMapItems?, tooDeepMap?_eq_none hv, tooDeepMapItems?_eq_none hvs, Option.none_or]

theorem tooDeepMapEntries?_eq_none :
    ∀ {es : List (String × Value)}, depthEntries es ≤ maxNesting → tooDeepMapEntries? es = none
  | [], _ => rfl
  | (_, v) :: es, h => by
    obtain ⟨hv, hes⟩ := Nat.max_le.mp h
    rw [tooDeepMapEntries?, tooDeepMap?_eq_none hv, tooDeepMapEntries?_eq_none hes, Option.none_or]

end

/-- **Something is told to be nested too deep exactly when something is.** -/
theorem tooDeep?_eq_none_iff {v : Value} : v.tooDeep? = none ↔ v.depth ≤ maxNesting := by
  rw [tooDeep?, Option.or_eq_none_iff, Option.map_eq_none_iff, bracketAt?_eq_none_iff]
  exact and_iff_right_of_imp tooDeepMap?_eq_none

theorem toIndentedJson?_eq_ok_iff {v : Value} {s : String} :
    v.toIndentedJson? = .ok s ↔ v.depth ≤ maxNesting ∧ v.toIndentedJson = s := by
  rw [← tooDeep?_eq_none_iff, toIndentedJson?]
  cases v.tooDeep? <;> simp

end Value

end QueryCheck.Data
