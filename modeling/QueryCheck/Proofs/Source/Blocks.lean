import Mathlib.Data.List.DropRight
import Mathlib.Data.List.Flatten
import Mathlib.Tactic.Common
import QueryCheck.Source.Lexer

/-! # Values of block strings

The value of a block string has no blank line at either end, and what all of its lines are indented
by has been taken off every line but the first. So the value is its own value as soon as it has one
line only, or some line that is not indented; otherwise the lines behind the first lose indentation
each time the value is read.

* `IsBlockValue`, `isBlockValue_of_readBlock`: the values of block strings.
* `IsBlockValue.exists_lines`: the lines of such a value.
* `IsBlockValue.inBlock`, `count_blockValue_le`: its characters.
* `blockValue_eq_self_iff`: when such a value is its own value. -/

namespace QueryCheck.Source

/-! ### Values -/

/-- A character that may stand in a block string whose lines all end with a line feed. -/
def InBlock (c : Char) : Prop := c = '\n' ∨ c = '\t' ∨ 32 ≤ c.toNat

/-- The value of a block string. -/
def IsBlockValue (v : String) : Prop := ∃ raw, (∀ c ∈ raw, InBlock c) ∧ v = blockValue raw

theorem inBlock_of_readBlock {value cs : List Char} {cur : Cursor} {r : Reading (List Char)}
    (hvalue : ∀ c ∈ value, InBlock c) (h : readBlock value cur cs = .ok r) :
    ∀ c ∈ r.value, InBlock c := by
  have hfeed : InBlock '\n' := .inl rfl
  have hquote : InBlock '"' := .inr (.inr (by decide))
  fun_induction readBlock value cur cs with
  | case2 value cur rest =>
    obtain rfl := Except.ok.inj h
    simpa using hvalue
  | case3 value cur rest ih => exact ih (by simpa [hquote] using hvalue) h
  | case4 value cur rest ih => exact ih (by simpa [hfeed] using hvalue) h
  | case5 value cur rest _ ih => exact ih (by simpa [hfeed] using hvalue) h
  | case6 value cur rest ih => exact ih (by simpa [hfeed] using hvalue) h
  | case8 value cur c rest _ _ _ _ _ hc ih =>
    refine ih (List.forall_mem_cons.mpr ⟨?_, hvalue⟩) h
    simp only [Bool.and_eq_true, decide_eq_true_eq, bne_iff_ne, ne_eq, not_and, not_not] at hc
    exact (Nat.lt_or_ge c.toNat 32).elim (fun hlt => .inr (.inl (hc hlt))) fun hge =>
      .inr (.inr hge)
  | _ => cases h

/-- **What is read as a block string** is the value of one. -/
theorem isBlockValue_of_readBlock {cs : List Char} {cur : Cursor} {r : Reading (List Char)}
    (h : readBlock [] cur cs = .ok r) : IsBlockValue (blockValue r.value) :=
  ⟨r.value, inBlock_of_readBlock (by simp) h, rfl⟩

/-! ### Lines -/

/-- Lines without the indentation that all of them share, the first one as it is. -/
def unindented (lines : List (List Char)) : List (List Char) :=
  match commonIndent lines, lines with
  | some k, l :: ls => l :: ls.map (List.drop k)
  | _, lines => lines

/-- Lines without blank ones at both ends. -/
def trimmed (lines : List (List Char)) : List (List Char) :=
  (lines.dropWhile isBlankLine).rdropWhile isBlankLine

theorem toList_blockValue (raw : List Char) :
    (blockValue raw).toList = ['\n'].intercalate (trimmed (unindented (raw.splitOn '\n'))) := by
  have hmap : ∀ ls : List (List Char), (ls.map String.ofList).map String.toList = ls := fun ls => by
    simp
  rw [blockValue, String.toList_intercalate, hmap]
  rfl

/-- Lines of which neither the first nor the last is blank. -/
structure Trim (ls : List (List Char)) : Prop where
  first : ls.dropWhile isBlankLine = ls
  last : ls.rdropWhile isBlankLine = ls

theorem Trim.trimmed_eq {ls : List (List Char)} (h : Trim ls) : trimmed ls = ls := by
  rw [trimmed, h.first, h.last]

theorem trim_trimmed (ls : List (List Char)) : Trim (trimmed ls) := by
  refine ⟨List.dropWhile_eq_self_iff.mpr fun hl => ?_, List.rdropWhile_idempotent _ _⟩
  -- the first line is the one before which blank lines were dropped
  have hfront : trimmed ls <+: ls.dropWhile isBlankLine := List.rdropWhile_prefix _ _
  rw [hfront.getElem hl]
  exact List.dropWhile_eq_self_iff.mp (List.dropWhile_idempotent _ _)
    (hl.trans_le hfront.length_le)

theorem trimmed_subset (ls : List (List Char)) : trimmed ls ⊆ ls :=
  List.Subset.trans (List.rdropWhile_prefix _ _).subset (List.dropWhile_suffix _).subset

theorem mem_unindented {lines : List (List Char)} {l : List Char} (h : l ∈ unindented lines) :
    ∃ l' ∈ lines, l <:+ l' := by
  unfold unindented at h
  split at h
  · next k first rest _ =>
    rcases List.mem_cons.mp h with rfl | h
    · exact ⟨l, by simp, List.suffix_rfl⟩
    · obtain ⟨l', hl', rfl⟩ := List.mem_map.mp h
      exact ⟨l', by simp [hl'], List.drop_suffix k l'⟩
  · exact ⟨l, h, List.suffix_rfl⟩

/-- The lines of a text hold no line feeds. -/
theorem notMem_of_mem_splitOn : ∀ {cs l : List Char}, l ∈ cs.splitOn '\n' → '\n' ∉ l
  | [], l, h => by
    rw [List.splitOn_nil, List.mem_singleton] at h
    simp [h]
  | c :: cs, l, h => by
    have ih : ∀ l ∈ cs.splitOn '\n', '\n' ∉ l := fun _ => notMem_of_mem_splitOn
    obtain ⟨first, rest, hlines⟩ := List.exists_cons_of_ne_nil (List.splitOn_ne_nil '\n' cs)
    rw [List.splitOn_cons_eq_if_modifyHead] at h
    rw [hlines] at h ih
    split_ifs at h with hc
    · rcases List.mem_cons.mp h with rfl | h
      · exact List.not_mem_nil
      · exact ih l h
    · rcases List.mem_cons.mp h with rfl | h
      · have hfirst := ih first (by simp)
        have hne : '\n' ≠ c := fun heq => hc (by simp [← heq])
        simp [hne, hfirst]
      · exact ih l (List.mem_cons_of_mem _ h)

/-- **The value of a block string** is made of lines that are not blank at either end. -/
theorem IsBlockValue.exists_lines {v : String} (h : IsBlockValue v) :
    ∃ ls, v.toList = ['\n'].intercalate ls ∧ (∀ l ∈ ls, '\n' ∉ l) ∧ Trim ls := by
  obtain ⟨raw, -, rfl⟩ := h
  refine ⟨_, toList_blockValue raw, fun l hl => ?_, trim_trimmed _⟩
  obtain ⟨l', hl', hsuffix⟩ := mem_unindented (trimmed_subset _ hl)
  exact fun hmem => notMem_of_mem_splitOn hl' (hsuffix.subset hmem)

/-! ### Characters -/

theorem mem_intercalate_iff {c : Char} : ∀ {ls : List (List Char)},
    c ∈ ['\n'].intercalate ls ↔ (c = '\n' ∧ 1 < ls.length) ∨ ∃ l ∈ ls, c ∈ l
  | [] => by simp
  | [l] => by simp
  | l :: m :: ls => by
    have ih : c ∈ ['\n'].intercalate (m :: ls) ↔ _ := mem_intercalate_iff
    rw [List.intercalate_cons_cons, List.mem_append, List.mem_append, ih]
    simp only [List.length_cons, List.mem_cons, exists_eq_or_imp]
    grind

/-- The characters of the value of a block string. -/
theorem IsBlockValue.inBlock {v : String} (h : IsBlockValue v) : ∀ c ∈ v.toList, InBlock c := by
  obtain ⟨raw, hraw, rfl⟩ := h
  intro c hc
  rw [toList_blockValue, mem_intercalate_iff] at hc
  rcases hc with ⟨rfl, -⟩ | ⟨l, hl, hc⟩
  · exact .inl rfl
  · obtain ⟨l', hl', hsuffix⟩ := mem_unindented (trimmed_subset _ hl)
    have hmem : c ∈ ['\n'].intercalate (raw.splitOn '\n') :=
      mem_intercalate_iff.mpr (.inr ⟨l', hl', hsuffix.subset hc⟩)
    rw [List.intercalate_splitOn] at hmem
    exact hraw c hmem

/-- Apart from line feeds a text has the characters of its lines. -/
theorem count_intercalate {c : Char} (hc : c ≠ '\n') : ∀ ls : List (List Char),
    (['\n'].intercalate ls).count c = ls.flatten.count c
  | [] => by simp
  | [l] => by simp
  | l :: m :: ls => by
    have ih := count_intercalate hc (m :: ls)
    rw [List.intercalate_cons_cons, List.count_append, List.count_append, ih]
    simp [hc.symm]

theorem count_unindented_le (c : Char) (lines : List (List Char)) :
    (unindented lines).flatten.count c ≤ lines.flatten.count c := by
  have hdrop : ∀ (k : Nat) (ls : List (List Char)),
      (ls.map (List.drop k)).flatten.count c ≤ ls.flatten.count c := by
    intro k ls
    induction ls with
    | nil => exact le_rfl
    | cons l ls ih =>
      rw [List.map_cons, List.flatten_cons, List.flatten_cons, List.count_append, List.count_append]
      exact Nat.add_le_add ((List.drop_sublist k l).count_le c) ih
  unfold unindented
  split
  · next k first rest _ =>
    rw [List.flatten_cons, List.flatten_cons, List.count_append, List.count_append]
    exact Nat.add_le_add_left (hdrop k rest) _
  · exact le_rfl

/-- No character but the line feed occurs more often in the value of a block string than in what was
written. -/
theorem count_blockValue_le {c : Char} (hc : c ≠ '\n') (raw : List Char) :
    (blockValue raw).toList.count c ≤ raw.count c := by
  have htrimmed : (trimmed (unindented (raw.splitOn '\n'))).Sublist
      (unindented (raw.splitOn '\n')) :=
    (List.rdropWhile_prefix _ _).sublist.trans (List.dropWhile_suffix _).sublist
  calc (blockValue raw).toList.count c
      = (trimmed (unindented (raw.splitOn '\n'))).flatten.count c := by
        rw [toList_blockValue, count_intercalate hc]
    _ ≤ (unindented (raw.splitOn '\n')).flatten.count c := htrimmed.flatten.count_le c
    _ ≤ (raw.splitOn '\n').flatten.count c := count_unindented_le c _
    _ = raw.count c := by rw [← count_intercalate hc, List.intercalate_splitOn]

/-! ### Indentation -/

/-- How far a line is indented. -/
abbrev indent (l : List Char) : Nat := (l.takeWhile isIndent).length

theorem commonIndent_eq_some_iff {lines : List (List Char)} {k : Nat} :
    commonIndent lines = some k ↔
      (∃ l ∈ lines, isBlankLine l = false ∧ indent l = k) ∧
        ∀ l ∈ lines, isBlankLine l = false → k ≤ indent l := by
  rw [commonIndent, List.min?_eq_some_iff]
  simp only [List.mem_map, List.mem_filter, Bool.not_eq_true', and_assoc]
  exact and_congr_right fun _ => ⟨fun h l hl hblank => h _ ⟨l, hl, hblank, rfl⟩,
    fun h b ⟨l, hl, hblank, heq⟩ => heq ▸ h l hl hblank⟩

/-- A line that is not blank has a character behind its indentation. -/
theorem exists_behind_indent {l : List Char} (h : isBlankLine l = false) :
    ∃ c cs, l.dropWhile isIndent = c :: cs ∧ isIndent c = false := by
  cases hd : l.dropWhile isIndent with
  | nil =>
    rw [isBlankLine, List.all_eq_false] at h
    obtain ⟨c, hc, hblank⟩ := h
    exact absurd (List.dropWhile_eq_nil_iff.mp hd c hc) hblank
  | cons c cs =>
    have hhead := List.head?_dropWhile_not isIndent l
    rw [hd] at hhead
    exact ⟨c, cs, rfl, by simpa using hhead⟩

/-- A line that is not blank stays so without part of its indentation. -/
theorem isBlankLine_drop {l : List Char} {k : Nat} (h : isBlankLine l = false)
    (hk : k ≤ indent l) : isBlankLine (l.drop k) = false := by
  obtain ⟨c, cs, hd, hc⟩ := exists_behind_indent h
  rw [← List.takeWhile_append_dropWhile (p := isIndent) (l := l), List.drop_append_of_le_length hk,
    hd]
  simp [isBlankLine, hc]

/-- A text of several lines has one that does not start with a space or a tab. -/
def Flush (cs : List Char) : Prop :=
  '\n' ∈ cs → ∃ l ∈ cs.splitOn '\n', ∃ c ∈ l.head?, isIndent c = false

theorem flush_iff {cs : List Char} :
    Flush cs ↔
      ('\n' ∈ cs → (cs.splitOn '\n').any (fun l => l.head?.any fun c => !isIndent c) = true) := by
  simp [Flush, Option.any_eq_true]

instance (cs : List Char) : Decidable (Flush cs) := decidable_of_iff _ flush_iff.symm

/-- A line without indentation starts with a character of another sort. -/
theorem indent_eq_zero_iff {l : List Char} (h : isBlankLine l = false) :
    indent l = 0 ↔ ∃ c ∈ l.head?, isIndent c = false := by
  cases l with
  | nil => cases h
  | cons c cs =>
    rw [indent, List.length_eq_zero_iff, List.takeWhile_eq_nil_iff]
    simp

/-- Lines that are not blank at the ends and of which two or more are left stay so when they are
unindented. -/
theorem Trim.unindented {first : List Char} {rest : List (List Char)} {k : Nat}
    (h : Trim (first :: rest)) (hne : rest ≠ [])
    (hk : ∀ l ∈ rest, isBlankLine l = false → k ≤ indent l) :
    Trim (first :: rest.map (List.drop k)) := by
  have hfirst : ¬isBlankLine first = true := List.dropWhile_eq_self_iff.mp h.first (by simp)
  have hlast : ¬isBlankLine (rest.getLast hne) = true := by
    have := List.rdropWhile_eq_self_iff.mp h.last (by simp)
    rwa [List.getLast_cons hne] at this
  refine ⟨List.dropWhile_cons_of_neg hfirst, List.rdropWhile_eq_self_iff.mpr fun _ => ?_⟩
  rw [List.getLast_cons (by simpa using hne), List.getLast_map]
  simp only [Bool.not_eq_true] at hlast ⊢
  exact isBlankLine_drop hlast (hk _ (List.getLast_mem hne) hlast)

/-- The lines of a text that is put together from them. -/
theorem splitOn_of_lines {ls : List (List Char)} {cs : List Char} (hcs : cs = ['\n'].intercalate ls)
    (hlines : ∀ l ∈ ls, '\n' ∉ l) (hne : ls ≠ []) : cs.splitOn '\n' = ls := by
  rw [hcs]
  exact List.splitOn_intercalate '\n' hlines hne

/-- What lines that are not blank at the ends are turned into: the common indentation is gone from
all but the first. -/
theorem toList_blockValue_of_trim {cs first : List Char} {rest : List (List Char)} {k : Nat}
    (hcs : cs.splitOn '\n' = first :: rest) (htrim : Trim (first :: rest)) (hne : rest ≠ [])
    (hk : commonIndent (first :: rest) = some k) :
    (blockValue cs).toList = ['\n'].intercalate (first :: rest.map (List.drop k)) := by
  have hle := (commonIndent_eq_some_iff.mp hk).2
  have hunindented : Source.unindented (first :: rest) = first :: rest.map (List.drop k) := by
    simp [Source.unindented, hk]
  rw [toList_blockValue, hcs, hunindented]
  rw [(htrim.unindented hne fun l hl => hle l (List.mem_cons_of_mem _ hl)).trimmed_eq]

/-- A text of one line that is not blank is its own value. -/
theorem toList_blockValue_of_line {cs : List Char} (hcs : cs.splitOn '\n' = [cs])
    (htrim : Trim [cs]) : (blockValue cs).toList = cs := by
  have hunindented : Source.unindented [cs] = [cs] := by
    cases hk : commonIndent [cs] <;> simp [Source.unindented, hk]
  rw [toList_blockValue, hcs, hunindented, htrim.trimmed_eq, List.intercalate_singleton]

/-- **The value of a block string is its own value** when it has one line only or some line that is
not indented, and in no other case. -/
theorem blockValue_eq_self_iff {v : String} (h : IsBlockValue v) :
    blockValue v.toList = v ↔ Flush v.toList := by
  obtain ⟨ls, hv, hlines, htrim⟩ := h.exists_lines
  rw [← String.toList_inj]
  rcases ls with _ | ⟨first, rest⟩
  · -- the empty value
    rw [hv]
    exact ⟨fun _ hmem => absurd hmem (by decide), fun _ => by decide⟩
  have hsplit := splitOn_of_lines hv hlines (by simp)
  rcases eq_or_ne rest [] with rfl | hne
  · -- one line only
    rw [List.intercalate_singleton] at hv
    subst hv
    have hfeed : '\n' ∉ v.toList := hlines _ (by simp)
    exact ⟨fun _ hmem => absurd hmem hfeed, fun _ => toList_blockValue_of_line hsplit htrim⟩
  have hfirst : ¬isBlankLine first = true := List.dropWhile_eq_self_iff.mp htrim.first (by simp)
  obtain ⟨k, hk⟩ : ∃ k, commonIndent (first :: rest) = some k := by
    cases hc : commonIndent (first :: rest) with
    | none => simp [commonIndent, hfirst] at hc
    | some k => exact ⟨k, rfl⟩
  rw [toList_blockValue_of_trim hsplit htrim hne hk]
  obtain ⟨⟨l, hl, hblank, hindent⟩, hle⟩ := commonIndent_eq_some_iff.mp hk
  constructor
  · intro heq _
    -- the last line would get shorter if the common indentation were not zero
    have hlast : isBlankLine (rest.getLast hne) = false := by
      have := List.rdropWhile_eq_self_iff.mp htrim.last (by simp)
      simpa [List.getLast_cons hne] using this
    have hrest : rest.map (List.drop k) = rest := by
      have hlines' : ∀ l ∈ first :: rest.map (List.drop k), '\n' ∉ l := by
        simp only [List.forall_mem_cons, List.forall_mem_map] at hlines ⊢
        exact ⟨hlines.1, fun l hl hmem => hlines.2 l hl (List.mem_of_mem_drop hmem)⟩
      have := splitOn_of_lines heq.symm hlines' (by simp)
      rw [hsplit] at this
      exact (List.cons.inj this).2.symm
    have hdrop : (rest.getLast hne).drop k = rest.getLast hne := by
      rw [← List.getLast_map (f := List.drop k) (by simpa using hne)]
      simp only [hrest]
    have hlong := hle _ (List.mem_cons_of_mem _ (List.getLast_mem hne)) hlast
    have hk0 : k = 0 := by
      have hlen := congrArg List.length hdrop
      rw [List.length_drop] at hlen
      have : indent (rest.getLast hne) ≤ (rest.getLast hne).length :=
        (List.takeWhile_prefix isIndent).length_le
      omega
    refine ⟨l, hsplit ▸ hl, (indent_eq_zero_iff hblank).mp (hindent.trans hk0)⟩
  · intro hflush
    have hfeed : '\n' ∈ v.toList := by
      obtain ⟨second, rest, rfl⟩ := List.exists_cons_of_ne_nil hne
      simp [hv]
    obtain ⟨l, hl, c, hc, hindent⟩ := hflush hfeed
    rw [hsplit] at hl
    have hblank : isBlankLine l = false := List.all_eq_false.mpr
      ⟨c, List.mem_of_mem_head? hc, by simp [hindent]⟩
    have hk0 : k ≤ 0 := (indent_eq_zero_iff hblank).mpr ⟨c, hc, hindent⟩ ▸ hle l hl hblank
    obtain rfl : k = 0 := Nat.le_zero.mp hk0
    have hdrop : rest.map (List.drop 0) = rest := List.map_id'' (fun _ => rfl) rest
    rw [hdrop, hv]

end QueryCheck.Source
