import Mathlib.Data.String.Basic

/-! # The parts of a text between separators

Where the separator is a single character, the parts of a text are those of its list of characters.

* `splitOn_singleton`: the parts between the occurrences of a character;
* `splitOn_singleton_of_not_mem`: a text without the character is one part. -/

namespace QueryCheck.Text

open String (ofList utf8Len)

/-- One step of cutting a text: `b` is where the current part begins and `i` is the place that is
looked at. -/
theorem splitOnAux_singleton (s : String) (c : Char) (b i : String.Pos.Raw) (parts : List String) :
    s.splitOnAux (String.singleton c) b i 0 parts =
      if String.Pos.Raw.atEnd s i then (String.Pos.Raw.extract s b i :: parts).reverse
      else
        let next := String.Pos.Raw.next s i
        if String.Pos.Raw.get s i = c then
          s.splitOnAux (String.singleton c) next next 0
            (String.Pos.Raw.extract s b (next.unoffsetBy ⟨c.utf8Size⟩) :: parts)
        else s.splitOnAux (String.singleton c) b next 0 parts := by
  have hget : String.Pos.Raw.get (String.singleton c) 0 = c := by
    simpa using! String.get_of_valid [] [c]
  have hnext : String.Pos.Raw.next (String.singleton c) 0 = ⟨c.utf8Size⟩ := by
    simpa using! String.next_of_valid [] c []
  have hend : String.Pos.Raw.atEnd (String.singleton c) ⟨c.utf8Size⟩ = true := by
    rw [String.atEnd_iff, ← String.ofList_toList (s := String.singleton c), String.rawEndPos_ofList]
    simp
  have hback : i.unoffsetBy 0 = i := rfl
  rw [String.splitOnAux]
  simp only [hget, hnext, hend, hback, beq_iff_eq, if_true]

/-- The parts from a place on: `l` is in front of the current part, `m` is what has been read of it,
and `r` is what remains. -/
theorem splitOnAux_ofList (c : Char) (l m r : List Char) (parts : List String) :
    String.splitOnAux (ofList (l ++ m ++ r)) (String.singleton c) ⟨utf8Len l⟩
        ⟨utf8Len l + utf8Len m⟩ 0 parts =
      parts.reverse ++ (List.splitOnPPrepend (· == c) r m.reverse).map ofList := by
  induction r generalizing l m parts with
  | nil =>
    have hend : String.Pos.Raw.atEnd (ofList (l ++ m ++ [])) ⟨utf8Len l + utf8Len m⟩ := by
      rw [String.atEnd_iff, String.rawEndPos_ofList]
      simp
    rw [splitOnAux_singleton, if_pos hend, String.extract_of_valid]
    simp
  | cons d r ih =>
    have hend : ¬ String.Pos.Raw.atEnd (ofList (l ++ m ++ d :: r)) ⟨utf8Len l + utf8Len m⟩ := by
      have := d.utf8Size_pos
      rw [String.atEnd_iff, String.rawEndPos_ofList]
      simp
      omega
    have hget := String.get_of_valid (l ++ m) (d :: r)
    have hnext := String.next_of_valid (l ++ m) d r
    rw [String.utf8Len_append] at hget hnext
    rw [splitOnAux_singleton, if_neg hend, hget, hnext, List.headD_cons,
      List.splitOnPPrepend_cons_eq_if]
    dsimp only
    by_cases hd : d = c
    · -- The current part ends here, and the next one begins behind the separator.
      have hback : String.Pos.Raw.unoffsetBy ⟨utf8Len l + utf8Len m + d.utf8Size⟩ ⟨c.utf8Size⟩ =
          ⟨utf8Len l + utf8Len m⟩ := by
        rw [hd]
        exact congrArg String.Pos.Raw.mk (Nat.add_sub_cancel ..)
      have h := ih (l ++ m ++ [d]) [] (ofList m :: parts)
      rw [if_pos hd, if_pos (beq_iff_eq.mpr hd), hback, String.extract_of_valid]
      simpa [-String.ofList_append, Nat.add_assoc] using h
    · have h := ih l (m ++ [d]) parts
      rw [if_neg hd, if_neg (mt beq_iff_eq.mp hd)]
      simpa [-String.ofList_append, Nat.add_assoc] using h

/-- The parts of a text between the occurrences of a character. -/
theorem splitOn_singleton (s : String) (c : Char) :
    s.splitOn (String.singleton c) = (s.toList.splitOn c).map ofList := by
  rw [String.splitOn, if_neg (by simp)]
  simpa [List.splitOn] using splitOnAux_ofList c [] [] s.toList []

/-- A text without the character is one part. -/
theorem splitOn_singleton_of_not_mem {s : String} {c : Char} (h : c ∉ s.toList) :
    s.splitOn (String.singleton c) = [s] := by
  have hone : s.toList.splitOn c = [s.toList] :=
    List.splitOnP_eq_singleton fun d hd => by
      rw [beq_eq_false_iff_ne]
      rintro rfl
      exact h hd
  rw [splitOn_singleton, hone, List.map_singleton, String.ofList_toList]

end QueryCheck.Text
