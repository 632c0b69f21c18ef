import Mathlib.Data.List.Nodup
import QueryCheck.Settings.Load

/-! # Layers, key by key

What a layer says at a key after other data were laid over it. Where those data hold no map, nothing
is joined below a key, so that the last entry of a key decides alone; a key without an entry says
what it said before.

* `get?_overlay`: the last entry of a key above, or else what was said below;
* `get?_combine`: the sources of settings, asked from the last to the first;
* `Flat.overlay`, `nodup_overlay`: what overlaying keeps. -/

namespace QueryCheck.Settings

/-- Whether a datum is a map. -/
def Datum.isMap : Datum → Bool
  | .map _ => true
  | _ => false

theorem Datum.over_of_not_isMap {d : Datum} (h : d.isMap = false) (base : Datum) :
    Datum.over base d = d := by
  cases d with
  | map entries => cases h
  | _ => rfl

namespace Layer

variable {l base upper : Layer} {key other : String} {d : Datum}

/-- A layer without maps. -/
def Flat (l : Layer) : Prop := ∀ e ∈ l, e.2.isMap = false

/-- What the last entry of a key says. -/
def last? (l : Layer) (key : String) : Option Datum := Layer.get? l.reverse key

/-! ### Looking up -/

@[simp] theorem get?_nil : Layer.get? [] key = none := rfl

theorem get?_cons (e : String × Datum) :
    Layer.get? (e :: l) key = if e.1 = key then some e.2 else Layer.get? l key := by
  by_cases h : e.1 = key
  · simp [Layer.get?, h]
  · simp [Layer.get?, h]

theorem get?_append (l l' : Layer) : Layer.get? (l ++ l') key = (l.get? key).or (l'.get? key) := by
  rw [Layer.get?, List.find?_append, Option.map_or]
  rfl

@[simp] theorem last?_nil : Layer.last? [] key = none := rfl

theorem last?_cons (e : String × Datum) :
    Layer.last? (e :: l) key = (Layer.last? l key).or (if e.1 = key then some e.2 else none) := by
  rw [Layer.last?, List.reverse_cons, get?_append, get?_cons, get?_nil]
  rfl

theorem get?_eq_none_iff : l.get? key = none ↔ key ∉ l.map Prod.fst := by
  simp only [Layer.get?, Option.map_eq_none_iff, List.find?_eq_none, beq_iff_eq, List.mem_map,
    not_exists, not_and]

/-- Where no key stands twice, the last entry of a key is its first one. -/
theorem last?_of_nodup (h : (l.map Prod.fst).Nodup) : l.last? key = l.get? key := by
  induction l with
  | nil => rfl
  | cons e l ih =>
    obtain ⟨hfresh, hl⟩ := List.nodup_cons.mp h
    rw [last?_cons, get?_cons, ih hl]
    by_cases he : e.1 = key
    · rw [get?_eq_none_iff.mpr (he ▸ hfresh)]
      rfl
    · rw [if_neg he, if_neg he, Option.or_none]

/-! ### Setting a key -/

theorem map_fst_set (l : Layer) (key : String) (d : Datum) :
    (l.set key d).map Prod.fst =
      if key ∈ l.map Prod.fst then l.map Prod.fst else l.map Prod.fst ++ [key] := by
  have hany : (l.any fun e => e.1 == key) = true ↔ key ∈ l.map Prod.fst := by simp
  unfold Layer.set
  by_cases h : key ∈ l.map Prod.fst
  · rw [if_pos h, if_pos (hany.mpr h), List.map_map]
    refine List.map_congr_left fun e _ => ?_
    by_cases he : e.1 = key <;> simp [he]
  · rw [if_neg h, if_neg (fun ha => h (hany.mp ha)), List.map_append]
    rfl

theorem nodup_set (h : (l.map Prod.fst).Nodup) : ((l.set key d).map Prod.fst).Nodup := by
  rw [map_fst_set]
  split
  · exact h
  · next hkey => exact List.nodup_append.mpr ⟨h, List.nodup_singleton _, by
      rintro a ha b hb rfl
      exact hkey (List.mem_singleton.mp hb ▸ ha)⟩

theorem eq_or_mem_of_mem_set {e : String × Datum} (h : e ∈ l.set key d) : e = (key, d) ∨ e ∈ l := by
  unfold Layer.set at h
  split at h
  · obtain ⟨e', he', rfl⟩ := List.mem_map.mp h
    split
    · exact Or.inl rfl
    · exact Or.inr he'
  · simpa [or_comm] using h

theorem Flat.set (h : l.Flat) (hd : d.isMap = false) : (l.set key d).Flat := by
  intro e he
  obtain rfl | he := eq_or_mem_of_mem_set he
  · exact hd
  · exact h e he

/-- Setting a key says the new datum there and leaves the other keys alone. -/
theorem get?_set : (l.set key d).get? other = if key = other then some d else l.get? other := by
  unfold Layer.set
  by_cases hany : (l.any fun e => e.1 == key) = true
  · rw [if_pos hany]
    -- The entries keep their keys, so that the same entry is found as before.
    have hfst : ∀ e : String × Datum, (if e.1 == key then (key, d) else e).1 = e.1 := by
      intro e
      by_cases he : e.1 = key <;> simp [he]
    unfold Layer.get?
    rw [List.find?_map]
    simp only [Function.comp_def, hfst]
    cases hfound : l.find? fun e => e.1 == other with
    | none =>
      obtain ⟨e, he, hkey⟩ := List.any_eq_true.mp hany
      have hother : key ≠ other := by
        rintro rfl
        exact List.find?_eq_none.mp hfound e he hkey
      rw [if_neg hother]
      rfl
    | some e =>
      obtain rfl : e.1 = other := by simpa using List.find?_some hfound
      by_cases he : e.1 = key
      · simp [he]
      · simp [he, Ne.symm he]
  · have hnone : l.get? key = none := get?_eq_none_iff.mpr (by simpa using hany)
    rw [if_neg hany, get?_append, get?_cons, get?_nil]
    by_cases hother : key = other
    · rw [if_pos hother, if_pos hother, ← hother, hnone]
      rfl
    · rw [if_neg hother, if_neg hother, Option.or_none]

/-! ### Laying data over a layer -/

theorem nodup_overlay (h : (base.map Prod.fst).Nodup) :
    ((Layer.overlay base upper).map Prod.fst).Nodup := by
  induction upper generalizing base with
  | nil => rwa [Layer.overlay]
  | cons e upper ih => rw [Layer.overlay]; exact ih (nodup_set h)

theorem Flat.overlay (hbase : base.Flat) (hupper : upper.Flat) : (Layer.overlay base upper).Flat := by
  induction upper generalizing base with
  | nil => rwa [Layer.overlay]
  | cons e upper ih =>
    obtain ⟨he, hupper⟩ := List.forall_mem_cons.mp hupper
    rw [Layer.overlay, Datum.over_of_not_isMap he]
    exact ih (hbase.set he) hupper

/-- Where the data above hold no map, the last entry of a key decides. -/
theorem get?_overlay (h : upper.Flat) :
    (Layer.overlay base upper).get? key = (upper.last? key).or (base.get? key) := by
  induction upper generalizing base with
  | nil => rfl
  | cons e upper ih =>
    obtain ⟨he, hupper⟩ := List.forall_mem_cons.mp h
    rw [Layer.overlay, Datum.over_of_not_isMap he, ih hupper, get?_set, last?_cons, Option.or_assoc]
    congr 1
    split <;> rfl

end Layer

/-- Flat sources laid over each other say what the last of them says that says anything. -/
theorem get?_combine {key : String} {standard file environment options : Layer}
    (hstandard : standard.Flat) (hfile : file.Flat) (henvironment : environment.Flat)
    (hoptions : options.Flat) :
    (combine [standard, file, environment, options]).get? key =
      (options.last? key).or ((environment.last? key).or
        ((file.last? key).or (standard.last? key))) := by
  simp only [combine, List.foldl_cons, List.foldl_nil]
  rw [Layer.get?_overlay hoptions, Layer.get?_overlay henvironment, Layer.get?_overlay hfile,
    Layer.get?_overlay hstandard, Layer.get?_nil, Option.or_none]

end QueryCheck.Settings
