import QueryCheck.Command.Flag
import QueryCheck.Proofs.Settings.Layers

/-! # What reading a command line gives

Reading arguments sets one flag after the other, so that what every setting of a flag keeps, and
every further argument, holds of all that is read.

* `Keeps`: what settings of the given flags keep;
* `Keeps.parse`: it holds of what is read;
* `proper_parse`: values of the given flags are read, at most one for each, and none is a map. -/

namespace QueryCheck.Command

open QueryCheck.Settings

variable {flags : List Flag} {P : Given → Prop} {g g' : Given}

/-- Setting a flag puts a datum under its name that is no map. -/
theorem Given.exists_of_set {f : Flag} {value : String} (h : g.set f value = .ok g') :
    ∃ d : Datum, d.isMap = false ∧ g' = { g with values := g.values.set f.name d } := by
  unfold Given.set at h
  cases hkind : f.kind with
  | text =>
    simp only [hkind, pure_bind] at h
    exact ⟨.str value, rfl, (Except.ok.inj h).symm⟩
  | number =>
    simp only [hkind] at h
    split at h
    · exact ⟨_, rfl, (Except.ok.inj h).symm⟩
    · cases h
  | switch =>
    simp only [hkind] at h
    split at h
    · exact ⟨_, rfl, (Except.ok.inj h).symm⟩
    · cases h
  | list =>
    simp only [hkind] at h
    split at h
    · exact ⟨_, rfl, (Except.ok.inj h).symm⟩
    · cases h

namespace Flags

/-- What settings of the given flags and further arguments keep. -/
structure Keeps (flags : List Flag) (P : Given → Prop) : Prop where
  set : ∀ g f value g', f ∈ flags → P g → g.set f value = .ok g' → P g'
  arguments : ∀ g as, P g → P { g with arguments := as }

theorem named?_mem {f : Flag} {name : String} (h : named? flags name = some f) : f ∈ flags :=
  List.mem_of_find?_eq_some h

theorem lettered?_mem {f : Flag} {c : Char} (h : lettered? flags c = some f) : f ∈ flags :=
  List.mem_of_find?_eq_some h

theorem exists_of_bind {α β : Type} {x : Except FlagError α} {f : α → Except FlagError β} {b : β}
    (h : x >>= f = .ok b) : ∃ a, x = .ok a ∧ f a = .ok b := by
  cases x with
  | error e => cases h
  | ok a => exact ⟨a, rfl, h⟩

/-- A setting that is handed on together with the remaining arguments. -/
theorem eq_ok_of_pair {x : Except FlagError Given} {rest rest' : List String}
    (h : (do return (← x, rest) : Except FlagError (Given × List String)) = .ok (g', rest')) :
    x = .ok g' := by
  obtain ⟨g, rfl, hg⟩ := exists_of_bind h
  exact congrArg Except.ok (Prod.ext_iff.mp (Except.ok.inj hg)).1

theorem Keeps.readNamed (h : Keeps flags P) (hg : P g) {argument : String} {rest rest' : List String}
    (hread : Flags.readNamed flags argument g rest = .ok (g', rest')) : P g' := by
  unfold Flags.readNamed at hread
  dsimp only at hread
  split at hread
  · cases hread
  · split at hread
    · cases hread
    · next f hf =>
      have hset : ∀ value, g.set f value = .ok g' → P g' :=
        fun value => h.set g f value g' (named?_mem hf) hg
      split at hread
      · exact hset _ (eq_ok_of_pair hread)
      · exact hset _ (eq_ok_of_pair hread)
      · exact hset _ (eq_ok_of_pair hread)
      · cases hread

theorem Keeps.readLetters (h : Keeps flags P) {rest rest' : List String} {letters : List Char}
    (hg : P g) (hread : Flags.readLetters flags g rest letters = .ok (g', rest')) : P g' := by
  fun_induction Flags.readLetters flags g rest letters with
  | case1 g =>
    cases hread
    exact hg
  | case2 => cases hread
  | case3 g c f hf d ds => exact h.set g f _ g' (lettered?_mem hf) hg (eq_ok_of_pair hread)
  | case4 g c f hf cs _ _ g₁ hset ih => exact ih (h.set g f _ g₁ (lettered?_mem hf) hg hset) hread
  | case5 => cases hread
  | case6 g c f hf cs => exact h.set g f _ g' (lettered?_mem hf) hg (eq_ok_of_pair hread)
  | case7 g c f hf => exact h.set g f _ g' (lettered?_mem hf) hg (eq_ok_of_pair hread)
  | case8 => cases hread

theorem Keeps.readAll (h : Keeps flags P) {fuel : Nat} {arguments : List String}
    (hg : P g) (hread : Flags.readAll flags fuel g arguments = .ok g') : P g' := by
  fun_induction Flags.readAll flags fuel g arguments with
  | case1 =>
    cases hread
    exact hg
  | case2 =>
    cases hread
    exact hg
  | case3 fuel g a rest _ ih => exact ih (h.arguments g _ hg) hread
  | case4 fuel g rest =>
    cases hread
    exact h.arguments g _ hg
  | case5 fuel g a rest _ _ _ _ ih =>
    obtain ⟨⟨g₁, rest₁⟩, hnamed, hread⟩ := exists_of_bind hread
    exact ih g₁ rest₁ (h.readNamed hg hnamed) hread
  | case6 fuel g a rest _ _ _ _ ih =>
    obtain ⟨⟨g₁, rest₁⟩, hletters, hread⟩ := exists_of_bind hread
    exact ih g₁ rest₁ (h.readLetters hg hletters) hread

/-- What every setting of a flag keeps holds of all that is read. -/
theorem Keeps.parse (h : Keeps flags P) (hstart : P {}) {arguments : List String}
    (hparse : parse flags arguments = .ok g) : P g :=
  h.readAll hstart hparse

end Flags

/-- Values of the given flags, at most one for each, and no maps. -/
structure Given.Proper (flags : List Flag) (g : Given) : Prop where
  named : ∀ e ∈ g.values, ∃ f ∈ flags, f.name = e.1
  nodup : (g.values.map Prod.fst).Nodup
  flat : g.values.Flat

theorem Given.Proper.mono {more : List Flag} (h : g.Proper flags) (hsub : flags ⊆ more) :
    g.Proper more :=
  ⟨fun e he => (h.named e he).imp fun _ hf => ⟨hsub hf.1, hf.2⟩, h.nodup, h.flat⟩

/-- Values of the given flags are read, at most one for each, and none is a map. -/
theorem proper_parse {arguments : List String} (h : Flags.parse flags arguments = .ok g) :
    g.Proper flags := by
  have hkeeps : Flags.Keeps flags (Given.Proper flags) :=
    { set := by
        intro g f value g' hf hg hset
        obtain ⟨d, hd, rfl⟩ := Given.exists_of_set hset
        refine ⟨fun e he => ?_, Layer.nodup_set hg.nodup, hg.flat.set hd⟩
        obtain rfl | he := Layer.eq_or_mem_of_mem_set he
        · exact ⟨f, hf, rfl⟩
        · exact hg.named e he
      arguments := fun g as hg => ⟨hg.named, hg.nodup, hg.flat⟩ }
  exact hkeeps.parse ⟨by simp, by simp, by simp [Layer.Flat]⟩ h

end QueryCheck.Command
