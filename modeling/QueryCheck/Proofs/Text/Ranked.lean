import Mathlib.Data.List.DropRight
import Mathlib.Order.Basic
import QueryCheck.Text.Suggest

/-! # Suggestions as a ranking

The candidates near a query can be ranked in one way only: the nearest first, and equally near ones
in the order they came in. The scan for the closest candidate keeps the first of the nearest ones,
which is the one at the head of the ranking.

* `Ranking`: a list that ranks the candidates near a query.
* `eq_of_filter_eq`: a list sorted by a key is told by its items of each key.
* `Nearest`, `foldl_closestStep`: what the scan for the closest candidate keeps.
* `suggestions_ranking`: the suggestions are the only ranking, and the closest candidate is at its
  head. -/

namespace QueryCheck.Text

/-! ### Lists sorted by a key -/

section Key

variable {α : Type} (key : α → Nat)

theorem key_le_trans (a b c : α) (hab : decide (key a ≤ key b) = true)
    (hbc : decide (key b ≤ key c) = true) : decide (key a ≤ key c) = true := by
  simp only [decide_eq_true_eq] at hab hbc ⊢
  omega

theorem key_le_total (a b : α) : (decide (key a ≤ key b) || decide (key b ≤ key a)) = true := by
  simp only [Bool.or_eq_true, decide_eq_true_eq]
  omega

theorem pairwise_mergeSort_key (l : List α) :
    (l.mergeSort fun a b => key a ≤ key b).Pairwise fun a b => key a ≤ key b :=
  (List.pairwise_mergeSort (key_le_trans key) (key_le_total key) l).imp of_decide_eq_true

/-- Sorting by a key keeps the items of each key in their order. -/
theorem filter_mergeSort_key (l : List α) (d : Nat) :
    (l.mergeSort fun a b => key a ≤ key b).filter (key · = d) = l.filter (key · = d) := by
  -- The items of one key are a sorted part of the list, so that sorting keeps them.
  have htied : (l.filter (key · = d)).Pairwise fun a b => decide (key a ≤ key b) = true := by
    refine List.pairwise_of_forall_mem_list fun a ha b hb => ?_
    have hka : key a = d := by simpa using (List.mem_filter.mp ha).2
    have hkb : key b = d := by simpa using (List.mem_filter.mp hb).2
    simp [hka, hkb]
  have hsub := List.sublist_mergeSort (key_le_trans key) (key_le_total key) htied
    List.filter_sublist
  have hkept := hsub.filter (key · = d)
  rw [List.filter_filter, funext fun a => Bool.and_self (decide (key a = d))] at hkept
  refine (hkept.eq_of_length ?_).symm
  exact ((List.mergeSort_perm l _).filter _).length_eq.symm

/-- **A list sorted by a key** is told by its items of each key. -/
theorem eq_of_filter_eq : ∀ {l l' : List α}, l.Pairwise (fun a b => key a ≤ key b) →
    l'.Pairwise (fun a b => key a ≤ key b) →
    (∀ d, l.filter (key · = d) = l'.filter (key · = d)) → l = l'
  | [], [], _, _, _ => rfl
  | [], b :: l', _, _, h => by simpa using h (key b)
  | a :: l, [], _, _, h => by simpa using h (key a)
  | a :: l, b :: l', hl, hl', h => by
    rw [List.pairwise_cons] at hl hl'
    -- The lists have the same items, so that each head is in the list of the other one.
    have hmem : ∀ x, x ∈ a :: l ↔ x ∈ b :: l' := by
      intro x
      have hx : x ∈ (a :: l).filter (key · = key x) ↔ x ∈ (b :: l').filter (key · = key x) := by
        rw [h (key x)]
      simpa only [List.mem_filter, decide_true, and_true] using hx
    have hb : b ∈ a :: l := (hmem b).mpr List.mem_cons_self
    have ha : a ∈ b :: l' := (hmem a).mp List.mem_cons_self
    have hab : key a ≤ key b := by
      rcases List.mem_cons.mp hb with rfl | hb
      · exact le_rfl
      · exact hl.1 b hb
    have hba : key b ≤ key a := by
      rcases List.mem_cons.mp ha with rfl | ha
      · exact le_rfl
      · exact hl'.1 a ha
    have hkey : key a = key b := le_antisymm hab hba
    have hhead : a = b := by
      have := h (key a)
      simp only [List.filter_cons, hkey, decide_true, if_true, List.cons.injEq] at this
      exact this.1
    subst hhead
    refine congrArg (a :: ·) (eq_of_filter_eq hl.2 hl'.2 fun d => ?_)
    have := h d
    simp only [List.filter_cons] at this
    split_ifs at this
    · exact (List.cons.inj this).2
    · exact this

end Key

/-! ### Rankings -/

/-- A ranking of the candidates near a query. -/
structure Ranking (query : String) (candidates ranked : List String) : Prop where
  /-- It holds the candidates that are near enough, each as often as it occurs. -/
  count (c : String) : ranked.count c =
    if nameDistance query c ≤ suggestionLimit query then candidates.count c else 0
  /-- None is in front of a nearer one. -/
  nearest_first : ranked.Pairwise fun a b => nameDistance query a ≤ nameDistance query b
  /-- Equally near ones are in the order of the candidates. -/
  stable (d : Nat) (hd : d ≤ suggestionLimit query) :
    ranked.filter (nameDistance query · = d) = candidates.filter (nameDistance query · = d)

/-- The suggestions are the candidates near enough, sorted by their distance. -/
theorem suggestions_eq (query : String) (candidates : List String) :
    suggestions query candidates =
      (candidates.filter (nameDistance query · ≤ suggestionLimit query)).mergeSort
        fun a b => nameDistance query a ≤ nameDistance query b := by
  have hscored : (candidates.map fun c => (c, nameDistance query c)).filter
      (fun c => c.2 ≤ suggestionLimit query) =
      (candidates.filter (nameDistance query · ≤ suggestionLimit query)).map
        fun c => (c, nameDistance query c) := by
    rw [List.filter_map]
    rfl
  have hsorted : ∀ l : List String,
      (l.map fun c => (c, nameDistance query c)).mergeSort (fun a b => a.2 ≤ b.2) =
        (l.mergeSort fun a b => nameDistance query a ≤ nameDistance query b).map
          fun c => (c, nameDistance query c) :=
    fun l => (List.map_mergeSort
      (r := fun a b => decide (nameDistance query a ≤ nameDistance query b)) fun _ _ _ _ => rfl).symm
  unfold suggestions
  simp only [hscored, hsorted, List.map_map]
  exact List.map_id _

/-- Of the suggestions, those at one distance are the candidates at that distance. -/
theorem filter_suggestions (query : String) (candidates : List String) {d : Nat}
    (hd : d ≤ suggestionLimit query) :
    (suggestions query candidates).filter (nameDistance query · = d) =
      candidates.filter (nameDistance query · = d) := by
  rw [suggestions_eq, filter_mergeSort_key, List.filter_filter]
  refine List.filter_congr fun c _ => ?_
  by_cases hc : nameDistance query c = d <;> simp [hc, hd]

theorem mem_suggestions {query c : String} {candidates : List String} :
    c ∈ suggestions query candidates ↔
      c ∈ candidates ∧ nameDistance query c ≤ suggestionLimit query := by
  rw [suggestions_eq, List.mem_mergeSort, List.mem_filter, decide_eq_true_eq]

theorem ranking_suggestions (query : String) (candidates : List String) :
    Ranking query candidates (suggestions query candidates) where
  count c := by
    rw [suggestions_eq, (List.mergeSort_perm _ _).count_eq]
    split_ifs with hc
    · exact List.count_filter (by simpa using hc)
    · exact List.count_eq_zero.mpr fun hmem => hc (by simpa using (List.mem_filter.mp hmem).2)
  nearest_first := by
    rw [suggestions_eq]
    exact pairwise_mergeSort_key (nameDistance query) _
  stable _ hd := filter_suggestions query candidates hd

/-- **There is one ranking.** -/
theorem Ranking.unique {query : String} {candidates ranked ranked' : List String}
    (h : Ranking query candidates ranked) (h' : Ranking query candidates ranked') :
    ranked = ranked' := by
  -- Too far away a ranking holds nothing.
  have hfar : ∀ {ranked : List String}, Ranking query candidates ranked → ∀ d,
      suggestionLimit query < d → ranked.filter (nameDistance query · = d) = [] := by
    intro ranked h d hd
    refine List.filter_eq_nil_iff.mpr fun c hc hcd => ?_
    have hcd : nameDistance query c = d := of_decide_eq_true hcd
    have hcount := h.count c
    rw [if_neg (by omega), List.count_eq_zero] at hcount
    exact hcount hc
  refine eq_of_filter_eq (nameDistance query) h.nearest_first h'.nearest_first fun d => ?_
  by_cases hd : d ≤ suggestionLimit query
  · rw [h.stable d hd, h'.stable d hd]
  · rw [hfar h d (by omega), hfar h' d (by omega)]

/-! ### The closest candidate -/

/-- The first of the candidates nearest to a query. -/
def Nearest (query : String) (candidates : List String) (c : String) : Prop :=
  ∃ before after, candidates = before ++ c :: after ∧
    (∀ a ∈ before, nameDistance query c < nameDistance query a) ∧
    ∀ a ∈ after, nameDistance query c ≤ nameDistance query a

theorem Nearest.le {query c : String} {candidates : List String} (h : Nearest query candidates c) :
    ∀ a ∈ candidates, nameDistance query c ≤ nameDistance query a := by
  obtain ⟨before, after, rfl, hbefore, hafter⟩ := h
  intro a ha
  rcases List.mem_append.mp ha with ha | ha
  · exact (hbefore a ha).le
  · rcases List.mem_cons.mp ha with rfl | ha
    · exact le_rfl
    · exact hafter a ha

/-- The first of the nearest candidates is the first at its distance. -/
theorem Nearest.head_filter {query c : String} {candidates : List String}
    (h : Nearest query candidates c) :
    (candidates.filter (nameDistance query · = nameDistance query c)).head? = some c := by
  obtain ⟨before, after, rfl, hbefore, -⟩ := h
  have hnone : before.filter (nameDistance query · = nameDistance query c) = [] :=
    List.filter_eq_nil_iff.mpr fun a ha heq => (hbefore a ha).ne' (of_decide_eq_true heq)
  rw [List.filter_append, hnone, List.nil_append, List.filter_cons_of_pos (by simp)]
  rfl

theorem Nearest.mem {query c : String} {candidates : List String} (h : Nearest query candidates c) :
    c ∈ candidates := by
  obtain ⟨before, after, rfl, -⟩ := h
  simp

/-- There is one first nearest candidate. -/
theorem Nearest.unique {query c c' : String} {candidates : List String}
    (h : Nearest query candidates c) (h' : Nearest query candidates c') : c = c' := by
  have hdistance : nameDistance query c = nameDistance query c' :=
    le_antisymm (h.le c' h'.mem) (h'.le c h.mem)
  have hhead := h.head_filter
  rw [hdistance, h'.head_filter] at hhead
  exact (Option.some.inj hhead).symm

/-- **The scan keeps the first of the nearest candidates**, with its distance. -/
theorem foldl_closestStep (query : String) (candidates : List String) :
    candidates = [] ∧ candidates.foldl (closestStep query) none = none ∨
      ∃ c, candidates.foldl (closestStep query) none = some (c, nameDistance query c) ∧
        Nearest query candidates c := by
  induction candidates using List.reverseRecOn with
  | nil => exact .inl ⟨rfl, rfl⟩
  | append_singleton cs x ih =>
    rw [List.foldl_concat]
    right
    rcases ih with ⟨rfl, hnone⟩ | ⟨c, hc, hnearest⟩
    · exact ⟨x, by rw [hnone, closestStep], [], [], rfl, nofun, nofun⟩
    · rw [hc, closestStep]
      by_cases hx : nameDistance query x < nameDistance query c
      · refine ⟨x, by simp [hx], cs, [], rfl, fun a ha => ?_, nofun⟩
        have := hnearest.le a ha
        omega
      · obtain ⟨before, after, rfl, hbefore, hafter⟩ := hnearest
        refine ⟨c, by simp [hx], before, after ++ [x], by simp, hbefore, fun a ha => ?_⟩
        rcases List.mem_append.mp ha with ha | ha
        · exact hafter a ha
        · rw [List.mem_singleton.mp ha]
          omega

/-- **A candidate is offered** if and only if it is the first of the nearest ones and within the
limit. -/
theorem closest?_eq_some_iff {query c : String} {candidates : List String} {limit : Int} :
    closest? query candidates limit = some c ↔
      Nearest query candidates c ∧ (nameDistance query c : Int) ≤ limit := by
  rw [closest?]
  rcases foldl_closestStep query candidates with ⟨rfl, hnone⟩ | ⟨c', hc', hnearest⟩
  · refine ⟨fun h => by simp [hnone] at h, fun h => ?_⟩
    cases h.1.mem
  · have hsome : (do
        let best ← candidates.foldl (closestStep query) none
        if (best.2 : Int) ≤ limit then some best.1 else none) = some c ↔
          (nameDistance query c' : Int) ≤ limit ∧ c' = c := by
      rw [hc', Option.bind_eq_bind, Option.bind_some, Option.ite_none_right_eq_some, Option.some.injEq]
    rw [hsome]
    constructor
    · rintro ⟨hlimit, rfl⟩
      exact ⟨hnearest, hlimit⟩
    · rintro ⟨hc, hlimit⟩
      obtain rfl := hnearest.unique hc
      exact ⟨hlimit, rfl⟩

/-- **Some candidate is offered** if and only if one is within the limit. -/
theorem exists_closest?_iff {query : String} {candidates : List String} {limit : Int} :
    (∃ c, closest? query candidates limit = some c) ↔
      ∃ c ∈ candidates, (nameDistance query c : Int) ≤ limit := by
  simp only [closest?_eq_some_iff]
  constructor
  · rintro ⟨c, hc, hlimit⟩
    exact ⟨c, hc.mem, hlimit⟩
  · rintro ⟨c, hc, hlimit⟩
    rcases foldl_closestStep query candidates with ⟨rfl, -⟩ | ⟨c', -, hnearest⟩
    · cases hc
    · have hle := hnearest.le c hc
      exact ⟨c', hnearest, by omega⟩

/-- **The closest candidate** is the first of the nearest ones, if it is within the limit. -/
theorem closest_eq (query : String) (candidates : List String) (limit : Int) :
    candidates = [] ∧ closest query candidates limit = "" ∨
      ∃ c, Nearest query candidates c ∧
        closest query candidates limit = if (nameDistance query c : Int) ≤ limit then c else "" := by
  rw [closest, closest?]
  rcases foldl_closestStep query candidates with ⟨rfl, hnone⟩ | ⟨c, hc, hnearest⟩
  · exact .inl ⟨rfl, by rw [hnone]; rfl⟩
  · refine .inr ⟨c, hnearest, ?_⟩
    rw [hc]
    by_cases hlimit : (nameDistance query c : Int) ≤ limit <;> simp [hlimit]

/-- The first of the nearest candidates is at the head of the suggestions, if it is near enough. -/
theorem Nearest.head_suggestions {query c : String} {candidates : List String}
    (h : Nearest query candidates c) (hc : nameDistance query c ≤ suggestionLimit query) :
    (suggestions query candidates).head? = some c := by
  have hmem : c ∈ suggestions query candidates := by
    obtain ⟨before, after, rfl, -⟩ := h
    exact mem_suggestions.mpr ⟨by simp, hc⟩
  have htied := filter_suggestions query candidates hc
  have hsorted := (ranking_suggestions query candidates).nearest_first
  have hfrom : ∀ a ∈ suggestions query candidates, a ∈ candidates :=
    fun a ha => (mem_suggestions.mp ha).1
  revert hmem htied hsorted hfrom
  generalize suggestions query candidates = ranked
  intro hmem htied hsorted hfrom
  cases ranked with
  | nil => cases hmem
  | cons a ranked =>
    have ha : nameDistance query a = nameDistance query c := by
      refine le_antisymm ?_ (h.le a (hfrom a List.mem_cons_self))
      rcases List.mem_cons.mp hmem with rfl | hmem
      · exact le_rfl
      · exact (List.pairwise_cons.mp hsorted).1 c hmem
    rw [List.filter_cons_of_pos (by simp [ha])] at htied
    have hhead := h.head_filter
    rw [← htied] at hhead
    exact hhead

/-- **Suggestions are ranked, and the closest candidate leads them.** The suggestions for a query
are the one ranking of the candidates near it. Within the distance a suggestion may have, the
closest candidate is the first suggestion, and no text where there is none. For any limit it is the
first of the nearest candidates when this is within the limit, and else no text. -/
theorem suggestions_ranking (query : String) (candidates : List String) :
    (∀ ranked, Ranking query candidates ranked ↔ ranked = suggestions query candidates) ∧
      closest query candidates (suggestionLimit query) =
        ((suggestions query candidates).head?).getD "" ∧
      ∀ limit : Int,
        candidates = [] ∧ closest query candidates limit = "" ∨
          ∃ c, Nearest query candidates c ∧ closest query candidates limit =
            if (nameDistance query c : Int) ≤ limit then c else "" := by
  refine ⟨fun ranked => ⟨fun h => h.unique (ranking_suggestions query candidates), ?_⟩, ?_,
    closest_eq query candidates⟩
  · rintro rfl
    exact ranking_suggestions query candidates
  · rcases closest_eq query candidates (suggestionLimit query) with ⟨rfl, hnone⟩ | ⟨c, hc, heq⟩
    · rw [hnone, suggestions_eq]
      simp
    · rw [heq]
      split_ifs with hlimit
      · rw [hc.head_suggestions (by omega), Option.getD_some]
      · -- All candidates are as far away as the nearest one at least.
        have hnil : suggestions query candidates = [] := by
          refine List.eq_nil_iff_forall_not_mem.mpr fun a ha => ?_
          have := mem_suggestions.mp ha
          have := hc.le a this.1
          omega
        rw [hnil]
        rfl

end QueryCheck.Text
