import QueryCheck.Proofs.Walk.Calls

/-! # The schedule of a walk

A tree and the handlers of a plan fix a schedule: everything there is to call, depth first. At a
node the tracker comes first, then the handlers for entering in order, then the schedules of the
branches, then the handlers for leaving in order, and the tracker again. Handlers answer with
numbers, and what they answer decides how much of the schedule a walk goes through. An answer to
skip, given while a node is entered, removes what is scheduled below the node; an answer to stop
cuts the schedule right after it; every other answer changes nothing.

A site of the schedule is told by the address of its node, the way to it through the tree. A node
that stands in two places of a tree has two addresses.

* `CodedPlan.schedule`: everything there is to call.
* `CodedPlan.asked`: the answers at some sites, each given the state the one before it left.
* `Cut`: answers that go through a list of sites up to the first one that stops.
* `entered_schedule`, `left_schedule`: a schedule enters and leaves every occurrence of a node. -/

namespace QueryCheck.Walk

open QueryCheck.Syntax (Kind Node Rose)

variable {σ : Type}

/-! ### Handlers that answer with numbers -/

/-- A handler that answers with the number of an action. -/
abbrev CodedHandler (σ : Type) := Node → σ → Int × σ

/-- The handler that does the same and answers with the action of the number. -/
def CodedHandler.handler (h : CodedHandler σ) : Handler σ := fun n s =>
  (Action.ofCode (h n s).1, (h n s).2)

/-- A plan whose handlers answer with numbers. -/
structure CodedPlan (σ : Type) where
  enter : Kind → List (CodedHandler σ)
  leave : Kind → List (CodedHandler σ)
  tracker : Tracker σ := .none

/-- The plan with the actions of the numbers and some depth limit. -/
def CodedPlan.plan (c : CodedPlan σ) (maxDepth : Int) : Plan σ where
  table := ⟨fun k => (c.enter k).map CodedHandler.handler,
    fun k => (c.leave k).map CodedHandler.handler⟩
  tracker := c.tracker
  maxDepth := maxDepth

theorem ofCode_eq_stop {code : Int} : Action.ofCode code = .stop ↔ code = 2 := by
  unfold Action.ofCode
  split <;> simp_all

theorem ofCode_eq_skip {code : Int} : Action.ofCode code = .skip ↔ code = 1 := by
  unfold Action.ofCode
  split <;> simp_all

/-! ### Sites -/

/-- When something is called at a node. A handler is told by its place among those of its kind. -/
inductive Moment where
  | enter
  | entering (place : Nat)
  | leaving (place : Nat)
  | leave

/-- Whether a handler for entering is called. -/
def Moment.isEntering : Moment → Bool
  | .entering _ => true
  | _ => false

/-- A place of a schedule. The address of a node gives, for every node on the way to it, its place
among the branches of the one above, innermost first. -/
structure Site where
  addr : List Nat
  node : Node
  moment : Moment

/-- Whether an address lies below another. -/
def isBelow (addr lower : List Nat) : Bool :=
  addr.isSuffixOf lower && decide (addr.length < lower.length)

/-- Whether an answer to skip at a site removes another site. -/
def Site.clears (x y : Site) : Bool := x.moment.isEntering && isBelow x.addr y.addr

/-- The sites of the first handlers of a node at the moments they are called. -/
def handlerSites (addr : List Nat) (n : Node) (moment : Nat → Moment) (count : Nat) : List Site :=
  (List.range count).map fun place => ⟨addr, n, moment place⟩

namespace CodedPlan

variable (c : CodedPlan σ)

/-- What is to be called before the branches of a node. -/
def opening (addr : List Nat) (n : Node) : List Site :=
  ⟨addr, n, .enter⟩ :: handlerSites addr n .entering (c.enter n.kind).length

/-- What is to be called after the branches of a node. -/
def closing (addr : List Nat) (n : Node) : List Site :=
  handlerSites addr n .leaving (c.leave n.kind).length ++ [⟨addr, n, .leave⟩]

mutual

/-- **The schedule** of a tree at an address. -/
def schedule (addr : List Nat) : Rose Node → List Site
  | .mk n ts => c.opening addr n ++ scheduleAll addr 0 ts ++ c.closing addr n

/-- The schedules of branches one after the other, the first of which has the given place. -/
def scheduleAll (addr : List Nat) (place : Nat) : List (Rose Node) → List Site
  | [] => []
  | t :: ts => schedule (place :: addr) t ++ scheduleAll addr (place + 1) ts

end

/-- What the handler at a place answers, and the state it leaves. -/
def askAt (hs : List (CodedHandler σ)) (place : Nat) (n : Node) (s : σ) : Int × σ :=
  match hs[place]? with
  | some h => h n s
  | none => (0, s)

/-- What is answered at a site, and the state that is left. The tracker only changes the state. -/
def ask (x : Site) (s : σ) : Int × σ :=
  match x.moment with
  | .enter => (0, c.tracker.enter x.node s)
  | .entering place => askAt (c.enter x.node.kind) place x.node s
  | .leaving place => askAt (c.leave x.node.kind) place x.node s
  | .leave => (0, c.tracker.leave x.node s)

end CodedPlan

/-- An answer: where it is given, for which state, and its number. -/
structure Answer (σ : Type) where
  site : Site
  given : σ
  code : Int

namespace Answer

/-- The call that is answered. -/
def call (a : Answer σ) : Call σ :=
  match a.site.moment with
  | .enter => .enter a.site.node
  | .entering place => .entering a.site.node place a.given
  | .leaving place => .leaving a.site.node place a.given
  | .leave => .leave a.site.node

/-- Whether an answer is to stop. -/
def stops (a : Answer σ) : Bool := a.code == 2

/-- Whether an answer is to skip and given while a node is entered. -/
def skips (a : Answer σ) : Bool := a.code == 1 && a.site.moment.isEntering

/-- Whether an answer removes a site from the schedule: it skips what is below its node. -/
def removes (a : Answer σ) (x : Site) : Bool := a.skips && isBelow a.site.addr x.addr

end Answer

/-- Whether a site is removed by none of some answers. -/
def kept (answers : List (Answer σ)) (x : Site) : Bool := answers.all fun a => !a.removes x

/-- **Answers at a list of sites that is cut** right after the first one that stops. -/
structure Cut (answers : List (Answer σ)) (full : List Site) : Prop where
  starts : answers.map Answer.site <+: full
  going : ∀ a ∈ answers.dropLast, a.stops = false
  whole : (∀ a ∈ answers, a.stops = false) → answers.map Answer.site = full

namespace CodedPlan

variable (c : CodedPlan σ)

/-- The answers at some sites, one after the other. -/
def asked : List Site → σ → List (Answer σ)
  | [], _ => []
  | x :: xs, s => ⟨x, s, (c.ask x s).1⟩ :: asked xs (c.ask x s).2

/-- The state after some sites. -/
def after (sites : List Site) (s : σ) : σ := sites.foldl (fun s x => (c.ask x s).2) s

/-- The calls at some sites, and those that tell the tracker about nodes that are left because the
walk has ended. -/
def calls (sites : List Site) (unwound : List Node) (s : σ) : List (Call σ) :=
  (c.asked sites s).map Answer.call ++ unwound.map Call.leave

end CodedPlan

/-! ### Answers one after the other -/

section Asked

variable {c : CodedPlan σ} {s : σ}

@[simp] theorem map_site_asked : ∀ (sites : List Site) (s : σ),
    (c.asked sites s).map Answer.site = sites
  | [], _ => rfl
  | x :: xs, s => by rw [CodedPlan.asked, List.map_cons, map_site_asked xs]

theorem asked_append : ∀ (xs ys : List Site) (s : σ),
    c.asked (xs ++ ys) s = c.asked xs s ++ c.asked ys (c.after xs s)
  | [], _, _ => rfl
  | x :: xs, ys, s => by
    rw [List.cons_append, CodedPlan.asked, asked_append xs ys]
    rfl

theorem after_append (xs ys : List Site) (s : σ) :
    c.after (xs ++ ys) s = c.after ys (c.after xs s) := List.foldl_append

theorem calls_append (xs ys : List Site) (unwound : List Node) (s : σ) :
    c.calls (xs ++ ys) unwound s = c.calls xs [] s ++ c.calls ys unwound (c.after xs s) := by
  simp [CodedPlan.calls, asked_append]

theorem calls_unwind (sites : List Site) (unwound : List Node) (n : Node) (s : σ) :
    c.calls sites (unwound ++ [n]) s = c.calls sites unwound s ++ [.leave n] := by
  simp [CodedPlan.calls]

end Asked

/-! ### Cutting a list of sites -/

namespace Cut

variable {answers more : List (Answer σ)} {full rest : List Site}

theorem nil : Cut ([] : List (Answer σ)) [] := ⟨List.prefix_rfl, by simp, by simp⟩

theorem single (a : Answer σ) : Cut [a] [a.site] := ⟨List.prefix_rfl, by simp, by simp⟩

/-- Answers that have stopped do not go on to further sites. -/
theorem stop (h : Cut answers full) (hstop : ∃ a ∈ answers, a.stops = true) (rest : List Site) :
    Cut answers (full ++ rest) := by
  refine ⟨h.starts.trans (List.prefix_append ..), h.going, fun hall => ?_⟩
  obtain ⟨a, ha, hs⟩ := hstop
  rw [hall a ha] at hs
  cases hs

/-- Answers that have not stopped go on to further sites. -/
theorem append (h : Cut answers full) (hgo : ∀ a ∈ answers, a.stops = false)
    (hmore : Cut more rest) : Cut (answers ++ more) (full ++ rest) := by
  have hwhole := h.whole hgo
  refine ⟨?_, ?_, ?_⟩
  · rw [List.map_append, hwhole]
    exact (List.prefix_append_right_inj full).mpr hmore.starts
  · intro a ha
    by_cases hnil : more = []
    · rw [hnil, List.append_nil] at ha
      exact h.going a ha
    · rw [List.dropLast_append_of_ne_nil hnil, List.mem_append] at ha
      rcases ha with ha | ha
      · exact hgo a ha
      · exact hmore.going a ha
  · intro hall
    rw [List.map_append, hwhole, hmore.whole fun a ha => hall a (by simp [ha])]

theorem site_mem (h : Cut answers full) {a : Answer σ} (ha : a ∈ answers) : a.site ∈ full :=
  h.starts.subset (List.mem_map_of_mem ha)

end Cut

/-! ### Keeping sites -/

theorem kept_append (as bs : List (Answer σ)) (x : Site) :
    kept (as ++ bs) x = (kept as x && kept bs x) := List.all_append

theorem kept_of_removes_eq_false {answers : List (Answer σ)} {x : Site}
    (h : ∀ a ∈ answers, a.removes x = false) : kept answers x = true :=
  List.all_eq_true.mpr fun a ha => by rw [h a ha]; rfl

theorem filter_kept_eq_self {answers : List (Answer σ)} {full : List Site}
    (h : ∀ a ∈ answers, ∀ x ∈ full, a.removes x = false) : full.filter (kept answers) = full :=
  List.filter_eq_self.mpr fun x hx => kept_of_removes_eq_false fun a ha => h a ha x hx

/-- When neither answers remove sites of the others, each list of sites is left to its own. -/
theorem filter_kept_append {as bs : List (Answer σ)} {xs ys : List Site}
    (hys : ∀ a ∈ as, ∀ y ∈ ys, a.removes y = false)
    (hxs : ∀ b ∈ bs, ∀ x ∈ xs, b.removes x = false) :
    (xs ++ ys).filter (kept (as ++ bs)) = xs.filter (kept as) ++ ys.filter (kept bs) := by
  rw [List.filter_append]
  congr 1
  · refine List.filter_congr fun x hx => ?_
    rw [kept_append, kept_of_removes_eq_false fun b hb => hxs b hb x hx, Bool.and_true]
  · refine List.filter_congr fun y hy => ?_
    rw [kept_append, kept_of_removes_eq_false fun a ha => hys a ha y hy, Bool.true_and]

theorem Answer.removes_eq_false {a : Answer σ} {x : Site} (h : a.site.clears x = false) :
    a.removes x = false := by
  rw [Site.clears] at h
  rw [Answer.removes, Answer.skips, Bool.and_assoc, h, Bool.and_false]

theorem Answer.removes_eq_false_of_code {a : Answer σ} {x : Site} (h : a.code ≠ 1) :
    a.removes x = false := by
  rw [Answer.removes, Answer.skips, beq_false_of_ne h, Bool.false_and, Bool.false_and]

/-! ### Addresses -/

section Addresses

theorem isBelow_self (addr : List Nat) : isBelow addr addr = false := by simp [isBelow]

theorem addr_of_mem_handlerSites {addr : List Nat} {n : Node} {moment : Nat → Moment} {count : Nat}
    {x : Site} (hx : x ∈ handlerSites addr n moment count) : x.addr = addr := by
  obtain ⟨i, -, rfl⟩ := List.mem_map.mp hx
  rfl

theorem isBelow_of_cons_suffix {i : Nat} {addr lower : List Nat} (h : i :: addr <:+ lower) :
    isBelow addr lower = true := by
  have hlength := h.length_le
  rw [List.length_cons] at hlength
  rw [isBelow, Bool.and_eq_true, List.isSuffixOf_iff_suffix, decide_eq_true_iff]
  exact ⟨(List.suffix_cons i addr).trans h, by omega⟩

/-- What stands below an address is longer. -/
theorem isBelow_eq_false_of_length {addr lower : List Nat} (h : lower.length ≤ addr.length) :
    isBelow addr lower = false := by
  rw [isBelow, decide_eq_false (by omega), Bool.and_false]

/-- Addresses in different branches are not below each other. -/
theorem isBelow_eq_false_of_branches {i j : Nat} (hij : i ≠ j) {addr x y : List Nat}
    (hx : i :: addr <:+ x) (hy : j :: addr <:+ y) : isBelow x y = false := by
  by_contra hne
  rw [Bool.not_eq_false, isBelow, Bool.and_eq_true, List.isSuffixOf_iff_suffix] at hne
  have hsame : i :: addr = j :: addr :=
    (List.suffix_of_suffix_length_le (hx.trans hne.1) hy (by simp)).eq_of_length (by simp)
  exact hij (List.cons.inj hsame).1

variable (c : CodedPlan σ)

theorem addr_of_mem_opening {addr : List Nat} {n : Node} {x : Site} (hx : x ∈ c.opening addr n) :
    x.addr = addr := by
  rcases List.mem_cons.mp hx with rfl | hx
  · rfl
  · exact addr_of_mem_handlerSites hx

theorem addr_of_mem_closing {addr : List Nat} {n : Node} {x : Site} (hx : x ∈ c.closing addr n) :
    x.addr = addr := by
  rcases List.mem_append.mp hx with hx | hx
  · exact addr_of_mem_handlerSites hx
  · rw [List.mem_singleton.mp hx]

/-- Nothing is skipped when nodes are left. -/
theorem clears_of_mem_closing {addr : List Nat} {n : Node} {x : Site} (hx : x ∈ c.closing addr n)
    (y : Site) : x.clears y = false := by
  have hmoment : x.moment.isEntering = false := by
    rcases List.mem_append.mp hx with hx | hx
    · obtain ⟨i, -, rfl⟩ := List.mem_map.mp hx
      rfl
    · rw [List.mem_singleton.mp hx]
      rfl
  rw [Site.clears, hmoment, Bool.false_and]

mutual

/-- The sites of a schedule are at its address and below. -/
theorem suffix_of_mem_schedule : ∀ (t : Rose Node) (addr : List Nat),
    ∀ x ∈ c.schedule addr t, addr <:+ x.addr
  | .mk n ts, addr, x, hx => by
    rw [CodedPlan.schedule, List.mem_append, List.mem_append] at hx
    rcases hx with (hx | hx) | hx
    · exact (addr_of_mem_opening c hx).symm ▸ List.suffix_rfl
    · obtain ⟨j, -, hj⟩ := suffix_of_mem_scheduleAll ts addr 0 x hx
      exact (List.suffix_cons j addr).trans hj
    · exact (addr_of_mem_closing c hx).symm ▸ List.suffix_rfl

theorem suffix_of_mem_scheduleAll : ∀ (ts : List (Rose Node)) (addr : List Nat) (place : Nat),
    ∀ x ∈ c.scheduleAll addr place ts, ∃ j, place ≤ j ∧ j :: addr <:+ x.addr
  | [], _, _, x, hx => by
    rw [CodedPlan.scheduleAll] at hx
    cases hx
  | t :: ts, addr, place, x, hx => by
    rw [CodedPlan.scheduleAll, List.mem_append] at hx
    rcases hx with hx | hx
    · exact ⟨place, Nat.le_refl _, suffix_of_mem_schedule t (place :: addr) x hx⟩
    · obtain ⟨j, hj, hsuffix⟩ := suffix_of_mem_scheduleAll ts addr (place + 1) x hx
      exact ⟨j, by omega, hsuffix⟩

end

/-- The schedule of a branch and those of later branches are apart. -/
theorem isBelow_of_mem_branches {addr : List Nat} {place : Nat} {t : Rose Node}
    {ts : List (Rose Node)} {x y : Site} (hx : x ∈ c.schedule (place :: addr) t)
    (hy : y ∈ c.scheduleAll addr (place + 1) ts) :
    isBelow x.addr y.addr = false ∧ isBelow y.addr x.addr = false := by
  have hxs := suffix_of_mem_schedule c t _ x hx
  obtain ⟨j, hj, hys⟩ := suffix_of_mem_scheduleAll c ts _ _ y hy
  exact ⟨isBelow_eq_false_of_branches (by omega) hxs hys,
    isBelow_eq_false_of_branches (by omega) hys hxs⟩

end Addresses

/-! ### Occurrences -/

mutual

/-- The occurrences of the nodes of a tree, each with its address. -/
def occurrences (addr : List Nat) : Rose Node → List (List Nat × Node)
  | .mk n ts => (addr, n) :: occurrencesAll addr 0 ts

/-- The occurrences in branches one after the other, the first of which has the given place. -/
def occurrencesAll (addr : List Nat) (place : Nat) : List (Rose Node) → List (List Nat × Node)
  | [] => []
  | t :: ts => occurrences (place :: addr) t ++ occurrencesAll addr (place + 1) ts

end

mutual

/-- The nodes that occur are the nodes of the tree. -/
theorem map_snd_occurrences : ∀ (t : Rose Node) (addr : List Nat),
    (occurrences addr t).map Prod.snd = t.labels
  | .mk n ts, addr => by
    rw [occurrences, Rose.labels, List.map_cons, map_snd_occurrencesAll ts]

theorem map_snd_occurrencesAll : ∀ (ts : List (Rose Node)) (addr : List Nat) (place : Nat),
    (occurrencesAll addr place ts).map Prod.snd = Rose.labelsOfAll ts
  | [], _, _ => by rw [occurrencesAll, Rose.labelsOfAll, List.map_nil]
  | t :: ts, addr, place => by
    rw [occurrencesAll, Rose.labelsOfAll, List.map_append, map_snd_occurrences t,
      map_snd_occurrencesAll ts]

end

mutual

theorem suffix_of_mem_occurrences : ∀ (t : Rose Node) (addr : List Nat),
    ∀ x ∈ occurrences addr t, addr <:+ x.1
  | .mk n ts, addr, x, hx => by
    rw [occurrences, List.mem_cons] at hx
    rcases hx with rfl | hx
    · exact List.suffix_rfl
    · obtain ⟨j, -, hj⟩ := suffix_of_mem_occurrencesAll ts addr 0 x hx
      exact (List.suffix_cons j addr).trans hj

theorem suffix_of_mem_occurrencesAll : ∀ (ts : List (Rose Node)) (addr : List Nat) (place : Nat),
    ∀ x ∈ occurrencesAll addr place ts, ∃ j, place ≤ j ∧ j :: addr <:+ x.1
  | [], _, _, x, hx => by
    rw [occurrencesAll] at hx
    cases hx
  | t :: ts, addr, place, x, hx => by
    rw [occurrencesAll, List.mem_append] at hx
    rcases hx with hx | hx
    · exact ⟨place, Nat.le_refl _, suffix_of_mem_occurrences t (place :: addr) x hx⟩
    · obtain ⟨j, hj, hsuffix⟩ := suffix_of_mem_occurrencesAll ts addr (place + 1) x hx
      exact ⟨j, by omega, hsuffix⟩

end

mutual

/-- **Every occurrence has its own address.** -/
theorem nodup_occurrences : ∀ (t : Rose Node) (addr : List Nat),
    ((occurrences addr t).map Prod.fst).Nodup
  | .mk n ts, addr => by
    rw [occurrences, List.map_cons, List.nodup_cons]
    refine ⟨fun hmem => ?_, nodup_occurrencesAll ts addr 0⟩
    obtain ⟨x, hx, heq⟩ := List.mem_map.mp hmem
    obtain ⟨j, -, hj⟩ := suffix_of_mem_occurrencesAll ts addr 0 x hx
    have hlength := hj.length_le
    simp only [heq, List.length_cons] at hlength
    omega

theorem nodup_occurrencesAll : ∀ (ts : List (Rose Node)) (addr : List Nat) (place : Nat),
    ((occurrencesAll addr place ts).map Prod.fst).Nodup
  | [], _, _ => by
    rw [occurrencesAll, List.map_nil]
    exact List.nodup_nil
  | t :: ts, addr, place => by
    rw [occurrencesAll, List.map_append, List.nodup_append]
    refine ⟨nodup_occurrences t (place :: addr), nodup_occurrencesAll ts addr (place + 1), ?_⟩
    intro a ha b hb hab
    obtain ⟨x, hx, rfl⟩ := List.mem_map.mp ha
    obtain ⟨y, hy, rfl⟩ := List.mem_map.mp hb
    -- an address in one branch is not one in a later branch
    obtain ⟨j, hj, hys⟩ := suffix_of_mem_occurrencesAll ts addr (place + 1) y hy
    have hxs := suffix_of_mem_occurrences t (place :: addr) x hx
    rw [hab] at hxs
    have hsame : place :: addr = j :: addr :=
      (List.suffix_of_suffix_length_le hxs hys (by simp)).eq_of_length (by simp)
    have := (List.cons.inj hsame).1
    omega

end

/-- The occurrence that is entered at a site, if one is. -/
def Site.entered? (x : Site) : Option (List Nat × Node) :=
  match x.moment with
  | .enter => some (x.addr, x.node)
  | _ => none

/-- The occurrence that is left at a site, if one is. -/
def Site.left? (x : Site) : Option (List Nat × Node) :=
  match x.moment with
  | .leave => some (x.addr, x.node)
  | _ => none

section Occurrences

variable (c : CodedPlan σ)

theorem filterMap_handlerSites {addr : List Nat} {n : Node} {moment : Nat → Moment} (count : Nat)
    {f : Site → Option (List Nat × Node)} (hf : ∀ i, f ⟨addr, n, moment i⟩ = none) :
    (handlerSites addr n moment count).filterMap f = [] := by
  rw [List.filterMap_eq_nil_iff]
  intro x hx
  obtain ⟨i, -, rfl⟩ := List.mem_map.mp hx
  exact hf i

mutual

/-- **A schedule enters** the occurrences of the nodes of its tree in order. -/
theorem entered_schedule : ∀ (t : Rose Node) (addr : List Nat),
    (c.schedule addr t).filterMap Site.entered? = occurrences addr t
  | .mk n ts, addr => by
    have hopening : (c.opening addr n).filterMap Site.entered? = [(addr, n)] := by
      have henter : Site.entered? ⟨addr, n, .enter⟩ = some (addr, n) := rfl
      rw [CodedPlan.opening, List.filterMap_cons_some henter,
        filterMap_handlerSites _ fun _ => rfl]
    have hclosing : (c.closing addr n).filterMap Site.entered? = [] := by
      rw [CodedPlan.closing, List.filterMap_append, filterMap_handlerSites _ fun _ => rfl]
      rfl
    rw [CodedPlan.schedule, occurrences, List.filterMap_append, List.filterMap_append, hopening,
      hclosing, entered_scheduleAll ts, List.append_nil]
    rfl

theorem entered_scheduleAll : ∀ (ts : List (Rose Node)) (addr : List Nat) (place : Nat),
    (c.scheduleAll addr place ts).filterMap Site.entered? = occurrencesAll addr place ts
  | [], _, _ => by rw [CodedPlan.scheduleAll, occurrencesAll, List.filterMap_nil]
  | t :: ts, addr, place => by
    rw [CodedPlan.scheduleAll, occurrencesAll, List.filterMap_append, entered_schedule t,
      entered_scheduleAll ts]

end

mutual

/-- **A schedule leaves** the occurrences of the nodes of its tree, each once. -/
theorem left_schedule : ∀ (t : Rose Node) (addr : List Nat),
    ((c.schedule addr t).filterMap Site.left?).Perm (occurrences addr t)
  | .mk n ts, addr => by
    have hopening : (c.opening addr n).filterMap Site.left? = [] := by
      rw [CodedPlan.opening, List.filterMap_cons, filterMap_handlerSites _ fun _ => rfl]
      rfl
    have hclosing : (c.closing addr n).filterMap Site.left? = [(addr, n)] := by
      have hleave : Site.left? ⟨addr, n, .leave⟩ = some (addr, n) := rfl
      rw [CodedPlan.closing, List.filterMap_append, filterMap_handlerSites _ fun _ => rfl,
        List.filterMap_cons_some hleave, List.filterMap_nil, List.nil_append]
    rw [CodedPlan.schedule, occurrences, List.filterMap_append, List.filterMap_append, hopening,
      hclosing, List.nil_append]
    exact (List.perm_append_singleton ..).trans ((left_scheduleAll ts addr 0).cons (addr, n))

theorem left_scheduleAll : ∀ (ts : List (Rose Node)) (addr : List Nat) (place : Nat),
    ((c.scheduleAll addr place ts).filterMap Site.left?).Perm (occurrencesAll addr place ts)
  | [], _, _ => by
    rw [CodedPlan.scheduleAll, occurrencesAll, List.filterMap_nil]
  | t :: ts, addr, place => by
    rw [CodedPlan.scheduleAll, occurrencesAll, List.filterMap_append]
    exact (left_schedule t (place :: addr)).append (left_scheduleAll ts addr (place + 1))

end

end Occurrences

end QueryCheck.Walk
