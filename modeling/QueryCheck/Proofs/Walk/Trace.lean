import QueryCheck.Proofs.Walk.Schedule

/-! # Walks through schedules

A walk without a depth limit goes through the schedule of its tree: it calls at the sites that no
answer has removed, in order, up to the first answer to stop. This is put together from the parts of
a visit. Handlers run up to the first one that stops, the opening of a node is followed by its
branches and its closing, and branches follow each other; a part may go on where the one before it
has not stopped, and neither removes sites of the other.

* `Scheduled`: a walk through a schedule.
* `Scheduled.append`, `Scheduled.extend`: a walk that goes on, and one that does not.
* `Lineup.ran`: the handlers of a node.
* `runAt_scheduled`: a visit of a tree.
* `walk_scheduled`: a walk without a depth limit makes the calls of its schedule, from which the
  sites below skipped nodes are removed and which is cut at the first answer to stop. -/

namespace QueryCheck.Walk

open QueryCheck.Syntax (Kind Node Rose)

variable {σ : Type}

/-- **A walk through a schedule**: the sites at which it calls, and the nodes the tracker is told
about when the walk has ended. -/
structure Scheduled (c : CodedPlan σ) (full : List Site) (s : σ) (w : Progress σ)
    (sites : List Site) (unwound : List Node) : Prop where
  cut : Cut (c.asked sites s) (full.filter (kept (c.asked sites s)))
  stopped : w.stopped = true ↔ ∃ a ∈ c.asked sites s, a.stops = true
  state : w.state = unwound.foldl (fun s n => c.tracker.leave n s) (c.after sites s)
  unwound : w.stopped = false → unwound = []
  within : w.tooDeep = none

/-! ### Parts of a schedule -/

namespace Scheduled

variable {c : CodedPlan σ} {full rest : List Site} {s : σ} {w w' : Progress σ}
  {sites sites' : List Site} {unwound unwound' : List Node}

theorem site_mem (h : Scheduled c full s w sites unwound) {a : Answer σ}
    (ha : a ∈ c.asked sites s) : a.site ∈ full :=
  (List.mem_filter.mp (h.cut.site_mem ha)).1

/-- A walk that has stopped, or that has removed them, calls at no further sites. -/
theorem extend (h : Scheduled c full s w sites unwound)
    (hend : w.stopped = true ∨ ∀ x ∈ rest, ∃ a ∈ c.asked sites s, a.removes x = true) :
    Scheduled c (full ++ rest) s w sites unwound := by
  refine ⟨?_, h.stopped, h.state, h.unwound, h.within⟩
  rw [List.filter_append]
  rcases hend with hstop | hremoved
  · exact h.cut.stop (h.stopped.mp hstop) _
  · have hnone : rest.filter (kept (c.asked sites s)) = [] := by
      refine List.filter_eq_nil_iff.mpr fun x hx hkept => ?_
      obtain ⟨a, ha, hr⟩ := hremoved x hx
      have := List.all_eq_true.mp hkept a ha
      rw [hr] at this
      cases this
    rw [hnone, List.append_nil]
    exact h.cut

/-- A walk that has not stopped goes on with another part of the schedule. -/
theorem append (h : Scheduled c full s w sites []) (hgo : w.stopped = false)
    (h' : Scheduled c rest w.state w' sites' unwound')
    (hahead : ∀ a ∈ c.asked sites s, ∀ y ∈ rest, a.removes y = false)
    (hback : ∀ y ∈ rest, ∀ x ∈ full, y.clears x = false) :
    Scheduled c (full ++ rest) s w' (sites ++ sites') unwound' := by
  have hmid : w.state = c.after sites s := h.state
  have hnone : ∀ a ∈ c.asked sites s, a.stops = false := by
    intro a ha
    by_contra hne
    have := h.stopped.mpr ⟨a, ha, by simpa using hne⟩
    rw [hgo] at this
    cases this
  have hback' : ∀ b ∈ c.asked sites' w.state, ∀ x ∈ full, b.removes x = false :=
    fun b hb x hx => Answer.removes_eq_false (hback _ (h'.site_mem hb) x hx)
  have hasked : c.asked (sites ++ sites') s = c.asked sites s ++ c.asked sites' w.state := by
    rw [asked_append, hmid]
  refine ⟨?_, ?_, ?_, h'.unwound, h'.within⟩
  · rw [hasked, filter_kept_append hahead hback']
    exact h.cut.append hnone h'.cut
  · rw [h'.stopped, hasked]
    constructor
    · rintro ⟨a, ha, hs⟩
      exact ⟨a, by simp [ha], hs⟩
    · rintro ⟨a, ha, hs⟩
      rcases List.mem_append.mp ha with ha | ha
      · rw [hnone a ha] at hs
        cases hs
      · exact ⟨a, ha, hs⟩
  · rw [h'.state, after_append, hmid]

/-- The tracker is told about leaving a node below which the walk has ended. -/
theorem unwind (h : Scheduled c full s w sites unwound) (hstop : w.stopped = true) (n : Node) :
    Scheduled c full s { w with state := c.tracker.leave n w.state } sites (unwound ++ [n]) := by
  refine ⟨h.cut, h.stopped, ?_, fun hgo => ?_, h.within⟩
  · rw [List.foldl_append, ← h.state]
    rfl
  · rw [show w.stopped = false from hgo] at hstop
    cases hstop

/-- The tracker at a site on its own. -/
theorem single (x : Site) (hx : (c.ask x s).1 = 0) :
    Scheduled c [x] s (.going (c.ask x s).2) [x] [] where
  cut := by
    have hself : ∀ a ∈ c.asked [x] s, ∀ y ∈ [x], a.removes y = false := by
      intro a ha y _
      rw [CodedPlan.asked, CodedPlan.asked, List.mem_singleton] at ha
      exact Answer.removes_eq_false_of_code (by simp [ha, hx])
    rw [filter_kept_eq_self hself]
    exact Cut.single _
  stopped := by simp [Progress.going, CodedPlan.asked, Answer.stops, hx]
  state := rfl
  unwound := fun _ => rfl
  within := rfl

theorem nil : Scheduled c [] s (.going s) [] [] where
  cut := Cut.nil
  stopped := by simp [Progress.going, CodedPlan.asked]
  state := rfl
  unwound := fun _ => rfl
  within := rfl

end Scheduled

/-! ### Handlers -/

section Handlers

variable {c : CodedPlan σ} {addr : List Nat} {n : Node}

/-- What handlers do when they run from some place on: their answers, the outcome and the state. -/
structure Ran (c : CodedPlan σ) (full : List Site) (s : σ) (r : Action × σ) (sites : List Site) :
    Prop where
  cut : Cut (c.asked sites s) full
  state : r.2 = c.after sites s
  stop : r.1 = .stop ↔ ∃ a ∈ c.asked sites s, a.stops = true
  skip : r.1 = .skip → ∃ a ∈ c.asked sites s, a.code = 1
  proceed : r.1 = .proceed → ∀ a ∈ c.asked sites s, a.code ≠ 1

namespace Ran

variable {x : Site} {s s' : σ} {code : Int} {full sites : List Site} {r : Action × σ}

theorem asked_cons (hask : c.ask x s = (code, s')) (xs : List Site) :
    c.asked (x :: xs) s = ⟨x, s, code⟩ :: c.asked xs s' := by
  rw [CodedPlan.asked, hask]

theorem after_cons (hask : c.ask x s = (code, s')) (xs : List Site) :
    c.after (x :: xs) s = c.after xs s' := by
  rw [CodedPlan.after, List.foldl_cons, hask]
  rfl

theorem nil : Ran c [] s (.proceed, s) [] :=
  ⟨Cut.nil, rfl, by simp [CodedPlan.asked], nofun, by simp [CodedPlan.asked]⟩

theorem stop_cons (hask : c.ask x s = (2, s')) (full : List Site) :
    Ran c (x :: full) s (.stop, s') [x] := by
  have hone := asked_cons hask []
  have hstop : ∃ a ∈ c.asked [x] s, a.stops = true :=
    ⟨⟨x, s, 2⟩, by rw [hone]; exact List.mem_cons_self, rfl⟩
  refine ⟨?_, (after_cons hask []).symm, ⟨fun _ => hstop, fun _ => rfl⟩, nofun, nofun⟩
  have hcut : Cut (c.asked [x] s) [x] := by
    rw [hone]
    exact Cut.single ⟨x, s, 2⟩
  exact hcut.stop hstop full

theorem skip_cons (h : Ran c full s' r sites) (hask : c.ask x s = (1, s')) :
    Ran c (x :: full) s (r.1.afterSkip, r.2) (x :: sites) := by
  have hasked := asked_cons hask sites
  have hafter : r.1.afterSkip = .stop ↔ r.1 = .stop := by cases r.1 <;> simp [Action.afterSkip]
  refine ⟨?_, ?_, ?_, fun _ => ⟨⟨x, s, 1⟩, by simp [hasked], rfl⟩, fun hp => ?_⟩
  · rw [hasked]
    exact (Cut.single ⟨x, s, 1⟩).append (by simp [Answer.stops]) h.cut
  · rw [after_cons hask]
    exact h.state
  · rw [hafter, h.stop, hasked]
    simp [Answer.stops]
  · cases hr : r.1 <;> simp [hr, Action.afterSkip] at hp

theorem proceed_cons (h : Ran c full s' r sites) (hask : c.ask x s = (code, s')) (h1 : code ≠ 1)
    (h2 : code ≠ 2) : Ran c (x :: full) s r (x :: sites) := by
  have hasked := asked_cons hask sites
  refine ⟨?_, ?_, ?_, fun hr => ?_, fun hr => ?_⟩
  · rw [hasked]
    exact (Cut.single ⟨x, s, code⟩).append (by simpa [Answer.stops] using h2) h.cut
  · rw [after_cons hask]
    exact h.state
  · rw [h.stop, hasked]
    simp [Answer.stops, h2]
  · obtain ⟨a, ha, hcode⟩ := h.skip hr
    exact ⟨a, by simp [hasked, ha], hcode⟩
  · rw [hasked, List.forall_mem_cons]
    exact ⟨h1, h.proceed hr⟩

end Ran

/-- Where the handlers of a node are called: what they answer, and how their calls are recorded. -/
structure Lineup (c : CodedPlan σ) (addr : List Nat) (n : Node) (moment : Nat → Moment)
    (call : Node → Nat → σ → Call σ) (all : List (CodedHandler σ)) : Prop where
  ask : ∀ place s, c.ask ⟨addr, n, moment place⟩ s = CodedPlan.askAt all place n s
  call : ∀ place s code, (Answer.mk ⟨addr, n, moment place⟩ s code).call = call n place s

theorem lineup_enter (c : CodedPlan σ) (addr : List Nat) (n : Node) :
    Lineup c addr n .entering .entering (c.enter n.kind) := ⟨fun _ _ => rfl, fun _ _ _ => rfl⟩

theorem lineup_leave (c : CodedPlan σ) (addr : List Nat) (n : Node) :
    Lineup c addr n .leaving .leaving (c.leave n.kind) := ⟨fun _ _ => rfl, fun _ _ _ => rfl⟩

variable {moment : Nat → Moment} {call : Node → Nat → σ → Call σ} {all : List (CodedHandler σ)}

/-- Handlers that keep a record answer in order, up to the first that stops. -/
theorem Lineup.ran_from (hl : Lineup c addr n moment call all) :
    ∀ (hs : List (CodedHandler σ)) (place : Nat) (s : σ) (log : List (Call σ)),
      all.drop place = hs →
      ∃ sites, Ran c ((List.range' place hs.length).map fun i => ⟨addr, n, moment i⟩) s
          (runHandlers n (hs.map CodedHandler.handler) s) sites ∧
        runHandlers n (loggedFrom call place (hs.map CodedHandler.handler)) (s, log) =
          ((runHandlers n (hs.map CodedHandler.handler) s).1,
            (runHandlers n (hs.map CodedHandler.handler) s).2,
            log ++ (c.asked sites s).map Answer.call)
  | [], place, s, log, _ => ⟨[], Ran.nil, by simp [runHandlers, loggedFrom, CodedPlan.asked]⟩
  | h :: hs, place, s, log, hdrop => by
    have hget : all[place]? = some h := by rw [← List.head?_drop, hdrop, List.head?_cons]
    have hdrop' : all.drop (place + 1) = hs := by rw [← List.tail_drop, hdrop, List.tail_cons]
    rcases hh : h n s with ⟨code, s'⟩
    have hask : c.ask ⟨addr, n, moment place⟩ s = (code, s') := by
      rw [hl.ask, CodedPlan.askAt, hget]
      exact hh
    have hhead : CodedHandler.handler h n s = (Action.ofCode code, s') := by
      rw [CodedHandler.handler, hh]
    obtain ⟨sites, hran, hrun⟩ :=
      hl.ran_from hs (place + 1) s' (log ++ [call n place s]) hdrop'
    rw [List.map_cons, loggedFrom_cons, List.length_cons, List.range'_succ, List.map_cons]
    cases ha : Action.ofCode code with
    | stop =>
      obtain rfl : code = 2 := ofCode_eq_stop.mp ha
      rw [ha] at hhead
      rw [runHandlers_stop hhead, runHandlers_stop (Handler.logged_eq call place log hhead)]
      refine ⟨[⟨addr, n, moment place⟩], Ran.stop_cons hask _, ?_⟩
      simp [CodedPlan.asked, hl.call]
    | skip =>
      obtain rfl : code = 1 := ofCode_eq_skip.mp ha
      rw [ha] at hhead
      rw [runHandlers_skip hhead, runHandlers_skip (Handler.logged_eq call place log hhead), hrun]
      refine ⟨_, hran.skip_cons hask, ?_⟩
      simp [Ran.asked_cons hask, hl.call]
    | proceed =>
      have h1 : code ≠ 1 := fun h1 => by simp [ofCode_eq_skip.mpr h1] at ha
      have h2 : code ≠ 2 := fun h2 => by simp [ofCode_eq_stop.mpr h2] at ha
      rw [ha] at hhead
      rw [runHandlers_proceed hhead, runHandlers_proceed (Handler.logged_eq call place log hhead),
        hrun]
      refine ⟨_, hran.proceed_cons hask h1 h2, ?_⟩
      simp [Ran.asked_cons hask, hl.call]

/-- **The handlers of a node** that keep a record answer in order, up to the first that stops. -/
theorem Lineup.ran (hl : Lineup c addr n moment call all) (s : σ) (log : List (Call σ)) :
    ∃ sites, Ran c (handlerSites addr n moment all.length) s
        (runHandlers n (all.map CodedHandler.handler) s) sites ∧
      runHandlers n (loggedFrom call 0 (all.map CodedHandler.handler)) (s, log) =
        ((runHandlers n (all.map CodedHandler.handler) s).1,
          (runHandlers n (all.map CodedHandler.handler) s).2,
          log ++ (c.asked sites s).map Answer.call) := by
  obtain ⟨sites, hran, hrun⟩ := hl.ran_from all 0 s log List.drop_zero
  rw [← List.range_eq_range'] at hran
  exact ⟨sites, hran, hrun⟩

/-- Handlers of one node remove nothing from each other. -/
theorem Ran.scheduled {count : Nat} {s : σ} {r : Action × σ} {sites : List Site}
    (h : Ran c (handlerSites addr n moment count) s r sites) :
    Scheduled c (handlerSites addr n moment count) s ⟨r.2, r.1 == .stop, none⟩ sites [] where
  cut := by
    have hself : ∀ a ∈ c.asked sites s, ∀ x ∈ handlerSites addr n moment count,
        a.removes x = false := by
      intro a ha x hx
      have haddr : a.site.addr = x.addr := by
        rw [addr_of_mem_handlerSites (h.cut.site_mem ha), addr_of_mem_handlerSites hx]
      rw [Answer.removes, haddr, isBelow_self, Bool.and_false]
    rw [filter_kept_eq_self hself]
    exact h.cut
  stopped := by rw [← h.stop, beq_iff_eq]
  state := h.state
  unwound := fun _ => rfl
  within := rfl

end Handlers

/-! ### Visits -/

section Visits

variable {c : CodedPlan σ}

theorem removes_eq_false_of_isBelow {a : Answer σ} {x : Site}
    (h : isBelow a.site.addr x.addr = false) : a.removes x = false := by
  rw [Answer.removes, h, Bool.and_false]

theorem clears_eq_false_of_isBelow {x y : Site} (h : isBelow x.addr y.addr = false) :
    x.clears y = false := by
  rw [Site.clears, h, Bool.and_false]

/-- Entering a node goes through its opening. -/
theorem Ran.scheduled_opening {addr : List Nat} {n : Node} {s : σ} {r : Action × σ}
    {sites : List Site}
    (h : Ran c (handlerSites addr n .entering (c.enter n.kind).length) (c.tracker.enter n s) r
      sites) :
    Scheduled c (c.opening addr n) s ⟨r.2, r.1 == .stop, none⟩ (⟨addr, n, .enter⟩ :: sites) [] := by
  have hfirst : Scheduled c [⟨addr, n, .enter⟩] s (.going (c.tracker.enter n s))
      [⟨addr, n, .enter⟩] [] := Scheduled.single _ rfl
  refine hfirst.append rfl h.scheduled ?_ ?_
  · intro a ha y hy
    refine removes_eq_false_of_isBelow ?_
    rw [List.mem_singleton.mp (hfirst.site_mem ha), addr_of_mem_handlerSites hy, isBelow_self]
  · intro y hy x hx
    refine clears_eq_false_of_isBelow ?_
    rw [List.mem_singleton.mp hx, addr_of_mem_handlerSites hy, isBelow_self]

/-- When a node is skipped, one of the answers removes all that is scheduled for its branches. -/
theorem Ran.exists_removes {addr : List Nat} {n : Node} {count : Nat} {s : σ} {r : Action × σ}
    {sites : List Site} (h : Ran c (handlerSites addr n .entering count) s r sites)
    (hskip : r.1 = .skip) {ts : List (Rose Node)} {y : Site} (hy : y ∈ c.scheduleAll addr 0 ts) :
    ∃ a ∈ c.asked sites s, a.removes y = true := by
  obtain ⟨a, ha, hcode⟩ := h.skip hskip
  obtain ⟨j, -, hj⟩ := suffix_of_mem_scheduleAll c ts addr 0 y hy
  obtain ⟨i, -, hi⟩ := List.mem_map.mp (h.cut.site_mem ha)
  refine ⟨a, ha, ?_⟩
  rw [Answer.removes, Answer.skips, hcode, ← hi, isBelow_of_cons_suffix hj]
  rfl

/-- Branches remove nothing from the opening of their node. -/
theorem clears_eq_false_of_mem_opening {addr : List Nat} {n : Node} {ts : List (Rose Node)}
    {x y : Site} (hy : y ∈ c.scheduleAll addr 0 ts) (hx : x ∈ c.opening addr n) :
    y.clears x = false := by
  obtain ⟨j, -, hj⟩ := suffix_of_mem_scheduleAll c ts addr 0 y hy
  have hlength := hj.length_le
  rw [List.length_cons] at hlength
  refine clears_eq_false_of_isBelow (isBelow_eq_false_of_length ?_)
  rw [addr_of_mem_opening c hx]
  omega

/-- Answers at an address and below it remove nothing at the address itself. -/
theorem Scheduled.removes_eq_false {addr : List Nat} {full : List Site} {s : σ} {w : Progress σ}
    {sites : List Site} {unwound : List Node} (h : Scheduled c full s w sites unwound)
    (haddr : ∀ x ∈ full, addr <:+ x.addr) {a : Answer σ} (ha : a ∈ c.asked sites s) {y : Site}
    (hy : y.addr = addr) : a.removes y = false := by
  refine removes_eq_false_of_isBelow (isBelow_eq_false_of_length ?_)
  rw [hy]
  exact (haddr _ (h.site_mem ha)).length_le

/-- A visit up to the handlers for leaving goes through the opening and the branches. -/
theorem runInside_scheduled {off : Int} (depth : Nat) (addr : List Nat) (n : Node)
    (ts : List (Rose Node)) (s : σ) (log : List (Call σ))
    (ih : ∀ s log, ∃ sites unwound,
      runAll (c.plan off).logged (depth + 1) (s, log) ts =
          (runAll (c.plan off) (depth + 1) s ts).withLog (log ++ c.calls sites unwound s) ∧
        Scheduled c (c.scheduleAll addr 0 ts) s (runAll (c.plan off) (depth + 1) s ts) sites
          unwound) :
    ∃ sites unwound,
      runInside (c.plan off).logged depth n ts (c.tracker.enter n s, log ++ [.enter n]) =
          (runInside (c.plan off) depth n ts (c.tracker.enter n s)).withLog
            (log ++ c.calls sites unwound s) ∧
        Scheduled c (c.opening addr n ++ c.scheduleAll addr 0 ts) s
          (runInside (c.plan off) depth n ts (c.tracker.enter n s)) sites unwound := by
  obtain ⟨sites, hran, hrun⟩ :=
    (lineup_enter c addr n).ran (c.tracker.enter n s) (log ++ [.enter n])
  have hopen := hran.scheduled_opening
  have hcalls : log ++ c.calls (⟨addr, n, .enter⟩ :: sites) [] s =
      log ++ [.enter n] ++ (c.asked sites (c.tracker.enter n s)).map Answer.call := by
    simp [CodedPlan.calls, CodedPlan.asked, CodedPlan.ask, Answer.call]
  have hcode : ∀ a ∈ c.asked (⟨addr, n, .enter⟩ :: sites) s,
      a.code = 0 ∨ a ∈ c.asked sites (c.tracker.enter n s) := by
    intro a ha
    rcases List.mem_cons.mp ha with rfl | ha
    · exact .inl rfl
    · exact .inr ha
  unfold runInside
  rw [show (c.plan off).logged.table.enter n.kind =
    loggedFrom .entering 0 ((c.enter n.kind).map CodedHandler.handler) from rfl, hrun,
    show (c.plan off).table.enter n.kind = (c.enter n.kind).map CodedHandler.handler from rfl]
  rcases hr : runHandlers n ((c.enter n.kind).map CodedHandler.handler) (c.tracker.enter n s)
    with ⟨a, s'⟩
  rw [hr] at hran hopen
  cases a with
  | stop =>
    refine ⟨⟨addr, n, .enter⟩ :: sites, [], ?_, hopen.extend (.inl rfl)⟩
    rw [hcalls]
    rfl
  | skip =>
    -- the handler that skips removes what is scheduled for the branches
    have hremoved : ∀ y ∈ c.scheduleAll addr 0 ts,
        ∃ a ∈ c.asked (⟨addr, n, .enter⟩ :: sites) s, a.removes y = true := by
      intro y hy
      obtain ⟨a, ha, hr⟩ := hran.exists_removes rfl hy
      exact ⟨a, List.mem_cons_of_mem _ ha, hr⟩
    refine ⟨⟨addr, n, .enter⟩ :: sites, [], ?_, hopen.extend (.inr hremoved)⟩
    rw [hcalls]
    rfl
  | proceed =>
    obtain ⟨below, unwound, hbelow, hsched⟩ :=
      ih s' (log ++ c.calls (⟨addr, n, .enter⟩ :: sites) [] s)
    have hstate : s' = c.after (⟨addr, n, .enter⟩ :: sites) s := hopen.state
    refine ⟨⟨addr, n, .enter⟩ :: sites ++ below, unwound, ?_, hopen.append rfl hsched ?_
      fun y hy x hx => clears_eq_false_of_mem_opening hy hx⟩
    · rw [calls_append, ← List.append_assoc, ← hstate, ← hbelow, hcalls]
    · intro a ha y _
      refine Answer.removes_eq_false_of_code ?_
      rcases hcode a ha with h0 | ha
      · omega
      · exact hran.proceed rfl a ha

/-- The end of a visit goes through the closing. -/
theorem runFinish_scheduled (off : Int) {full : List Site} {s : σ} {w : Progress σ}
    {sites : List Site} {unwound : List Node} (addr : List Nat) (n : Node) (log : List (Call σ))
    (haddr : ∀ x ∈ full, addr <:+ x.addr) (h : Scheduled c full s w sites unwound) :
    ∃ sites' unwound',
      runFinish (c.plan off).logged n (w.withLog (log ++ c.calls sites unwound s)) =
          (runFinish (c.plan off) n w).withLog (log ++ c.calls sites' unwound' s) ∧
        Scheduled c (full ++ c.closing addr n) s (runFinish (c.plan off) n w) sites' unwound' := by
  unfold runFinish
  rw [show (w.withLog (log ++ c.calls sites unwound s)).stopped = w.stopped from rfl]
  by_cases hstop : w.stopped = true
  · rw [if_pos hstop, if_pos hstop]
    refine ⟨sites, unwound ++ [n], ?_, (h.unwind hstop n).extend (.inl hstop)⟩
    rw [calls_unwind, ← List.append_assoc]
    rfl
  · rw [if_neg hstop, if_neg hstop]
    have hgo : w.stopped = false := by simpa using hstop
    obtain rfl : unwound = [] := h.unwound hgo
    obtain ⟨after, hran, hrun⟩ :=
      (lineup_leave c addr n).ran w.state (log ++ c.calls sites [] s)
    have hleave := h.append hgo hran.scheduled
      (fun a ha y hy => h.removes_eq_false haddr ha (addr_of_mem_handlerSites hy))
      fun y hy x _ => clears_of_mem_closing c (List.mem_append_left _ hy) x
    have hstate : w.state = c.after sites s := h.state
    have hclosing : full ++ c.closing addr n =
        full ++ handlerSites addr n .leaving (c.leave n.kind).length ++ [⟨addr, n, .leave⟩] := by
      rw [List.append_assoc, CodedPlan.closing]
    rw [show runHandlers n ((c.plan off).logged.table.leave n.kind)
      (w.withLog (log ++ c.calls sites [] s)).state = _ from hrun, hclosing]
    rw [show (c.plan off).table.leave n.kind = (c.leave n.kind).map CodedHandler.handler from rfl]
    rcases hr : runHandlers n ((c.leave n.kind).map CodedHandler.handler) w.state with ⟨a, s'⟩
    rw [hr] at hleave
    by_cases ha : (a == .stop) = true
    · refine ⟨sites ++ after, [n], ?_, (hleave.unwind ha n).extend (.inl ha)⟩
      rw [calls_append, ← hstate]
      simp [CodedPlan.calls, Progress.withLog, CodedPlan.plan, Plan.logged, Tracker.logged]
    · have hgo' : (a == .stop) = false := by simpa using ha
      have hlast := hleave.append hgo' (Scheduled.single ⟨addr, n, .leave⟩ rfl) ?_ ?_
      · refine ⟨sites ++ after ++ [⟨addr, n, .leave⟩], [], ?_, ?_⟩
        · rw [calls_append, calls_append, ← hstate]
          simp [CodedPlan.calls, CodedPlan.asked, Answer.call, Progress.withLog, CodedPlan.plan,
            Plan.logged, Tracker.logged]
        · show Scheduled c _ s ⟨c.tracker.leave n s', a == .stop, none⟩ _ _
          rw [hgo']
          exact hlast
      · intro b hb y hy
        refine hleave.removes_eq_false (fun x hx => ?_) hb
          (congrArg Site.addr (List.mem_singleton.mp hy))
        rcases List.mem_append.mp hx with hx | hx
        · exact haddr x hx
        · exact (addr_of_mem_handlerSites hx).symm ▸ List.suffix_rfl
      · intro y hy x _
        rw [List.mem_singleton.mp hy]
        rfl

variable (c)

mutual

/-- **A visit** without a depth limit goes through the schedule of its tree. -/
theorem runAt_scheduled {off : Int} (hoff : off ≤ 0) : ∀ (t : Rose Node) (addr : List Nat)
    (depth : Nat) (s : σ) (log : List (Call σ)), ∃ sites unwound,
      runAt (c.plan off).logged depth (s, log) t =
          (runAt (c.plan off) depth s t).withLog (log ++ c.calls sites unwound s) ∧
        Scheduled c (c.schedule addr t) s (runAt (c.plan off) depth s t) sites unwound
  | .mk n ts, addr, depth, s, log => by
    have hdepth : ¬ (c.plan off).exceeded depth = true := by
      intro hexceeded
      rw [Plan.exceeded, Bool.and_eq_true, decide_eq_true_iff] at hexceeded
      have hpos : 0 < off := hexceeded.1
      omega
    rw [runAt_mk, runAt_mk, exceeded_logged, if_neg hdepth, if_neg hdepth]
    obtain ⟨sites, unwound, hrun, hinside⟩ := runInside_scheduled depth addr n ts s log
      fun s log => runAll_scheduled hoff ts addr 0 (depth + 1) s log
    have haddr : ∀ x ∈ c.opening addr n ++ c.scheduleAll addr 0 ts, addr <:+ x.addr := by
      intro x hx
      refine suffix_of_mem_schedule c (.mk n ts) addr x ?_
      rw [CodedPlan.schedule]
      exact List.mem_append_left _ hx
    obtain ⟨sites', unwound', hrun', hall⟩ :=
      runFinish_scheduled off addr n log haddr hinside
    refine ⟨sites', unwound', ?_, ?_⟩
    · rw [show (c.plan off).logged.tracker.enter n (s, log) =
        (c.tracker.enter n s, log ++ [.enter n]) from rfl, hrun]
      exact hrun'
    · rw [CodedPlan.schedule]
      exact hall

theorem runAll_scheduled {off : Int} (hoff : off ≤ 0) : ∀ (ts : List (Rose Node)) (addr : List Nat)
    (place depth : Nat) (s : σ) (log : List (Call σ)), ∃ sites unwound,
      runAll (c.plan off).logged depth (s, log) ts =
          (runAll (c.plan off) depth s ts).withLog (log ++ c.calls sites unwound s) ∧
        Scheduled c (c.scheduleAll addr place ts) s (runAll (c.plan off) depth s ts) sites unwound
  | [], addr, place, depth, s, log => by
    refine ⟨[], [], ?_, ?_⟩
    · simp [runAll, CodedPlan.calls, CodedPlan.asked, Progress.withLog, Progress.going]
    · rw [runAll, CodedPlan.scheduleAll]
      exact Scheduled.nil
  | t :: ts, addr, place, depth, s, log => by
    obtain ⟨sites, unwound, hrun, hfirst⟩ := runAt_scheduled hoff t (place :: addr) depth s log
    rw [runAll_cons, runAll_cons, hrun, CodedPlan.scheduleAll, show ((runAt (c.plan off) depth s
      t).withLog (log ++ c.calls sites unwound s)).stopped = (runAt (c.plan off) depth s t).stopped
      from rfl]
    by_cases hstop : (runAt (c.plan off) depth s t).stopped = true
    · rw [if_pos hstop, if_pos hstop]
      exact ⟨sites, unwound, rfl, hfirst.extend (.inl hstop)⟩
    · rw [if_neg hstop, if_neg hstop]
      have hgo : (runAt (c.plan off) depth s t).stopped = false := by simpa using hstop
      obtain rfl : unwound = [] := hfirst.unwound hgo
      obtain ⟨sites', unwound', hrun', hrest⟩ := runAll_scheduled hoff ts addr (place + 1) depth
        (runAt (c.plan off) depth s t).state (log ++ c.calls sites [] s)
      refine ⟨sites ++ sites', unwound', ?_, hfirst.append hgo hrest ?_ ?_⟩
      · have hstate : (runAt (c.plan off) depth s t).state = c.after sites s := hfirst.state
        rw [calls_append, ← hstate, ← List.append_assoc, ← hrun']
        rfl
      · exact fun a ha y hy => removes_eq_false_of_isBelow
          (isBelow_of_mem_branches c (hfirst.site_mem ha) hy).1
      · exact fun y hy x hx => clears_eq_false_of_isBelow (isBelow_of_mem_branches c hx hy).2

end

end Visits

/-! ### Walks -/

/-- **A walk without a depth limit goes through its schedule.** Its calls are those of the schedule
of the tree, from which the sites below skipped nodes are removed and which is cut right after the
first answer to stop; afterwards only the tracker is told about the nodes that are left. When no
answer skips or stops, the walk goes through the whole schedule and enters and leaves every
occurrence of a node once. -/
theorem walk_scheduled (c : CodedPlan σ) {off : Int} (hoff : off ≤ 0) (n : Node) (s : σ) :
    ∃ sites unwound,
      walk (c.plan off).logged n (s, []) =
          (walk (c.plan off) n s).withLog (c.calls sites unwound s) ∧
        Scheduled c (c.schedule [] n.rose) s (walk (c.plan off) n s) sites unwound ∧
        ((∀ a ∈ c.asked sites s, a.stops = false ∧ a.skips = false) →
          sites = c.schedule [] n.rose ∧
            sites.filterMap Site.entered? = occurrences [] n.rose ∧
            (sites.filterMap Site.left?).Perm (occurrences [] n.rose) ∧
            ((occurrences [] n.rose).map Prod.fst).Nodup) := by
  obtain ⟨sites, unwound, hrun, hsched⟩ := runAt_scheduled c hoff n.rose [] 1 s []
  refine ⟨sites, unwound, hrun, hsched, fun hall => ?_⟩
  have hkept : (c.schedule [] n.rose).filter (kept (c.asked sites s)) = c.schedule [] n.rose := by
    refine filter_kept_eq_self fun a ha x _ => ?_
    rw [Answer.removes, (hall a ha).2, Bool.false_and]
  have hsites : sites = c.schedule [] n.rose := by
    have hwhole := hsched.cut.whole fun a ha => (hall a ha).1
    rw [map_site_asked] at hwhole
    rw [hwhole, hkept]
  rw [hsites]
  exact ⟨rfl, entered_schedule c n.rose [], left_schedule c n.rose [],
    nodup_occurrences n.rose []⟩

/-- Handlers that count; the first of two for list types skips, and the fifth one asked stops. -/
def countingPlan : CodedPlan Nat where
  enter := fun k =>
    if k = .listType then [fun _ s => (1, s + 1), fun _ s => (0, s + 1)]
    else [fun _ s => (7, s + 1)]
  leave := fun _ => [fun _ s => (if s = 4 then 2 else 1, s + 1)]

/-- A list type inside a required type. -/
def requiredList : Node :=
  .mk .nonNullType [.one (.node (.mk .listType
    [.one (.node (.mk .namedType [.one (.node (.mk .name [.text "a"] none))] none))] none))] none

theorem walk_scheduled_requiredList :
    (0 : Int) ≤ 0 ∧ ∃ sites unwound,
      walk (countingPlan.plan 0).logged requiredList (0, []) =
          (walk (countingPlan.plan 0) requiredList 0).withLog
            (countingPlan.calls sites unwound 0) ∧
        Scheduled countingPlan (countingPlan.schedule [] requiredList.rose) 0
          (walk (countingPlan.plan 0) requiredList 0) sites unwound := by
  refine ⟨Int.le_refl 0, ?_⟩
  obtain ⟨sites, unwound, hrun, hsched, -⟩ :=
    walk_scheduled countingPlan (Int.le_refl 0) requiredList 0
  exact ⟨sites, unwound, hrun, hsched⟩

end QueryCheck.Walk
