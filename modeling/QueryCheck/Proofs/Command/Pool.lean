import Mathlib.Data.List.Duplicate
import Mathlib.Data.List.Induction
import QueryCheck.Command.Pool
import QueryCheck.Proofs.Command.Verdicts
import QueryCheck.Text.Measure

/-! # Documents checked at the same time

Whatever the order in which the tasks of a run get on, they leave the same verdicts: those of the
documents read one after the other, each in the slot of its own path. The standard input can be read
only once, so that no more than one path may stand for it.

* `Advance`, `exists_advance`: all that one event can do.
* `Task.left`, `length_le_of_run`: events bring the tasks closer to their ends.
* `exists_step`: the tasks do not block each other.
* `Pool.Sound`, `sound_of_step`, `sound_of_run`: what is known of the tasks of a run at any time.
* `count_store_of_run`: a slot is filled by one event of its own task.
* `result_of_schedule`: the result does not depend on the order of the events.
* `namedTwice_depends_on_order`: it does when two paths stand for the standard input. -/

namespace QueryCheck.Command

open QueryCheck.Settings
open QueryCheck.Text (sumOf sumOf_append sumOf_cons)
open QueryCheck.Validation

/-! ### One event -/

section Steps

variable {σ : Type} {w : World (StateM σ)} {c : Check} {jobs : Int}

/-- What an event does to the task `i` it is about, to the state of the world, and to the failure of
the run. -/
inductive Advance (w : World (StateM σ)) (c : Check) (i : Nat) (world : σ)
    (failure : Option Failure) (t : Task) : Event → Task → σ → Option Failure → Prop
  | start (h : t.stage = .waiting) :
      Advance w c i world failure t (.start i) { t with stage := .reading } world failure
  | read {s : Source} {world' : σ} (h : t.stage = .reading)
      (hread : (w.source t.path).run.run world = (.ok s, world')) :
      Advance w c i world failure t (.read i) { t with stage := .checking s } world' failure
  | fail {e : Failure} {world' : σ} (h : t.stage = .reading)
      (hread : (w.source t.path).run.run world = (.error e, world')) :
      Advance w c i world failure t (.read i) { t with stage := .ended } world'
        (failure <|> some e)
  | store {s : Source} (h : t.stage = .checking s) :
      Advance w c i world failure t (.store i)
        { t with stage := .ended, slot := some (c.document s) } world failure

theorem Advance.path_eq {i : Nat} {world world' : σ} {failure failure' : Option Failure}
    {t t' : Task} {e : Event} (h : Advance w c i world failure t e t' world' failure') :
    t'.path = t.path := by
  cases h <;> rfl

/-- A list with an entry changed. -/
theorem exists_append_of_getElem? {α : Type} {l : List α} {i : Nat} {a : α}
    (h : l[i]? = some a) : ∃ front back, l = front ++ a :: back ∧ i = front.length ∧
      ∀ b, l.set i b = front ++ b :: back := by
  obtain ⟨hi, rfl⟩ := List.getElem?_eq_some_iff.mp h
  refine ⟨l.take i, l.drop (i + 1), ?_, ?_, fun b => ?_⟩
  · rw [List.getElem_cons_drop, List.take_append_drop]
  · rw [List.length_take, min_eq_left hi.le]
  · exact List.set_eq_take_append_cons_drop.trans (if_pos hi)

/-- **All that one event can do:** it gets one task on and leaves the others; a task is started only
when there is room for it. -/
theorem exists_advance {p q : Pool σ} {e : Event} (h : p.step w c jobs e = some q) :
    ∃ front t back t', p.tasks = front ++ t :: back ∧ q.tasks = front ++ t' :: back ∧
      Advance w c front.length p.world p.failure t e t' q.world q.failure ∧
      (e = .start front.length → p.load < jobs) := by
  cases e with
  | start i =>
    obtain ⟨t, ht, h⟩ := Option.bind_eq_some_iff.mp h
    obtain ⟨front, back, htasks, rfl, hset⟩ := exists_append_of_getElem? ht
    split at h
    · rename_i hstage
      split_ifs at h with hload
      cases h
      exact ⟨front, t, back, _, htasks, hset _, .start hstage, fun _ => hload⟩
    · cases h
  | read i =>
    obtain ⟨t, ht, h⟩ := Option.bind_eq_some_iff.mp h
    obtain ⟨front, back, htasks, rfl, hset⟩ := exists_append_of_getElem? ht
    split at h
    · rename_i hstage
      split at h <;> rename_i hread <;> cases h
      · exact ⟨front, t, back, _, htasks, hset _, .read hstage hread, nofun⟩
      · exact ⟨front, t, back, _, htasks, hset _, .fail hstage hread, nofun⟩
    · cases h
  | store i =>
    obtain ⟨t, ht, h⟩ := Option.bind_eq_some_iff.mp h
    obtain ⟨front, back, htasks, rfl, hset⟩ := exists_append_of_getElem? ht
    split at h
    · rename_i hstage
      cases h
      exact ⟨front, t, back, _, htasks, hset _, .store hstage, nofun⟩
    · cases h

/-! ### How far the tasks are from their ends -/

/-- The number of events a task can still need. -/
def Task.left (t : Task) : Nat :=
  match t.stage with
  | .waiting => 3
  | .reading => 2
  | .checking _ => 1
  | .ended => 0

theorem Advance.left_lt {i : Nat} {world world' : σ} {failure failure' : Option Failure}
    {t t' : Task} {e : Event} (h : Advance w c i world failure t e t' world' failure') :
    t'.left < t.left := by
  cases h <;> simp_all [Task.left]

/-- The number of events the tasks can still need. -/
def Pool.left (p : Pool σ) : Nat := sumOf Task.left p.tasks

theorem left_lt_of_step {p q : Pool σ} {e : Event} (h : p.step w c jobs e = some q) :
    q.left < p.left := by
  obtain ⟨front, t, back, t', hp, hq, hadvance, -⟩ := exists_advance h
  have := hadvance.left_lt
  simp only [Pool.left, hp, hq, sumOf_append, sumOf_cons]
  omega

theorem run_concat {p r : Pool σ} {events : List Event} {e : Event} :
    p.run w c jobs (events ++ [e]) = some r ↔
      ∃ q, p.run w c jobs events = some q ∧ q.step w c jobs e = some r := by
  simp [Pool.run, List.foldlM_append, Option.bind_eq_some_iff]

/-- No run goes on for ever. -/
theorem length_le_of_run {p q : Pool σ} {events : List Event}
    (h : p.run w c jobs events = some q) : events.length + q.left ≤ p.left := by
  induction events using List.reverseRecOn generalizing q with
  | nil =>
    cases h
    simp
  | append_singleton events e ih =>
    obtain ⟨r, hrun, hstep⟩ := run_concat.mp h
    have := ih hrun
    have := left_lt_of_step hstep
    rw [List.length_append, List.length_singleton]
    omega

theorem left_initial (world : σ) (paths : List String) :
    (Pool.initial world paths).left = 3 * paths.length := by
  unfold Pool.left Pool.initial
  induction paths with
  | nil => rfl
  | cons path paths ih =>
    have hleft : Task.left { path } = 3 := rfl
    rw [List.map_cons, sumOf_cons, ih, List.length_cons, hleft]
    omega

/-- A task at work can get on. -/
theorem exists_step_of_active {p : Pool σ} {t : Task} (ht : t ∈ p.tasks) (hactive : t.active) :
    ∃ e q, p.step w c jobs e = some q := by
  obtain ⟨i, hi⟩ := List.getElem?_of_mem ht
  cases hstage : t.stage with
  | waiting | ended => simp [Task.active, hstage] at hactive
  | reading =>
    rcases hread : (w.source t.path).run.run p.world with ⟨e | s, world⟩
    · exact ⟨.read i, _, by simp [Pool.step, hi, hstage, hread]; rfl⟩
    · exact ⟨.read i, _, by simp [Pool.step, hi, hstage, hread]; rfl⟩
  | checking s => exact ⟨.store i, _, by simp [Pool.step, hi, hstage]; rfl⟩

/-- **The tasks do not block each other:** as long as one has not ended, one can get on. -/
theorem exists_step (hjobs : 1 ≤ jobs) {p : Pool σ} (h : p.finished = false) :
    ∃ e q, p.step w c jobs e = some q := by
  by_cases hload : p.load = 0
  · obtain ⟨t, ht, hdone⟩ := List.all_eq_false.mp h
    obtain ⟨i, hi⟩ := List.getElem?_of_mem ht
    have hactive := List.countP_eq_zero.mp hload t ht
    have hstage : t.stage = .waiting := by
      cases hstage : t.stage <;> simp_all [Task.active, Task.done]
    have hroom : (p.load : Int) < jobs := by omega
    exact ⟨.start i, _, by simp [Pool.step, hi, hstage, hroom]; rfl⟩
  · obtain ⟨t, ht, hactive⟩ := List.countP_pos_iff.mp (Nat.pos_of_ne_zero hload)
    exact exists_step_of_active ht hactive

end Steps

/-! ### Reading -/

/-- What a path can be read as in a run that reads nothing else. -/
def World.alone (w : World (StateM String)) (input path : String) : Except Failure Source :=
  ((w.source path).run.run input).1

/-- A file reads the same at any time, and reading it leaves the standard input. -/
theorem source_file (t : Tree) (env : List (String × String)) (procs : Int) {path : String}
    (hpath : path ≠ "") (input rest : String) :
    ((World.ofTree t env procs).source path).run.run rest =
      ((World.ofTree t env procs).alone input path, rest) := by
  have hdisk : (World.ofTree t env procs).disk.read path = pure (t.read path) := rfl
  unfold World.alone World.source
  rw [if_neg hpath, hdisk]
  cases t.read path <;> rfl

theorem source_of_read {t : Tree} (env : List (String × String)) (procs : Int) {path text : String}
    (hpath : path ≠ "") (h : t.read path = .ok text) (rest : String) :
    ((World.ofTree t env procs).source path).run.run rest = (.ok ⟨path, text⟩, rest) := by
  have hdisk : (World.ofTree t env procs).disk.read path = pure (t.read path) := rfl
  unfold World.source
  rw [if_neg hpath, hdisk, h]
  rfl

theorem source_input (t : Tree) (env : List (String × String)) (procs : Int) (rest : String) :
    ((World.ofTree t env procs).source "").run.run rest = (.ok ⟨inputName, rest⟩, "") :=
  rfl

/-- Texts that can be read alone can be read one after the other, if the standard input is read no
more than once. -/
theorem gives_mapM_source (t : Tree) (env : List (String × String)) (procs : Int) (input : String) :
    ∀ {paths : List String} {sources : List Source} {rest : String},
      List.Forall₂ (fun path s => (World.ofTree t env procs).alone input path = .ok s) paths
        sources →
      paths.count "" ≤ 1 → ("" ∈ paths → rest = input) →
      ∃ rest', Gives (paths.mapM (World.ofTree t env procs).source) rest sources rest'
  | [], _, rest, .nil, _, _ => ⟨rest, rfl⟩
  | path :: paths, s :: sources, rest, .cons hread hreads, hone, hrest => by
    simp only [List.mapM_cons, gives_bind]
    by_cases hpath : path = ""
    · subst hpath
      rw [List.count_cons_self] at hone
      have hmem : "" ∉ paths := List.count_eq_zero.mp (by omega)
      obtain ⟨rest', hrest'⟩ := @gives_mapM_source t env procs input _ _ "" hreads (by omega)
        fun h => absurd h hmem
      obtain rfl := hrest List.mem_cons_self
      exact ⟨rest', s, "", by cases hread; rfl, sources, rest', hrest', rfl⟩
    · rw [List.count_cons_of_ne (Ne.symm (Ne.symm hpath))] at hone
      obtain ⟨rest', hrest'⟩ := gives_mapM_source t env procs input hreads hone
        fun h => hrest (List.mem_cons_of_mem _ h)
      refine ⟨rest', s, rest, ?_, sources, rest', hrest', rfl⟩
      rw [Gives, source_file t env procs hpath input, hread]

/-! ### What is known of the tasks -/

/-- The text of a task has not been read. -/
def Task.Unread (t : Task) : Prop := t.stage = .waiting ∨ t.stage = .reading

/-- What is known of a task by how far it has come: its text has been read as it would be alone, and
its slot is filled at the end with the verdict on it, or else left empty since the text cannot be
read; then the run has a failure. -/
def Task.Sound (read : String → Except Failure Source) (c : Check) (failure : Option Failure)
    (t : Task) : Prop :=
  match t.stage with
  | .waiting | .reading => t.slot = none
  | .checking s => read t.path = .ok s ∧ t.slot = none
  | .ended => (∃ s, read t.path = .ok s ∧ t.slot = some (c.document s)) ∨
      (∃ e, read t.path = .error e) ∧ t.slot = none ∧ failure.isSome

theorem Task.Sound.mono {read : String → Except Failure Source} {c : Check}
    {failure failure' : Option Failure} {t : Task} (h : t.Sound read c failure)
    (hfailure : failure'.isSome) : t.Sound read c failure' := by
  cases hstage : t.stage with
  | waiting | reading | checking s => simpa [Task.Sound, hstage] using h
  | ended =>
    simp only [Task.Sound, hstage] at h ⊢
    exact h.imp_right fun ⟨hread, hslot, _⟩ => ⟨hread, hslot, hfailure⟩

section Advances

variable {σ : Type} {w : World (StateM σ)} {c : Check} {i : Nat} {world world' : σ}
  {failure failure' : Option Failure} {t t' : Task} {e : Event}
  {read : String → Except Failure Source}
  (h : Advance w c i world failure t e t' world' failure')
include h

/-- The failure of a run is kept, and a new one is that of the text that has been read. -/
theorem Advance.failure_eq (hread : t.Unread → ((w.source t.path).run.run world).1 = read t.path) :
    failure' = failure ∨ failure = none ∧ ∃ e, failure' = some e ∧ read t.path = .error e := by
  cases h with
  | start | read | store => exact .inl rfl
  | fail hstage hread' =>
    rw [hread'] at hread
    cases failure with
    | none => exact .inr ⟨rfl, _, rfl, (hread (.inr hstage)).symm⟩
    | some e => exact .inl rfl

theorem Advance.sound (hread : t.Unread → ((w.source t.path).run.run world).1 = read t.path)
    (ht : t.Sound read c failure) : t'.Sound read c failure' := by
  cases h with
  | start hstage => simpa [Task.Sound, hstage] using ht
  | read hstage hread' =>
    rw [hread'] at hread
    exact ⟨(hread (.inr hstage)).symm, by simpa [Task.Sound, hstage] using ht⟩
  | fail hstage hread' =>
    rw [hread'] at hread
    refine .inr ⟨⟨_, (hread (.inr hstage)).symm⟩, by simpa [Task.Sound, hstage] using ht, ?_⟩
    cases failure <;> rfl
  | store hstage =>
    simp only [Task.Sound, hstage] at ht
    exact .inl ⟨_, ht.1, rfl⟩

/-- A task is put to work only by being started. -/
theorem Advance.active_of_active (hstart : e ≠ .start i) (ht' : t'.active) : t.active := by
  cases h with
  | start => exact absurd rfl hstart
  | read hstage | fail hstage | store hstage => simp [Task.active, hstage]

theorem Advance.unread_of_unread (ht' : t'.Unread) : t.Unread := by
  cases h with
  | start hstage => exact .inl hstage
  | read | fail | store => simp [Task.Unread] at ht'

/-- Only what a task reads changes the state of the world. -/
theorem Advance.world_eq : world' = world ∨
    t.Unread ∧ ¬ t'.Unread ∧ world' = ((w.source t.path).run.run world).2 := by
  cases h with
  | start | store => exact .inl rfl
  | read hstage hread => exact .inr ⟨.inr hstage, by simp [Task.Unread], by rw [hread]⟩
  | fail hstage hread => exact .inr ⟨.inr hstage, by simp [Task.Unread], by rw [hread]⟩

/-- A slot is filled by the event that stores a verdict in it. -/
theorem Advance.slot_eq (ht : t.Sound read c failure) :
    t'.slot.toList.length = t.slot.toList.length + [e].count (.store i) := by
  cases h with
  | start | read | fail => simp
  | store hstage =>
    simp only [Task.Sound, hstage] at ht
    simp [ht.2]

theorem Advance.count_eq_zero {j : Nat} (hj : j ≠ i) : [e].count (.store j) = 0 := by
  cases h <;> simp [hj.symm]

end Advances

/-- What is known of the tasks of a run at any time. -/
structure Pool.Sound (read : String → Except Failure Source) (c : Check) (jobs : Int)
    (input : String) (paths : List String) (p : Pool String) : Prop where
  paths_eq : p.tasks.map Task.path = paths
  load_le : p.load ≤ jobs
  task : ∀ t ∈ p.tasks, t.Sound read c p.failure
  failure : ∀ e, p.failure = some e → ∃ path ∈ paths, read path = .error e
  world_eq : ∀ t ∈ p.tasks, t.path = "" → t.Unread → p.world = input

theorem sound_initial (read : String → Except Failure Source) (c : Check) {jobs : Int}
    (hjobs : 1 ≤ jobs) (input : String) (paths : List String) :
    (Pool.initial input paths).Sound read c jobs input paths where
  paths_eq := by simp [Pool.initial, Function.comp_def]
  load_le := by
    have hload : (Pool.initial input paths).load = 0 := by
      simp [Pool.load, Pool.initial, Task.active]
    omega
  task := by simp [Pool.initial, Task.Sound]
  failure e he := by cases he
  world_eq _ _ _ _ := rfl

section Sound

variable {t : Tree} {env : List (String × String)} {procs : Int} {c : Check} {jobs : Int}
  {input : String} {paths : List String} {p q : Pool String}

/-- The path of no other task stands for the standard input. -/
theorem path_ne_of_count {front back : List Task} {u : Task}
    (hone : ((front ++ u :: back).map Task.path).count "" ≤ 1) (hu : u.path = "") {v : Task}
    (hv : v ∈ front ++ back) : v.path ≠ "" := by
  intro hpath
  have hmem : "" ∈ (front ++ back).map Task.path := List.mem_map.mpr ⟨v, hv, hpath⟩
  have hpos := List.count_pos_iff.mpr hmem
  simp only [List.map_append, List.map_cons, List.count_append, hu, List.count_cons_self]
    at hone hpos
  omega

/-- **An event keeps what is known of the tasks.** -/
theorem sound_of_step (hone : paths.count "" ≤ 1)
    (hp : p.Sound ((World.ofTree t env procs).alone input) c jobs input paths) {e : Event}
    (h : p.step (World.ofTree t env procs) c jobs e = some q) :
    q.Sound ((World.ofTree t env procs).alone input) c jobs input paths := by
  obtain ⟨front, u, back, u', hptasks, hqtasks, hadvance, hroom⟩ := exists_advance h
  have hu : u ∈ p.tasks := by simp [hptasks]
  have hothers : ∀ v ∈ q.tasks, v = u' ∨ v ∈ front ++ back ∧ v ∈ p.tasks := by
    simp only [hqtasks, hptasks, List.mem_append, List.mem_cons]
    tauto
  have hread : u.Unread → (((World.ofTree t env procs).source u.path).run.run p.world).1 =
      (World.ofTree t env procs).alone input u.path := by
    intro hunread
    by_cases hpath : u.path = ""
    · rw [hp.world_eq u hu hpath hunread, World.alone]
    · rw [source_file t env procs hpath input]
  have hpaths : q.tasks.map Task.path = paths := by
    rw [← hp.paths_eq, hptasks, hqtasks]
    simp [hadvance.path_eq]
  refine ⟨hpaths, ?_, fun v hv => ?_, fun e he => ?_, fun v hv hpath hunread => ?_⟩
  · have hload := hp.load_le
    simp only [Pool.load, hptasks, hqtasks, List.countP_append, List.countP_cons] at hload hroom ⊢
    by_cases hstart : e = .start front.length
    · have := hroom hstart
      split_ifs <;> omega
    · have := hadvance.active_of_active hstart
      split_ifs at hload ⊢ <;> simp_all
      omega
  · rcases hothers v hv with rfl | ⟨-, hv⟩
    · exact hadvance.sound hread (hp.task u hu)
    · rcases hadvance.failure_eq hread with hsame | ⟨-, e, hsome, -⟩
      · exact hsame ▸ hp.task v hv
      · exact (hp.task v hv).mono (by rw [hsome]; rfl)
  · rcases hadvance.failure_eq hread with hsame | ⟨-, e', hsome, herror⟩
    · exact hp.failure e (hsame ▸ he)
    · obtain rfl : e' = e := Option.some.inj (hsome.symm.trans he)
      exact ⟨u.path, hp.paths_eq ▸ List.mem_map_of_mem hu, herror⟩
  · rcases hadvance.world_eq with hsame | ⟨-, hdone, hworld⟩
    · rw [hsame]
      rcases hothers v hv with rfl | ⟨-, hv⟩
      · exact hp.world_eq u hu (hadvance.path_eq ▸ hpath) (hadvance.unread_of_unread hunread)
      · exact hp.world_eq v hv hpath hunread
    · rcases hothers v hv with rfl | ⟨hother, hv⟩
      · exact absurd hunread hdone
      · have hupath : u.path ≠ "" := fun hupath =>
          path_ne_of_count (by rwa [← hptasks, hp.paths_eq]) hupath hother hpath
        rw [hworld, source_file t env procs hupath input]
        exact hp.world_eq v hv hpath hunread

theorem sound_of_run (hjobs : 1 ≤ jobs) (hone : paths.count "" ≤ 1) {events : List Event}
    (h : (Pool.initial input paths).run (World.ofTree t env procs) c jobs events = some p) :
    p.Sound ((World.ofTree t env procs).alone input) c jobs input paths := by
  induction events using List.reverseRecOn generalizing p with
  | nil =>
    cases h
    exact sound_initial _ c hjobs input paths
  | append_singleton events e ih =>
    obtain ⟨q, hrun, hstep⟩ := run_concat.mp h
    exact sound_of_step hone (ih hrun) hstep

/-! ### Slots -/

/-- How many verdicts are in the slot of a task. -/
def Pool.filled (p : Pool String) (i : Nat) : Nat := (p.tasks[i]?.bind Task.slot).toList.length

/-- **A slot is filled by one event of its own task,** and by no other. -/
theorem count_store_of_run (hjobs : 1 ≤ jobs) (hone : paths.count "" ≤ 1) {events : List Event}
    (h : (Pool.initial input paths).run (World.ofTree t env procs) c jobs events = some p)
    (i : Nat) : events.count (.store i) = p.filled i := by
  induction events using List.reverseRecOn generalizing p with
  | nil =>
    cases h
    have hempty : (Pool.initial input paths).tasks[i]?.bind Task.slot = none := by
      simp [Pool.initial, Option.bind_map]
    rw [Pool.filled, hempty]
    rfl
  | append_singleton events e ih =>
    obtain ⟨q, hrun, hstep⟩ := run_concat.mp h
    have hq := sound_of_run hjobs hone hrun
    obtain ⟨front, u, back, u', hqtasks, hptasks, hadvance, -⟩ := exists_advance hstep
    rw [List.count_append, ih hrun, Pool.filled, Pool.filled, hptasks, hqtasks]
    by_cases hi : i = front.length
    · subst hi
      have hslot := hadvance.slot_eq (hq.task u (by simp [hqtasks]))
      simpa using hslot.symm
    · have hcount := hadvance.count_eq_zero hi
      have hsame : (front ++ u' :: back)[i]? = (front ++ u :: back)[i]? := by
        rw [List.getElem?_append, List.getElem?_append]
        split_ifs with hlt
        · rfl
        · obtain ⟨k, hk⟩ : ∃ k, i - front.length = k + 1 := ⟨i - front.length - 1, by omega⟩
          rw [hk, List.getElem?_cons_succ, List.getElem?_cons_succ]
      rw [hcount, hsame, Nat.add_zero]

/-! ### Results -/

/-- When all tasks have ended and the run has no failure, every text has been read and every slot is
filled. -/
theorem exists_sources_of_finished
    (hp : p.Sound ((World.ofTree t env procs).alone input) c jobs input paths)
    (hfinished : p.finished = true) (hfailure : p.failure = none) :
    ∃ sources, List.Forall₂ (fun path s => (World.ofTree t env procs).alone input path = .ok s)
      paths sources ∧ p.tasks.map Task.slot = sources.map fun s => some (c.document s) := by
  obtain ⟨hpaths, -, htask, -, -⟩ := hp
  have hdone := List.all_eq_true.mp hfinished
  rw [hfailure] at htask
  generalize p.tasks = tasks at *
  subst hpaths
  induction tasks with
  | nil => exact ⟨[], .nil, rfl⟩
  | cons u tasks ih =>
    have hstage : u.stage = .ended := by
      have := hdone u List.mem_cons_self
      cases hstage : u.stage <;> simp_all [Task.done]
    have hu := htask u List.mem_cons_self
    simp only [Task.Sound, hstage] at hu
    rcases hu with ⟨s, hread, hslot⟩ | ⟨-, -, hsome⟩
    · obtain ⟨sources, hsources, hslots⟩ := ih (fun v hv => htask v (.tail _ hv))
        fun v hv => hdone v (.tail _ hv)
      refine ⟨s :: sources, .cons hread hsources, ?_⟩
      rw [List.map_cons, List.map_cons, hslot, hslots]
    · cases hsome

theorem filled_eq_one {sources : List Source}
    (hslots : p.tasks.map Task.slot = sources.map fun s => some (c.document s)) {i : Nat}
    (hi : i < p.tasks.length) : p.filled i = 1 := by
  have hlength : p.tasks.length = sources.length := by
    simpa using congrArg List.length hslots
  have hslot := congrArg (·[i]?) hslots
  simp only [List.getElem?_map] at hslot
  rw [List.getElem?_eq_getElem hi, List.getElem?_eq_getElem (hlength ▸ hi)] at hslot
  rw [Pool.filled, List.getElem?_eq_getElem hi]
  simpa using congrArg (Option.map fun o : Option Verdict => o.toList.length) hslot

end Sound

/-- **The result does not depend on the order of the events.** Settings ask for at least one job.
With that, and with no more than one path for the standard input, no more tasks are at work than
there are jobs, whatever the order in which they get on; no more than three events for each path
happen, and one can happen as long as a task has not ended. When all have ended, the result is, if
every path can be read, the verdicts on the texts read one after the other, in the order of the
paths, and each slot has been filled by one event of its own task; otherwise the result is the
failure of one of the paths that cannot be read. -/
theorem result_of_schedule :
    (∀ s s' : Config, s.check = .ok s' → 1 ≤ s'.jobs) ∧
    ∀ (t : Tree) (env : List (String × String)) (procs : Int) (c : Check) (jobs : Int)
      (input : String) (paths : List String) (events : List Event) (p : Pool String),
      1 ≤ jobs → paths.count "" ≤ 1 →
      (Pool.initial input paths).run (World.ofTree t env procs) c jobs events = some p →
      p.load ≤ jobs ∧ events.length ≤ 3 * paths.length ∧
      (p.finished = false → ∃ e q, p.step (World.ofTree t env procs) c jobs e = some q) ∧
      (p.finished = true →
        ((∀ path ∈ paths, ∃ s, (World.ofTree t env procs).alone input path = .ok s) →
          ∃ sources rest,
            List.Forall₂ (fun path s => (World.ofTree t env procs).alone input path = .ok s)
              paths sources ∧
            Gives (paths.mapM (World.ofTree t env procs).source) input sources rest ∧
            p.result = .ok (sources.map fun s => some (c.document s)) ∧
            ∀ i < paths.length, events.count (.store i) = 1) ∧
        ((∃ path ∈ paths, ∃ e, (World.ofTree t env procs).alone input path = .error e) →
          ∃ path ∈ paths, ∃ e, (World.ofTree t env procs).alone input path = .error e ∧
            p.result = .error e)) := by
  refine ⟨fun s s' hcheck => ?_,
    fun t env procs c jobs input paths events p hjobs hone hrun => ?_⟩
  · unfold Config.check at hcheck
    split_ifs at hcheck
    cases hcheck
    omega
  have hp := sound_of_run hjobs hone hrun
  have hlength : p.tasks.length = paths.length := by
    rw [← hp.paths_eq, List.length_map]
  have hevents : events.length ≤ 3 * paths.length := by
    have := length_le_of_run hrun
    rw [left_initial] at this
    omega
  refine ⟨hp.load_le, hevents, exists_step hjobs, fun hfinished => ⟨fun hreads => ?_, ?_⟩⟩
  · have hfailure : p.failure = none := by
      by_contra hfailure
      obtain ⟨e, he⟩ := Option.ne_none_iff_exists'.mp hfailure
      obtain ⟨path, hpath, herror⟩ := hp.failure e he
      obtain ⟨s, hs⟩ := hreads path hpath
      rw [herror] at hs
      cases hs
    obtain ⟨sources, hsources, hslots⟩ := exists_sources_of_finished hp hfinished hfailure
    obtain ⟨rest, hrest⟩ := gives_mapM_source t env procs input hsources hone fun _ => rfl
    refine ⟨sources, rest, hsources, hrest, ?_, fun i hi => ?_⟩
    · rw [Pool.result, hfailure, hslots]
    · rw [count_store_of_run hjobs hone hrun, filled_eq_one hslots (hlength ▸ hi)]
  · rintro ⟨path, hpath, e, herror⟩
    cases hfailure : p.failure with
    | none =>
      obtain ⟨sources, hsources, -⟩ := exists_sources_of_finished hp hfinished hfailure
      obtain ⟨i, hi, rfl⟩ := List.getElem_of_mem hpath
      have hread := hsources.get hi (hsources.length_eq ▸ hi)
      rw [List.get_eq_getElem, herror] at hread
      cases hread
    | some e' =>
      obtain ⟨path', hpath', herror'⟩ := hp.failure e' hfailure
      exact ⟨path', hpath', e', herror', by rw [Pool.result, hfailure]⟩

/-- A document that spreads a fragment which is not defined. -/
def looseQuery : String := "\x7b ...F \x7d"

/-- Files of which one holds that document. -/
def twoFiles : Tree := ⟨"/", [("a", looseQuery), ("b", "\x7b x \x7d")]⟩

theorem read_twoFiles : twoFiles.read "a" = .ok looseQuery := by
  -- A text is split by a recursion that does not reduce, so that its steps are written out.
  have hname : "a".splitOn "/" = ["a"] := by
    rw [String.splitOn, if_neg (by decide), String.splitOnAux, if_neg (by decide +kernel),
      if_neg (by decide +kernel), String.splitOnAux, if_pos (by decide +kernel)]
    decide +kernel
  have hroot : "/".splitOn "/" = ["", ""] := by
    rw [String.splitOn, if_neg (by decide), String.splitOnAux, if_neg (by decide +kernel),
      if_pos (by decide +kernel)]
    dsimp only
    rw [if_pos (by decide +kernel), String.splitOnAux, if_pos (by decide +kernel)]
    decide +kernel
  have hlocate : twoFiles.locate "a" = some ["a"] := by
    rw [Tree.locate, Path.parts, twoFiles, hname, hroot]
    decide +kernel
  have hfile : twoFiles.file? ["a"] = some looseQuery := by
    have hfound : (!"a".endsWith "/" && Path.parts "a" == ["a"]) = true := by
      rw [Path.parts, hname]
      decide +kernel
    unfold Tree.file? twoFiles
    dsimp only
    rw [List.find?_cons, hfound]
    rfl
  rw [Tree.read, hlocate]
  dsimp only
  rw [hfile]
  exact if_neg (by decide +kernel)

/-- A check by all rules without a schema or definitions. -/
def bareCheck : Check where
  schema := none
  definitions := []
  definitionsText := ""
  rules := Rule.specified
  maxDepth := 0

/-- An order of events in which three tasks overlap. -/
def overlapping : List Event :=
  [.start 1, .start 0, .read 0, .read 1, .store 1, .start 2, .read 2, .store 2, .store 0]

/-- What becomes of a file that is named twice, and of the standard input between. -/
def overlapped : Pool String where
  world := ""
  tasks :=
    [⟨"a", .ended, some (bareCheck.document ⟨"a", looseQuery⟩)⟩,
     ⟨"", .ended, some (bareCheck.document ⟨inputName, "\x7b y \x7d"⟩)⟩,
     ⟨"a", .ended, some (bareCheck.document ⟨"a", looseQuery⟩)⟩]

theorem result_of_schedule_overlapping :
    (Pool.initial "\x7b y \x7d" ["a", "", "a"]).run (World.ofTree twoFiles [] 4) bareCheck 2
      overlapping = some overlapped ∧
    overlapped.finished = true ∧
    (∃ sources rest,
      Gives (["a", "", "a"].mapM (World.ofTree twoFiles [] 4).source) "\x7b y \x7d" sources rest ∧
      overlapped.result = .ok (sources.map fun s => some (bareCheck.document s))) ∧
    ∀ i < 3, overlapping.count (.store i) = 1 := by
  have ha := source_of_read [] 4 (show "a" ≠ "" by decide) read_twoFiles
  have hrun : (Pool.initial "\x7b y \x7d" ["a", "", "a"]).run (World.ofTree twoFiles [] 4)
      bareCheck 2 overlapping = some overlapped := by
    simp [Pool.run, overlapping, Pool.initial, Pool.step, Pool.load, Pool.put, Task.active,
      List.countP_cons, ha, source_input, overlapped]
  obtain ⟨-, -, -, hresult⟩ := result_of_schedule.2 twoFiles [] 4 bareCheck 2 "\x7b y \x7d"
    ["a", "", "a"] overlapping overlapped (by decide) (by decide) hrun
  have hreads : ∀ path ∈ ["a", "", "a"],
      ∃ s, (World.ofTree twoFiles [] 4).alone "\x7b y \x7d" path = .ok s := by
    simp [World.alone, ha, source_input]
  obtain ⟨sources, rest, -, hgives, hsources, hcount⟩ := (hresult rfl).1 hreads
  exact ⟨hrun, rfl, ⟨sources, rest, hgives, hsources⟩, hcount⟩

/-- What becomes of the standard input when it is named twice: the path whose task comes first gets
all of it. -/
def namedTwice (jobs : Int) (events : List Event) : Option (Pool String) :=
  (Pool.initial looseQuery ["", ""]).run (World.ofTree twoFiles [] 4) bareCheck jobs events

/-- Which of the texts are found valid, when all tasks have ended. -/
def Pool.validity (p : Pool String) : Option (List (Option Bool)) :=
  if p.finished then p.result.toOption.map (·.map (·.map Verdict.valid)) else none

/-- **The standard input cannot be named twice.** Both paths can be read alone, and what they read
is not valid; but in any order of the tasks one of them finds nothing, which is valid, and which one
it is depends on the order. -/
theorem namedTwice_depends_on_order :
    (World.ofTree twoFiles [] 4).alone looseQuery "" = .ok ⟨inputName, looseQuery⟩ ∧
    (bareCheck.document ⟨inputName, looseQuery⟩).valid = false ∧
    (namedTwice 1 [.start 0, .read 0, .store 0, .start 1, .read 1, .store 1]).bind Pool.validity =
      some [some false, some true] ∧
    (namedTwice 2 [.start 0, .start 1, .read 1, .store 1, .read 0, .store 0]).bind Pool.validity =
      some [some true, some false] := by
  refine ⟨rfl, by decide +kernel, by decide +kernel, by decide +kernel⟩

end QueryCheck.Command
