import Mathlib.Tactic.Ring
import Pman.Lib.Signed64
import Pman.Timer.Scheduler

set_option autoImplicit false

/-!
# The chains of a periodic scheduler

`PeriodicScheduler` with each public operation, each timer that fires and each end of an execution
as one step. A task is kept going by one chain: its timer fires and submits an execution, whose end
sets the next timer. Neither `pause` nor `stop` breaks the chain of a task that is executing, and
`pause` leaves its timer, while `resume` and `start` always begin a chain: they must find none.

Times are integers. The sums and differences of a cycle stay in the range of 64 bits as long as the
target times do (`fits_of_rearm`).

## Main results

* `load_le_one`: one chain per task.
* `nextScheduled_exact_iff`: when a fixed-rate task keeps its target times.
-/

namespace Pman.PeriodicScheduler

open List

open Scheduler (TaskConfig TaskState nextDelay)

/-- The data of a scheduler. The timers of its wheel that are not cancelled are kept with the task
they execute; `executions` are the tasks submitted to the workers that have not ended. -/
structure State where
  tasks_ : List (ℕ × TaskState)
  nextTaskId_ : ℕ
  running_ : Bool
  timers : List (ℕ × ℕ)
  nextTimerId : ℕ
  executions : List ℕ

def new : State := ⟨[], 1, false, [], 1, []⟩

namespace State

def find (s : State) (taskId : ℕ) : Option TaskState := s.tasks_.lookup taskId

def modifyTask (s : State) (taskId : ℕ) (f : TaskState → TaskState) : State :=
  { s with tasks_ := s.tasks_.map fun e => if e.1 = taskId then (e.1, f e.2) else e }

def cancelTimer (s : State) (timerId : ℕ) : State :=
  { s with timers := s.timers.filter (·.1 ≠ timerId) }

end State

def runnable (state : TaskState) : Bool := state.active && !state.paused

/-- What `scheduleNext` does to a task; it reads the clock once for the delay of a fixed-rate task
and once for the target time. -/
def rearm (state : TaskState) (isFirst : Bool) (clock : ℤ × ℤ) : TaskState :=
  { state with nextScheduled := clock.2 + nextDelay state isFirst clock.1 }

def State.scheduleNext (s : State) (taskId : ℕ) (isFirst : Bool) (clock : ℤ × ℤ) : State :=
  match s.find taskId with
  | none => s
  | some state =>
    if runnable state then
      { s with
        timers := s.timers ++ [(s.nextTimerId, taskId)]
        nextTimerId := s.nextTimerId + 1 }.modifyTask taskId fun state =>
          { rearm state isFirst clock with timerId := s.nextTimerId }
    else s

def State.executeTask (s : State) (taskId : ℕ) (clock : ℤ × ℤ) : State :=
  match s.find taskId with
  | none => s
  | some state =>
    if runnable state = false then s
    else if state.config.maxConcurrent ≤ state.runningCount ∧ state.config.catchUp = false then
      s.scheduleNext taskId false clock
    else
      { s with executions := s.executions ++ [taskId] }.modifyTask taskId fun state =>
        { state with runningCount := state.runningCount + 1 }

/-- The steps; `clock` are the readings of `scheduleNext` for each task. -/
inductive Act
  /-- `schedule` with a plain task or with one that takes a stop token. -/
  | schedule (config : TaskConfig) (stoppable : Bool) (clock : ℤ × ℤ)
  | cancel (taskId : ℕ)
  | pause (taskId : ℕ)
  | resume (taskId : ℕ) (clock : ℤ × ℤ)
  | start (clock : ℕ → ℤ × ℤ)
  | stop
  /-- The wheel, which runs while the scheduler does, runs the callback of a timer. -/
  | fire (timerId taskId : ℕ) (clock : ℤ × ℤ)
  | finish (taskId : ℕ) (startTime endTime : ℤ) (clock : ℤ × ℤ)

def step (s : State) : Act → Option State
  | .schedule config stoppable clock =>
    if config.period ≤ 0 ∧ stoppable = false then some s
    else
      let s' := { s with
        tasks_ := s.tasks_ ++ [(s.nextTaskId_, { config := config })]
        nextTaskId_ := s.nextTaskId_ + 1 }
      some (if s.running_ then s'.scheduleNext s.nextTaskId_ true clock else s')
  | .cancel taskId =>
    match s.find taskId with
    | none => some s
    | some state =>
      some ((s.modifyTask taskId fun state =>
        { state with active := false, stopRequested := true }).cancelTimer state.timerId)
  | .pause taskId => some (s.modifyTask taskId fun state => { state with paused := true })
  | .resume taskId clock =>
    match s.find taskId with
    | none => some s
    | some state =>
      if state.paused then
        let s' := s.modifyTask taskId fun state => { state with paused := false }
        some (if s.running_ then s'.scheduleNext taskId false clock else s')
      else some s
  | .start clock =>
    if s.running_ then some s
    else
      some (s.tasks_.foldl
        (fun s e => if runnable e.2 then s.scheduleNext e.1 true (clock e.1) else s)
        { s with running_ := true })
  | .stop =>
    some (s.tasks_.foldl (fun s e => s.cancelTimer e.2.timerId)
      { s with
        running_ := false
        tasks_ := s.tasks_.map fun e => (e.1, { e.2 with stopRequested := true }) })
  | .fire timerId taskId clock =>
    if s.running_ ∧ (timerId, taskId) ∈ s.timers then
      some ({ s with timers := s.timers.erase (timerId, taskId) }.executeTask taskId clock)
    else none
  | .finish taskId startTime endTime clock =>
    if taskId ∈ s.executions then
      let s' := { s with executions := s.executions.erase taskId }.modifyTask taskId fun state =>
        { state with
          runningCount := state.runningCount - 1
          executionCount := state.executionCount + 1
          lastExecution := startTime
          totalExecutionTime := state.totalExecutionTime + (endTime - startTime) }
      some (if s.running_ then s'.scheduleNext taskId false clock else s')
    else none

def system : TransitionSystem State Act := ⟨(· = new), step⟩

def State.load (s : State) (taskId : ℕ) : ℕ :=
  s.timers.countP (·.2 = taskId) + s.executions.count taskId

/-- **`resume` and `start` find no chain where they begin one.** -/
def BeginsAlone (s : State) : Act → Prop
  | .resume taskId _ =>
    s.running_ = true → (∃ state, s.find taskId = some state ∧ state.paused = true) →
      s.load taskId = 0
  | .start _ => s.running_ = false → ∀ e ∈ s.tasks_, runnable e.2 = true → s.load e.1 = 0
  | _ => True

abbrev State.ids (s : State) : List ℕ := s.tasks_.map Prod.fst

/-- The invariant: ids are distinct and were given out, and each task has at most one chain. -/
structure Chains (s : State) : Prop where
  nodup : s.ids.Nodup
  given : ∀ taskId ∈ s.ids, taskId < s.nextTaskId_
  load : ∀ taskId, s.load taskId ≤ if taskId ∈ s.ids then 1 else 0

/-- The tasks are those of `s₀`, and their loads are within a bound. -/
structure Within (s₀ : State) (bound : ℕ → ℕ) (s : State) : Prop where
  ids : s.ids = s₀.ids
  nextTaskId : s.nextTaskId_ = s₀.nextTaskId_
  load : ∀ taskId, s.load taskId ≤ bound taskId

section Bounds

variable {s₀ s s' : State} {bound : ℕ → ℕ} {taskId : ℕ}

lemma Chains.of_within (h : Chains s) (hw : Within s bound s')
    (hbound : ∀ id, bound id ≤ if id ∈ s.ids then 1 else 0) : Chains s' := by
  refine ⟨hw.ids ▸ h.nodup, fun id hid => ?_, fun id => ?_⟩
  · rw [hw.nextTaskId]
    exact h.given id (hw.ids ▸ hid)
  · rw [hw.ids]
    exact (hw.load id).trans (hbound id)

lemma Chains.begin (h : Chains s)
    (hw : Within s (fun id => bound id + if id = taskId ∧ id ∈ s.ids then 1 else 0) s')
    (hzero : bound taskId = 0) (hle : ∀ id, bound id ≤ s.load id) : Chains s' := by
  refine h.of_within hw fun id => ?_
  by_cases hid : id = taskId
  · subst hid
    simp only [hzero, true_and, zero_add, Nat.le_refl]
  · simpa [hid] using (hle id).trans (h.load id)

lemma Chains.less (h : Chains s) (s' : State) (taskId : ℕ)
    (hload : ∀ id, s.load id = s'.load id + if taskId = id then 1 else 0) :
    s'.load taskId = 0 ∧ ∀ id, s'.load id ≤ s.load id := by
  refine ⟨?_, fun id => by rw [hload id]; exact Nat.le_add_right _ _⟩
  have hone : s.load taskId ≤ 1 := (h.load taskId).trans (by split_ifs <;> omega)
  have hself := hload taskId
  rw [if_pos rfl] at hself
  omega

lemma Within.modifyTask (h : Within s₀ bound s) (f : TaskState → TaskState) :
    Within s₀ bound (s.modifyTask taskId f) := by
  refine ⟨?_, h.nextTaskId, h.load⟩
  rw [← h.ids, State.ids, State.modifyTask, map_map]
  refine map_congr_left fun e _ => ?_
  dsimp only [Function.comp]
  split_ifs <;> rfl

lemma Within.cancelTimer (h : Within s₀ bound s) (timerId : ℕ) :
    Within s₀ bound (s.cancelTimer timerId) :=
  ⟨h.ids, h.nextTaskId, fun id =>
    (Nat.add_le_add_right (filter_sublist.countP_le) _).trans (h.load id)⟩

lemma mem_ids_of_find {state : TaskState} (h : s.find taskId = some state) : taskId ∈ s.ids := by
  obtain ⟨l₁, l₂, heq, -⟩ := lookup_eq_some_iff.mp h
  rw [State.ids, heq]
  simp

variable (h : Within s₀ bound s)

include h

lemma Within.add {state : TaskState} (hfind : s.find taskId = some state)
    (hids : s'.ids = s.ids) (hnext : s'.nextTaskId_ = s.nextTaskId_)
    (hload : ∀ id, s'.load id = s.load id + if taskId = id then 1 else 0) :
    Within s₀ (fun id => bound id + if id = taskId ∧ id ∈ s₀.ids then 1 else 0) s' := by
  refine ⟨hids.trans h.ids, hnext.trans h.nextTaskId, fun id => ?_⟩
  have hle := h.load id
  have hmem : taskId ∈ s₀.ids := h.ids ▸ mem_ids_of_find hfind
  rw [hload]
  by_cases hid : taskId = id
  · subst hid
    simpa [hmem] using hle
  · simpa [hid, Ne.symm hid] using hle

lemma Within.mono {bound' : ℕ → ℕ} (hle : ∀ id, bound id ≤ bound' id) : Within s₀ bound' s :=
  ⟨h.ids, h.nextTaskId, fun id => (h.load id).trans (hle id)⟩

lemma Within.scheduleNext (isFirst : Bool) (clock : ℤ × ℤ) :
    Within s₀ (fun id => bound id + if id = taskId ∧ id ∈ s₀.ids then 1 else 0)
      (s.scheduleNext taskId isFirst clock) := by
  unfold State.scheduleNext
  split
  case h_1 => exact h.mono fun id => Nat.le_add_right _ _
  case h_2 state hfind =>
    split_ifs
    · refine Within.modifyTask (h.add hfind ?_ ?_ ?_) _
      · rfl
      · rfl
      · intro id
        simp [State.load, countP_append, countP_singleton]
        omega
    · exact h.mono fun id => Nat.le_add_right _ _

lemma Within.executeTask (clock : ℤ × ℤ) :
    Within s₀ (fun id => bound id + if id = taskId ∧ id ∈ s₀.ids then 1 else 0)
      (s.executeTask taskId clock) := by
  unfold State.executeTask
  split
  case h_1 => exact h.mono fun id => Nat.le_add_right _ _
  case h_2 state hfind =>
    split_ifs
    · exact h.mono fun id => Nat.le_add_right _ _
    · exact h.scheduleNext false clock
    · refine Within.modifyTask (h.add hfind ?_ ?_ ?_) _
      · rfl
      · rfl
      · intro id
        simp [State.load, count_append, count_singleton]
        omega

lemma Within.stopAll (tasks : List (ℕ × TaskState)) :
    Within s₀ bound (tasks.foldl (fun s e => s.cancelTimer e.2.timerId) s) := by
  induction tasks generalizing s with
  | nil => exact h
  | cons e tasks ih => exact ih (h.cancelTimer _)

lemma Within.startAll (clock : ℕ → ℤ × ℤ) (tasks : List (ℕ × TaskState)) :
    Within s₀ (fun id => bound id + tasks.countP fun e => e.1 = id ∧ runnable e.2) (tasks.foldl
      (fun s e => if runnable e.2 then s.scheduleNext e.1 true (clock e.1) else s) s) := by
  induction tasks generalizing s bound with
  | nil => exact h
  | cons e tasks ih =>
    simp only [foldl_cons]
    split_ifs with hrun
    · refine (ih (h.scheduleNext true (clock e.1))).mono fun id => ?_
      rw [countP_cons]
      by_cases hid : id = e.1
      · simp [hid, hrun]
        split_ifs <;> omega
      · simp [hid, hrun]
    · refine (ih h).mono fun id => ?_
      simp [hrun]

end Bounds

section Steps

variable {s s' : State} {a : Act}

lemma Chains.register (h : Chains s) (config : TaskConfig) :
    s.load s.nextTaskId_ = 0 ∧ Chains { s with
      tasks_ := s.tasks_ ++ [(s.nextTaskId_, { config := config })]
      nextTaskId_ := s.nextTaskId_ + 1 } := by
  have hnew : s.nextTaskId_ ∉ s.ids := fun hmem => lt_irrefl _ (h.given _ hmem)
  have hload := h.load s.nextTaskId_
  rw [if_neg hnew] at hload
  refine ⟨by omega, ?_, fun id hid => ?_, fun id => (h.load id).trans ?_⟩
  · rw [State.ids, map_append]
    exact h.nodup.append (nodup_singleton _) (by simpa using hnew)
  · rw [State.ids, map_append, mem_append] at hid
    rcases hid with hid | hid
    · exact Nat.lt_succ_of_lt (h.given id hid)
    · obtain rfl : id = s.nextTaskId_ := mem_singleton.mp hid
      exact lt_add_one _
  · rw [State.ids, State.ids, map_append]
    split_ifs with hold hall
    · exact le_rfl
    · exact absurd (mem_append_left _ hold) hall
    · exact Nat.zero_le _
    · exact le_rfl

lemma Chains.startAll (h : Chains s)
    (hok : ∀ e ∈ s.tasks_, runnable e.2 = true → s.load e.1 = 0) (id : ℕ) :
    (s.load id + s.tasks_.countP fun e => e.1 = id ∧ runnable e.2) ≤
      if id ∈ s.ids then 1 else 0 := by
  by_cases hcount : (s.tasks_.countP fun e => e.1 = id ∧ runnable e.2) = 0
  · rw [hcount]
    exact h.load id
  · obtain ⟨e, he, heq⟩ := countP_pos_iff.mp (Nat.pos_of_ne_zero hcount)
    obtain ⟨rfl, hrun⟩ := of_decide_eq_true heq
    have hle : (s.tasks_.countP fun e' => e'.1 = e.1 ∧ runnable e'.2) ≤ s.ids.count e.1 := by
      rw [State.ids, count, countP_map]
      exact countP_mono_left fun e' _ h => by simp_all
    have hone : s.ids.count e.1 ≤ 1 := nodup_iff_count_le_one.mp h.nodup _
    rw [if_pos (mem_map_of_mem he), hok e he hrun]
    omega

lemma Chains.step (h : Chains s) (hok : BeginsAlone s a) (hst : step s a = some s') :
    Chains s' := by
  have hself : Within s s.load s := ⟨rfl, rfl, fun _ => le_rfl⟩
  cases a with
  | schedule config stoppable clock =>
    obtain ⟨hzero, hreg⟩ := h.register config
    simp only [PeriodicScheduler.step] at hst
    split at hst
    · cases hst
      exact h
    cases hst
    split_ifs
    · exact hreg.begin (Within.scheduleNext ⟨rfl, rfl, fun _ => le_rfl⟩ true clock) hzero
        fun _ => le_rfl
    · exact hreg
  | cancel taskId =>
    simp only [PeriodicScheduler.step] at hst
    split at hst <;> cases hst
    · exact h
    · exact h.of_within ((hself.modifyTask _).cancelTimer _) h.load
  | pause taskId =>
    cases hst
    exact h.of_within (hself.modifyTask _) h.load
  | resume taskId clock =>
    simp only [PeriodicScheduler.step] at hst
    split at hst
    case h_1 =>
      cases hst
      exact h
    case h_2 state hfind =>
      split_ifs at hst with hpaused hrunning <;> cases hst
      · exact h.begin ((hself.modifyTask _).scheduleNext false clock)
          (hok hrunning ⟨state, hfind, hpaused⟩) fun _ => le_rfl
      · exact h.of_within (hself.modifyTask _) h.load
      · exact h
  | start clock =>
    simp only [PeriodicScheduler.step] at hst
    split_ifs at hst with hrunning <;> cases hst
    · exact h
    · have hstarted : Within s s.load { s with running_ := true } := ⟨rfl, rfl, hself.load⟩
      exact h.of_within (hstarted.startAll clock s.tasks_)
        (h.startAll (hok (Bool.eq_false_iff.mpr hrunning)))
  | stop =>
    cases hst
    have hstopped : Within s s.load { s with
        running_ := false
        tasks_ := s.tasks_.map fun e => (e.1, { e.2 with stopRequested := true }) } :=
      ⟨by simp [State.ids], rfl, hself.load⟩
    exact h.of_within (hstopped.stopAll s.tasks_) h.load
  | fire timerId taskId clock =>
    simp only [PeriodicScheduler.step] at hst
    split_ifs at hst with hfire
    cases hst
    have hless := h.less { s with timers := s.timers.erase (timerId, taskId) } taskId
      fun id => by
        have hperm := (perm_cons_erase hfire.2).countP_eq (·.2 = id)
        rw [countP_cons] at hperm
        simp only [State.load, hperm, decide_eq_true_eq]
        omega
    have hfired : Within s _ { s with timers := s.timers.erase (timerId, taskId) } :=
      ⟨rfl, rfl, fun _ => le_rfl⟩
    exact h.begin (hfired.executeTask clock) hless.1 hless.2
  | finish taskId startTime endTime clock =>
    simp only [PeriodicScheduler.step] at hst
    split at hst
    case isFalse => cases hst
    case isTrue hmem =>
      cases hst
      have hless := h.less { s with executions := s.executions.erase taskId } taskId
        fun id => by
          have hperm := (perm_cons_erase hmem).count_eq id
          rw [count_cons] at hperm
          simp only [State.load, hperm, beq_iff_eq]
          omega
      have hended : Within s _ { s with executions := s.executions.erase taskId } :=
        ⟨rfl, rfl, fun _ => le_rfl⟩
      split_ifs
      · exact h.begin ((hended.modifyTask _).scheduleNext false clock) hless.1 hless.2
      · exact h.of_within (hended.modifyTask _) fun id => (hless.2 id).trans (h.load id)

end Steps

/-- **One chain per task**: in every run in which `resume` and `start` find no chain where they
begin one, every task has at most one uncancelled timer or execution. -/
theorem load_le_one {s : State} (h : system.ReachableWithin BeginsAlone s) (taskId : ℕ) :
    s.load taskId ≤ 1 := by
  have hinv : Chains s := by
    refine h.invariant ?_ fun _ _ _ hs hok hst => hs.step hok hst
    rintro _ rfl
    exact ⟨nodup_nil, by simp [new], by simp [new, State.load]⟩
  exact (hinv.load taskId).trans (by split_ifs <;> omega)

def ten : TaskConfig := { name := "ten", period := 10, fixedRate := true }

/-- A task is resumed after its timer has fired. -/
theorem load_le_one_resumed : ∃ s, system.ReachableWithin BeginsAlone s ∧
    s.timers = [(2, 1)] ∧ s.load 1 ≤ 1 := by
  have hs : system.ReachableWithin BeginsAlone _ := .final new
      [.schedule ten false (0, 0), .start fun _ => (0, 0), .pause 1, .fire 1 1 (0, 0),
        .resume 1 (0, 0)] rfl
      (by exact ⟨trivial, by simp [BeginsAlone, State.load, new], trivial, trivial, fun _ _ => rfl,
        trivial⟩)
  exact ⟨_, hs, rfl, load_le_one hs 1⟩

/-- **`pause` leaves the timer of the task**, and `resume` sets another one. -/
theorem two_chains : ∃ s, system.Reachable s ∧ s.load 1 = 2 :=
  TransitionSystem.reached_by new
    [.schedule ten false (0, 0), .start fun _ => (0, 0), .pause 1, .resume 1 (0, 0)] rfl
    ⟨trivial, trivial, trivial, trivial, rfl⟩

/-! ### The target times of a fixed-rate task -/

open Signed64 in
/-- **Nothing overflows in a cycle** whose readings and target time are in range: not the target
time before the clock is subtracted, not the delay, and not the new target time. -/
lemma fits_of_rearm {state : TaskState} {clock : ℤ × ℤ} (hnow : 0 ≤ clock.1)
    (hclock : clock.1 ≤ clock.2)
    (hends : clock.1 < state.nextScheduled + state.config.period)
    (hrate : state.config.fixedRate = true)
    (hlt : (rearm state false clock).nextScheduled < 2 ^ 63) :
    Fits (state.nextScheduled + state.config.period) ∧ Fits (nextDelay state false clock.1) ∧
      Fits (rearm state false clock).nextScheduled := by
  have hdelay : nextDelay state false clock.1 =
      state.nextScheduled + state.config.period - clock.1 := by
    simp [nextDelay, hrate, hends]
  have hnext : (rearm state false clock).nextScheduled =
      clock.2 + (state.nextScheduled + state.config.period - clock.1) := by rw [← hdelay]; rfl
  rw [hnext] at hlt ⊢
  rw [hdelay]
  unfold Fits
  omega

/-- A task after a number of executions, with the readings of the clock at their ends. -/
def afterCycles (state : TaskState) : List (ℤ × ℤ) → TaskState
  | [] => state
  | clock :: clocks => afterCycles (rearm state false clock) clocks

def EndsInTime (state : TaskState) : List (ℤ × ℤ) → Prop
  | [] => True
  | clock :: clocks =>
    clock.1 < state.nextScheduled + state.config.period ∧
      EndsInTime (rearm state false clock) clocks

def drift (clocks : List (ℤ × ℤ)) : ℤ := (clocks.map fun clock => clock.2 - clock.1).sum

variable {state : TaskState} {clocks : List (ℤ × ℤ)}

lemma nextScheduled_afterCycles (hrate : state.config.fixedRate = true)
    (hends : EndsInTime state clocks) :
    (afterCycles state clocks).nextScheduled =
      state.nextScheduled + clocks.length * state.config.period + drift clocks := by
  induction clocks generalizing state with
  | nil => simp [afterCycles, drift]
  | cons clock clocks ih =>
    obtain ⟨hlt, hrest⟩ := hends
    have hrate' : (rearm state false clock).config.fixedRate = true := hrate
    rw [afterCycles, ih hrate' hrest]
    have hnext : (rearm state false clock).nextScheduled =
        state.nextScheduled + state.config.period + (clock.2 - clock.1) := by
      simp only [rearm, nextDelay, hrate, if_pos hlt, Bool.false_eq_true, if_false, if_true]
      omega
    have hperiod : (rearm state false clock).config.period = state.config.period := rfl
    rw [hnext, hperiod, drift, drift, map_cons, sum_cons, length_cons]
    push_cast
    ring

lemma drift_eq_zero_iff (h : ∀ clock ∈ clocks, clock.1 ≤ clock.2) :
    0 ≤ drift clocks ∧ (drift clocks = 0 ↔ ∀ clock ∈ clocks, clock.1 = clock.2) := by
  induction clocks with
  | nil => simp [drift]
  | cons clock clocks ih =>
    rw [forall_mem_cons] at h ⊢
    obtain ⟨hnonneg, hzero⟩ := ih h.2
    have hcons : drift (clock :: clocks) = clock.2 - clock.1 + drift clocks := by simp [drift]
    rw [hcons, ← hzero]
    omega

/-- **A fixed-rate task keeps its targets exactly when the clock stands still between the two
readings**: after `k` executions that end in time, the target is `k` periods after the first if and
only if the two readings are the same in every cycle. -/
theorem nextScheduled_exact_iff (hrate : state.config.fixedRate = true)
    (hclocks : ∀ clock ∈ clocks, clock.1 ≤ clock.2) (hends : EndsInTime state clocks) :
    (afterCycles state clocks).nextScheduled =
        state.nextScheduled + clocks.length * state.config.period ↔
      ∀ clock ∈ clocks, clock.1 = clock.2 := by
  rw [nextScheduled_afterCycles hrate hends, ← (drift_eq_zero_iff hclocks).2]
  omega

/-- Two executions that end in time. -/
theorem nextScheduled_exact_twice :
    (afterCycles { config := ten } [(3, 3), (12, 12)]).nextScheduled = 0 + (2 : ℕ) * 10 :=
  have hends : EndsInTime { config := ten } [(3, 3), (12, 12)] := ⟨by decide, by decide, trivial⟩
  (nextScheduled_exact_iff rfl (by decide) hends).mpr (by decide)

/-- **The targets drift**: the clock moves on by one between the two readings. -/
theorem nextScheduled_drifts : EndsInTime { config := ten } [(1, 2)] ∧
    (afterCycles { config := ten } [(1, 2)]).nextScheduled = 11 :=
  ⟨⟨by decide, trivial⟩, rfl⟩

end Pman.PeriodicScheduler
