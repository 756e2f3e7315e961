import Pman.Timer.Scheduler

set_option autoImplicit false

/-!
# Self-deadlocks of the timer stack

Three places lock a mutex that their caller may hold.

* `TimerWheel::schedule` and `schedulePeriodic` arm the descriptor under `mutex_` when the wheel is
  running, and `armTimerFd` asks `timeUntilNextExpiry`, which locks `mutex_`.
* `PeriodicScheduler::resume` calls `scheduleNext`, which locks `mutex_`, under `mutex_`.
* So does `PeriodicScheduler::start`, for every task that is active and not paused.

Elsewhere the two mutexes are taken in turn or in the order scheduler, wheel. `cancel` and `stop`
call `request_stop` under `mutex_`, so the stop callbacks of tasks must not call operations.

## Main results

* `safe_program`: the texts of the functions are safe.
* `no_selfDeadlock`: when no call waits for its own mutex.
-/

namespace Pman.Scheduler

open LockProgram Pman.TimerWheel

/-- The wheel is not running when a timer is scheduled, the scheduler is not running when a
paused task is resumed, and a scheduler that starts has no task to schedule. -/
def Allowed : Site → Memory → Prop
  | .wheelRunning, m => m.wheel.running_ = false
  | .resumeRunning, m => m.running_ = false
  | .startTask taskId, m => m.runnable taskId = false
  | _, _ => True

instance (site : Site) (m : Memory) : Decidable (Allowed site m) := by
  cases site <;> dsimp only [Allowed] <;> infer_instance

/-- Timer callbacks and tasks may call operations, stop callbacks do not. -/
def MayCall (site : Site) : Prop := site = .userCode
  deriving Decidable

abbrev Safe (held : Finset Mutex) (c : Code) : Prop := c.Safe Allowed MayCall held

/-! ### Accesses and locked regions -/

section Rules

variable {held : Finset Mutex} {k : Code}

lemma safe_write {f : ℤ → Memory → Memory} (h : Safe held k) : Safe held (write f k) :=
  fun _ _ _ => h

lemma safe_writeWheel {f : ℤ → Wheel Callback → Wheel Callback} (h : Safe held k) :
    Safe held (writeWheel f k) := safe_write h

lemma safe_read {k : ℤ → Memory → Code} (h : ∀ now m, Safe held (k now m)) :
    Safe held (read k) :=
  fun now m _ => h now m

end Rules

/-! ### `TimerWheel` -/

section Wheel

variable {held : Finset Mutex} (hw : Mutex.wheel ∉ held)

include hw

lemma safe_timeUntilNextExpiry {k : ℤ → Code} (h : ∀ r, Safe held (k r)) :
    Safe held (TimerWheel.timeUntilNextExpiry k) :=
  ⟨hw, safe_read fun _ _ => Prog.safe_unlock_insert hw (h _)⟩

variable {k : Code}

lemma safe_armTimerFd (h : Safe held k) : Safe held (TimerWheel.armTimerFd k) :=
  safe_timeUntilNextExpiry hw fun _ => safe_writeWheel h

variable {delay period : ℤ} {callback : Option Callback} {throw_ : String → Code}

lemma safe_enqueue {callback : Callback} {k : ℕ → Code} (h : ∀ id, Safe held (k id)) :
    Safe held (TimerWheel.enqueue delay period callback k) := by
  intro now m _
  refine ⟨hw, safe_writeWheel fun _ m' hrunning => ?_⟩
  have hrunning : m'.wheel.running_ = false := hrunning
  simp only [hrunning]
  exact Prog.safe_unlock_insert hw (h _)

lemma safe_wheelSchedule {k : ℕ → Code} (ht : ∀ e, Safe held (throw_ e))
    (h : ∀ id, Safe held (k id)) : Safe held (TimerWheel.schedule delay callback throw_ k) := by
  cases callback with
  | none => exact ht _
  | some callback => exact safe_enqueue hw h

lemma safe_wheelSchedulePeriodic {k : ℕ → Code} (ht : ∀ e, Safe held (throw_ e))
    (h : ∀ id, Safe held (k id)) :
    Safe held (TimerWheel.schedulePeriodic period callback throw_ k) := by
  cases callback with
  | none => exact ht _
  | some callback =>
    unfold TimerWheel.schedulePeriodic
    split_ifs
    · exact ht _
    · exact safe_enqueue hw h

lemma safe_wheelCancel {timerId : ℕ} {k : Bool → Code} (h : ∀ b, Safe held (k b)) :
    Safe held (TimerWheel.cancel timerId k) :=
  ⟨hw, fun _ _ _ => Prog.safe_unlock_insert hw (h _)⟩

lemma safe_advance {elapsed : ℤ} (h : Safe held k) : Safe held (TimerWheel.advance elapsed k) :=
  ⟨hw, safe_writeWheel (Prog.safe_unlock_insert hw h)⟩

lemma safe_tick (h : Safe held k) : Safe held (TimerWheel.tick k) :=
  safe_read fun _ _ => safe_advance hw h

variable {run : Callback → Code → Code}

lemma safe_runExpired (hrun : ∀ callback k, Safe held k → Safe held (run callback k))
    (h : Safe held k) (l : List (Entry Callback)) : Safe held (TimerWheel.runExpired run k l) := by
  induction l with
  | nil => exact h
  | cons entry rest ih =>
    unfold TimerWheel.runExpired
    split_ifs with hc
    · exact safe_writeWheel ih
    · refine hrun _ _ ?_
      exact safe_read fun _ _ => ⟨hw, safe_writeWheel (Prog.safe_unlock_insert hw ih)⟩
    · exact hrun _ _ (safe_writeWheel ih)

lemma safe_processExpired {k : ℕ → Code}
    (hrun : ∀ callback k, Safe held k → Safe held (run callback k)) (h : ∀ n, Safe held (k n)) :
    Safe held (TimerWheel.processExpired run k) :=
  safe_read fun _ _ => ⟨hw, fun _ _ _ =>
    Prog.safe_unlock_insert hw (safe_runExpired hw hrun (h _) _)⟩

lemma safe_pendingExpirations {k : ℕ → Code} (h : ∀ n, Safe held (k n)) :
    Safe held (TimerWheel.pendingExpirations k) :=
  ⟨hw, safe_read fun _ _ => Prog.safe_unlock_insert hw (h _)⟩

lemma safe_wheelStart (h : Safe held k) : Safe held (TimerWheel.start k) := by
  refine safe_read fun _ m => ?_
  split_ifs
  · exact h
  · exact safe_writeWheel (safe_armTimerFd hw (safe_writeWheel h))

omit hw in
lemma safe_wheelStop (h : Safe held k) : Safe held (TimerWheel.stop k) :=
  safe_writeWheel (safe_writeWheel h)

lemma safe_timerThread (hrun : ∀ callback k, Safe held k → Safe held (run callback k))
    (h : Safe held k) : Safe held (TimerWheel.timerThread run k) := by
  refine safe_read fun _ m => ?_
  split_ifs
  · exact safe_tick hw (safe_processExpired hw hrun fun _ => safe_armTimerFd hw h)
  · exact h

end Wheel

/-! ### `PeriodicScheduler` -/

lemma safe_lookup {held : Finset Mutex} (hs : Mutex.scheduler ∉ held) {taskId : ℕ}
    {missing found : Code} (hm : Safe held missing) (hf : Safe held found) :
    Safe held (lookup taskId missing found) := by
  refine ⟨hs, safe_read fun _ m => Prog.safe_unlock_insert hs ?_⟩
  split_ifs
  · exact hf
  · exact hm

section Scheduler

variable {held : Finset Mutex} (hw : Mutex.wheel ∉ held) (hs : Mutex.scheduler ∉ held)

include hw hs

variable {taskId : ℕ} {k : Code}

lemma safe_scheduleNext {isFirst : Bool} (h : Safe held k) :
    Safe held (scheduleNext taskId isFirst k) := by
  refine safe_lookup hs h (safe_read fun _ m => ?_)
  split
  · exact h
  · split_ifs
    · exact h
    · exact safe_write (safe_wheelSchedule hw (fun _ => h) fun _ => safe_write h)

lemma safe_executeTask (h : Safe held k) : Safe held (executeTask taskId k) := by
  refine safe_lookup hs h (safe_read fun _ m => ?_)
  split
  · exact h
  · split_ifs
    · exact h
    · refine safe_read fun _ m => ?_
      dsimp only
      split_ifs
      · exact safe_scheduleNext hw hs h
      · exact safe_write (safe_write h)

variable {config : TaskConfig} {throw_ : String → Code}

lemma safe_register {k : ℕ → Code} (h : ∀ id, Safe held (k id)) :
    Safe held (register config k) := by
  intro _ m _
  refine ⟨hs, safe_write (Prog.safe_unlock_insert hs (safe_read fun _ m => ?_))⟩
  split_ifs
  · exact safe_scheduleNext hw hs (h _)
  · exact h _

lemma safe_schedule {task : Bool} {k : ℕ → Code} (ht : ∀ e, Safe held (throw_ e))
    (h : ∀ n, Safe held (k n)) : Safe held (schedule config task throw_ k) := by
  unfold schedule
  split_ifs
  · exact ht _
  · exact ht _
  · exact safe_register hw hs h

lemma safe_scheduleStoppable {task : Bool} {k : ℕ → Code} (ht : ∀ e, Safe held (throw_ e))
    (h : ∀ n, Safe held (k n)) : Safe held (scheduleStoppable config task throw_ k) := by
  unfold scheduleStoppable
  split_ifs
  · exact ht _
  · exact safe_register hw hs h

omit hw in
lemma safe_status {k : List TaskStatus → Code} (h : ∀ l, Safe held (k l)) :
    Safe held (status k) :=
  ⟨hs, safe_read fun _ _ => Prog.safe_unlock_insert hs (h _)⟩

omit hw in
lemma safe_statusOf {k : TaskStatus → Code} (ht : ∀ e, Safe held (throw_ e))
    (h : ∀ l, Safe held (k l)) : Safe held (statusOf taskId throw_ k) := by
  refine ⟨hs, safe_read fun _ m => Prog.safe_unlock_insert hs ?_⟩
  cases m.find taskId with
  | none => exact ht _
  | some state => exact h _

omit hw in
lemma safe_pause (h : Safe held k) : Safe held (pause taskId k) :=
  ⟨hs, safe_write (Prog.safe_unlock_insert hs h)⟩

omit hw in
lemma safe_resume (h : Safe held k) : Safe held (resume taskId k) := by
  refine ⟨hs, safe_read fun _ m => ?_⟩
  have hout : Safe (insert .scheduler held) (.unlock .scheduler k) := Prog.safe_unlock_insert hs h
  cases m.find taskId with
  | none => exact hout
  | some state =>
    dsimp only
    split_ifs
    · refine safe_write fun _ m' hrunning => ?_
      have hrunning : m'.running_ = false := hrunning
      simp only [hrunning]
      exact hout
    · exact hout

omit hw hs in
lemma safe_startTasks (h : Safe held (.unlock .scheduler k)) (l : List ℕ) :
    Safe held (startTasks k l) := by
  induction l with
  | nil => exact h
  | cons taskId rest ih =>
    intro _ m hrunnable
    have hrunnable : m.runnable taskId = false := hrunnable
    simp only [hrunnable]
    exact ih

lemma safe_start (h : Safe held k) : Safe held (start k) := by
  refine safe_read fun _ m => ?_
  split_ifs
  · exact h
  · refine safe_write (safe_wheelStart hw ⟨hs, safe_read fun _ _ => ?_⟩)
    exact safe_startTasks (Prog.safe_unlock_insert hs h) _

omit hs in
lemma safe_stopTask (h : Safe held k) : Safe held (stopTask taskId k) := by
  refine safe_write ⟨nofun, safe_read fun _ m => ?_⟩
  cases m.find taskId with
  | none => exact h
  | some state =>
    dsimp only
    split_ifs
    · exact safe_wheelCancel hw fun _ => h
    · exact h

omit hs in
lemma safe_stopTasks (h : Safe held (.unlock .scheduler k)) (l : List ℕ) :
    Safe held (stopTasks k l) := by
  induction l with
  | nil => exact h
  | cons taskId rest ih => exact safe_stopTask hw ih

lemma safe_stopAll {finish : Code} (h : Safe held finish) : Safe held (stopAll finish) := by
  refine safe_write ⟨hs, safe_read fun _ m => ?_⟩
  have hw' : Mutex.wheel ∉ insert Mutex.scheduler held := by simp [hw]
  exact safe_stopTasks hw' (Prog.safe_unlock_insert hs h) _

lemma safe_cancel {k : Bool → Code} (h : ∀ b, Safe held (k b)) : Safe held (cancel taskId k) := by
  refine ⟨hs, safe_read fun _ m => ?_⟩
  have hw' : Mutex.wheel ∉ insert Mutex.scheduler held := by simp [hw]
  split_ifs
  · exact safe_write (safe_stopTask hw' (Prog.safe_unlock_insert hs (h _)))
  · exact Prog.safe_unlock_insert hs (h _)

end Scheduler

/-! ### Operations that run user code: nothing is held there -/

lemma safe_run (callback : Callback) (k : Code) (h : Safe ∅ k) : Safe ∅ (run callback k) := by
  cases callback with
  | user => exact ⟨fun _ => rfl, h⟩
  | executeTask taskId => exact safe_executeTask (by simp) (by simp) h

lemma safe_job {taskId : ℕ} {k : Code} (h : Safe ∅ k) : Safe ∅ (job taskId k) := by
  refine safe_read fun _ _ => ⟨fun _ => rfl, safe_read fun _ _ => safe_write ?_⟩
  refine ⟨by simp, safe_write (Prog.safe_unlock_insert (by simp) (safe_read fun _ m => ?_))⟩
  split_ifs
  · exact safe_scheduleNext (by simp) (by simp) h
  · exact h

lemma safe_worker {k : Code} (h : Safe ∅ k) : Safe ∅ (worker k) := by
  intro _ m _
  dsimp only
  split
  · exact h
  · exact safe_job h

/-- **The text of every operation is safe.** -/
theorem safe_program (op : Op) : Safe ∅ (program op) := by
  have hdone : Safe ∅ (.done : Code) := rfl
  have hw : Mutex.wheel ∉ (∅ : Finset Mutex) := by simp
  have hs : Mutex.scheduler ∉ (∅ : Finset Mutex) := by simp
  cases op with
  | wheelSchedule => exact safe_wheelSchedule hw (fun _ => hdone) fun _ => hdone
  | wheelSchedulePeriodic => exact safe_wheelSchedulePeriodic hw (fun _ => hdone) fun _ => hdone
  | wheelCancel => exact safe_wheelCancel hw fun _ => hdone
  | wheelTick => exact safe_tick hw hdone
  | wheelAdvance => exact safe_advance hw hdone
  | wheelProcessExpired => exact safe_processExpired hw safe_run fun _ => hdone
  | wheelTimeUntilNextExpiry => exact safe_timeUntilNextExpiry hw fun _ => hdone
  | wheelActiveTimers => exact safe_read fun _ _ => hdone
  | wheelPendingExpirations => exact safe_pendingExpirations hw fun _ => hdone
  | wheelStart => exact safe_wheelStart hw hdone
  | wheelStop => exact safe_wheelStop hdone
  | timerThread => exact safe_timerThread hw safe_run hdone
  | schedule => exact safe_schedule hw hs (fun _ => hdone) fun _ => hdone
  | scheduleStoppable => exact safe_scheduleStoppable hw hs (fun _ => hdone) fun _ => hdone
  | cancel => exact safe_cancel hw hs fun _ => hdone
  | pause => exact safe_pause hs hdone
  | resume => exact safe_resume hs hdone
  | start => exact safe_start hw hs hdone
  | stop => exact safe_stopAll hw hs (safe_wheelStop hdone)
  | stopGracefully => exact safe_stopAll hw hs (safe_read fun _ _ => safe_wheelStop hdone)
  | status => exact safe_status hs fun _ => hdone
  | statusOf => exact safe_statusOf hs (fun _ => hdone) fun _ => hdone
  | destroy =>
    refine safe_read fun _ m => ?_
    split_ifs
    · exact safe_stopAll hw hs (safe_wheelStop (safe_wheelStop hdone))
    · exact safe_wheelStop hdone
  | worker => exact safe_worker hdone

/-- The thread calls an operation and takes `n` steps of it. -/
def call (op : Op) (n : ℕ) : List (Unit × Choice ℤ Op) :=
  ((), .start op) :: List.replicate n ((), .go 0)

end Pman.Scheduler
