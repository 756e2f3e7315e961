import Mathlib.Data.Fintype.Basic
import Pman.Process.Health
import Pman.Process.Signals

set_option autoImplicit false

/-!
# User callbacks and the locks of the supervisor and the health monitor

`handleChildExit` releases `mutex_` before it runs `onExit` and `onProcessExit`. But
`doStartProcess` runs `onRestart` and `onProcessStart` under the `mutex_` of its callers, and
`checkProcess` runs the health callback under the one of `monitorLoop`, so a callback that calls
its object deadlocks. In runs without these callbacks no callback runs under a lock.

## Main results

* `callbacks_unlocked`: when callbacks run without the lock.
-/

namespace Pman

open TransitionSystem LockProgram

namespace ProcessSupervisor

/-- No process has an `onRestart` callback, and there is no `onProcessStart` callback. -/
def Quiet (m : Memory) : Prop :=
  m.startCallback_ = false ∧ ∀ e ∈ m.processes_, e.2.spec.onRestart = false
  deriving Decidable

abbrev Safe (held : Finset Mutex) (c : Code) : Prop :=
  c.Safe (fun _ m => Quiet m) (fun _ => True) held

section

variable {held : Finset Mutex} {k : Code} {name : String} {throw_ : Error → Code} {e : Error}

lemma quiet_fresh : Quiet fresh := by simp [Quiet, fresh]

@[simp] lemma safe_write {f : Input → Memory → Memory} : Safe held (write f k) ↔ Safe held k :=
  ⟨fun h => h {} fresh quiet_fresh, fun h _ _ _ => h⟩

@[simp] lemma safe_update {f : Input → ProcessState → ProcessState} :
    Safe held (update name f k) ↔ Safe held k := safe_write

lemma safe_read {k : Input → Memory → Code} (h : ∀ input m, Quiet m → Safe held (k input m)) :
    Safe held (read k) := h

@[simp] lemma safe_done : Safe ∅ (.done : Code) := rfl

@[simp] lemma safe_lock : Safe ∅ (.lock .supervisor k) ↔ Safe {.supervisor} k := by
  simp [Safe, Prog.Safe]

@[simp] lemma safe_unlock : Safe {.supervisor} (.unlock .supervisor k) ↔ Safe ∅ k := by
  simp [Safe, Prog.Safe]

@[simp] lemma safe_callout {site : Site} : Safe ∅ (.callout site k) ↔ Safe ∅ k := by
  simp [Safe, Prog.Safe]

@[simp] lemma safe_raise : Safe ∅ (raise e) := by simp [raise]

@[simp] lemma safe_unlockRaise : Safe {.supervisor} (unlockRaise e) := by simp [unlockRaise]

lemma safe_ignoreEsrch (h : Safe {.supervisor} k) (e : Error) :
    Safe {.supervisor} (ignoreEsrch unlockRaise k e) := by
  unfold ignoreEsrch
  split <;> simp [h]

variable {sig : Process.Signal}

section

variable (ht : ∀ e, Safe held (throw_ e))

include ht

lemma safe_sendSignal (h : Safe held k) : Safe held (sendSignal name sig throw_ k) := by
  intro input m _
  dsimp only
  repeat' split
  all_goals first | exact ht _ | exact h

lemma safe_wait {k : ℕ → Code} (h : ∀ n, Safe held (k n)) : Safe held (wait name throw_ k) := by
  intro input m _
  dsimp only
  repeat' split
  all_goals first | exact ht _ | exact h _

lemma safe_tryWait {k : Option ℕ → Code}
    (h : ∀ r, Safe held (k r)) : Safe held (tryWait name throw_ k) := by
  intro input m _
  dsimp only
  repeat' split
  all_goals first | exact ht _ | exact h _

lemma safe_waitFor {k : Option ℕ → Code}
    (h : ∀ r, Safe held (k r)) (turns : ℕ) : Safe held (waitFor name turns throw_ k) := by
  have hloop : Safe held (waitForLoop name throw_ k turns) := by
    induction turns with
    | zero => exact h _
    | succ turns ih =>
      refine safe_tryWait ht fun r => ?_
      cases r with
      | none => exact ih
      | some status => exact h _
  refine safe_read fun input m _ => ?_
  repeat' split
  all_goals first | exact h _ | exact safe_wait ht fun _ => h _ | exact hloop

end

lemma mem_of_find {m : Memory} {state : ProcessState} (h : m.find name = some state) :
    (name, state) ∈ m.processes_ := by
  obtain ⟨l, l', heq, -⟩ := List.lookup_eq_some_iff.mp h
  simp [heq]

lemma safe_doStartProcess (ht : ∀ e, Safe held (throw_ e)) (h : Safe held k) :
    Safe held (doStartProcess name throw_ k) := by
  intro input m _
  dsimp only
  split_ifs
  · refine safe_read fun _ m hm => ?_
    simp only [hm.1, Bool.false_eq_true, if_false]
    split
    case h_1 => exact h
    case h_2 state hfind =>
      have : state.spec.onRestart = false := hm.2 (name, state) (mem_of_find hfind)
      simpa [this] using h
  · exact ht _

lemma safe_tryWaitAll {k : Bool → Code} (h : ∀ b, Safe ∅ (k b)) (allStopped : Bool)
    (names : List String) : Safe {.supervisor} (tryWaitAll k allStopped names) := by
  induction names generalizing allStopped with
  | nil => exact safe_unlock.mpr (h _)
  | cons name rest ih =>
    refine safe_read fun _ m _ => ?_
    split_ifs
    · refine safe_tryWait (fun _ => safe_unlockRaise) fun r => ?_
      cases r with
      | none => exact ih _
      | some status => exact safe_update.mpr (ih _)
    · exact ih _

section

variable (h : Safe ∅ k)

include h

lemma safe_add {spec : SupervisedProcess} : Safe ∅ (add spec k) := by
  refine safe_lock.mpr (safe_read fun _ m _ => ?_)
  split_ifs <;> simp [h]

lemma safe_remove {turns : ℕ} : Safe ∅ (remove name turns k) := by
  have herase : Safe {.supervisor} (eraseHandlePid name (eraseProcess name k)) := by
    simp [eraseHandlePid, eraseProcess, h]
  refine safe_lock.mpr (safe_read fun _ m _ => ?_)
  split_ifs
  · exact safe_unlock.mpr h
  · simp [eraseProcess, h]
  · refine safe_sendSignal (safe_ignoreEsrch ?_) ?_ <;>
    · refine safe_waitFor (fun _ => safe_unlockRaise) (fun _ => safe_read fun _ m _ => ?_) turns
      split_ifs
      · exact safe_sendSignal (safe_ignoreEsrch herase)
          (safe_wait (safe_ignoreEsrch herase) fun _ => herase)
      · exact herase

lemma safe_start : Safe ∅ (start k) := by
  refine safe_read fun _ m _ => ?_
  split_ifs
  · exact h
  refine safe_read fun input _ _ => ?_
  split
  · exact safe_raise
  intro input _ _
  dsimp only
  split
  · exact safe_raise
  refine safe_lock.mpr (safe_read fun _ m _ => ?_)
  induction m.processes_.map Prod.fst with
  | nil =>
    refine safe_unlock.mpr (safe_write.mpr fun input _ _ => ?_)
    dsimp only
    split
    · exact safe_raise
    · exact h
  | cons name rest ih => exact safe_doStartProcess (fun _ => safe_unlockRaise) ih

lemma safe_signalProcesses : Safe ∅ (signalProcesses sig k) := by
  refine safe_lock.mpr (safe_read fun _ m _ => ?_)
  induction m.processes_.map Prod.fst with
  | nil => exact safe_unlock.mpr h
  | cons name rest ih =>
    refine safe_read fun _ m _ => ?_
    split_ifs
    · exact safe_sendSignal (safe_ignoreEsrch ih) ih
    · exact ih

lemma safe_joinThread : Safe ∅ (joinThread k) := by
  refine safe_read fun _ m _ => ?_
  repeat' split
  all_goals simp [h, blocked]

lemma safe_stop : Safe ∅ (stop k) :=
  safe_write.mpr (safe_signalProcesses (safe_joinThread h))

lemma safe_awaitAll (turns : ℕ) : Safe ∅ (awaitAll k turns) := by
  induction turns with
  | zero => exact h
  | succ turns ih =>
    refine safe_lock.mpr (safe_read fun _ m _ => safe_tryWaitAll (fun allStopped => ?_) _ _)
    cases allStopped
    · exact ih
    · exact h

lemma safe_startProcess : Safe ∅ (startProcess name k) := by
  refine safe_lock.mpr (safe_read fun _ m _ => ?_)
  split_ifs
  · exact safe_unlockRaise
  · exact safe_unlock.mpr h
  · exact safe_doStartProcess (fun _ => safe_unlockRaise) (safe_unlock.mpr h)

lemma safe_stopProcess : Safe ∅ (stopProcess name k) := by
  have hout := safe_unlock.mpr h
  refine safe_lock.mpr (safe_read fun _ m _ => ?_)
  split_ifs
  · exact safe_unlockRaise
  refine safe_update.mpr (safe_read fun _ m _ => ?_)
  split_ifs
  · exact safe_write.mpr (safe_sendSignal (safe_ignoreEsrch hout) hout)
  · exact hout

lemma safe_restartProcess : Safe ∅ (restartProcess name k) := by
  refine safe_stopProcess (safe_lock.mpr (safe_read fun _ m _ => ?_))
  split_ifs
  · exact safe_update.mpr (safe_doStartProcess (fun _ => safe_unlockRaise) (safe_unlock.mpr h))
  · exact safe_unlock.mpr h

lemma safe_handleChildExit {pid : ℤ} {status : ℕ} : Safe ∅ (handleChildExit pid status k) := by
  refine safe_lock.mpr (safe_read fun _ m _ => ?_)
  split
  · exact safe_unlock.mpr h
  refine safe_write.mpr (safe_read fun _ m _ => ?_)
  split
  · exact safe_unlock.mpr h
  refine safe_update.mpr ?_
  have hout {c : Code} (hc : Safe {.supervisor} c) (name : String) :
      Safe {.supervisor} (scheduleRestart name status c) := by
    refine safe_read fun _ m _ => ?_
    split_ifs
    · refine safe_update.mpr (safe_read fun _ m _ => ?_)
      repeat' split
      all_goals simp [hc]
    · exact hc
  refine hout (safe_unlock.mpr ?_) _
  split_ifs <;> simp [h]

lemma safe_collectLoop {handle : ℤ → ℕ → Code → Code}
    (hh : ∀ pid status c, Safe ∅ c → Safe ∅ (handle pid status c)) (turns : ℕ) :
    Safe ∅ (collectLoop handle k turns) := by
  induction turns with
  | zero => exact safe_done
  | succ turns ih =>
    intro input m _
    dsimp only
    split
    · exact h
    · exact hh _ _ _ ih

lemma safe_restarts {i : ℕ} : Safe ∅ (restarts i k) := by
  refine safe_read fun input _ _ => safe_lock.mpr (safe_read fun _ m _ => ?_)
  induction m.processes_.map Prod.fst with
  | nil => exact safe_unlock.mpr h
  | cons name rest ih =>
    refine safe_read fun _ m _ => ?_
    split
    · exact ih
    split_ifs
    · refine safe_update.mpr (safe_doStartProcess (fun e => ?_) ih)
      simp [finishLoop]
    · exact ih

end

lemma safe_loopTurns (i turns : ℕ) : Safe ∅ (loopTurns i turns) := by
  induction turns with
  | zero => exact safe_done
  | succ turns ih =>
    have hdrain : Safe ∅ (collectLoop (fun _ _ k => k) (finishLoop i none) turns) :=
      safe_collectLoop (by simp [finishLoop]) (fun _ _ _ hc => hc) turns
    refine safe_read fun _ m _ => ?_
    split_ifs
    · refine safe_read fun input _ _ => ?_
      split
      · exact ih
      · exact hdrain
      · exact safe_restarts ih
      · exact safe_collectLoop (safe_restarts ih) (fun _ _ _ hc => safe_handleChildExit hc) turns
    · exact hdrain

end

lemma safe_program (op : Op) : Safe ∅ (program op) := by
  cases op with
  | add => exact safe_add safe_done
  | remove => exact safe_remove safe_done
  | start => exact safe_start safe_done
  | stop => exact safe_stop safe_done
  | stopGracefully turns =>
    exact safe_write.mpr (safe_signalProcesses (safe_awaitAll
      (safe_signalProcesses (safe_joinThread safe_done)) turns))
  | startProcess => exact safe_startProcess safe_done
  | stopProcess => exact safe_stopProcess safe_done
  | restartProcess => exact safe_restartProcess safe_done
  | status =>
    refine safe_lock.mpr (safe_read fun _ m _ => ?_)
    split
    · exact safe_unlockRaise
    · exact safe_unlock.mpr safe_done
  | allStatuses => exact safe_lock.mpr (safe_read fun _ _ _ => safe_unlock.mpr safe_done)
  | onProcessExit | onProcessStart => exact safe_lock.mpr (by simp)
  | destroy =>
    refine safe_read fun _ m _ => ?_
    split_ifs
    · exact safe_stop (by simp)
    · simp
  | supervisorLoop i turns =>
    intro _ m _
    dsimp only
    split_ifs
    · exact safe_loopTurns i turns
    · exact safe_done
  | childExit => simp [program]

end ProcessSupervisor

/-! ### The health monitor -/

namespace HealthMonitor

/-- What the environment decides at an access: the clock, what the checks answer, and the order in
which `processes_` is walked through. -/
structure Input where
  now : ℤ := 0
  passed : List Bool := []
  names : List String := []

/-- Programs over `mutex_`. -/
abbrev Code := Prog Unit Memory Input Unit

/-- An operation that is one piece of work under `mutex_`. -/
def locked (f : Input → Memory → Memory) : Code :=
  .lock () <| .act () f fun _ _ => .unlock () .done

def Memory.due (m : Memory) (now : ℤ) (name : String) : Bool :=
  (m.processes_ name).any fun proc => decide (proc.config.interval ≤ now - proc.lastCheck)

def checkAll (k : Code) : List String → Code
  | [] => k
  | name :: rest =>
    .act () (fun _ m => m) fun _ m =>
      if m.running_ then
        .lock () <|
        .act () (fun input m => m.checkRound name input.passed input.now) fun input m =>
          let next := Prog.unlock () (checkAll k rest)
          if (m.reports name input.passed input.now).isSome then .callout () next else next
      else k

def monitorLoop : ℕ → Code
  | 0 => .done
  | turns + 1 =>
    .act () (fun _ m => m) fun _ m =>
      if m.running_ then
        .lock () <| .act () (fun _ m => m) fun input m =>
          .unlock () <| checkAll (monitorLoop turns) (input.names.filter (m.due input.now))
      else .done

/-- The operations; `stop` also joins the thread, which it does without the lock. -/
inductive Op
  | addProcess (name : String) (config : HealthCheckConfig)
  | removeProcess (name : String)
  | updatePid (name : String)
  | status
  | onHealthChange (callback : Bool)
  | start
  | stop
  | monitorLoop (turns : ℕ)

/-- The program of an operation; `status` and `allStatuses` only look. -/
def program : Op → Code
  | .addProcess name config => locked fun input m => m.addProcess name config input.now
  | .removeProcess name => locked fun _ m => m.removeProcess name
  | .updatePid name => locked fun _ m => m.updatePid name
  | .status => locked fun _ m => m
  | .onHealthChange callback => locked fun _ m => { m with healthChangeCallback_ := callback }
  | .start => .act () (fun _ m => { m with running_ := true }) fun _ _ => .done
  | .stop => .act () (fun _ m => { m with running_ := false }) fun _ _ => .done
  | .monitorLoop turns => monitorLoop turns

/-- Any number of threads that run the operations in any interleaving. -/
def system (ι : Type*) [DecidableEq ι] :
    TransitionSystem (Config Unit Memory Input Unit ι) (ι × Choice Input Op) :=
  LockProgram.system ι program (· = fresh)

def Quiet (m : Memory) : Prop := m.healthChangeCallback_ = false
  deriving Decidable

abbrev Safe (held : Finset Unit) (c : Code) : Prop :=
  c.Safe (fun _ m => Quiet m) (fun _ => True) held

lemma safe_locked (f : Input → Memory → Memory) : Safe ∅ (locked f) := by
  simp [Safe, locked, Prog.Safe]

lemma safe_checkAll {k : Code} (h : Safe ∅ k) (names : List String) :
    Safe ∅ (checkAll k names) := by
  induction names with
  | nil => exact h
  | cons name rest ih =>
    intro _ m _
    dsimp only
    split_ifs
    · refine ⟨by simp, fun input m hm => ?_⟩
      have hnone : m.reports name input.passed input.now = none := by
        have hcallback : m.healthChangeCallback_ = false := hm
        simp [Memory.reports, hcallback]
      simp only [hnone, Option.isSome_none, Bool.false_eq_true, if_false]
      exact Prog.safe_unlock_insert (by simp) ih
    · exact h

lemma safe_monitorLoop (turns : ℕ) : Safe ∅ (monitorLoop turns) := by
  induction turns with
  | zero => rfl
  | succ turns ih =>
    intro _ m _
    dsimp only
    split_ifs
    · exact ⟨by simp, fun _ _ _ => Prog.safe_unlock_insert (by simp) (safe_checkAll ih _)⟩
    · rfl

lemma safe_program (op : Op) : Safe ∅ (program op) := by
  cases op with
  | start | stop => exact fun _ _ _ => rfl
  | monitorLoop turns => exact safe_monitorLoop turns
  | _ => exact safe_locked _

end HealthMonitor

def inCallback {μ σ ε θ ι : Type*} (c : Config μ σ ε θ ι) (t : ι) : Bool :=
  match c.stack t with
  | .callout _ _ :: _ => true
  | _ => false

/-- If thread `t` is in a callback, it holds no mutex; and it is not about to lock one that it
holds. -/
def CallsUnlocked {μ σ ε θ ι : Type*} (c : Config μ σ ε θ ι) (t : ι) : Prop :=
  (inCallback c t = true → ∀ m, c.owner m ≠ some t) ∧ ¬ SelfDeadlock c t

lemma callsUnlocked_of_safe {μ σ ε θ ι ω : Type*} [DecidableEq μ] [DecidableEq ι]
    {ops : ω → Prog μ σ ε θ} {A : θ → σ → Prop} (hops : ∀ op, (ops op).Safe A (fun _ => True) ∅)
    {init : σ → Prop} {c : Config μ σ ε θ ι}
    (h : (LockProgram.system ι ops init).ReachableWithin (StepOk A fun _ => True) c) (t : ι) :
    CallsUnlocked c t := by
  refine ⟨fun hin m hown => ?_, not_selfDeadlock hops h t⟩
  obtain ⟨held, ht⟩ := threadSafe_of_reachable
    (P := fun held (p : Prog μ σ ε θ) => p.Safe A (fun _ => True) held) ⟨id, And.right, id, id, id⟩
    (fun _ _ ha => ⟨ha, fun op _ => hops op⟩) h t
  have hstack := ht.stack
  unfold inCallback at hin
  split at hin
  · rename_i htop
    rw [htop] at hstack
    have hempty : held = ∅ := hstack.1.1 trivial
    simpa [hempty] using (ht.owns m).mpr hown
  · cases hin

/-- **Callbacks run without the lock**, in every run of a supervisor in which no `onRestart` and no
`onProcessStart` callback is set, and of a health monitor in which no health callback is set; and
callbacks may call any operation. -/
theorem callbacks_unlocked {ι : Type*} [DecidableEq ι]
    {c : Config ProcessSupervisor.Mutex ProcessSupervisor.Memory ProcessSupervisor.Input
      ProcessSupervisor.Site ι}
    (hc : (ProcessSupervisor.system ι).ReachableWithin
      (StepOk (fun _ m => ProcessSupervisor.Quiet m) fun _ => True) c)
    {d : Config Unit HealthMonitor.Memory HealthMonitor.Input Unit ι}
    (hd : (HealthMonitor.system ι).ReachableWithin
      (StepOk (fun _ m => HealthMonitor.Quiet m) fun _ => True) d) (t : ι) :
    CallsUnlocked c t ∧ CallsUnlocked d t :=
  ⟨callsUnlocked_of_safe ProcessSupervisor.safe_program hc t,
    callsUnlocked_of_safe HealthMonitor.safe_program hd t⟩

section Runs

open ProcessSupervisor (go startRun plain)

/-- A monitor with a process and perhaps a callback has checked the process once. -/
def checkRun (callback : Bool) : List (Bool × Choice HealthMonitor.Input HealthMonitor.Op) :=
  let go := List.replicate 4 (false, Choice.go ({} : HealthMonitor.Input))
  (false, .start (.addProcess "a" {})) :: go ++ (false, .start (.onHealthChange callback)) :: go ++
    [(false, .start .start), (false, .go {}), (false, .go {}), (false, .start (.monitorLoop 1)),
      (false, .go {}), (false, .go {}), (false, .go { names := ["a"] }), (false, .go {}),
      (false, .go {}), (false, .go {}), (false, .go { passed := [true, false] })]

theorem callbacks_unlocked_exit :
    (∃ c, (ProcessSupervisor.system Bool).Reachable c ∧ inCallback c false = true ∧
      CallsUnlocked c false) ∧
    ∃ d, (HealthMonitor.system Bool).Reachable d ∧
      (d.mem.processes_ "a").map (·.status) = some .degraded ∧ CallsUnlocked d false := by
  obtain ⟨c, hc, hin⟩ : ∃ c, (ProcessSupervisor.system Bool).ReachableWithin
      (StepOk (fun _ m => ProcessSupervisor.Quiet m) fun _ => True) c ∧
      inCallback c false = true :=
    reached_by (initial ProcessSupervisor.fresh)
      ((true, .start (.onProcessExit true)) :: go true 4 ++ startRun ++
        [(true, .start (.childExit 0 0)), (true, .go {}), (true, .go {}), (false, .go {}),
          (false, .go { poll := .readable })] ++ go false 10) ⟨_, rfl, rfl⟩ (by decide +kernel)
  obtain ⟨d, hd, hstatus⟩ : ∃ d, (HealthMonitor.system Bool).ReachableWithin
      (StepOk (fun _ m => HealthMonitor.Quiet m) fun _ => True) d ∧
      (d.mem.processes_ "a").map (·.status) = some .degraded :=
    reached_by (initial HealthMonitor.fresh) (checkRun false) ⟨_, rfl, rfl⟩
      (by decide +kernel)
  obtain ⟨hcall, hcall'⟩ := callbacks_unlocked hc hd false
  exact ⟨⟨c, hc.mono fun _ _ _ => trivial, hin, hcall⟩,
    ⟨d, hd.mono fun _ _ _ => trivial, hstatus, hcall'⟩⟩

/-- **Callbacks deadlock**: an `onProcessStart` callback that calls `stopProcess`, and a health
callback that calls `status`. -/
theorem callback_deadlocks :
    (∃ c, (ProcessSupervisor.system Bool).Reachable c ∧ SelfDeadlock c true) ∧
    ∃ d, (HealthMonitor.system Bool).Reachable d ∧ SelfDeadlock d false :=
  ⟨reached_by (initial ProcessSupervisor.fresh)
      ((true, .start (.onProcessStart true)) :: go true 4 ++ (true, .start (.add (plain "a"))) ::
        go true 5 ++ (true, .start (.startProcess "a")) :: go true 2 ++
        (true, .go { pid := 7 }) :: go true 1 ++ [(true, .start (.stopProcess "a"))])
      ⟨_, rfl, rfl⟩ (by decide +kernel),
    reached_by (initial HealthMonitor.fresh)
      (checkRun true ++ [(false, .start .status)]) ⟨_, rfl, rfl⟩ (by decide +kernel)⟩

end Runs

end Pman
