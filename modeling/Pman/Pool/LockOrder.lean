import Pman.Lib.LockProgram

set_option autoImplicit false

/-!
# The order of the two mutexes of the enhanced thread pool

The operations of `EnhancedThreadPool` and the code of its workers, as programs that lock `mutex_`
and `metricsMutex_` where the code does. `cancelAll` counts every cancelled task under
`metricsMutex_` while it holds `mutex_`, and `metrics` asks for the size of the queue under `mutex_`
while it holds `metricsMutex_`: the two calls can wait for each other. Nothing else holds one mutex
while it locks the other.

## Main results

* `not_deadlock`: no deadlock without `metrics` or without `cancelAll`.
-/

namespace Pman.EnhancedThreadPool.Locks

open LockProgram

inductive Mutex
  | mutex_
  | metricsMutex_
deriving DecidableEq, Repr

/-- What decides which mutexes the code locks: the number of queued tasks and the flag. -/
structure Memory where
  queueSize : ℕ
  shuttingDown_ : Bool

/-- Programs over the two mutexes. The input of an access is a flag of the task or the number of
active workers, as far as the code tests it; all foreign code is the tasks'. -/
abbrev Code := Prog Mutex Memory Bool Unit

/-- A block with a `lock_guard` that locks nothing else; `f` is what it does to the memory. -/
def guarded (m : Mutex) (f : Memory → Memory) (k : Code) : Code :=
  .lock m <| .act () (fun _ s => f s) fun _ _ => .unlock m k

/-- `submitWithPriority`, and `submit`, which calls it; `job` says whether the callable is set. -/
def submitWithPriority (job : Bool) : Code :=
  if job then
    .lock .mutex_ <|
    .act () (fun _ s => if s.shuttingDown_ then s else { s with queueSize := s.queueSize + 1 })
      fun _ s =>
        .unlock .mutex_ <| if s.shuttingDown_ then .done else guarded .metricsMutex_ id .done
  else .done

/-- The loop of `cancelAll` over the queued tasks, and what follows it. -/
def clear : ℕ → Code
  | 0 => guarded .metricsMutex_ id <| .unlock .mutex_ .done
  | n + 1 =>
    .act () (fun _ s => { s with queueSize := s.queueSize - 1 }) fun _ _ =>
      guarded .metricsMutex_ id <| clear n

def cancelAll : Code := .lock .mutex_ <| .act () (fun _ s => s) fun _ s => clear s.queueSize

/-- `waitIdle`, and `waitIdleFor`, which gives up after some turns. The wait tests its condition
under the lock and sleeps without it; the input says whether no worker is active. -/
def waitIdle : ℕ → Code
  | 0 => .done
  | turns + 1 =>
    .lock .mutex_ <|
    .act () (fun _ s => s) fun inactive s =>
      .unlock .mutex_ <| if s.queueSize = 0 ∧ inactive then .done else waitIdle turns

def metrics : Code :=
  .lock .metricsMutex_ <|
  .act () (fun _ s => s) fun _ _ => guarded .mutex_ id <| .unlock .metricsMutex_ .done

def resetMetrics : Code := guarded .metricsMutex_ id .done

def queueSize : Code := guarded .mutex_ id .done

def destroy : Code := .act () (fun _ s => { s with shuttingDown_ := true }) fun _ _ => .done

/-- The loop of a worker for a number of turns. A turn tests the condition of the wait under the
lock, and takes a task if there is one; the input says whether the task is cancelled. -/
def workerLoop : ℕ → Code
  | 0 => .done
  | turns + 1 =>
    .lock .mutex_ <|
    .act () (fun _ s => { s with queueSize := s.queueSize - 1 }) fun cancelled s =>
      .unlock .mutex_ <|
      if s.queueSize = 0 then if s.shuttingDown_ then .done else workerLoop turns
      else if cancelled then guarded .metricsMutex_ id <| workerLoop turns
      else .callout () <| guarded .metricsMutex_ id <| workerLoop turns

/-- The operations. `resize` starts worker loops, and the other public operations lock nothing. -/
inductive Op
  | submitWithPriority (job : Bool)
  | cancelAll
  | waitIdle (turns : ℕ)
  | metrics
  | resetMetrics
  | queueSize
  | destroy
  | workerLoop (turns : ℕ)
deriving DecidableEq, Repr

def program : Op → Code
  | .submitWithPriority job => Locks.submitWithPriority job
  | .cancelAll => Locks.cancelAll
  | .waitIdle turns => Locks.waitIdle turns
  | .metrics => Locks.metrics
  | .resetMetrics => Locks.resetMetrics
  | .queueSize => Locks.queueSize
  | .destroy => Locks.destroy
  | .workerLoop turns => Locks.workerLoop turns

/-- **A deadlock by the order of the locks**: the threads that hold the two mutexes each wait for
the other one. -/
def Deadlock {ι : Type*} (c : Config Mutex Memory Bool Unit ι) : Prop :=
  ∃ t u, c.owner .mutex_ = some t ∧ (c.stack t).head?.bind Prog.wants = some .metricsMutex_ ∧
    c.owner .metricsMutex_ = some u ∧ (c.stack u).head?.bind Prog.wants = some .mutex_

/-- Any number of threads with the operations of one pool, whose queue is empty at first. -/
abbrev system (ι : Type*) [DecidableEq ι] :
    TransitionSystem (Config Mutex Memory Bool Unit ι) (ι × Choice Bool Op) :=
  LockProgram.system ι program (· = ⟨0, false⟩)

/-- The order in which the mutexes are taken when `last` is the later one. -/
def rank (last : Mutex) (m : Mutex) : ℕ := if m = last then 1 else 0

lemma ordered_clear (n : ℕ) : (clear n).Ordered (rank .metricsMutex_) {.mutex_} := by
  induction n with
  | zero =>
    simp [clear, guarded, Prog.Ordered, rank]
  | succ n ih =>
    simp only [clear, guarded, Prog.Ordered]
    intro _ _
    refine ⟨by decide, fun _ _ => ⟨by decide, ?_⟩⟩
    exact ih

lemma ordered_waitIdle (last : Mutex) (turns : ℕ) : (waitIdle turns).Ordered (rank last) ∅ := by
  induction turns with
  | zero => rfl
  | succ turns ih =>
    simp only [waitIdle, Prog.Ordered]
    refine ⟨by simp, fun inactive s => ⟨by simp, ?_⟩⟩
    split_ifs
    · rfl
    · exact ih

lemma ordered_guarded {last m : Mutex} {f : Memory → Memory} {k : Code}
    (hk : k.Ordered (rank last) ∅) : (guarded m f k).Ordered (rank last) ∅ := by
  simp only [guarded, Prog.Ordered]
  refine ⟨by simp, fun _ _ => ⟨by simp, ?_⟩⟩
  simpa using hk

lemma ordered_workerLoop (last : Mutex) (turns : ℕ) :
    (workerLoop turns).Ordered (rank last) ∅ := by
  induction turns with
  | zero => rfl
  | succ turns ih =>
    simp only [workerLoop, Prog.Ordered]
    refine ⟨by simp, fun cancelled s => ⟨by simp, ?_⟩⟩
    split_ifs
    · rfl
    · exact ih
    · exact ordered_guarded ih
    · exact ⟨rfl, ordered_guarded ih⟩

lemma ordered_program {op : Op} {last : Mutex}
    (h : op ≠ if last = .mutex_ then .cancelAll else .metrics) :
    (program op).Ordered (rank last) ∅ := by
  cases op with
  | submitWithPriority job =>
    cases job with
    | false => rfl
    | true =>
      refine ⟨by simp, fun _ s => ⟨by simp, ?_⟩⟩
      split_ifs
      · rfl
      · exact ordered_guarded rfl
  | cancelAll =>
    cases last with
    | mutex_ => exact absurd rfl h
    | metricsMutex_ => exact ⟨by simp, fun _ s => ordered_clear s.queueSize⟩
  | waitIdle turns => exact ordered_waitIdle last turns
  | metrics =>
    cases last with
    | mutex_ =>
      refine ⟨by simp, fun _ _ => ⟨by decide, fun _ _ => ⟨by simp, ?_⟩⟩⟩
      exact ⟨by decide, rfl⟩
    | metricsMutex_ => exact absurd rfl h
  | resetMetrics | queueSize => exact ordered_guarded rfl
  | destroy => exact fun _ _ => rfl
  | workerLoop turns => exact ordered_workerLoop last turns

/-- **No deadlock without both calls**: in every run of any number of threads in which `metrics` is
never called, and in every run in which `cancelAll` is never called, no state is a deadlock.

**Proof sketch.** The other operations take the mutexes in one order, so a thread waits only for a
mutex above the one it holds; of the two threads of a deadlock, one waits for the lower mutex. -/
theorem not_deadlock {ι : Type*} [DecidableEq ι] {avoided : Op}
    (havoided : avoided = .metrics ∨ avoided = .cancelAll) {c : Config Mutex Memory Bool Unit ι}
    (h : (system ι).ReachableWithin (fun _ a => a.2 ≠ .start avoided) c) : ¬ Deadlock c := by
  rintro ⟨t, u, ht, htw, hu, huw⟩
  have key : ∀ last : Mutex, avoided = (if last = .mutex_ then .cancelAll else .metrics) →
      rank last .mutex_ < rank last .metricsMutex_ ∧
        rank last .metricsMutex_ < rank last .mutex_ := by
    intro last hlast
    have hops : ∀ (_ : Config Mutex Memory Bool Unit ι) (a : ι × Choice Bool Op),
        a.2 ≠ .start avoided → ∀ op, a.2 = .start op → (program op).Ordered (rank last) ∅ := by
      intro _ a ha op hop
      refine ordered_program fun heq => ha ?_
      rw [hop, heq, hlast]
    exact ⟨rank_lt_of_wants hops h ht htw, rank_lt_of_wants hops h hu huw⟩
  rcases havoided with rfl | rfl
  · have := key .metricsMutex_ rfl
    omega
  · have := key .mutex_ rfl
    omega

/-- A worker holds `mutex_`, and `metrics`, which holds `metricsMutex_`, waits for it. -/
theorem not_deadlock_workerLoop : ∃ c, (system Bool).ReachableWithin
    (fun _ a => a.2 ≠ .start .cancelAll) c ∧ c.owner .mutex_ = some true ∧
      c.owner .metricsMutex_ = some false ∧ ¬ Deadlock c := by
  have hc : (system Bool).ReachableWithin (fun _ a => a.2 ≠ .start .cancelAll) _ :=
    .final (initial ⟨0, false⟩) [(true, .start (.workerLoop 1)), (true, .go false),
      (false, .start .metrics), (false, .go false)] ⟨_, rfl, rfl⟩
      (by exact ⟨by simp, by simp, by simp, by simp, trivial⟩)
  exact ⟨_, hc, rfl, rfl, not_deadlock (.inr rfl) hc⟩

/-- **`cancelAll` and `metrics` can wait for each other**: the first holds `mutex_` and goes for
`metricsMutex_`, the second holds `metricsMutex_` and goes for `mutex_`. -/
theorem deadlock_cancelAll_metrics : ∃ c, (system Bool).Reachable c ∧ Deadlock c := by
  refine TransitionSystem.reached_by (initial ⟨0, false⟩)
    [(true, .start .cancelAll), (true, .go false), (true, .go false),
      (false, .start .metrics), (false, .go false), (false, .go false)] ⟨_, rfl, rfl⟩ ?_
  exact ⟨trivial, trivial, trivial, trivial, trivial, trivial, true, false, rfl, rfl, rfl, rfl⟩

end Pman.EnhancedThreadPool.Locks
