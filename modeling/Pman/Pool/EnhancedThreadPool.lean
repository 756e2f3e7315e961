import Mathlib.Data.List.Sort
import Pman.Lib.Slots
import Pman.Lib.TransitionSystem

set_option autoImplicit false

/-!
# The enhanced thread pool

`EnhancedThreadPool` keeps its tasks in a priority queue under `mutex_`. Workers wait for tasks on
`cv_`, callers of `waitIdle` wait on `idleCv_` until the queue is empty and no worker is active. The
number of active workers, the shutdown flag and the flags of the task handles are atomics that are
changed outside of `mutex_`, where all notifications are made too.

A step is one region under a mutex that nothing interferes with, one access to an atomic, or one
notification. The two waits are cut where the atomics may change under them: acquiring `mutex_`,
evaluating the predicate, and parking, which releases `mutex_`, are steps of their own. A
notification wakes who is parked, and waits may also end by themselves. A worker runs its task for
any time, other steps are taken in between, and the task may throw.

## Main results

* `move_of_step`: what a step does.
* `task_in_one_place`: every task is in one place.
-/

namespace Pman

open List Function

namespace EnhancedThreadPool

/-- A task in the queue. The flags that it shares with its handle are kept by `id` in the state. -/
structure TaskEntry where
  id : ℕ
  priority : ℤ
  sequenceNumber : ℕ
deriving DecidableEq, Repr

/-- `operator<` of the entries; the queue's top is an entry that is below no other one. -/
def TaskEntry.lt (a b : TaskEntry) : Bool :=
  if a.priority ≠ b.priority then decide (b.priority < a.priority)
  else decide (b.sequenceNumber < a.sequenceNumber)

/-- `push` of the priority queue, which is kept as the list of its entries in the order in which
they are popped. -/
def push (queue : List TaskEntry) (entry : TaskEntry) : List TaskEntry :=
  queue.orderedInsert (fun a b => a.lt b = false) entry

structure ThreadPoolMetrics where
  tasksSubmitted : ℕ
  tasksCompleted : ℕ
  tasksFailed : ℕ
  tasksCancelled : ℕ
deriving DecidableEq, Repr

/-- How far a worker has come in `workerLoop`: the step it takes next. -/
inductive Worker
  /-- Acquire `mutex_`, at the start of a turn or in `cv_.wait` after a wake-up. -/
  | lock
  /-- Evaluate the predicate of `cv_.wait`, holding `mutex_`. -/
  | test
  /-- Release `mutex_` and park on `cv_`: the predicate was false. -/
  | park
  | parked
  | check
  | taken (entry : TaskEntry)
  | discard (entry : TaskEntry)
  | countCancelled
  | enter (entry : TaskEntry)
  | running (entry : TaskEntry)
  | complete (entry : TaskEntry) (success : Bool)
  | leave (success : Bool)
  | countDone (success : Bool)
  | notify
  | exited
deriving DecidableEq, Repr

namespace Worker

def active : Worker → Bool
  | .running _ | .complete _ _ | .leave _ => true
  | _ => false

/-- The worker has the task and has not finished or discarded it. -/
def holds (id : ℕ) : Worker → Bool
  | .taken entry | .enter entry | .running entry => entry.id == id
  | _ => false

/-- The worker has a notification of `idleCv_` ahead of it in this turn of its loop. -/
def owesNotify : Worker → Bool
  | .taken _ | .discard _ | .countCancelled | .enter _ | .running _ | .complete _ _ | .leave _
  | .countDone _ | .notify => true
  | .lock | .test | .park | .parked | .check | .exited => false

def wake : Worker → Worker
  | .parked => .lock
  | k => k

end Worker

inductive SubmitPc
  | sequence
  | push
  | count
  | notify
  | returned
  | threw
deriving DecidableEq, Repr

def SubmitPc.pushed : SubmitPc → Bool
  | .count | .notify | .returned => true
  | .sequence | .push | .threw => false

/-- A call of `submit` or `submitWithPriority` and the entry it makes. -/
structure Submit where
  entry : TaskEntry
  pc : SubmitPc
deriving DecidableEq, Repr

/-- The call has put its task, the one with this number, into the queue. -/
def Submit.pushed (id : ℕ) (c : Submit) : Bool :=
  c.entry.id == id && c.pc.pushed

inductive WaiterPc
  | lock
  | test
  /-- Release `mutex_` and park on `idleCv_`: the predicate was false. -/
  | park
  | parked
  | timedOut
  | lastTest
  | returned (result : Bool)
deriving DecidableEq, Repr

/-- The predicate was false and the call has not been woken since. -/
def WaiterPc.waits : WaiterPc → Bool
  | .park | .parked => true
  | .lock | .test | .timedOut | .lastTest | .returned _ => false

/-- A call of `waitIdle`, or of `waitIdleFor` when it is timed. -/
structure Waiter where
  pc : WaiterPc
  timed : Bool
  /-- The tasks whose `submit` had returned when the call was made. -/
  before : List ℕ
deriving DecidableEq, Repr

def Waiter.wake (w : Waiter) : Waiter :=
  if w.pc = .parked then { w with pc := .lock } else w

inductive Destructor
  | notStarted
  | notify
  | join
  | done
deriving DecidableEq, Repr

def Destructor.notified : Destructor → Bool
  | .join | .done => true
  | .notStarted | .notify => false

inductive Owner
  | worker (i : ℕ)
  | waiter (i : ℕ)
deriving DecidableEq, Repr

structure State where
  queue_ : List TaskEntry
  mutex_ : Option Owner
  shuttingDown_ : Bool
  activeWorkers_ : ℕ
  nextTaskId_ : ℕ
  sequenceCounter_ : ℕ
  metrics_ : ThreadPoolMetrics
  /-- The flags that the handle of a task and its entry share. -/
  cancelled : ℕ → Bool
  completed : ℕ → Bool
  workers : List Worker
  submits : List Submit
  waiters : List Waiter
  /-- The tasks with a `TaskHandle::cancel` that is about to store `cancelled`. -/
  cancels : List ℕ
  destructor : Destructor
  /-- The tasks that were executed, and those that were dropped as cancelled. -/
  finished : List ℕ
  discarded : List ℕ

namespace State

def setWorker (s : State) (i : ℕ) (k : Worker) : State :=
  { s with workers := s.workers.set i k }

def setSubmit (s : State) (i : ℕ) (c : Submit) : State :=
  { s with submits := s.submits.set i c }

def setWaiter (s : State) (i : ℕ) (w : Waiter) : State :=
  { s with waiters := s.waiters.set i w }

def idle (s : State) : Bool := s.queue_.isEmpty && s.activeWorkers_ == 0

/-- `cv_.notify_one`: if workers are parked, one of them wakes up. -/
def notifyOne (s : State) (i : ℕ) : Option State :=
  if .parked ∈ s.workers then
    if s.workers[i]? = some .parked then some (s.setWorker i .lock) else none
  else some s

def updateMetricsOnComplete (s : State) (success : Bool) : State :=
  if success then
    { s with metrics_.tasksCompleted := s.metrics_.tasksCompleted + 1 }
  else { s with metrics_.tasksFailed := s.metrics_.tasksFailed + 1 }

def returnedIds (s : State) : List ℕ :=
  (s.submits.filter fun c => c.pc == .returned).map fun c => c.entry.id

def cancelAll (s : State) : State :=
  { s with
    queue_ := []
    cancelled := s.queue_.foldl (fun f entry => update f entry.id true) s.cancelled
    metrics_.tasksCancelled := s.metrics_.tasksCancelled + s.queue_.length
    discarded := s.discarded ++ s.queue_.map TaskEntry.id }

end State

/-- The next step of a worker. Where its task ends, it may throw. -/
def workerStep (s : State) (i : ℕ) (throws : Bool) : Option State :=
  match s.workers[i]? with
  | none | some .parked | some .exited => none
  | some .lock =>
    if s.mutex_ = none then some ({ s with mutex_ := some (.worker i) }.setWorker i .test)
    else none
  | some .test =>
    some (s.setWorker i (if s.shuttingDown_ || !s.queue_.isEmpty then .check else .park))
  | some .park => some ({ s with mutex_ := none }.setWorker i .parked)
  | some .check =>
    match s.queue_ with
    | [] =>
      some ({ s with mutex_ := none }.setWorker i (if s.shuttingDown_ then .exited else .lock))
    | entry :: rest =>
      some ({ s with queue_ := rest, mutex_ := none }.setWorker i (.taken entry))
  | some (.taken entry) =>
    some (if s.cancelled entry.id then
        { s with discarded := s.discarded ++ [entry.id] }.setWorker i (.discard entry)
      else s.setWorker i (.enter entry))
  | some (.discard entry) =>
    some ({ s with completed := update s.completed entry.id true }.setWorker i
      .countCancelled)
  | some .countCancelled =>
    some ({ s with metrics_.tasksCancelled := s.metrics_.tasksCancelled + 1 }.setWorker i .notify)
  | some (.enter entry) =>
    some ({ s with activeWorkers_ := s.activeWorkers_ + 1 }.setWorker i (.running entry))
  | some (.running entry) =>
    some ({ s with finished := s.finished ++ [entry.id] }.setWorker i (.complete entry !throws))
  | some (.complete entry success) =>
    some ({ s with completed := update s.completed entry.id true }.setWorker i
      (.leave success))
  | some (.leave success) =>
    some ({ s with activeWorkers_ := s.activeWorkers_ - 1 }.setWorker i (.countDone success))
  | some (.countDone success) => some ((s.updateMetricsOnComplete success).setWorker i .notify)
  | some .notify => some ({ s with waiters := s.waiters.map Waiter.wake }.setWorker i .lock)

/-- The next step of a `submit`; a notification wakes the worker `k` if it wakes one. -/
def submitStep (s : State) (i k : ℕ) : Option State :=
  match s.submits[i]? with
  | none => none
  | some c =>
    match c.pc with
    | .sequence =>
      let entry := { c.entry with sequenceNumber := s.sequenceCounter_ }
      some ({ s with sequenceCounter_ := s.sequenceCounter_ + 1 }.setSubmit i ⟨entry, .push⟩)
    | .push =>
      if s.mutex_ = none then
        if s.shuttingDown_ then some (s.setSubmit i { c with pc := .threw })
        else some ({ s with queue_ := push s.queue_ c.entry }.setSubmit i { c with pc := .count })
      else none
    | .count =>
      some ({ s with metrics_.tasksSubmitted := s.metrics_.tasksSubmitted + 1 }.setSubmit i
        { c with pc := .notify })
    | .notify => (s.setSubmit i { c with pc := .returned }).notifyOne k
    | .returned | .threw => none

def waiterStep (s : State) (i : ℕ) : Option State :=
  match s.waiters[i]? with
  | none => none
  | some w =>
    match w.pc with
    | .lock =>
      if s.mutex_ = none then
        some ({ s with mutex_ := some (.waiter i) }.setWaiter i { w with pc := .test })
      else none
    | .test =>
      some (if s.idle then { s with mutex_ := none }.setWaiter i { w with pc := .returned true }
        else s.setWaiter i { w with pc := .park })
    | .park => some ({ s with mutex_ := none }.setWaiter i { w with pc := .parked })
    | .timedOut =>
      if s.mutex_ = none then
        some ({ s with mutex_ := some (.waiter i) }.setWaiter i { w with pc := .lastTest })
      else none
    | .lastTest =>
      some ({ s with mutex_ := none }.setWaiter i { w with pc := .returned s.idle })
    | .parked | .returned _ => none

inductive Act
  | resize
  | worker (i : ℕ) (throws : Bool)
  | spuriousWorker (i : ℕ)
  /-- A `submitWithPriority` is made; `submit` is the one with priority `0`. -/
  | submitWithPriority (priority : ℤ)
  | submit (i k : ℕ)
  | cancelAll
  | cancel (id : ℕ)
  | cancelStore (i : ℕ)
  | waitIdle (timed : Bool)
  | waiter (i : ℕ)
  | spuriousWaiter (i : ℕ)
  | timeout (i : ℕ)
  | shutdown
  | shutdownNotify
  | join
deriving DecidableEq, Repr

def step (s : State) : Act → Option State
  | .resize => some { s with workers := s.workers ++ [.lock] }
  | .worker i throws => workerStep s i throws
  | .spuriousWorker i =>
    if s.workers[i]? = some .parked then some (s.setWorker i .lock) else none
  | .submitWithPriority priority =>
    some { s with
      nextTaskId_ := s.nextTaskId_ + 1
      submits := s.submits ++ [⟨⟨s.nextTaskId_, priority, 0⟩, .sequence⟩] }
  | .submit i k => submitStep s i k
  | .cancelAll => if s.mutex_ = none then some s.cancelAll else none
  | .cancel id =>
    if id ∈ s.returnedIds then
      some (if s.completed id then s else { s with cancels := s.cancels ++ [id] })
    else none
  | .cancelStore i =>
    match s.cancels[i]? with
    | none => none
    | some id =>
      some { s with
        cancelled := update s.cancelled id true
        cancels := s.cancels.eraseIdx i }
  | .waitIdle timed => some { s with waiters := s.waiters ++ [⟨.lock, timed, s.returnedIds⟩] }
  | .waiter i => waiterStep s i
  | .spuriousWaiter i =>
    match s.waiters[i]? with
    | none => none
    | some w => if w.pc = .parked then some (s.setWaiter i w.wake) else none
  | .timeout i =>
    match s.waiters[i]? with
    | none => none
    | some w =>
      if w.pc = .parked ∧ w.timed = true then some (s.setWaiter i { w with pc := .timedOut })
      else none
  | .shutdown =>
    if s.destructor = .notStarted then
      some { s with shuttingDown_ := true, destructor := .notify }
    else none
  | .shutdownNotify =>
    if s.destructor = .notify then
      some { s with workers := s.workers.map Worker.wake, destructor := .join }
    else none
  | .join =>
    if s.destructor = .join ∧ ∀ k ∈ s.workers, k = .exited then some { s with destructor := .done }
    else none

def new (workerCount : ℕ) : State where
  queue_ := []
  mutex_ := none
  shuttingDown_ := false
  activeWorkers_ := 0
  nextTaskId_ := 1
  sequenceCounter_ := 0
  metrics_ := ⟨0, 0, 0, 0⟩
  cancelled := fun _ => false
  completed := fun _ => false
  workers := List.replicate workerCount .lock
  submits := []
  waiters := []
  cancels := []
  destructor := .notStarted
  finished := []
  discarded := []

/-- One pool in use by any number of threads; the constructor refuses to make a pool without
workers. -/
def system : TransitionSystem State Act where
  init s := ∃ workerCount, 0 < workerCount ∧ s = new workerCount
  step := step

/-! ### What a step of a worker does -/

lemma ite_eq_toNat (b : Bool) : (if b = true then 1 else 0) = b.toNat := by
  cases b <;> rfl

/-- The number of places outside of the workers where a task is. -/
def State.outside (s : State) (id : ℕ) : ℕ :=
  s.queue_.countP (fun entry => entry.id == id) + s.finished.count id + s.discarded.count id

/-- The worker `i` goes from `k` to `k'`, and the pool from `s` to `s'`. -/
structure Turn (s s' : State) (i : ℕ) (k k' : Worker) : Prop where
  found : s.workers[i]? = some k
  workers : s'.workers = s.workers.set i k'
  submits : s'.submits = s.submits
  nextTaskId : s'.nextTaskId_ = s.nextTaskId_
  shuttingDown : s'.shuttingDown_ = s.shuttingDown_
  destructor : s'.destructor = s.destructor
  active : (k.active = true → 0 < s.activeWorkers_) →
    s'.activeWorkers_ + k.active.toNat = s.activeWorkers_ + k'.active.toNat
  /-- A task moves between the worker and the rest of the pool. -/
  tasks : ∀ id, s'.outside id + (k'.holds id).toNat = s.outside id + (k.holds id).toNat
  finished : s.finished ⊆ s'.finished
  discarded : s.discarded ⊆ s'.discarded
  /-- Who pops a task owes a notification, and keeps to it until it has notified. -/
  queue : s'.queue_ = s.queue_ ∨ k'.owesNotify = true
  owesNotify : k ≠ .notify → k.owesNotify = true → k'.owesNotify = true
  waiters : k ≠ .notify → s'.waiters = s.waiters
  woken : k = .notify → s'.waiters = s.waiters.map Waiter.wake
  /-- A worker decides to park only before the shutdown, and parks only after that decision. -/
  park : k' = .park → s.shuttingDown_ = false
  parked : k' = .parked → k = .park

variable {s s' : State} {i : ℕ} {k k' : Worker}

lemma Turn.quiet (hk : s.workers[i]? = some k) (mutex : Option Owner)
    (metrics : ThreadPoolMetrics) (completed : ℕ → Bool) (hne : k ≠ .notify)
    (hactive : k'.active = k.active) (hholds : ∀ id, k'.holds id = k.holds id)
    (howes : k.owesNotify = true → k'.owesNotify = true)
    (hpark : k' = .park → s.shuttingDown_ = false) (hparked : k' = .parked → k = .park) :
    Turn s ({ s with mutex_ := mutex, metrics_ := metrics, completed := completed }.setWorker i k')
      i k k' where
  found := hk
  workers := rfl
  submits := rfl
  nextTaskId := rfl
  shuttingDown := rfl
  destructor := rfl
  active _ := by rw [hactive]; rfl
  tasks id := by rw [hholds]; rfl
  finished := List.Subset.refl _
  discarded := List.Subset.refl _
  queue := .inl rfl
  owesNotify _ := howes
  waiters _ := rfl
  woken heq := absurd heq hne
  park := hpark
  parked := hparked

lemma turn_of_workerStep {throws : Bool} (hst : workerStep s i throws = some s') :
    ∃ k k', Turn s s' i k k' := by
  revert hst
  fun_cases workerStep s i throws <;> rintro ⟨⟩
  case case4 hk _ =>
    refine ⟨_, _, .quiet hk _ _ _ ?_ rfl (fun _ => rfl) ?_ ?_ ?_⟩ <;> rintro ⟨⟩
  case case6 hk =>
    split_ifs with htest
    · refine ⟨_, _, .quiet hk _ _ _ ?_ rfl (fun _ => rfl) ?_ ?_ ?_⟩ <;> rintro ⟨⟩
    · have hrunning : s.shuttingDown_ = false := by
        simp only [Bool.or_eq_true, not_or, Bool.not_eq_true] at htest
        exact htest.1
      refine ⟨_, _, .quiet hk _ _ _ ?_ rfl (fun _ => rfl) ?_ (fun _ => hrunning) ?_⟩ <;> rintro ⟨⟩
  case case7 hk =>
    refine ⟨_, _, .quiet hk _ _ _ ?_ rfl (fun _ => rfl) ?_ ?_ fun _ => rfl⟩ <;> rintro ⟨⟩
  case case8 hk _ =>
    split_ifs <;> refine ⟨_, _, .quiet hk _ _ _ ?_ rfl (fun _ => rfl) ?_ ?_ ?_⟩ <;> rintro ⟨⟩
  case case9 hk entry rest hqueue =>
    refine ⟨_, .taken entry, hk, rfl, rfl, rfl, rfl, rfl, fun _ => rfl, fun id => ?_,
      List.Subset.refl _, List.Subset.refl _, .inr rfl, fun _ => ?_, fun _ => rfl, ?_, ?_, ?_⟩
    · simp only [State.outside, State.setWorker, Worker.holds, hqueue, countP_cons,
        ite_eq_toNat, Bool.toNat_false]
      omega
    all_goals rintro ⟨⟩
  case case10 entry hk =>
    split_ifs
    · refine ⟨_, .discard entry, hk, rfl, rfl, rfl, rfl, rfl, fun _ => rfl, fun id => ?_,
        List.Subset.refl _, subset_append_left _ _, .inr rfl, fun _ _ => rfl, fun _ => rfl,
        ?_, ?_, ?_⟩
      · simp only [State.outside, State.setWorker, Worker.holds, count_append,
          count_singleton, ite_eq_toNat, Bool.toNat_false]
        omega
      all_goals rintro ⟨⟩
    · refine ⟨_, _, .quiet hk _ _ _ ?_ rfl (fun _ => rfl) (fun _ => rfl) ?_ ?_⟩ <;> rintro ⟨⟩
  case case11 hk | case12 hk | case15 hk =>
    refine ⟨_, _, .quiet hk _ _ _ ?_ rfl (fun _ => rfl) (fun _ => rfl) ?_ ?_⟩ <;> rintro ⟨⟩
  case case13 entry hk =>
    refine ⟨_, .running entry, hk, rfl, rfl, rfl, rfl, rfl, fun _ => rfl, fun _ => rfl,
      List.Subset.refl _, List.Subset.refl _, .inl rfl, fun _ _ => rfl, fun _ => rfl, ?_, ?_,
      ?_⟩ <;> rintro ⟨⟩
  case case14 entry hk =>
    refine ⟨_, .complete entry !throws, hk, rfl, rfl, rfl, rfl, rfl, fun _ => rfl, fun id => ?_,
      subset_append_left _ _, List.Subset.refl _, .inl rfl, fun _ _ => rfl, fun _ => rfl,
      ?_, ?_, ?_⟩
    · simp only [State.outside, State.setWorker, Worker.holds, count_append,
        count_singleton, ite_eq_toNat, Bool.toNat_false]
      omega
    all_goals rintro ⟨⟩
  case case16 success hk =>
    refine ⟨_, .countDone success, hk, rfl, rfl, rfl, rfl, rfl,
      fun hpos => Nat.sub_add_cancel (hpos rfl), fun _ => rfl, List.Subset.refl _,
      List.Subset.refl _, .inl rfl, fun _ _ => rfl, fun _ => rfl, ?_, ?_, ?_⟩ <;> rintro ⟨⟩
  case case17 success hk =>
    cases success <;> refine ⟨_, _, .quiet hk _ _ _ ?_ rfl (fun _ => rfl) (fun _ => rfl) ?_ ?_⟩ <;>
      rintro ⟨⟩
  case case18 hk =>
    refine ⟨_, .lock, hk, rfl, rfl, rfl, rfl, rfl, fun _ => rfl, fun _ => rfl, List.Subset.refl _,
      List.Subset.refl _, .inl rfl, fun hne => absurd rfl hne, fun hne => absurd rfl hne,
      fun _ => rfl, ?_, ?_⟩ <;> rintro ⟨⟩

/-! ### What a step of a `submit` does -/

lemma outside_push (s : State) (entry : TaskEntry) (id : ℕ) :
    { s with queue_ := push s.queue_ entry }.outside id =
      s.outside id + (entry.id == id).toNat := by
  have hperm := (s.queue_.perm_orderedInsert (fun a b => a.lt b = false) entry).countP_eq
    fun entry => entry.id == id
  simp only [State.outside, push, hperm, countP_cons, ite_eq_toNat]
  omega

lemma push_ne_nil (queue : List TaskEntry) (entry : TaskEntry) : push queue entry ≠ [] :=
  ne_nil_of_mem ((mem_orderedInsert _).mpr (.inl rfl))

/-- The `submit` `i` goes from `c` to `c'`, and the pool from `s` to `s'`. -/
structure SubmitTurn (s s' : State) (i : ℕ) (c c' : Submit) : Prop where
  found : s.submits[i]? = some c
  submits : s'.submits = s.submits.set i c'
  id : c'.entry.id = c.entry.id
  activeWorkers : s'.activeWorkers_ = s.activeWorkers_
  nextTaskId : s'.nextTaskId_ = s.nextTaskId_
  shuttingDown : s'.shuttingDown_ = s.shuttingDown_
  destructor : s'.destructor = s.destructor
  waiters : s'.waiters = s.waiters
  finished : s'.finished = s.finished
  discarded : s'.discarded = s.discarded
  workers : s'.workers = s.workers ∨
    ∃ j, s.workers[j]? = some .parked ∧ s'.workers = s.workers.set j .lock
  tasks : ∀ id, s'.outside id + (c.pushed id).toNat = s.outside id + (c'.pushed id).toNat
  pushed : ∀ id, c.pushed id = true → c'.pushed id = true
  queue : s.queue_ ≠ [] → s'.queue_ ≠ []

variable {c c' : Submit}

lemma SubmitTurn.quiet (hc : s.submits[i]? = some c) (counter : ℕ)
    (metrics : ThreadPoolMetrics) (hid : c'.entry.id = c.entry.id)
    (hpushed : ∀ id, c'.pushed id = c.pushed id) :
    SubmitTurn s ({ s with sequenceCounter_ := counter, metrics_ := metrics }.setSubmit i c')
      i c c' where
  found := hc
  submits := rfl
  id := hid
  activeWorkers := rfl
  nextTaskId := rfl
  shuttingDown := rfl
  destructor := rfl
  waiters := rfl
  finished := rfl
  discarded := rfl
  workers := .inl rfl
  tasks id := by rw [hpushed]; rfl
  pushed id h := by rw [hpushed, h]
  queue h := h

lemma turn_of_submitStep {k : ℕ} (hst : submitStep s i k = some s') :
    ∃ c c', SubmitTurn s s' i c c' := by
  revert hst
  fun_cases submitStep s i k <;> intro hst <;> try cases hst
  case case2 hc hpc _ | case3 hc hpc _ _ | case6 hc hpc =>
    exact ⟨_, _, .quiet hc _ _ rfl fun id => by simp [Submit.pushed, hpc, SubmitPc.pushed]⟩
  case case4 c hc hpc _ _ =>
    refine ⟨c, { c with pc := .count }, hc, rfl, rfl, rfl, rfl, rfl, rfl, rfl, rfl, rfl, .inl rfl,
      fun id => ?_, fun id h => ?_, fun _ => push_ne_nil _ _⟩
    · show { s with queue_ := push s.queue_ c.entry }.outside id + _ = _
      rw [outside_push]
      simp [Submit.pushed, hpc, SubmitPc.pushed]
    · simp [Submit.pushed, hpc, SubmitPc.pushed] at h
  case case7 c hc hpc =>
    have hpushed : ∀ id, Submit.pushed id { c with pc := .returned } = c.pushed id := by
      intro id
      simp [Submit.pushed, hpc, SubmitPc.pushed]
    unfold State.notifyOne at hst
    split_ifs at hst with _ hk <;> cases hst
    · exact ⟨c, { c with pc := .returned }, hc, rfl, rfl, rfl, rfl, rfl, rfl, rfl, rfl, rfl,
        .inr ⟨k, hk, rfl⟩, fun id => by rw [hpushed]; rfl, fun id h => by rw [hpushed, h],
        fun h => h⟩
    · exact ⟨_, _, .quiet hc _ _ rfl hpushed⟩

/-! ### What a step of a `waitIdle` does -/

/-- The `waitIdle` `i`, which is `w`, goes to the step `pc`. -/
structure WaiterTurn (s : State) (i : ℕ) (w : Waiter) (pc : WaiterPc) : Prop where
  found : s.waiters[i]? = some w
  /-- It returns from an evaluation of the predicate that comes out true. -/
  returned : pc = .returned true → s.idle = true ∧ (w.pc = .test ∨ w.pc = .lastTest)
  waits : pc.waits = true → w.pc.waits = true ∨ s.idle = false

lemma turn_of_waiterStep (hst : waiterStep s i = some s') :
    ∃ w pc mutex, WaiterTurn s i w pc ∧
      s' = { s with mutex_ := mutex }.setWaiter i { w with pc := pc } := by
  revert hst
  fun_cases waiterStep s i <;> rintro ⟨⟩
  case case2 w hw _ _ => exact ⟨w, .test, _, ⟨hw, nofun, nofun⟩, rfl⟩
  case case4 w hw hpc =>
    split_ifs with hidle
    · exact ⟨w, .returned true, _, ⟨hw, fun _ => ⟨hidle, .inl hpc⟩, nofun⟩, rfl⟩
    · exact ⟨w, .park, s.mutex_, ⟨hw, nofun, fun _ => .inr (by simpa using hidle)⟩, rfl⟩
  case case5 w hw hpc =>
    exact ⟨w, .parked, _, ⟨hw, nofun, fun _ => .inl (by rw [hpc]; rfl)⟩, rfl⟩
  case case6 w hw _ _ => exact ⟨w, .lastTest, _, ⟨hw, nofun, nofun⟩, rfl⟩
  case case8 w hw hpc =>
    refine ⟨w, .returned s.idle, _, ⟨hw, fun heq => ⟨?_, .inr hpc⟩, nofun⟩, rfl⟩
    simpa using heq

/-- What a step of the pool does. -/
inductive Move (s : State) : Act → State → Prop
  | resize : Move s .resize { s with workers := s.workers ++ [.lock] }
  | worker {s' : State} {i : ℕ} {k k' : Worker} (throws : Bool) (ht : Turn s s' i k k') :
      Move s (.worker i throws) s'
  | spuriousWorker {i : ℕ} (hk : s.workers[i]? = some .parked) :
      Move s (.spuriousWorker i) (s.setWorker i .lock)
  | submitWithPriority (priority : ℤ) :
      Move s (.submitWithPriority priority) { s with
        nextTaskId_ := s.nextTaskId_ + 1
        submits := s.submits ++ [⟨⟨s.nextTaskId_, priority, 0⟩, .sequence⟩] }
  | submit {s' : State} {i : ℕ} {c c' : Submit} (k : ℕ) (ht : SubmitTurn s s' i c c') :
      Move s (.submit i k) s'
  | cancelAll : Move s .cancelAll s.cancelAll
  | flags (a : Act) (cancelled : ℕ → Bool) (cancels : List ℕ) :
      Move s a { s with cancelled := cancelled, cancels := cancels }
  | waitIdle (timed : Bool) :
      Move s (.waitIdle timed) { s with waiters := s.waiters ++ [⟨.lock, timed, s.returnedIds⟩] }
  | waiter {i : ℕ} {w : Waiter} {pc : WaiterPc} (mutex : Option Owner)
      (ht : WaiterTurn s i w pc) :
      Move s (.waiter i) ({ s with mutex_ := mutex }.setWaiter i { w with pc := pc })
  | unpark (a : Act) {i : ℕ} {w : Waiter} {pc : WaiterPc} (hw : s.waiters[i]? = some w)
      (hpc : pc = .lock ∨ pc = .timedOut) : Move s a (s.setWaiter i { w with pc := pc })
  | shutdown (h : s.destructor = .notStarted) :
      Move s .shutdown { s with shuttingDown_ := true, destructor := .notify }
  | shutdownNotify (h : s.destructor = .notify) :
      Move s .shutdownNotify { s with
        workers := s.workers.map Worker.wake
        destructor := .join }
  | join (h : s.destructor = .join) : Move s .join { s with destructor := .done }

variable {a : Act}

/-- **Inversion of the steps.** -/
theorem move_of_step (hst : step s a = some s') : Move s a s' := by
  revert hst
  fun_cases step s a <;> intro hst <;> try cases hst
  case case1 => exact .resize
  case case2 =>
    obtain ⟨k, k', ht⟩ := turn_of_workerStep hst
    exact .worker _ ht
  case case3 hk => exact .spuriousWorker hk
  case case5 => exact .submitWithPriority _
  case case6 =>
    obtain ⟨c, c', ht⟩ := turn_of_submitStep hst
    exact .submit _ ht
  case case7 => exact .cancelAll
  case case9 => split_ifs <;> exact .flags _ _ _
  case case12 => exact .flags _ _ _
  case case13 => exact .waitIdle _
  case case14 =>
    obtain ⟨w, pc, mutex, ht, rfl⟩ := turn_of_waiterStep hst
    exact .waiter mutex ht
  case case16 hw hpc =>
    rw [Waiter.wake, if_pos hpc]
    exact .unpark _ hw (.inl rfl)
  case case19 hw _ => exact .unpark _ hw (.inr rfl)
  case case21 h => exact .shutdown h
  case case23 h => exact .shutdownNotify h
  case case25 h => exact .join h.1

lemma countP_wake (p : Worker → Bool) (hp : p .lock = p .parked) (l : List Worker) :
    (l.map Worker.wake).countP p = l.countP p := by
  rw [countP_map]
  refine countP_congr fun k _ => ?_
  cases k <;> simp [Worker.wake, hp]

lemma countP_wakeOne (p : Worker → Bool) (hp : p .lock = p .parked) {l : List Worker}
    (hk : l[i]? = some .parked) : (l.set i .lock).countP p = l.countP p := by
  have := Slots.countP_set p hk .lock
  rw [hp] at this
  omega

/-- Every task that was put into the queue is in one place, `activeWorkers_` counts the active
workers, and the numbers of the tasks are all different. -/
structure Counts (s : State) : Prop where
  active : s.activeWorkers_ = s.workers.countP Worker.active
  tasks : ∀ id, s.outside id + s.workers.countP (Worker.holds id) =
    s.submits.countP (Submit.pushed id)
  ids : (s.submits.map fun c => c.entry.id).Nodup
  fresh : ∀ c ∈ s.submits, c.entry.id < s.nextTaskId_

namespace Counts

variable {s s' : State}

variable (h : Counts s)

include h

lemma congr (hactive : s'.activeWorkers_ = s.activeWorkers_)
    (houtside : ∀ id, s'.outside id = s.outside id)
    (hworkers : ∀ p : Worker → Bool, p .lock = p .parked → s'.workers.countP p = s.workers.countP p)
    (hsubmits : s'.submits = s.submits) (hnext : s'.nextTaskId_ = s.nextTaskId_) : Counts s' := by
  refine ⟨?_, fun id => ?_, hsubmits ▸ h.ids, hsubmits ▸ hnext ▸ h.fresh⟩
  · rw [hactive, hworkers _ rfl, h.active]
  · rw [houtside, hworkers _ rfl, hsubmits, h.tasks]

lemma turn {i : ℕ} (ht : Turn s s' i k k') : Counts s' := by
  have hmem := mem_of_getElem? ht.found
  have hpos : k.active = true → 0 < s.activeWorkers_ := by
    intro hactive
    rw [h.active]
    exact countP_pos_iff.mpr ⟨k, hmem, hactive⟩
  refine ⟨?_, fun id => ?_, ht.submits ▸ h.ids, ht.submits ▸ ht.nextTaskId ▸ h.fresh⟩
  · have hcount := Slots.countP_set Worker.active ht.found k'
    have := ht.active hpos
    rw [← ht.workers] at hcount
    have := h.active
    omega
  · have hcount := Slots.countP_set (Worker.holds id) ht.found k'
    have := ht.tasks id
    have := h.tasks id
    rw [← ht.workers] at hcount
    rw [ht.submits]
    omega

lemma submit {i : ℕ} (ht : SubmitTurn s s' i c c') : Counts s' := by
  have hworkers : ∀ p : Worker → Bool, p .lock = p .parked →
      s'.workers.countP p = s.workers.countP p := by
    intro p hp
    rcases ht.workers with heq | ⟨j, hk, heq⟩
    · rw [heq]
    · rw [heq, countP_wakeOne p hp hk]
  refine ⟨?_, fun id => ?_, ?_, fun x hx => ?_⟩
  · rw [ht.activeWorkers, hworkers _ rfl, h.active]
  · have hcount := Slots.countP_set (Submit.pushed id) ht.found c'
    have := ht.tasks id
    have := h.tasks id
    rw [hworkers _ rfl, ht.submits]
    omega
  · rw [ht.submits, Slots.map_set_of_eq _ ht.found ht.id]
    exact h.ids
  · rw [ht.nextTaskId]
    rw [ht.submits] at hx
    rcases mem_or_eq_of_mem_set hx with hx | rfl
    · exact h.fresh x hx
    · rw [ht.id]
      exact h.fresh c (mem_of_getElem? ht.found)

lemma submitWithPriority (priority : ℤ) :
    Counts { s with
      nextTaskId_ := s.nextTaskId_ + 1
      submits := s.submits ++ [⟨⟨s.nextTaskId_, priority, 0⟩, .sequence⟩] } := by
  refine ⟨h.active, fun id => ?_, ?_, fun c hc => ?_⟩
  · show s.outside id + _ = _
    rw [countP_append, ← h.tasks id]
    simp [Submit.pushed, SubmitPc.pushed]
  · rw [map_append, nodup_append]
    refine ⟨h.ids, by simp, fun a ha b hb => ?_⟩
    obtain ⟨c, hc, rfl⟩ := mem_map.mp ha
    obtain rfl : b = s.nextTaskId_ := by simpa using hb
    exact (h.fresh c hc).ne
  · rcases mem_concat.mp hc with hc | rfl
    · exact Nat.lt_succ_of_lt (h.fresh c hc)
    · exact Nat.lt_succ_self _

lemma cancelAll : Counts s.cancelAll := by
  refine h.congr rfl (fun id => ?_) (fun _ _ => rfl) rfl rfl
  have hmap : (s.queue_.map TaskEntry.id).count id = s.queue_.countP fun e => e.id == id := by
    rw [count, countP_map]
    rfl
  simp only [State.outside, State.cancelAll, countP_nil, count_append, hmap]
  omega

lemma step (hst : EnhancedThreadPool.step s a = some s') : Counts s' := by
  cases move_of_step hst with
  | resize =>
    refine ⟨?_, fun id => ?_, h.ids, h.fresh⟩
    · rw [countP_append, h.active]
      rfl
    · rw [countP_append]
      exact h.tasks id
  | worker throws ht => exact h.turn ht
  | spuriousWorker hk =>
    exact h.congr rfl (fun _ => rfl) (fun p hp => countP_wakeOne p hp hk) rfl rfl
  | submitWithPriority priority => exact h.submitWithPriority priority
  | submit k ht => exact h.submit ht
  | cancelAll => exact h.cancelAll
  | shutdownNotify hdtor =>
    exact h.congr rfl (fun _ => rfl) (fun p hp => countP_wake p hp _) rfl rfl
  | flags | waitIdle | waiter | unpark | shutdown | join =>
    exact h.congr rfl (fun _ => rfl) (fun _ _ => rfl) rfl rfl

lemma pushed_le_one (id : ℕ) : s.submits.countP (Submit.pushed id) ≤ 1 := by
  calc s.submits.countP (Submit.pushed id)
      ≤ s.submits.countP fun c => c.entry.id == id := by
        refine countP_mono_left fun c _ hc => ?_
        exact (Bool.and_eq_true_iff.mp hc).1
    _ = (s.submits.map fun c => c.entry.id).count id := by
        rw [count, countP_map]
        rfl
    _ ≤ 1 := nodup_iff_count_le_one.mp h.ids id

end Counts

/-- The counts agree in every run. -/
theorem counts_of_reachable {ok : State → Act → Prop} (h : system.ReachableWithin ok s) :
    Counts s := by
  refine h.invariant (fun s hinit => ?_) fun s a s' hcounts _ hst => hcounts.step hst
  obtain ⟨workerCount, -, rfl⟩ := hinit
  refine ⟨?_, fun id => ?_, nodup_nil, nofun⟩
  · simp [new, countP_replicate, Worker.active]
  · simp [new, State.outside, countP_replicate, Worker.holds]

/-- **No task is lost, run twice or taken by two workers**: a task that was put into the queue is
still there, with one worker, finished or discarded, and in one of these places only. -/
theorem task_in_one_place (h : system.Reachable s) (id : ℕ) :
    s.queue_.countP (fun entry => entry.id == id) + s.finished.count id + s.discarded.count id +
        s.workers.countP (Worker.holds id) =
      if ∃ c ∈ s.submits, c.pushed id = true then 1 else 0 := by
  have hcounts := counts_of_reachable h
  refine (hcounts.tasks id).trans ?_
  split_ifs with hpushed
  · exact Nat.le_antisymm (hcounts.pushed_le_one id) (countP_pos_iff.mpr hpushed)
  · exact countP_eq_zero.mpr fun c hc hp => hpushed ⟨c, hc, hp⟩

/-- A worker has the first of two tasks. -/
theorem task_in_one_place_taken : ∃ s, system.Reachable s ∧ s.queue_.length = 1 ∧
    s.finished.count 1 + s.workers.countP (Worker.holds 1) ≤ 1 := by
  have hs : system.Reachable _ := .final (new 1) (.submitWithPriority 0 ::
    replicate 4 (.submit 0 0) ++ .submitWithPriority 0 :: replicate 4 (.submit 1 0) ++
    replicate 3 (.worker 0 false)) ⟨1, by decide, rfl⟩ (by decide)
  refine ⟨_, hs, rfl, ?_⟩
  have hone := task_in_one_place hs 1
  split_ifs at hone <;> omega

end EnhancedThreadPool

end Pman
