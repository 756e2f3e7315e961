import Pman.Lib.Slots
import Pman.Lib.TransitionSystem

set_option autoImplicit false

/-!
# The thread pool

`ThreadPool` keeps its jobs in a queue under `mutex_`. Workers wait for jobs on `cv_`, take them
from the front and run them; what a job throws is swallowed. The destructor sets `shuttingDown_`
under `mutex_`, notifies all workers and joins one after the other, if they are joinable: workers
with the attribute `detached` are not, and the destructor does not wait for them.

A step is a region of `mutex_`, a notification, a step of a call outside of the regions, or the end
of a job. The region of a worker ends with a job in its hands, with its exit, or parked on `cv_`.
Waits may also end by themselves. Any number of calls of `submit` are under way at once, also from
jobs, and every job is named by the number of its call. The state keeps the jobs in the order in
which they were enqueued and taken, and those that have ended. What detached workers do when the
destructor has returned, with the pool gone, is of no meaning.

## Main definitions

* `system`: a pool in use by any number of threads; `Move`: its steps, one by one.

## Main results

* `invariant_of_reachable`: where the jobs are, and how far the shutdown has come.
* `runs_every_job_once`: every accepted job is run exactly once, if the workers are joinable.
-/

namespace Pman

open List

namespace ThreadPool

/-- How far a worker has come in `workerLoop`: the step it takes next. -/
inductive Worker
  /-- The region of `mutex_`, at the start of a turn or after a wake-up. -/
  | ready
  | parked
  | running (job : ℕ)
  | exited
deriving DecidableEq, Repr

def Worker.wake : Worker → Worker
  | .parked => .ready
  | k => k

def Worker.awake : Worker → Bool
  | .ready | .running _ => true
  | .parked | .exited => false

def Worker.runs (job : ℕ) : Worker → Bool
  | .running job' => job' == job
  | .ready | .parked | .exited => false

inductive Exception
  | invalidArgument (what : String)
  | runtimeError (what : String)
deriving DecidableEq, Repr

inductive SubmitPc
  | check
  | push
  | notify
  | returned
  | threw (e : Exception)
deriving DecidableEq, Repr

def SubmitPc.accepted : SubmitPc → Bool
  | .notify | .returned => true
  | .check | .push | .threw _ => false

/-- A call of `submit`, and whether its function is a callable. -/
structure Submit where
  callable : Bool
  pc : SubmitPc
deriving DecidableEq, Repr

inductive Destructor
  | notStarted
  | notify
  | join (i : ℕ)
  | done
deriving DecidableEq, Repr

def Destructor.notified : Destructor → Bool
  | .join _ | .done => true
  | .notStarted | .notify => false

structure State where
  queue_ : List ℕ
  shuttingDown_ : Bool
  workers_ : List Worker
  /-- `joinable()` of the workers, which have the same attributes. -/
  joinable : Bool
  submits : List Submit
  destructor : Destructor
  /-- The jobs in the order in which they were enqueued, in the order in which they were taken, and
  those that have ended. -/
  enqueued : List ℕ
  taken : List ℕ
  finished : List ℕ

namespace State

def setWorker (s : State) (i : ℕ) (k : Worker) : State :=
  { s with workers_ := s.workers_.set i k }

def setSubmit (s : State) (i : ℕ) (c : Submit) (pc : SubmitPc) : State :=
  { s with submits := s.submits.set i { c with pc := pc } }

/-- `cv_.notify_one`: if workers are parked, one of them wakes up. -/
def notifyOne (s : State) (i : ℕ) : Option State :=
  if .parked ∈ s.workers_ then
    if s.workers_[i]? = some .parked then some (s.setWorker i .ready) else none
  else some s

end State

/-- The next step of a worker: its region, or the end of its job. A job that throws ends like one
that returns. -/
def workerStep (s : State) (i : ℕ) : Option State :=
  match s.workers_[i]? with
  | none | some .parked | some .exited => none
  | some .ready =>
    if s.shuttingDown_ || !s.queue_.isEmpty then
      match s.queue_ with
      | [] => some (s.setWorker i (if s.shuttingDown_ then .exited else .ready))
      | job :: rest =>
        some ({ s with queue_ := rest, taken := s.taken ++ [job] }.setWorker i (.running job))
    else some (s.setWorker i .parked)
  | some (.running job) =>
    some ({ s with finished := s.finished ++ [job] }.setWorker i .ready)

/-- The next step of a `submit`; a notification wakes the worker `k` if it wakes one. -/
def submitStep (s : State) (i k : ℕ) : Option State :=
  match s.submits[i]? with
  | none => none
  | some c =>
    match c.pc with
    | .check =>
      some (s.setSubmit i c (if c.callable then .push
        else .threw (.invalidArgument "ThreadPool::submit requires a callable")))
    | .push =>
      some (if s.shuttingDown_ then
          s.setSubmit i c (.threw (.runtimeError "ThreadPool is shutting down"))
        else { s with queue_ := s.queue_ ++ [i], enqueued := s.enqueued ++ [i] }.setSubmit i c
          .notify)
    | .notify => (s.setSubmit i c .returned).notifyOne k
    | .returned | .threw _ => none

inductive Act
  /-- A worker takes its next step; where its job ends, the job may throw. -/
  | worker (i : ℕ) (throws : Bool)
  | spurious (i : ℕ)
  | submit (callable : Bool)
  | submitGo (i k : ℕ)
  | shutdown
  | shutdownNotify
  | join
deriving DecidableEq, Repr

def step (s : State) : Act → Option State
  | .worker i _ => workerStep s i
  | .spurious i =>
    if s.workers_[i]? = some .parked then some (s.setWorker i .ready) else none
  | .submit callable => some { s with submits := s.submits ++ [⟨callable, .check⟩] }
  | .submitGo i k => submitStep s i k
  | .shutdown =>
    if s.destructor = .notStarted then
      some { s with shuttingDown_ := true, destructor := .notify }
    else none
  | .shutdownNotify =>
    if s.destructor = .notify then
      some { s with workers_ := s.workers_.map Worker.wake, destructor := .join 0 }
    else none
  | .join =>
    match s.destructor with
    | .join i =>
      match s.workers_[i]? with
      | none => some { s with destructor := .done }
      | some k =>
        if s.joinable = true ∧ k ≠ .exited then none
        else some { s with destructor := .join (i + 1) }
    | _ => none

def new (workerCount : ℕ) (detached : Bool) : State where
  queue_ := []
  shuttingDown_ := false
  workers_ := List.replicate workerCount .ready
  joinable := !detached
  submits := []
  destructor := .notStarted
  enqueued := []
  taken := []
  finished := []

/-- One pool in use by any number of threads; the constructor refuses to make a pool without
workers. -/
def system : TransitionSystem State Act where
  init s := ∃ workerCount detached, 0 < workerCount ∧ s = new workerCount detached
  step := step

/-- What a step of the pool does. -/
inductive Move (s : State) : Act → State → Prop
  | park {i : ℕ} (throws : Bool) (hk : s.workers_[i]? = some .ready)
      (hrunning : s.shuttingDown_ = false) (hqueue : s.queue_ = []) :
      Move s (.worker i throws) (s.setWorker i .parked)
  | exit {i : ℕ} (throws : Bool) (hk : s.workers_[i]? = some .ready)
      (hdown : s.shuttingDown_ = true) (hqueue : s.queue_ = []) :
      Move s (.worker i throws) (s.setWorker i .exited)
  | take {i : ℕ} (throws : Bool) {job : ℕ} {rest : List ℕ} (hk : s.workers_[i]? = some .ready)
      (hqueue : s.queue_ = job :: rest) :
      Move s (.worker i throws)
        ({ s with queue_ := rest, taken := s.taken ++ [job] }.setWorker i (.running job))
  | finish {i : ℕ} (throws : Bool) {job : ℕ} (hk : s.workers_[i]? = some (.running job)) :
      Move s (.worker i throws)
        ({ s with finished := s.finished ++ [job] }.setWorker i .ready)
  | spurious {i : ℕ} (hk : s.workers_[i]? = some .parked) :
      Move s (.spurious i) (s.setWorker i .ready)
  | submit (callable : Bool) :
      Move s (.submit callable) { s with submits := s.submits ++ [⟨callable, .check⟩] }
  /-- A `submit` goes on or throws, without its job in the queue. -/
  | prepare {i : ℕ} (k : ℕ) {c : Submit} {pc : SubmitPc} (hc : s.submits[i]? = some c)
      (hbefore : c.pc = .check ∨ c.pc = .push) (hpc : pc = .push ∨ ∃ e, pc = .threw e) :
      Move s (.submitGo i k) (s.setSubmit i c pc)
  | enqueue {i : ℕ} (k : ℕ) {c : Submit} (hc : s.submits[i]? = some c) (hpc : c.pc = .push)
      (hrunning : s.shuttingDown_ = false) :
      Move s (.submitGo i k)
        ({ s with queue_ := s.queue_ ++ [i], enqueued := s.enqueued ++ [i] }.setSubmit i c .notify)
  | notifyOne {i k : ℕ} {c : Submit} (hc : s.submits[i]? = some c) (hpc : c.pc = .notify)
      (hk : s.workers_[k]? = some .parked) :
      Move s (.submitGo i k) ((s.setSubmit i c .returned).setWorker k .ready)
  | notifyNobody {i : ℕ} (k : ℕ) {c : Submit} (hc : s.submits[i]? = some c) (hpc : c.pc = .notify)
      (hnone : .parked ∉ s.workers_) : Move s (.submitGo i k) (s.setSubmit i c .returned)
  | shutdown (h : s.destructor = .notStarted) :
      Move s .shutdown { s with shuttingDown_ := true, destructor := .notify }
  | shutdownNotify (h : s.destructor = .notify) :
      Move s .shutdownNotify
        { s with workers_ := s.workers_.map Worker.wake, destructor := .join 0 }
  | join {i : ℕ} (h : s.destructor = .join i)
      (hk : s.joinable = true → s.workers_[i]? = some .exited) :
      Move s .join { s with destructor := .join (i + 1) }
  | returns {i : ℕ} (h : s.destructor = .join i) (hlast : s.workers_.length ≤ i) :
      Move s .join { s with destructor := .done }

variable {s s' : State} {i : ℕ} {c : Submit}

lemma move_of_workerStep (throws : Bool) (hst : workerStep s i = some s') :
    Move s (.worker i throws) s' := by
  revert hst
  fun_cases workerStep s i <;> rintro ⟨⟩
  case case4 hk htest hqueue =>
    have hdown : s.shuttingDown_ = true := by simpa [hqueue] using htest
    rw [if_pos hdown]
    exact .exit throws hk hdown hqueue
  case case5 hk _ _ _ hqueue => exact .take throws hk hqueue
  case case6 hk htest =>
    have hidle : s.shuttingDown_ = false ∧ s.queue_ = [] := by simpa using htest
    exact .park throws hk hidle.1 hidle.2
  case case7 hk => exact .finish throws hk

lemma move_of_submitStep {k : ℕ} (hst : submitStep s i k = some s') :
    Move s (.submitGo i k) s' := by
  revert hst
  fun_cases submitStep s i k <;> intro hst <;> try cases hst
  case case2 hc hpc =>
    refine .prepare k hc (.inl hpc) ?_
    split_ifs
    · exact .inl rfl
    · exact .inr ⟨_, rfl⟩
  case case3 hc hpc =>
    split_ifs with hdown
    · exact .prepare k hc (.inr hpc) (.inr ⟨_, rfl⟩)
    · exact .enqueue k hc hpc (by simpa using hdown)
  case case4 hc hpc =>
    unfold State.notifyOne at hst
    split_ifs at hst with hparked hk <;> cases hst
    · exact .notifyOne hc hpc hk
    · exact .notifyNobody k hc hpc hparked

variable {a : Act} {submits : List Submit}

/-- **Inversion of the steps.** -/
theorem move_of_step (hst : step s a = some s') : Move s a s' := by
  revert hst
  fun_cases step s a <;> intro hst <;> try cases hst
  case case1 => exact move_of_workerStep _ hst
  case case2 hk => exact .spurious hk
  case case4 => exact .submit _
  case case5 => exact move_of_submitStep hst
  case case6 h => exact .shutdown h
  case case8 h => exact .shutdownNotify h
  case case10 hdtor hnone => exact .returns hdtor (getElem?_eq_none_iff.mp hnone)
  case case12 hdtor k hk hwait =>
    refine .join hdtor fun hjoinable => ?_
    rw [hk, not_not.mp fun hne => hwait ⟨hjoinable, hne⟩]

/-! ### Where the jobs are -/

def accepts (submits : List Submit) (i : ℕ) : Bool := submits[i]?.any fun c => c.pc.accepted

lemma accepts_set (hc : submits[i]? = some c) (c' : Submit) (j : ℕ) :
    accepts (submits.set i c') j = if j = i then c'.pc.accepted else accepts submits j := by
  unfold accepts
  split_ifs with hj
  · subst hj
    rw [List.getElem?_set_self (List.getElem?_eq_some_iff.mp hc).1]
    rfl
  · rw [List.getElem?_set_ne (Ne.symm hj)]

lemma accepts_set_of_eq {c' : Submit} (hc : submits[i]? = some c)
    (h : c'.pc.accepted = c.pc.accepted) (j : ℕ) :
    accepts (submits.set i c') j = accepts submits j := by
  rw [accepts_set hc]
  split_ifs with hj
  · subst hj
    rw [h, accepts, hc]
    rfl
  · rfl

lemma accepts_append (submits : List Submit) (callable : Bool) (j : ℕ) :
    accepts (submits ++ [⟨callable, .check⟩]) j = accepts submits j := by
  unfold accepts
  rcases Nat.lt_trichotomy j submits.length with hlt | rfl | hgt
  · rw [getElem?_append_left hlt]
  · rw [getElem?_append_right (Nat.le_refl _), Nat.sub_self, getElem?_eq_none (Nat.le_refl _)]
    rfl
  · rw [getElem?_eq_none (by simpa [Nat.succ_le_iff] using hgt),
      getElem?_eq_none (by omega)]

/-- The accepted jobs were enqueued once, were taken in that order up to those in the queue, and
every job that was taken is running or has ended. -/
structure Jobs (s : State) : Prop where
  accepted : ∀ job, s.enqueued.count job = (accepts s.submits job).toNat
  order : s.enqueued = s.taken ++ s.queue_
  places : ∀ job, s.finished.count job + s.workers_.countP (Worker.runs job) = s.taken.count job

variable {workers : List Worker} {k k' : Worker} {job : ℕ}

namespace Jobs

variable {s : State}

lemma congr (h : Jobs s) {flag : Bool} {dtor : Destructor}
    (hsubmits : ∀ job, accepts submits job = accepts s.submits job)
    (hworkers : ∀ job, workers.countP (Worker.runs job) = s.workers_.countP (Worker.runs job)) :
    Jobs ⟨s.queue_, flag, workers, s.joinable, submits, dtor, s.enqueued, s.taken, s.finished⟩ := by
  refine ⟨fun job => ?_, h.order, fun job => ?_⟩
  · rw [hsubmits, h.accepted]
  · rw [hworkers, h.places]

lemma countP_set_of_not_runs (hk : workers[i]? = some k) (hbefore : k.runs job = false)
    (hafter : k'.runs job = false) :
    (workers.set i k').countP (Worker.runs job) = workers.countP (Worker.runs job) := by
  have := Slots.countP_set (Worker.runs job) hk k'
  rwa [hbefore, hafter] at this

lemma step (h : Jobs s) {a : Act} (hst : ThreadPool.step s a = some s') : Jobs s' := by
  cases move_of_step hst with
  | park throws hk | exit throws hk | spurious hk =>
    exact h.congr (fun _ => rfl) fun _ => countP_set_of_not_runs hk rfl rfl
  | @take i throws job rest hk hqueue =>
    refine ⟨h.accepted, ?_, fun job' => ?_⟩
    · show s.enqueued = s.taken ++ [job] ++ rest
      rw [h.order, hqueue, append_assoc, singleton_append]
    · have hcount := Slots.countP_set (Worker.runs job') hk (.running job)
      have hplaces := h.places job'
      simp only [State.setWorker, Slots.count_concat, Worker.runs, Bool.toNat_false] at hcount ⊢
      omega
  | @finish i throws job hk =>
    refine ⟨h.accepted, h.order, fun job' => ?_⟩
    have hcount := Slots.countP_set (Worker.runs job') hk .ready
    have hplaces := h.places job'
    simp only [State.setWorker, Slots.count_concat, Worker.runs, Bool.toNat_false] at hcount ⊢
    omega
  | submit callable =>
    exact h.congr (accepts_append _ _) fun _ => rfl
  | @prepare i k c pc hc hbefore hpc =>
    refine h.congr (accepts_set_of_eq hc ?_) fun _ => rfl
    rcases hbefore with hb | hb <;> rcases hpc with rfl | ⟨e, rfl⟩ <;> rw [hb] <;> rfl
  | @enqueue i k c hc hpc hrunning =>
    refine ⟨fun job => ?_, ?_, h.places⟩
    · have haccepted := h.accepted job
      simp only [State.setSubmit, Slots.count_concat, accepts_set hc]
      by_cases hjob : job = i
      · subst hjob
        have hnot : accepts s.submits job = false := by
          rw [accepts, hc, Option.any_some, hpc]
          rfl
        rw [haccepted, hnot, if_pos rfl, beq_self_eq_true]
        rfl
      · rw [if_neg hjob, haccepted, beq_eq_false_iff_ne.mpr (Ne.symm hjob)]
        rfl
    · show s.enqueued ++ [i] = s.taken ++ (s.queue_ ++ [i])
      rw [h.order, append_assoc]
  | notifyOne hc hpc hk =>
    exact h.congr (accepts_set_of_eq hc (by rw [hpc]; rfl))
      fun _ => countP_set_of_not_runs hk rfl rfl
  | notifyNobody k hc hpc =>
    exact h.congr (accepts_set_of_eq hc (by rw [hpc]; rfl)) fun _ => rfl
  | shutdownNotify =>
    refine h.congr (fun _ => rfl) fun job => ?_
    rw [countP_map]
    refine countP_congr fun k _ => ?_
    cases k <;> rfl
  | shutdown | join | returns => exact h.congr (fun _ => rfl) fun _ => rfl

end Jobs

/-! ### The shutdown -/

def Destructor.joined (workerCount : ℕ) : Destructor → ℕ
  | .notStarted | .notify => 0
  | .join i => i
  | .done => workerCount

/-- The flag is set when the destructor has begun. When it has notified the workers none of them is
parked, a worker exits only when the flag is set and the queue is empty, and the workers that were
joined have exited. -/
structure Shutdown (s : State) : Prop where
  flag : s.destructor ≠ .notStarted → s.shuttingDown_ = true
  notified : s.destructor.notified = true → .parked ∉ s.workers_
  exited : .exited ∈ s.workers_ → s.shuttingDown_ = true ∧ s.queue_ = []
  joined : s.joinable = true → ∀ i < s.destructor.joined s.workers_.length,
    s.workers_[i]? = some .exited

namespace Shutdown

variable {s : State}

lemma flag_of_notified (h : Shutdown s) (hn : s.destructor.notified = true) :
    s.shuttingDown_ = true := by
  refine h.flag fun heq => ?_
  rw [heq] at hn
  cases hn

lemma setWorker (h : Shutdown s) (hk : s.workers_[i]? = some k)
    (hne : k ≠ .exited) (hparked : k' = .parked → s.shuttingDown_ = false)
    (hexited : k' = .exited → s.shuttingDown_ = true ∧ s.queue_ = [])
    {queue taken finished : List ℕ} (hqueue : s.queue_ = [] → queue = []) :
    Shutdown ({ s with queue_ := queue, taken, finished }.setWorker i k') := by
  refine ⟨h.flag, fun hn hmem => ?_, fun hmem => ?_, fun hjoinable j hj => ?_⟩
  · rcases mem_or_eq_of_mem_set hmem with hmem | heq
    · exact h.notified hn hmem
    · have hdown := h.flag_of_notified hn
      simp [hparked heq.symm] at hdown
  · have hempty : s.shuttingDown_ = true ∧ s.queue_ = [] := by
      rcases mem_or_eq_of_mem_set hmem with hmem | heq
      · exact h.exited hmem
      · exact hexited heq.symm
    exact hempty.imp_right hqueue
  · rw [State.setWorker, length_set] at hj
    have hexit := h.joined hjoinable j hj
    have hij : i ≠ j := by
      rintro rfl
      exact hne (Option.some.inj (hk.symm.trans hexit))
    exact (getElem?_set_ne hij).trans hexit

lemma setSubmits (h : Shutdown s) (submits : List Submit) :
    Shutdown { s with submits := submits } :=
  ⟨h.flag, h.notified, h.exited, h.joined⟩

lemma step (h : Shutdown s) {a : Act} (hst : ThreadPool.step s a = some s') : Shutdown s' := by
  cases move_of_step hst with
  | park throws hk hrunning hqueue =>
    exact h.setWorker hk (by decide) (fun _ => hrunning) (by nofun) id
  | exit throws hk hdown hqueue =>
    exact h.setWorker hk (by decide) (by nofun) (fun _ => ⟨hdown, hqueue⟩) id
  | take throws hk hqueue =>
    refine h.setWorker hk (by decide) (by nofun) (by nofun) fun hempty => ?_
    simp [hqueue] at hempty
  | finish throws hk =>
    exact h.setWorker hk (by nofun) (by nofun) (by nofun) id
  | spurious hk =>
    exact h.setWorker hk (by decide) (by nofun) (by nofun) id
  | submit | prepare | notifyNobody => exact h.setSubmits _
  | enqueue k hc hpc hrunning =>
    refine { h with exited := fun hmem => ?_ }
    have hdown := (h.exited hmem).1
    simp [hrunning] at hdown
  | notifyOne hc hpc hk =>
    have hset : Shutdown (s.setWorker _ .ready) :=
      h.setWorker hk (by decide) (by nofun) (by nofun) id
    exact hset.setSubmits _
  | shutdown hdtor =>
    refine ⟨fun _ => rfl, by rintro ⟨⟩, fun hmem => ⟨rfl, (h.exited hmem).2⟩, ?_⟩
    rintro - i hi
    cases hi
  | shutdownNotify hdtor =>
    refine ⟨fun _ => h.flag (by rw [hdtor]; decide), fun _ hmem => ?_, fun hmem => ?_, ?_⟩
    · obtain ⟨k, -, hk⟩ := mem_map.mp hmem
      cases k <;> cases hk
    · obtain ⟨k, hmem, hk⟩ := mem_map.mp hmem
      cases k <;> cases hk
      exact h.exited hmem
    · rintro - i hi
      cases hi
  | @join i hdtor hk =>
    refine ⟨fun _ => h.flag (by rw [hdtor]; rintro ⟨⟩), fun _ => h.notified (by rw [hdtor]; rfl),
      h.exited, fun hjoinable j hj => ?_⟩
    rcases Nat.lt_succ_iff_lt_or_eq.mp hj with hlt | rfl
    · exact h.joined hjoinable j (by rw [hdtor]; exact hlt)
    · exact hk hjoinable
  | @returns i hdtor hlast =>
    refine ⟨fun _ => h.flag (by rw [hdtor]; rintro ⟨⟩), fun _ => h.notified (by rw [hdtor]; rfl),
      h.exited, fun hjoinable j hj => ?_⟩
    exact h.joined hjoinable j (by rw [hdtor]; exact Nat.lt_of_lt_of_le hj hlast)

end Shutdown

/-! ### No job is forgotten -/

/-- While a job is in the queue, a worker is awake or a `submit` is about to notify one. -/
structure Attended (s : State) : Prop where
  workers : s.workers_ ≠ []
  queue : s.queue_ ≠ [] → (∃ k ∈ s.workers_, k.awake = true) ∨ ∃ c ∈ s.submits, c.pc = .notify

namespace Attended

lemma of_awake {i : ℕ} (hk : s.workers_[i]? = some k) (hawake : k'.awake = true)
    (hs' : s'.workers_ = s.workers_.set i k') : Attended s' := by
  have hi := (List.getElem?_eq_some_iff.mp hk).1
  have hmem : k' ∈ s'.workers_ := hs' ▸ List.mem_set hi k'
  exact ⟨List.ne_nil_of_mem hmem, fun _ => .inl ⟨k', hmem, hawake⟩⟩

lemma of_empty (h : Attended s) {i : ℕ} (hs' : s'.workers_ = s.workers_.set i k)
    (hqueue : s'.queue_ = []) : Attended s' := by
  refine ⟨fun hnil => h.workers ?_, fun hne => absurd hqueue hne⟩
  rwa [hs', set_eq_nil_iff] at hnil

lemma congr (h : Attended s) (hworkers : s'.workers_ = s.workers_) (hqueue : s'.queue_ = s.queue_)
    (hsubmits : (∃ c ∈ s.submits, c.pc = .notify) → ∃ c ∈ s'.submits, c.pc = .notify) :
    Attended s' := by
  refine ⟨hworkers ▸ h.workers, fun hne => ?_⟩
  rw [hqueue] at hne
  rw [hworkers]
  exact (h.queue hne).imp_right hsubmits

lemma awake_of_not_parked (h : Attended s) (hdown : Shutdown s) (hnone : .parked ∉ s.workers_)
    (hqueue : s.queue_ ≠ []) : ∃ k ∈ s.workers_, k.awake = true := by
  obtain ⟨k, hk⟩ := exists_mem_of_ne_nil _ h.workers
  refine ⟨k, hk, ?_⟩
  cases k with
  | ready | running => rfl
  | parked => exact absurd hk hnone
  | exited => exact absurd (hdown.exited hk).2 hqueue

lemma step (h : Attended s) (hdown : Shutdown s) {a : Act} (hst : ThreadPool.step s a = some s') :
    Attended s' := by
  cases move_of_step hst with
  | park throws hk hrunning hqueue | exit throws hk hset hqueue => exact h.of_empty rfl hqueue
  | take throws hk hqueue | finish throws hk | spurious hk | notifyOne hc hpc hk =>
    exact of_awake hk rfl rfl
  | submit callable =>
    refine h.congr rfl rfl ?_
    rintro ⟨c, hc, hpc⟩
    exact ⟨c, List.mem_append_left _ hc, hpc⟩
  | prepare k hc hbefore hpc =>
    refine h.congr rfl rfl fun hex => Slots.exists_mem_set hc (fun heq => ?_) hex
    rcases hbefore with hb | hb <;> rw [hb] at heq <;> cases heq
  | enqueue k hc hpc hrunning =>
    refine ⟨h.workers, fun _ => .inr ⟨_, List.mem_set ?_ _, rfl⟩⟩
    exact (List.getElem?_eq_some_iff.mp hc).1
  | notifyNobody k hc hpc hnone =>
    exact ⟨h.workers, fun hqueue => .inl (h.awake_of_not_parked hdown hnone hqueue)⟩
  | shutdownNotify hdtor =>
    refine ⟨fun hnil => h.workers (List.map_eq_nil_iff.mp hnil), fun hqueue => ?_⟩
    refine (h.queue hqueue).imp_left ?_
    rintro ⟨k, hk, hawake⟩
    refine ⟨k.wake, List.mem_map_of_mem hk, ?_⟩
    cases k <;> first | rfl | cases hawake
  | shutdown | join | returns => exact h.congr rfl rfl id

end Attended

/-- The invariant: where the jobs are. -/
structure Invariant (s : State) : Prop where
  jobs : Jobs s
  shutdown : Shutdown s
  attended : Attended s

lemma Invariant.step (h : Invariant s) (hst : ThreadPool.step s a = some s') : Invariant s' :=
  ⟨h.jobs.step hst, h.shutdown.step hst, h.attended.step h.shutdown hst⟩

/-- The invariant holds in every run. -/
theorem invariant_of_reachable (h : system.Reachable s) : Invariant s := by
  refine h.invariant (I := Invariant) ?_ fun _ _ _ hs _ hst => hs.step hst
  rintro s ⟨workerCount, detached, hpos, rfl⟩
  refine ⟨⟨fun job => rfl, rfl, fun job => ?_⟩, ⟨?_, ?_, ?_, ?_⟩, ⟨?_, ?_⟩⟩
  · simp [new, countP_replicate, Worker.runs]
  · simp [new]
  · nofun
  · simp [new]
  · rintro - i hi
    cases hi
  · simpa [new, Nat.pos_iff_ne_zero] using hpos
  · simp [new]

def Act.proceeds : Act → Bool
  | .worker _ _ | .submitGo _ _ => true
  | .spurious _ | .submit _ | .shutdown | .shutdownNotify | .join => false

def Worker.effort : Worker → ℕ
  | .ready => 1
  | .running _ => 2
  | .parked | .exited => 0

def State.effort (s : State) : ℕ :=
  3 * s.queue_.length + (s.workers_.map Worker.effort).sum +
    2 * s.submits.countP fun c => c.pc == .notify

def State.Idle (s : State) : Prop := s.queue_ = [] ∧ ∀ k ∈ s.workers_, ∀ job, k ≠ .running job

lemma effort_set (hk : workers[i]? = some k) (k' : Worker) :
    ((workers.set i k').map Worker.effort).sum + k.effort =
      (workers.map Worker.effort).sum + k'.effort := by
  rw [map_set]
  exact Slots.sum_set (by rw [getElem?_map, hk]; rfl) _

/-- A step for the jobs that are there: it accepts no other job, and less is left to do. -/
def Advances (s : State) (a : Act) (s' : State) : Prop :=
  step s a = some s' ∧ s'.enqueued = s.enqueued ∧ s'.effort < s.effort

lemma advances_of_running (hk : s.workers_[i]? = some (.running job)) :
    ∃ s', Advances s (.worker i false) s' := by
  refine ⟨{ s with finished := s.finished ++ [job] }.setWorker i .ready, ?_, rfl, ?_⟩
  · simp only [step, workerStep, hk]
  · have heffort := effort_set hk .ready
    simp only [State.effort, State.setWorker, Worker.effort] at heffort ⊢
    omega

lemma advances_of_ready (hk : s.workers_[i]? = some .ready) (hqueue : s.queue_ ≠ []) :
    ∃ s', Advances s (.worker i false) s' := by
  obtain ⟨job, rest, hqueue⟩ := exists_cons_of_ne_nil hqueue
  refine ⟨{ s with queue_ := rest, taken := s.taken ++ [job] }.setWorker i (.running job), ?_, rfl,
    ?_⟩
  · simp [step, workerStep, hk, hqueue]
  · have heffort := effort_set hk (.running job)
    simp only [State.effort, State.setWorker, Worker.effort, hqueue, length_cons] at heffort ⊢
    omega

lemma advances_of_notify (hc : s.submits[i]? = some c) (hpc : c.pc = .notify) :
    ∃ k s', Advances s (.submitGo i k) s' := by
  have hcount := Slots.countP_set (fun c => c.pc == .notify) hc { c with pc := .returned }
  rw [hpc, beq_self_eq_true, show (SubmitPc.returned == .notify) = false from rfl] at hcount
  simp only [Bool.toNat_true, Bool.toNat_false] at hcount
  by_cases hparked : Worker.parked ∈ s.workers_
  · obtain ⟨k, hk⟩ := mem_iff_getElem?.mp hparked
    refine ⟨k, (s.setSubmit i c .returned).setWorker k .ready, ?_, rfl, ?_⟩
    · simp [step, submitStep, hc, hpc, State.notifyOne, State.setSubmit, hparked, hk]
    · have heffort := effort_set hk .ready
      simp only [State.effort, State.setWorker, State.setSubmit, Worker.effort] at heffort ⊢
      omega
  · refine ⟨0, s.setSubmit i c .returned, ?_, rfl, ?_⟩
    · simp [step, submitStep, hc, hpc, State.notifyOne, State.setSubmit, hparked]
    · simp only [State.effort, State.setSubmit]
      omega

lemma exists_advances (h : Attended s) (hidle : ¬ s.Idle) :
    ∃ a s', a.proceeds = true ∧ Advances s a s' := by
  by_cases hrunning : ∃ k ∈ s.workers_, ∃ job, k = .running job
  · obtain ⟨k, hk, job, rfl⟩ := hrunning
    obtain ⟨i, hi⟩ := mem_iff_getElem?.mp hk
    obtain ⟨s', hs'⟩ := advances_of_running hi
    exact ⟨_, s', rfl, hs'⟩
  · have hqueue : s.queue_ ≠ [] := fun hempty =>
      hidle ⟨hempty, fun k hk job heq => hrunning ⟨k, hk, job, heq⟩⟩
    rcases h.queue hqueue with ⟨k, hk, hawake⟩ | ⟨c, hc, hpc⟩
    · obtain ⟨i, hi⟩ := mem_iff_getElem?.mp hk
      cases k with
      | ready =>
        obtain ⟨s', hs'⟩ := advances_of_ready hi hqueue
        exact ⟨_, s', rfl, hs'⟩
      | running job => exact absurd ⟨_, hk, job, rfl⟩ hrunning
      | parked | exited => cases hawake
    · obtain ⟨i, hi⟩ := mem_iff_getElem?.mp hc
      obtain ⟨k, s', hs'⟩ := advances_of_notify hi hpc
      exact ⟨_, s', rfl, hs'⟩

/-- **The pool gets its jobs done**: from every state with the invariants the workers and the calls
of `submit` that are under way come to a state in which every job that is accepted now has ended
once. -/
theorem exists_finishing_run (h : Invariant s) :
    ∃ as, system.RunsTo (fun _ a => a.proceeds = true)
      (fun s' => ∀ job, s'.finished.count job = s.enqueued.count job) s as := by
  have hprogress : ∀ s', Invariant s' ∧ s'.enqueued = s.enqueued → ¬ s'.Idle →
      ∃ a s'', a.proceeds = true ∧ system.step s' a = some s'' ∧
        (Invariant s'' ∧ s''.enqueued = s.enqueued) ∧ s''.effort < s'.effort := by
    rintro s' ⟨hinv, henqueued⟩ hidle
    obtain ⟨a, s'', ha, hst, hsame, hlt⟩ := exists_advances hinv.attended hidle
    exact ⟨a, s'', ha, hst, ⟨hinv.step hst, hsame.trans henqueued⟩, hlt⟩
  obtain ⟨as, has⟩ := TransitionSystem.exists_runsTo_of_measure State.effort hprogress ⟨h, rfl⟩
  refine ⟨as, has.mono ?_⟩
  rintro s' ⟨⟨hinv, henqueued⟩, hempty, hnone⟩ job
  have hplaces := hinv.jobs.places job
  have hworkers : s'.workers_.countP (Worker.runs job) = 0 := by
    refine countP_eq_zero.mpr fun k hk hruns => ?_
    cases k with
    | running job' => exact hnone _ hk job' rfl
    | ready | parked | exited => cases hruns
  rw [← henqueued, hinv.jobs.order, hempty, append_nil]
  omega

lemma Jobs.count_enqueued (h : Jobs s) (hc : s.submits[i]? = some c) (hpc : c.pc = .returned) :
    s.enqueued.count i = 1 := by
  rw [h.accepted, accepts, hc, Option.any_some, hpc]
  rfl

/-- **The pool runs every accepted job exactly once**, if its workers are joinable, in every
reachable state:
* the jobs are taken in the order in which they were enqueued;
* the job of a `submit` that has returned is in the queue, running or ended, and this once;
* when the destructor has returned, it has ended;
* while the destructor waits for a worker, the flag is set and nobody is parked;
* the workers, and the calls that are about to notify, always come to its end. -/
theorem runs_every_job_once {s : State} (h : system.Reachable s) (hjoinable : s.joinable = true) :
    s.enqueued = s.taken ++ s.queue_ ∧
    (∀ i c, s.submits[i]? = some c → c.pc = .returned →
      s.queue_.count i + s.workers_.countP (Worker.runs i) + s.finished.count i = 1) ∧
    (s.destructor = .done → ∀ i c, s.submits[i]? = some c → c.pc = .returned →
      s.finished.count i = 1) ∧
    (∀ i, s.destructor = .join i → s.shuttingDown_ = true ∧ .parked ∉ s.workers_) ∧
    ∃ as, system.RunsTo (fun _ a => a.proceeds = true)
      (fun s' => ∀ i c, s.submits[i]? = some c → c.pc = .returned → s'.finished.count i = 1) s
      as := by
  have hinv := invariant_of_reachable h
  have hplace : ∀ i c, s.submits[i]? = some c → c.pc = .returned →
      s.queue_.count i + s.workers_.countP (Worker.runs i) + s.finished.count i = 1 := by
    intro i c hc hpc
    have hone := hinv.jobs.count_enqueued hc hpc
    have hplaces := hinv.jobs.places i
    rw [hinv.jobs.order, List.count_append] at hone
    omega
  refine ⟨hinv.jobs.order, hplace, fun hdone i c hc hpc => ?_, fun i hjoin => ?_, ?_⟩
  · -- all workers have exited, so the queue is empty and nobody runs a job
    have hexited : ∀ k ∈ s.workers_, k = .exited := by
      intro k hk
      obtain ⟨j, hj⟩ := List.mem_iff_getElem?.mp hk
      have hlt := (List.getElem?_eq_some_iff.mp hj).1
      have hjoined := hinv.shutdown.joined hjoinable j (by rw [hdone]; exact hlt)
      exact Option.some.inj (hj.symm.trans hjoined)
    obtain ⟨k, hk⟩ := List.exists_mem_of_ne_nil _ hinv.attended.workers
    have hqueue := (hinv.shutdown.exited (hexited k hk ▸ hk)).2
    have hworkers : s.workers_.countP (Worker.runs i) = 0 := by
      refine List.countP_eq_zero.mpr fun k hk hruns => ?_
      rw [hexited k hk] at hruns
      cases hruns
    have hone := hplace i c hc hpc
    rw [hqueue, hworkers, List.count_nil] at hone
    omega
  · have hnotified : s.destructor.notified = true := by rw [hjoin]; rfl
    exact ⟨hinv.shutdown.flag_of_notified hnotified, hinv.shutdown.notified hnotified⟩
  · obtain ⟨as, has⟩ := exists_finishing_run hinv
    refine ⟨as, has.mono fun s' hs' i c hc hpc => ?_⟩
    rw [hs', hinv.jobs.count_enqueued hc hpc]

/-- Two workers and two jobs, of which the first throws and the second is still in the queue when
the destructor begins. -/
theorem runs_every_job_once_two :
    ∃ s, system.Reachable s ∧ s.joinable = true ∧ s.destructor = .done ∧
      s.submits = [⟨true, .returned⟩, ⟨true, .returned⟩] ∧
      ∀ i c, s.submits[i]? = some c → c.pc = .returned → s.finished.count i = 1 := by
  have hs : system.Reachable _ := .final (new 2 false)
      [.submit true, .submitGo 0 0, .submitGo 0 0, .submitGo 0 0, .worker 1 false, .submit true,
        .submitGo 1 0, .submitGo 1 0, .submitGo 1 0, .shutdown, .shutdownNotify, .worker 1 true,
        .worker 0 false, .worker 1 false, .worker 0 false, .worker 0 false, .join, .join,
        .join] ⟨2, false, by decide, rfl⟩ (by decide +kernel)
  exact ⟨_, hs, rfl, rfl, rfl, (runs_every_job_once hs rfl).2.2.1 rfl⟩

/-- **The destructor does not wait for detached workers**: it returns while one accepted job is
running and another one is in the queue. -/
theorem destructor_leaves_jobs :
    ∃ s, system.Reachable s ∧ s.destructor = .done ∧
      s.submits = [⟨true, .returned⟩, ⟨true, .returned⟩] ∧ s.workers_ = [.running 0] ∧
      s.queue_ = [1] ∧ s.finished = [] := by
  have hs : system.Reachable _ := .final (new 1 true)
      [.submit true, .submitGo 0 0, .submitGo 0 0, .submitGo 0 0, .submit true, .submitGo 1 0,
        .submitGo 1 0, .submitGo 1 0, .worker 0 false, .shutdown, .shutdownNotify, .join, .join]
      ⟨1, true, by decide, rfl⟩ (by decide +kernel)
  exact ⟨_, hs, rfl, rfl, rfl, rfl, rfl⟩

end ThreadPool

end Pman
