import Pman.Lib.HandOver

set_option autoImplicit false

/-!
# The asynchronous semaphore

`async::Semaphore` counts permits. `acquire` and `acquireGuard` take one or suspend; a `release`
that finds suspended coroutines does not touch the counter but pops the first one and posts its
resumption, so the permit is in flight until that runs. The two kinds of coroutine differ in what
they return with: a bare permit that the caller releases by hand, or a `Guard`.

The state is the semaphore with what one event loop holds for it. Each bare permit is released at
most once: `release` by hand is a step only while there is one. On one thread the loops around
`compare_exchange_weak` come to a test of the counter.

## Main results

* `refines`: the permits are handed over in order.
* `semaphore_conserves`: conservation of the permits.
-/

namespace Pman.AsyncSemaphore

inductive Handle
  | plain (call : ℕ)
  | guard (call : ℕ)
deriving DecidableEq, Repr

def Handle.call : Handle → ℕ
  | .plain call => call
  | .guard call => call

/-- The semaphore, the resumptions posted for it, the bare permits and the guards. -/
structure State where
  count_ : ℕ
  capacity_ : ℕ
  waiters_ : List Handle
  /-- The coroutines whose resumption is posted, oldest first. -/
  posted : List Handle
  /-- The permits acquired by `acquire` or `tryAcquire` and not yet released. -/
  permits : ℕ
  /-- For each guard whether its `sem_` points to this semaphore. -/
  guards : List Bool
  nextCall : ℕ
  /-- The calls that were given a permit, in that order (a history variable). -/
  served : List ℕ
  /-- The calls that returned with a permit, in that order (a history variable). -/
  obtained : List ℕ

namespace State

def newCall (s : State) : State := { s with nextCall := s.nextCall + 1 }

def resumeHandle (s : State) (handle : Handle) : State :=
  { s with posted := s.posted ++ [handle] }

def release (s : State) : State :=
  match s.waiters_ with
  | handle :: rest =>
    { s with waiters_ := rest, served := s.served ++ [handle.call] }.resumeHandle handle
  | [] => { s with count_ := s.count_ + 1 }

def takeCount (s : State) (call : ℕ) : State × Bool :=
  if 0 < s.count_ then ({ s with count_ := s.count_ - 1, served := s.served ++ [call] }, true)
  else (s, false)

def takePermit (s : State) (call : ℕ) : State :=
  { s with permits := s.permits + 1, obtained := s.obtained ++ [call] }

def takeGuard (s : State) (call : ℕ) : State :=
  { s with guards := s.guards ++ [true], obtained := s.obtained ++ [call] }

def awaitReady (s : State) (call : ℕ) : State × Bool := s.takeCount call

def awaitSuspend (s : State) (handle : Handle) : State :=
  { s with waiters_ := s.waiters_ ++ [handle] }

def awaitResume (s : State) : Handle → State
  | .plain call => s.takePermit call
  | .guard call => s.takeGuard call

/-- `co_await acquire()` or `co_await acquireGuard()`, up to completion or suspension. -/
def await (s : State) (handle : Handle) : State :=
  match s.awaitReady handle.call with
  | (s, true) => s.awaitResume handle
  | (s, false) => s.awaitSuspend handle

def acquire (s : State) (call : ℕ) : State := s.await (.plain call)

def acquireGuard (s : State) (call : ℕ) : State := s.await (.guard call)

def tryAcquire (s : State) (call : ℕ) : State × Bool :=
  match s.takeCount call with
  | (s, true) => (s.takePermit call, true)
  | (s, false) => (s, false)

end State

inductive Act
  | tryAcquire
  | acquire
  | acquireGuard
  /-- Run the posted resumption at an index; the loop itself always runs index `0`. -/
  | resume (i : ℕ)
  | release
  /-- `Guard(Guard&& other)`, a new guard from guard `i`. -/
  | moveConstruct (i : ℕ)
  /-- `operator=(Guard&& other)`, guard `i` from guard `j`. -/
  | moveAssign (i j : ℕ)
  | destroy (i : ℕ)
deriving DecidableEq, Repr

def step (s : State) : Act → Option State
  | .tryAcquire =>
    match s.newCall.tryAcquire s.nextCall with
    | (s', true) => some s'
    | (_, false) => some s
  | .acquire => some (s.newCall.acquire s.nextCall)
  | .acquireGuard => some (s.newCall.acquireGuard s.nextCall)
  | .resume i =>
    match s.posted[i]? with
    | none => none
    | some handle => some ({ s with posted := s.posted.eraseIdx i }.awaitResume handle)
  | .release =>
    if s.permits = 0 then none else some { s.release with permits := s.permits - 1 }
  | .moveConstruct i =>
    match s.guards[i]? with
    | none => none
    | some owns => some { s with guards := s.guards.set i false ++ [owns] }
  | .moveAssign i j =>
    match s.guards[i]?, s.guards[j]? with
    | some owns, some _ =>
      if i = j then some s
      else
        let s := if owns then s.release else s
        some { s with guards := Guards.assign s.guards i j }
    | _, _ => none
  | .destroy i =>
    match s.guards[i]? with
    | none => none
    | some owns =>
      let s := if owns then s.release else s
      some { s with guards := s.guards.set i false }

def new (count : ℕ) : State where
  count_ := count
  capacity_ := count
  waiters_ := []
  posted := []
  permits := 0
  guards := []
  nextCall := 0
  served := []
  obtained := []

def system (count : ℕ) : TransitionSystem State Act where
  init s := s = new count
  step := step

def held (s : State) : ℕ := s.permits + Guards.owning s.guards

def project (s : State) : HandOver.State where
  free := s.count_
  waiting := s.waiters_.map Handle.call
  flight := s.posted.map Handle.call
  held := held s
  nextCall := s.nextCall
  served := s.served
  obtained := s.obtained

lemma release_guards (s : State) : s.release.guards = s.guards := by
  unfold State.release State.resumeHandle
  split <;> rfl

variable {s : State} {guards : List Bool}

lemma step_giveBack {permits : ℕ} (hg : permits + Guards.owning guards + 1 = held s) :
    HandOver.step (project s) .giveBack =
      some (project { s.release with permits := permits, guards := guards }) := by
  have hheld : held s ≠ 0 := by omega
  have hless : held s - 1 = permits + Guards.owning guards := by omega
  cases hw : s.waiters_ with
  | nil =>
    simp only [HandOver.step, project, hheld, if_false, State.release, hw, List.map_nil, hless]
    rfl
  | cons handle rest =>
    simp only [HandOver.step, project, hheld, if_false, State.release, State.resumeHandle, hw,
      List.map_cons, List.map_append, List.map_nil, hless]
    rfl

lemma step_giveBack_guards (hg : Guards.owning guards + 1 = Guards.owning s.guards) :
    HandOver.step (project s) .giveBack = some (project { s.release with guards := guards }) := by
  have hpermits : s.release.permits = s.permits := by
    unfold State.release State.resumeHandle
    split <;> rfl
  have hheld : s.permits + Guards.owning guards + 1 = held s := by
    rw [held, ← hg, add_assoc]
  have hback := step_giveBack hheld
  rwa [← hpermits] at hback

lemma project_guards (hg : Guards.owning guards = Guards.owning s.guards) :
    project { s with guards := guards } = project s := by
  simp [project, held, hg]

lemma project_awaitResume (s : State) (handle : Handle) :
    project (s.awaitResume handle) =
      { project s with held := held s + 1, obtained := s.obtained ++ [handle.call] } := by
  cases handle with
  | plain call => simp [project, held, State.awaitResume, State.takePermit, Handle.call,
      add_right_comm]
  | guard call => simp [project, held, State.awaitResume, State.takeGuard, Handle.call,
      add_assoc]

lemma step_await (s : State) (handle : Handle) (hcall : handle.call = s.nextCall) :
    ∃ b, HandOver.step (project s) b = some (project (s.newCall.await handle)) := by
  by_cases hpos : 0 < s.count_
  · refine ⟨.grab, ?_⟩
    have hne : s.count_ ≠ 0 := by omega
    simp only [State.await, State.awaitReady, State.takeCount, State.newCall, hpos, if_true,
      project_awaitResume]
    simp [HandOver.step, project, held, hne, hcall]
  · refine ⟨.park, ?_⟩
    have hzero : s.count_ = 0 := by omega
    simp [State.await, State.awaitReady, State.takeCount, State.awaitSuspend, State.newCall,
      HandOver.step, project, held, hzero, hcall]

lemma project_step {s' : State} {a : Act} (hst : step s a = some s') :
    project s' = project s ∨ ∃ b, HandOver.step (project s) b = some (project s') := by
  cases a with
  | tryAcquire =>
    simp only [step] at hst
    split at hst <;> cases hst
    case h_2.refl => exact .inl rfl
    rename_i htake
    refine .inr ⟨.grab, ?_⟩
    rcases Nat.eq_zero_or_pos s.count_ with hzero | hpos <;>
      simp [State.newCall, State.tryAcquire, State.takeCount, *] at htake
    have hne : s.count_ ≠ 0 := by omega
    subst htake
    simp [HandOver.step, project, held, State.takePermit, hne, add_right_comm]
  | acquire =>
    cases hst
    exact .inr (step_await s (.plain s.nextCall) rfl)
  | acquireGuard =>
    cases hst
    exact .inr (step_await s (.guard s.nextCall) rfl)
  | resume i =>
    simp only [step] at hst
    split at hst <;> cases hst
    rename_i handle hposted
    refine .inr ⟨.resume i, ?_⟩
    rw [project_awaitResume]
    simp [HandOver.step, project, held, hposted, List.eraseIdx_map]
  | release =>
    obtain ⟨hpermits, ⟨⟩⟩ := Option.ite_none_left_eq_some.mp hst
    have hcount : s.permits - 1 + Guards.owning s.guards + 1 = held s := by
      rw [held]
      omega
    have hback := step_giveBack hcount
    rw [← release_guards s] at hback
    exact .inr ⟨.giveBack, hback⟩
  | moveConstruct i =>
    simp only [step] at hst
    split at hst <;> cases hst
    rename_i owns hi
    refine .inl (project_guards ?_)
    rw [Guards.owning_concat]
    exact Guards.owning_clear hi
  | moveAssign i j =>
    simp only [step] at hst
    split at hst
    case h_2 => cases hst
    rename_i owns _ hi hj
    by_cases hij : i = j
    · rw [if_pos hij] at hst
      exact .inl (congrArg project (Option.some.inj hst).symm)
    rw [if_neg hij] at hst
    cases hst
    have hcount := Guards.owning_assign hij hi hj
    cases owns with
    | true =>
      simp only [if_true, release_guards]
      exact .inr ⟨.giveBack, step_giveBack_guards hcount⟩
    | false => exact .inl (project_guards hcount)
  | destroy i =>
    simp only [step] at hst
    split at hst <;> cases hst
    rename_i owns hi
    have hcount := Guards.owning_clear hi
    cases owns with
    | true =>
      simp only [if_true, release_guards]
      exact .inr ⟨.giveBack, step_giveBack_guards hcount⟩
    | false => exact .inl (project_guards hcount)

/-- **The semaphore refines permits** that are handed over. -/
theorem refines {count : ℕ} (h : (system count).Reachable s) :
    (HandOver.system count).Reachable (project s) := by
  refine h.invariant (I := fun s => (HandOver.system count).Reachable (project s)) ?_ ?_
  · rintro _ rfl
    exact .init rfl
  intro s a s' hr _ hst
  rcases project_step hst with heq | ⟨b, hb⟩
  · rw [heq]
    exact hr
  · exact hr.step trivial hb

/-- **The semaphore conserves permits**, for every initial count and every run: the counter, the
permits held, bare or by guards, and those handed to woken coroutines add up to the initial count;
coroutines wait only while the counter is zero; and the calls that were given a permit, then those
that wait, are in the order in which they were made, as are the resumptions the loop still has to
run. -/
theorem semaphore_conserves {count : ℕ} {s : State} (h : (system count).Reachable s) :
    s.count_ + held s + s.posted.length = count ∧
      (s.waiters_ ≠ [] → s.count_ = 0) ∧
      (s.served ++ s.waiters_.map Handle.call).Pairwise (· < ·) ∧
      (s.posted.map Handle.call ++ s.waiters_.map Handle.call).Pairwise (· < ·) := by
  have hsound := HandOver.sound_of_reachable (refines h)
  refine ⟨?_, fun hne => hsound.waiting_free ?_, hsound.ordered, hsound.flight_waiting⟩
  · have hcons := hsound.conserved
    simpa [project] using hcons
  · simpa [project] using hne

/-- Two permits: a guard takes one, a bare permit the other, two calls wait, and the guard is
dropped. -/
theorem semaphore_conserves_waiting : ∃ s : State, (system 2).Reachable s ∧
    s.posted = [.plain 2] ∧ s.waiters_ = [.guard 3] ∧ s.permits = 1 ∧
      s.count_ + held s + s.posted.length = 2 := by
  have hs : (system 2).Reachable _ :=
    .final (new 2) [.acquireGuard, .tryAcquire, .acquire, .acquireGuard, .destroy 0] rfl (by decide)
  exact ⟨_, hs, rfl, rfl, rfl, (semaphore_conserves hs).1⟩

end Pman.AsyncSemaphore
