import Pman.Lib.HandOver

set_option autoImplicit false

/-!
# The asynchronous mutex

`async::Mutex` suspends coroutines instead of blocking threads. When coroutines wait, `unlock` pops
the first one and posts its resumption, and `locked_` stays set for it. Until the resumption runs no
`LockGuard` owns the mutex.

The state is the mutex with what one event loop holds for it: the posted resumptions and the guards.
A guard is the flag whether its `mutex_` points to this mutex. Calls are numbered in the order in
which they are made.

## Main results

* `refines`: the mutex is one permit that is handed over.
* `mutex_hands_over`: exclusion, order and no lost hand-over.
-/

namespace Pman.AsyncMutex

structure State where
  locked_ : Bool
  /-- The suspended coroutines, named by the number of their `lock` call. -/
  waiters_ : List ℕ
  /-- The coroutines whose resumption is posted, oldest first. -/
  posted : List ℕ
  guards : List Bool
  nextCall : ℕ
  /-- The calls the mutex was given to, in that order (a history variable). -/
  served : List ℕ
  /-- The calls that returned with a guard, in that order (a history variable). -/
  obtained : List ℕ

namespace State

def newCall (s : State) : State := { s with nextCall := s.nextCall + 1 }

def resumeHandle (s : State) (handle : ℕ) : State := { s with posted := s.posted ++ [handle] }

def unlock (s : State) : State :=
  match s.waiters_ with
  | handle :: rest =>
    { s with waiters_ := rest, served := s.served ++ [handle] }.resumeHandle handle
  | [] => { s with locked_ := false }

/-- `compare_exchange_strong` from unlocked to locked, for a call. -/
def exchange (s : State) (call : ℕ) : State × Bool :=
  if s.locked_ then (s, false)
  else ({ s with locked_ := true, served := s.served ++ [call] }, true)

def guard (s : State) (call : ℕ) : State :=
  { s with guards := s.guards ++ [true], obtained := s.obtained ++ [call] }

end State

namespace LockAwaiter

def awaitReady (s : State) (call : ℕ) : State × Bool := s.exchange call

def awaitSuspend (s : State) (handle : ℕ) : State := { s with waiters_ := s.waiters_ ++ [handle] }

def awaitResume (s : State) (call : ℕ) : State := s.guard call

end LockAwaiter

namespace State

def lock (s : State) (call : ℕ) : State :=
  match LockAwaiter.awaitReady s call with
  | (s, true) => LockAwaiter.awaitResume s call
  | (s, false) => LockAwaiter.awaitSuspend s call

def tryLock (s : State) (call : ℕ) : State × Bool :=
  match s.exchange call with
  | (s, true) => (s.guard call, true)
  | (s, false) => (s, false)

end State

inductive Act
  | tryLock
  | lock
  /-- Run the posted resumption at an index; the loop itself always runs index `0`. -/
  | resume (i : ℕ)
  /-- `LockGuard(LockGuard&& other)`, a new guard from guard `i`. -/
  | moveConstruct (i : ℕ)
  /-- `operator=(LockGuard&& other)`, guard `i` from guard `j`. -/
  | moveAssign (i j : ℕ)
  | destroy (i : ℕ)
deriving DecidableEq, Repr

def step (s : State) : Act → Option State
  | .tryLock =>
    match s.newCall.tryLock s.nextCall with
    | (s', true) => some s'
    | (_, false) => some s
  | .lock => some (s.newCall.lock s.nextCall)
  | .resume i =>
    match s.posted[i]? with
    | none => none
    | some handle =>
      some (LockAwaiter.awaitResume { s with posted := s.posted.eraseIdx i } handle)
  | .moveConstruct i =>
    match s.guards[i]? with
    | none => none
    | some owns => some { s with guards := s.guards.set i false ++ [owns] }
  | .moveAssign i j =>
    match s.guards[i]?, s.guards[j]? with
    | some owns, some _ =>
      if i = j then some s
      else
        let s := if owns then s.unlock else s
        some { s with guards := Guards.assign s.guards i j }
    | _, _ => none
  | .destroy i =>
    match s.guards[i]? with
    | none => none
    | some owns =>
      let s := if owns then s.unlock else s
      some { s with guards := s.guards.set i false }

def new : State where
  locked_ := false
  waiters_ := []
  posted := []
  guards := []
  nextCall := 0
  served := []
  obtained := []

def system : TransitionSystem State Act where
  init s := s = new
  step := step

def project (s : State) : HandOver.State where
  free := (!s.locked_).toNat
  waiting := s.waiters_
  flight := s.posted
  held := Guards.owning s.guards
  nextCall := s.nextCall
  served := s.served
  obtained := s.obtained

lemma unlock_guards (s : State) : s.unlock.guards = s.guards := by
  unfold State.unlock State.resumeHandle
  split <;> rfl

variable {s : State}

variable {guards : List Bool} {s' : State} {a : Act}

lemma step_giveBack (hl : s.locked_ = true)
    (hg : Guards.owning guards + 1 = Guards.owning s.guards) :
    HandOver.step (project s) .giveBack = some (project { s.unlock with guards := guards }) := by
  have hheld : Guards.owning s.guards ≠ 0 := by omega
  have hless : Guards.owning s.guards - 1 = Guards.owning guards := by omega
  cases hw : s.waiters_ with
  | nil => simp [HandOver.step, project, State.unlock, hw, hl, hheld, hless]
  | cons handle rest =>
    simp [HandOver.step, project, State.unlock, State.resumeHandle, hw, hl, hheld, hless]

lemma project_guards (hg : Guards.owning guards = Guards.owning s.guards) :
    project { s with guards := guards } = project s := by
  simp [project, hg]

lemma project_step (hlocked : 0 < Guards.owning s.guards → s.locked_ = true)
    (hst : step s a = some s') :
    project s' = project s ∨ ∃ b, HandOver.step (project s) b = some (project s') := by
  cases a with
  | tryLock =>
    simp only [step] at hst
    split at hst <;> cases hst
    case h_2.refl => exact .inl rfl
    rename_i hex
    refine .inr ⟨.grab, ?_⟩
    cases hl : s.locked_ <;> simp [State.newCall, State.tryLock, State.exchange, hl] at hex
    subst hex
    simp [HandOver.step, project, State.guard, hl]
  | lock =>
    cases hst
    right
    cases hl : s.locked_ with
    | true =>
      refine ⟨.park, ?_⟩
      simp [HandOver.step, project, State.lock, State.newCall, LockAwaiter.awaitReady,
        LockAwaiter.awaitSuspend, State.exchange, hl]
    | false =>
      refine ⟨.grab, ?_⟩
      simp [HandOver.step, project, State.lock, State.newCall, LockAwaiter.awaitReady,
        LockAwaiter.awaitResume, State.exchange, State.guard, hl]
  | resume i =>
    simp only [step] at hst
    split at hst <;> cases hst
    rename_i handle hposted
    refine .inr ⟨.resume i, ?_⟩
    simp [HandOver.step, project, LockAwaiter.awaitResume, State.guard, hposted]
  | moveConstruct i =>
    simp only [step] at hst
    split at hst <;> cases hst
    rename_i owns hi
    refine .inl (project_guards ?_)
    rw [Guards.owning_concat]
    exact Guards.owning_clear hi
  | moveAssign i j =>
    simp only [step] at hst
    split at hst
    case h_2 => cases hst
    rename_i owns _ hi hj
    by_cases hij : i = j
    · rw [if_pos hij] at hst
      exact .inl (congrArg project (Option.some.inj hst).symm)
    rw [if_neg hij] at hst
    cases hst
    have hcount := Guards.owning_assign hij hi hj
    cases owns with
    | true =>
      simp only [if_true, unlock_guards]
      exact .inr ⟨.giveBack, step_giveBack (hlocked (by simp at hcount; omega)) hcount⟩
    | false => exact .inl (project_guards hcount)
  | destroy i =>
    simp only [step] at hst
    split at hst <;> cases hst
    rename_i owns hi
    have hcount := Guards.owning_clear hi
    cases owns with
    | true =>
      simp only [if_true, unlock_guards]
      exact .inr ⟨.giveBack, step_giveBack (hlocked (by simp at hcount; omega)) hcount⟩
    | false => exact .inl (project_guards hcount)

lemma locked_of_owning (h : (HandOver.system 1).Reachable (project s))
    (hpos : 0 < Guards.owning s.guards) : s.locked_ = true := by
  have hcons := (HandOver.sound_of_reachable h).conserved
  by_contra hfree
  rw [Bool.not_eq_true] at hfree
  simp only [project, hfree, Bool.not_false, Bool.toNat_true] at hcons
  omega

/-- **The mutex refines one permit** that is handed over. -/
theorem refines (h : system.Reachable s) : (HandOver.system 1).Reachable (project s) := by
  refine h.invariant (I := fun s => (HandOver.system 1).Reachable (project s)) ?_ ?_
  · rintro _ rfl
    exact .init rfl
  intro s a s' hr _ hst
  rcases project_step (locked_of_owning hr) hst with heq | ⟨b, hb⟩
  · rw [heq]
    exact hr
  · exact hr.step trivial hb

lemma obtained_of_locked (hl : s.locked_ = true) (ha : a = .tryLock ∨ a = .lock)
    (hst : step s a = some s') : s'.obtained = s.obtained := by
  rcases ha with rfl | rfl
  · have : s' = s := by
      simpa [step, State.newCall, State.tryLock, State.exchange, hl] using hst.symm
    rw [this]
  · cases hst
    simp [State.lock, State.newCall, LockAwaiter.awaitReady, LockAwaiter.awaitSuspend,
      State.exchange, hl]

/-- **The mutex hands over correctly**, in every run. There is at most one owner, a guard that
owns or a woken coroutine whose resumption is pending, and `locked_` says whether there is one.
Coroutines wait only for a locked mutex. The calls that obtained it, then the one that is woken,
then those that wait, are in the order in which they were made; and while one of them is woken or
waits, no `tryLock` and no new `lock` obtains the mutex. -/
theorem mutex_hands_over {s : State} (h : system.Reachable s) :
    (s.locked_ = true ↔ Guards.owning s.guards + s.posted.length = 1) ∧
      Guards.owning s.guards + s.posted.length ≤ 1 ∧
      (s.waiters_ ≠ [] → s.locked_ = true) ∧
      (s.obtained ++ s.posted ++ s.waiters_).Pairwise (· < ·) ∧
      (∀ a s', s.posted ≠ [] ∨ s.waiters_ ≠ [] → (a = .tryLock ∨ a = .lock) →
        step s a = some s' → s'.obtained = s.obtained) := by
  have hr := refines h
  have hsound := HandOver.sound_of_reachable hr
  have hcons : (!s.locked_).toNat + Guards.owning s.guards + s.posted.length = 1 := hsound.conserved
  have hwaiting : s.waiters_ ≠ [] → s.locked_ = true := by
    intro hne
    have hfree : (!s.locked_).toNat = 0 := hsound.waiting_free hne
    simpa using hfree
  have hposted : s.posted ≠ [] → s.locked_ = true := by
    intro hne
    have hpos := List.length_pos_iff.mpr hne
    by_contra hunlocked
    rw [Bool.not_eq_true] at hunlocked
    rw [hunlocked, Bool.not_false, Bool.toNat_true] at hcons
    omega
  refine ⟨?_, by omega, hwaiting, ?_, fun a s' hne ha hst => ?_⟩
  · cases hl : s.locked_ <;> simp [hl] at hcons ⊢ <;> omega
  · have hserved : s.served = s.obtained ++ s.posted := HandOver.obtained_of_reachable hr
    rw [← hserved]
    exact hsound.ordered
  · exact obtained_of_locked (hne.elim hposted hwaiting) ha hst

/-- A holds the mutex, B and C wait; A's guard is moved and destroyed, so B is woken, and a
`tryLock` in between fails. -/
theorem mutex_hands_over_contended : ∃ s : State, system.Reachable s ∧
    s.posted = [1] ∧ s.waiters_ = [2] ∧ s.guards = [false, false] ∧ s.locked_ = true ∧
      (s.obtained ++ s.posted ++ s.waiters_).Pairwise (· < ·) := by
  have hs : system.Reachable _ :=
    .final new [.lock, .lock, .lock, .moveConstruct 0, .destroy 1, .tryLock] rfl (by decide)
  exact ⟨_, hs, rfl, rfl, rfl, rfl, (mutex_hands_over hs).2.2.2.1⟩

end Pman.AsyncMutex
