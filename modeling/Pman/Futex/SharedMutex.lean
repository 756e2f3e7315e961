import Pman.Futex.Mutex

set_option autoImplicit false

/-!
# `SharedFutexMutex`

The process-shared mutex of `shared_sync.cpp`: the algorithm of `FutexMutex` on `state_`. A
robust mutex also records its owner's thread id in `owner_` and refuses to be taken while
`ownerDead_` is set. The futex wait is a bare system call whose answer is ignored, so an
interrupted sleeper goes back to the spin loop.

The two flags are plain data set up before the mutex is shared (`make_robust`); they are
arbitrary in the initial state and constant along a run.

## Main results

* `simulation`: the machine refines the sleeping lock.
* `not_stuck`: no stuck waiter under `SpinOk`.
-/

namespace Pman.SharedFutexMutex

open ContendedLock

/-- The program points of a thread, named after the access it performs next. -/
inductive Pc
  | idle
  /-- `lock`: the first compare-and-exchange, after the test of `robust_ && ownerDead_`. -/
  | lockCas
  | spinLoad
  /-- `lock`: the weak compare-and-exchange of the spin loop. -/
  | spinCas
  | exchange
  | futexWait
  | parked
  /-- `lock` and `try_lock` of a robust mutex: the store of `owner_`. -/
  | storeOwner
  | tryCas
  /-- `unlock` of a robust mutex: the store of `0` to `owner_`. -/
  | clearOwner
  | unlockExchange
  | futexWake
  deriving DecidableEq, Repr

structure State (ι : Type*) where
  state_ : LockWord
  /-- The owner of a robust mutex; `none` is the thread id `0`. -/
  owner_ : Option ι
  robust_ : Bool
  ownerDead_ : Bool
  pc : ι → Pc

section Machine

variable {ι : Type*} [DecidableEq ι]

def State.goto (s : State ι) (t : ι) (p : Pc) : State ι :=
  { s with pc := Function.update s.pc t p }

def State.taken (s : State ι) : Pc := if s.robust_ then .storeOwner else .idle

/-- Where `lock` goes on after an answer of the futex wait: it does not look at it. -/
def afterWait (_ : WaitResult) : Pc := .spinLoad

variable [Fintype ι]

def step (s : State ι) : ι × MutexChoice ι → Option (State ι)
  | (t, c) =>
    match s.pc t, c with
    -- with a dead owner `lock` throws and `try_lock` fails without touching the word
    | .idle, .lock => some (s.goto t (if s.robust_ && s.ownerDead_ then .idle else .lockCas))
    | .idle, .tryLock => some (s.goto t (if s.robust_ && s.ownerDead_ then .idle else .tryCas))
    | .idle, .unlock => some (s.goto t (if s.robust_ then .clearOwner else .unlockExchange))
    | .lockCas, .go =>
      some (if s.state_ = .unlocked then { s.goto t s.taken with state_ := .locked }
        else s.goto t .spinLoad)
    | .spinLoad, .go =>
      some (s.goto t (if s.state_ = .unlocked then .spinCas else .spinLoad))
    | .spinLoad, .giveUp => some (s.goto t .exchange)
    | .spinCas, .go =>
      some (if s.state_ = .unlocked then { s.goto t s.taken with state_ := .locked }
        else s.goto t .spinLoad)
    | .spinCas, .failWeak => some (s.goto t .spinLoad)
    | .exchange, .go =>
      some { s.goto t (if s.state_ = .unlocked then s.taken else .futexWait) with
        state_ := .contended }
    | .futexWait, .go =>
      some (s.goto t (if s.state_ = .contended then .parked else afterWait (.error .EAGAIN)))
    | .parked, .result r =>
      if r.possible false then some (s.goto t (afterWait r)) else none
    | .storeOwner, .go => some { s.goto t .idle with owner_ := some t }
    | .tryCas, .go =>
      some (if s.state_ = .unlocked then { s.goto t s.taken with state_ := .locked }
        else s.goto t .idle)
    | .clearOwner, .go => some { s.goto t .unlockExchange with owner_ := none }
    | .unlockExchange, .go =>
      some { s.goto t (if s.state_ = .contended then .futexWake else .idle) with
        state_ := .unlocked }
    | .futexWake, .wake none =>
      if ∀ u, s.pc u ≠ .parked then some (s.goto t .idle) else none
    | .futexWake, .wake (some u) =>
      if s.pc u = .parked then some ((s.goto t .idle).goto u (afterWait .woken)) else none
    | _, _ => none

/-- The machine, started with an unlocked mutex and every thread outside. -/
def system (ι : Type*) [DecidableEq ι] [Fintype ι] :
    TransitionSystem (State ι) (ι × MutexChoice ι) where
  init s := s.state_ = .unlocked ∧ s.owner_ = none ∧ s.pc = fun _ => .idle
  step := step

end Machine

variable {ι : Type*}

/-- A thread is in the slow path of `lock` and awake, or about to issue the wake-up of
`unlock`. -/
def Pc.awake : Pc → Bool
  | .spinLoad | .spinCas | .exchange | .futexWait | .futexWake => true
  | _ => false

/-- **A stuck waiter**: the mutex is unlocked, every thread is outside the operations or parked,
and some thread is parked. -/
def Stuck (s : State ι) : Prop :=
  s.state_ = .unlocked ∧ (∀ t, s.pc t = .idle ∨ s.pc t = .parked) ∧ ∃ t, s.pc t = .parked

/-- The condition on a compare-and-exchange of the spin loop that does not fail spuriously: it does
not take the lock while a thread is parked, unless another thread is awake in the slow path or about
to issue a wake-up. -/
def SpinOk (s : State ι) (a : ι × MutexChoice ι) : Prop :=
  a.2 = .go → s.pc a.1 = .spinCas → s.state_ = .unlocked → (∃ u, s.pc u = .parked) →
    ∃ u, u ≠ a.1 ∧ (s.pc u).awake = true

instance [Fintype ι] (s : State ι) : Decidable (Stuck s) :=
  inferInstanceAs (Decidable (_ ∧ _ ∧ _))

instance [Fintype ι] [DecidableEq ι] (s : State ι) (a : ι × MutexChoice ι) :
    Decidable (SpinOk s a) :=
  inferInstanceAs (Decidable (_ → _ → _ → _ → _))

def Pc.role : Pc → ContendedLock.Role
  | .spinLoad | .spinCas | .exchange | .futexWait => .slow
  | .parked => .parked
  | .futexWake => .waking
  | _ => .out

def project (s : State ι) : ContendedLock.State ι := ContendedLock.view Pc.role s.state_ s.pc

@[simp] lemma role_eq_parked {p : Pc} : p.role = .parked ↔ p = .parked := by
  cases p <;> simp [Pc.role]

lemma awake_iff_role {p : Pc} : p.awake = true ↔ p.role = .slow ∨ p.role = .waking := by
  cases p <;> simp [Pc.role, Pc.awake]

lemma role_taken (s : State ι) : s.taken.role = .out := by
  unfold State.taken
  split_ifs <;> rfl

variable [DecidableEq ι] [Fintype ι]

open ContendedLock (Moves) in
/-- Every step under `SpinOk` is a step of the protocol or a stutter.

**Proof sketch.** As for `FutexMutex`; the accesses to `owner_` and the tests of the flags are
stutters outside the slow path. -/
lemma moves_of_step {s s' : State ι} {a : ι × MutexChoice ι} (hok : SpinOk s a)
    (hst : step s a = some s') : Moves (project s) (project s') := by
  have htaken := role_taken s
  revert hst
  fun_cases step s a <;> rintro ⟨⟩
  -- the calls, and the accesses to `owner_` outside the slow path
  case case1 hpc | case2 hpc | case3 hpc | case5 hpc => split_ifs <;> exact moves_stutter hpc rfl
  case case13 hpc | case15 hpc | case6 hpc | case8 hpc => exact moves_stutter hpc rfl
  -- `lock`: the first compare-and-exchange
  case case4 hpc =>
    split_ifs with hw
    · exact moves_grab_out hpc hw rfl htaken
    · exact moves_enter hpc rfl rfl
  -- `lock`: the spin loop
  case case7 hpc =>
    split_ifs with hw
    · refine moves_grab_slow hpc hw rfl htaken fun hparked => ?_
      obtain ⟨u, hu⟩ := hparked
      obtain ⟨v, hne, hv⟩ := hok rfl hpc hw ⟨u, role_eq_parked.mp hu⟩
      exact ⟨v, hne, awake_iff_role.mp hv⟩
    · exact moves_stutter hpc rfl
  -- `lock`: the exchange with `Contended`
  case case9 hpc =>
    split_ifs with hw
    · exact moves_mark_unlocked hpc hw rfl htaken
    · exact moves_mark_taken hpc hw rfl rfl
  -- `lock`: the futex wait
  case case10 hpc =>
    split_ifs with hw
    · exact moves_park hpc hw rfl rfl
    · exact moves_stutter hpc rfl
  case case11 r hpc hr => exact moves_unpark hpc rfl rfl
  -- `try_lock`
  case case14 hpc =>
    split_ifs with hw
    · exact moves_grab_out hpc hw rfl htaken
    · exact moves_stutter hpc rfl
  -- `unlock`
  case case16 hpc =>
    split_ifs with hw
    · exact moves_free_contended hpc hw rfl rfl
    · exact moves_free_quiet hpc hw rfl rfl
  case case17 hpc hnone =>
    exact moves_wakeOne_none hpc rfl rfl fun u hu => hnone u (role_eq_parked.mp hu)
  case case19 u hpc hu => exact moves_wakeOne_some hpc rfl rfl (role_eq_parked.mpr hu) rfl

/-- **The machine refines the three-word sleeping lock** along every run under `SpinOk`. -/
theorem simulation : Simulation (system ι) SpinOk (ContendedLock.system ι)
    ContendedLock.GrabOk project where
  init := by
    rintro ⟨w, owner, robust, dead, pc⟩ ⟨rfl, -, rfl⟩
    rfl
  step _ _ _ hok hst := moves_of_step hok hst

/-- **No stuck waiter in runs under `SpinOk`**, as for `FutexMutex`. -/
theorem not_stuck {s : State ι} (h : (system ι).ReachableWithin SpinOk s) : ¬ Stuck s :=
  not_stuck_of_view rfl rfl (simulation.reachableWithin h)

end Pman.SharedFutexMutex
