import Mathlib.Algebra.Group.Nat.Even
import Pman.Futex.Mutex

set_option autoImplicit false

/-!
# `FutexRecursiveMutex`

The recursive mutex of `recursive_mutex.cpp`: the algorithm of `FutexMutex` on `futex_state_`,
with the owner's thread id in `owner_` and its nesting depth in `recursion_count_`. The count is
not atomic; it is read and written in the step of the neighbouring access to `owner_`.

## Main results

* `simulation`: the machine refines the sleeping lock.
* `not_stuck`: no stuck waiter under `SpinOk`.
-/

namespace Pman.FutexRecursiveMutex

open ContendedLock Function

/-- The program points of a thread, named after the access it performs next. -/
inductive Pc
  | idle
  | lockOwner
  | lockCas
  | spinLoad
  /-- `lock`: the weak compare-and-exchange of the spin loop. -/
  | spinCas
  | exchange
  | futexWait
  | parked
  /-- `lock` and `try_lock`: the store of `owner_` after the word was taken. -/
  | storeOwner
  | tryOwner
  | tryCas
  | unlockOwner
  | clearOwner
  | unlockExchange
  | futexWake
  deriving DecidableEq, Repr

structure State (ι : Type*) where
  /-- The owning thread; `none` is the thread id `0`. -/
  owner_ : Option ι
  /-- The owner's nesting depth, an `unsigned int`. -/
  recursion_count_ : ℕ
  futex_state_ : LockWord
  pc : ι → Pc
  /-- How many more successes of `lock` and `try_lock` than of `unlock` the thread has had (a
  history variable: the code does not record it). -/
  depth : ι → ℕ

section Machine

variable {ι : Type*} [DecidableEq ι]

def State.goto (s : State ι) (t : ι) (p : Pc) : State ι :=
  { s with pc := update s.pc t p }

/-- Thread `t` owns the mutex already: `lock` or `try_lock` counts one level more. -/
def State.reenter (s : State ι) (t : ι) : State ι :=
  { s with
    recursion_count_ := (s.recursion_count_ + 1) % 2 ^ 32
    pc := update s.pc t .idle
    depth := update s.depth t (s.depth t + 1) }

/-- Where `lock` goes on after an answer of the futex wait. -/
def afterWait (r : WaitResult) : Pc :=
  match Pman.futexWait r with
  | .returns => .spinLoad
  | .retries => .futexWait
  | .throws _ => .idle

/-- `unlock` by the owner: one level less, and the release goes on if that was the last. -/
def State.leave (s : State ι) (t : ι) : State ι :=
  let count := (s.recursion_count_ + (2 ^ 32 - 1)) % 2 ^ 32
  { s with
    recursion_count_ := count
    pc := update s.pc t (if 0 < count then .idle else .clearOwner)
    depth := update s.depth t (s.depth t - 1) }

/-- The test of `unlock` before it changes anything. -/
def checkOwner (s : State ι) (t : ι) : Except String Unit :=
  if s.owner_ = some t then .ok () else .error "FutexRecursiveMutex::unlock: not owner"

/-- `unlock` at its test: the owner leaves one level, any other caller leaves with the exception. -/
def State.unlock (s : State ι) (t : ι) : State ι :=
  match checkOwner s t with
  | .ok () => s.leave t
  | .error _ => s.goto t .idle

lemma State.unlock_eq (s : State ι) (t : ι) :
    s.unlock t = if s.owner_ = some t then s.leave t else s.goto t .idle := by
  by_cases howner : s.owner_ = some t <;> simp [State.unlock, checkOwner, howner]

variable [Fintype ι]

def step (s : State ι) : ι × MutexChoice ι → Option (State ι)
  | (t, c) =>
    match s.pc t, c with
    | .idle, .lock => some (s.goto t .lockOwner)
    | .idle, .tryLock => some (s.goto t .tryOwner)
    | .idle, .unlock => some (s.goto t .unlockOwner)
    | .lockOwner, .go =>
      some (if s.owner_ = some t then s.reenter t else s.goto t .lockCas)
    | .lockCas, .go =>
      some (if s.futex_state_ = .unlocked
        then { s.goto t .storeOwner with futex_state_ := .locked } else s.goto t .spinLoad)
    | .spinLoad, .go =>
      some (s.goto t (if s.futex_state_ = .unlocked then .spinCas else .spinLoad))
    | .spinLoad, .giveUp => some (s.goto t .exchange)
    | .spinCas, .go =>
      some (if s.futex_state_ = .unlocked
        then { s.goto t .storeOwner with futex_state_ := .locked } else s.goto t .spinLoad)
    | .spinCas, .failWeak => some (s.goto t .spinLoad)
    | .exchange, .go =>
      some { s.goto t (if s.futex_state_ = .unlocked then .storeOwner else .futexWait) with
        futex_state_ := .contended }
    | .futexWait, .go =>
      some (s.goto t
        (if s.futex_state_ = .contended then .parked else afterWait (.error .EAGAIN)))
    | .parked, .result r =>
      if r.possible false then some (s.goto t (afterWait r)) else none
    | .storeOwner, .go =>
      some { s.goto t .idle with
        owner_ := some t
        recursion_count_ := 1
        depth := update s.depth t (s.depth t + 1) }
    | .tryOwner, .go =>
      some (if s.owner_ = some t then s.reenter t else s.goto t .tryCas)
    | .tryCas, .go =>
      some (if s.futex_state_ = .unlocked
        then { s.goto t .storeOwner with futex_state_ := .locked } else s.goto t .idle)
    | .unlockOwner, .go => some (s.unlock t)
    | .clearOwner, .go => some { s.goto t .unlockExchange with owner_ := none }
    | .unlockExchange, .go =>
      some { s.goto t (if s.futex_state_ = .contended then .futexWake else .idle) with
        futex_state_ := .unlocked }
    | .futexWake, .wake none =>
      if ∀ u, s.pc u ≠ .parked then some (s.goto t .idle) else none
    | .futexWake, .wake (some u) =>
      if s.pc u = .parked then some ((s.goto t .idle).goto u (afterWait .woken)) else none
    | _, _ => none

/-- The machine, started with a fresh mutex and every thread outside. -/
def system (ι : Type*) [DecidableEq ι] [Fintype ι] :
    TransitionSystem (State ι) (ι × MutexChoice ι) where
  init s := s = ⟨none, 0, .unlocked, fun _ => .idle, fun _ => 0⟩
  step := step

end Machine

variable {ι : Type*}

/-- A thread is in the slow path of `lock` and awake, or about to issue the wake-up of
`unlock`. -/
def Pc.awake : Pc → Bool
  | .spinLoad | .spinCas | .exchange | .futexWait | .futexWake => true
  | _ => false

/-- **A stuck waiter**: the mutex is unlocked, every thread is outside the operations or parked,
and some thread is parked. -/
def Stuck (s : State ι) : Prop :=
  s.futex_state_ = .unlocked ∧ (∀ t, s.pc t = .idle ∨ s.pc t = .parked) ∧ ∃ t, s.pc t = .parked

/-- The condition on a compare-and-exchange of the spin loop that does not fail spuriously: it does
not take the lock while a thread is parked, unless another thread is awake in the slow path or about
to issue a wake-up. -/
def SpinOk (s : State ι) (a : ι × MutexChoice ι) : Prop :=
  a.2 = .go → s.pc a.1 = .spinCas → s.futex_state_ = .unlocked → (∃ u, s.pc u = .parked) →
    ∃ u, u ≠ a.1 ∧ (s.pc u).awake = true

instance [Fintype ι] (s : State ι) : Decidable (Stuck s) :=
  inferInstanceAs (Decidable (_ ∧ _ ∧ _))

instance [Fintype ι] [DecidableEq ι] (s : State ι) (a : ι × MutexChoice ι) :
    Decidable (SpinOk s a) :=
  inferInstanceAs (Decidable (_ → _ → _ → _ → _))

def Pc.role : Pc → ContendedLock.Role
  | .spinLoad | .spinCas | .exchange | .futexWait => .slow
  | .parked => .parked
  | .futexWake => .waking
  | _ => .out

def project (s : State ι) : ContendedLock.State ι :=
  ContendedLock.view Pc.role s.futex_state_ s.pc

@[simp] lemma role_eq_parked {p : Pc} : p.role = .parked ↔ p = .parked := by
  cases p <;> simp [Pc.role]

lemma awake_iff_role {p : Pc} : p.awake = true ↔ p.role = .slow ∨ p.role = .waking := by
  cases p <;> simp [Pc.role, Pc.awake]

lemma role_afterWait {r : WaitResult} (h : r.possible false = true) :
    (afterWait r).role = .slow := by
  cases r with
  | woken => rfl
  | error e => cases e <;> first | rfl | simp [WaitResult.possible] at h

variable [DecidableEq ι] [Fintype ι]

open ContendedLock (Moves) in
/-- Every step under `SpinOk` is a step of the protocol or a stutter.

**Proof sketch.** As for `FutexMutex`; the accesses to `owner_` and `recursion_count_` are
stutters outside the slow path. -/
lemma moves_of_step {s s' : State ι} {a : ι × MutexChoice ι} (hok : SpinOk s a)
    (hst : step s a = some s') : Moves (project s) (project s') := by
  revert hst
  fun_cases step s a <;> rintro ⟨⟩
  -- the calls, and the accesses to `owner_` outside the slow path
  case case1 hpc | case2 hpc | case3 hpc | case14 hpc | case18 hpc | case7 hpc | case9 hpc =>
    exact moves_stutter hpc rfl
  case case4 hpc | case15 hpc | case6 hpc => split_ifs <;> exact moves_stutter hpc rfl
  case case17 hpc =>
    rw [State.unlock_eq]
    cases s
    split_ifs
    · refine moves_stutter hpc ?_
      split_ifs <;> rfl
    · exact moves_stutter hpc rfl
  -- `lock`: the first compare-and-exchange
  case case5 hpc =>
    split_ifs with hw
    · exact moves_grab_out hpc hw rfl rfl
    · exact moves_enter hpc rfl rfl
  -- `lock`: the spin loop
  case case8 hpc =>
    split_ifs with hw
    · refine moves_grab_slow hpc hw rfl rfl fun hparked => ?_
      obtain ⟨u, hu⟩ := hparked
      obtain ⟨v, hne, hv⟩ := hok rfl hpc hw ⟨u, role_eq_parked.mp hu⟩
      exact ⟨v, hne, awake_iff_role.mp hv⟩
    · exact moves_stutter hpc rfl
  -- `lock`: the exchange with `kContended`
  case case10 hpc =>
    split_ifs with hw
    · exact moves_mark_unlocked hpc hw rfl rfl
    · exact moves_mark_taken hpc hw rfl rfl
  -- `lock`: the futex wait
  case case11 hpc =>
    split_ifs with hw
    · exact moves_park hpc hw rfl rfl
    · exact moves_stutter hpc rfl
  case case12 r hpc hr => exact moves_unpark hpc rfl (role_afterWait hr)
  -- `try_lock`
  case case16 hpc =>
    split_ifs with hw
    · exact moves_grab_out hpc hw rfl rfl
    · exact moves_stutter hpc rfl
  -- `unlock`
  case case19 hpc =>
    split_ifs with hw
    · exact moves_free_contended hpc hw rfl rfl
    · exact moves_free_quiet hpc hw rfl rfl
  case case20 hpc hnone =>
    exact moves_wakeOne_none hpc rfl rfl fun u hu => hnone u (role_eq_parked.mp hu)
  case case22 u hpc hu => exact moves_wakeOne_some hpc rfl rfl (role_eq_parked.mpr hu) rfl

/-- **The machine refines the three-word sleeping lock** along every run under `SpinOk`. -/
theorem simulation : Simulation (system ι) SpinOk (ContendedLock.system ι)
    ContendedLock.GrabOk project where
  init := by
    rintro s rfl
    rfl
  step _ _ _ hok hst := moves_of_step hok hst

/-- **No stuck waiter in runs under `SpinOk`**, as for `FutexMutex`. -/
theorem not_stuck {s : State ι} (h : (system ι).ReachableWithin SpinOk s) : ¬ Stuck s :=
  not_stuck_of_view rfl rfl (simulation.reachableWithin h)

end Pman.FutexRecursiveMutex
