import Pman.Futex.PausableThread
import Pman.Futex.RateLimiter

set_option autoImplicit false

/-!
# How a condition wait ends

The caller of `FutexCondVar::wait` or `wait_for` holds the mutex and expects to hold it again when
the call exits. The destructor of a `FutexLockGuard` around the call releases the mutex, also when
an exception passes.

When the sleep of `wait_for` times out, `futex_wait_internal` throws and the mutex is not taken
again. The guard of `TokenBucketRateLimiter::acquire`, of `SlidingWindowRateLimiter::acquire` and of
`PausableThread::pause` then releases a mutex that another thread may hold.

## Main results

* `wait_ends_holding`: a wait ends with the mutex.
* `monitor_excludes`: exclusion around waits.
-/

namespace Pman.FutexCondVar

open TransitionSystem

variable {M : Monitor} {ι : Type*}

def Pc.exit : Pc M → Option Exit
  | .exited x _ => some x
  | _ => none

def Pc.inDestructor : Pc M → Bool
  | .guardUnlocking _ => true
  | _ => false

/-- The destructor of a guard of thread `t` is about to write the mutex's word. -/
def GuardReleases (s : State M ι) (t : ι) : Prop :=
  (s.pc t).inDestructor = true ∧ s.mutex.pc t = .unlockExchange
  deriving Decidable

/-- Every wait that exits does so by returning, its thread is then the one that holds the mutex,
and no guard releases a mutex that its thread does not hold. -/
def EndsHolding (s : State M ι) : Prop :=
  ∀ t, (∀ x, (s.pc t).exit = some x →
      (∃ b, x = .returned b) ∧ s.mutex.held t = true ∧ ∀ u, s.mutex.held u = true → u = t) ∧
    (GuardReleases s t → s.mutex.held t = true)

/-- **A condition wait ends with the mutex held**, for the functions of any monitor and direct
callers, any number of threads and any interleaving, in the runs in which no sleep ends with
`ETIMEDOUT`. -/
theorem wait_ends_holding (M : Monitor) [DecidableEq M.Cv] {ι : Type*} [DecidableEq ι] [Fintype ι]
    {s : State M ι} (h : (system M ι).ReachableWithin NoTimeout s) : EndsHolding s := by
  have hs := consistent_of_reachable h
  intro t
  have hfits := hs.fits t
  refine ⟨fun x hx => ?_, fun hrel => ?_⟩
  · cases hpc : s.pc t <;> simp only [hpc, Pc.exit, reduceCtorEq, Option.some.injEq] at hx
    subst hx
    rw [hpc] at hfits
    obtain ⟨_, hheld, hreturned⟩ := hfits
    exact ⟨hreturned, hheld, fun u hu => hs.exclusive.unique u t hu hheld⟩
  · rw [hrel.2] at hfits
    exact hfits.held_of_releasing

def start (M : Monitor) (data : M.Data) : State M (Fin 2) :=
  ⟨⟨.unlocked, fun _ => .idle, fun _ => false⟩, fun _ => 0, data, fun _ => .outside⟩

/-- Thread `0` calls a function of the monitor, takes the mutex and runs the code under the guard
with these inputs. -/
def enter (p : M.Outer) (input : M.Input) (inputs : List M.Input) :
    List (Fin 2 × Choice M (Fin 2)) :=
  [(0, .start p), (0, .run input), (0, .mutex .go)] ++ inputs.map fun i => (0, .run i)

/-- Thread `0` goes to sleep in a wait, and thread `1` takes the mutex. -/
def sleep : List (Fin 2 × Choice M (Fin 2)) :=
  [(0, .go), (0, .mutex .go), (0, .go), (1, .mutex .lock), (1, .mutex .go)]

/-- Thread `0` is at the exit of a wait, by an exception and without the mutex. -/
def ThrowsUnheld (s : State M (Fin 2)) : Prop :=
  (s.pc 0).exit = some (.threw .ETIMEDOUT) ∧ s.mutex.held 0 = false
  deriving Decidable

/-- A guard of thread `0` is about to release the mutex that thread `1` holds. -/
def ReleasesForeign (s : State M (Fin 2)) : Prop :=
  GuardReleases s 0 ∧ s.mutex.held 0 = false ∧ s.mutex.held 1 = true
  deriving Decidable

def emptyBucket : TokenBucketRateLimiter.Data := ⟨⟨1, 1, 0⟩, 0, 0⟩

def freshWindow : SlidingWindowRateLimiter.Data := ⟨⟨1, 10⟩, []⟩

lemma init_emptyBucket :
    (system TokenBucketRateLimiter.monitor (Fin 2)).init (start _ emptyBucket) := by
  have hone : ¬ (1 : ℚ) ≤ 0 := by decide
  exact ⟨emptyBucket, ⟨⟨1, 1, 0⟩, 0, by
    simp [TokenBucketRateLimiter.create, emptyBucket, hone]⟩, rfl⟩

lemma init_freshWindow :
    (system SlidingWindowRateLimiter.monitor (Fin 2)).init (start _ freshWindow) :=
  ⟨freshWindow, ⟨⟨1, 10⟩, rfl⟩, rfl⟩

lemma init_control :
    (system PausableThread.monitor (Fin 2)).init (start _ ({} : PausableThread.Control)) :=
  ⟨{}, rfl, rfl⟩

/-- Thread `0` waits for a token, is interrupted, has its turn when thread `1` has released the
mutex and finds the token there. -/
theorem wait_ends_holding_interrupted :
    (∃ s : State TokenBucketRateLimiter.monitor (Fin 2),
      (system _ _).ReachableWithin NoTimeout s ∧ (s.pc 0).exit = some (.returned false) ∧
        EndsHolding s) ∧
    ∃ s : State TokenBucketRateLimiter.monitor (Fin 2),
      (system _ _).ReachableWithin NoTimeout s ∧ GuardReleases s 0 ∧ EndsHolding s := by
  have hexit : (system TokenBucketRateLimiter.monitor (Fin 2)).ReachableWithin NoTimeout _ :=
    .final (start _ emptyBucket)
      (enter (.acquire 1 : TokenBucketRateLimiter.Outer) (0 : ℤ) [(0 : ℤ)] ++ sleep ++
        [(1, .mutex .unlock), (1, .mutex .go), (0, .result (.error .EINTR)), (0, .go),
          (0, .mutex .go), (0, .go)]) init_emptyBucket (by decide +kernel)
  have hrel : (system TokenBucketRateLimiter.monitor (Fin 2)).ReachableWithin NoTimeout _ :=
    .final (start _ emptyBucket)
      (enter (.acquire 1 : TokenBucketRateLimiter.Outer) (0 : ℤ) [(0 : ℤ)] ++ sleep ++
        [(1, .mutex .unlock), (1, .mutex .go), (0, .result (.error .EINTR)), (0, .go),
          (0, .mutex .go), (0, .go), (0, .go), (0, .run (1000000000 : ℤ))]) init_emptyBucket
      (by decide +kernel)
  exact ⟨⟨_, hexit, by decide +kernel, wait_ends_holding _ hexit⟩,
    ⟨_, hrel, by decide +kernel, wait_ends_holding _ hrel⟩⟩

/-- **The guards exclude**: in runs without timeouts the thread that runs the code under a guard
holds the mutex, also after a wait, no other thread holds it then, and the word says whether one
does. -/
theorem monitor_excludes [DecidableEq M.Cv] [DecidableEq ι] [Fintype ι] {s : State M ι}
    (h : (system M ι).ReachableWithin NoTimeout s) :
    (∀ t p, s.pc t = .inner p → s.mutex.held t = true) ∧
      (∀ t u, s.mutex.held t = true → s.mutex.held u = true → t = u) ∧
      (s.mutex.state_ = .unlocked ↔ ∀ t, s.mutex.held t = false) := by
  have hs := consistent_of_reachable h
  exact ⟨fun t p hpc => (hs.fits_of hpc).2, hs.exclusive.unique, hs.exclusive.word⟩

/-- Thread `1` has the mutex while thread `0` sleeps in `pause`. -/
theorem monitor_excludes_pause : ∃ s : State PausableThread.monitor (Fin 2),
    (system _ _).ReachableWithin NoTimeout s ∧ s.mutex.held 1 = true ∧
      ∀ u, s.mutex.held u = true → u = 1 := by
  have hs : (system PausableThread.monitor (Fin 2)).ReachableWithin NoTimeout _ :=
    .final (start _ ({} : PausableThread.Control))
      (enter (.pause : PausableThread.Outer) true [true, true, true, true] ++ sleep) init_control
      (by decide +kernel)
  exact ⟨_, hs, by decide +kernel,
    fun u hu => (monitor_excludes hs).2.1 u 1 hu (by decide +kernel)⟩

/-- **A timeout breaks all three**: `acquire` of both limiters and `pause` sleep, the sleep times
out while thread `1` holds the mutex, the wait exits by an exception without the mutex, and the
guard of thread `0` releases the mutex of thread `1`. After that two threads hold it. -/
theorem guard_releases_unheld :
    (∃ s : State TokenBucketRateLimiter.monitor (Fin 2),
      (system _ _).Reachable s ∧ ThrowsUnheld s) ∧
    (∃ s : State TokenBucketRateLimiter.monitor (Fin 2),
      (system _ _).Reachable s ∧ ReleasesForeign s) ∧
    (∃ s : State TokenBucketRateLimiter.monitor (Fin 2),
      (system _ _).Reachable s ∧ s.mutex.held 0 = true ∧ s.mutex.held 1 = true) ∧
    (∃ s : State SlidingWindowRateLimiter.monitor (Fin 2),
      (system _ _).Reachable s ∧ ReleasesForeign s) ∧
    ∃ s : State PausableThread.monitor (Fin 2), (system _ _).Reachable s ∧ ReleasesForeign s := by
  refine ⟨?_, ?_, ?_, ?_, ?_⟩
  · exact reached_by (start _ emptyBucket)
      (enter (.acquire 1 : TokenBucketRateLimiter.Outer) (0 : ℤ) [(0 : ℤ)] ++ sleep ++
        [(0, .result (.error .ETIMEDOUT)), (0, .go)]) init_emptyBucket (by decide +kernel)
  · exact reached_by (start _ emptyBucket)
      (enter (.acquire 1 : TokenBucketRateLimiter.Outer) (0 : ℤ) [(0 : ℤ)] ++ sleep ++
        [(0, .result (.error .ETIMEDOUT)), (0, .go), (0, .go)]) init_emptyBucket (by decide +kernel)
  · exact reached_by (start _ emptyBucket)
      (enter (.acquire 1 : TokenBucketRateLimiter.Outer) (0 : ℤ) [(0 : ℤ)] ++ sleep ++
        [(0, .result (.error .ETIMEDOUT)), (0, .go), (0, .go), (0, .mutex .go),
          (0, .mutex .lock), (0, .mutex .go)]) init_emptyBucket (by decide +kernel)
  · exact reached_by (start _ freshWindow)
      (enter (.tryAcquire : SlidingWindowRateLimiter.Outer) (0 : ℤ) [(0 : ℤ), (0 : ℤ)] ++
        [(0, .mutex .go)] ++
        enter (.acquire : SlidingWindowRateLimiter.Outer) (0 : ℤ) [(0 : ℤ), (0 : ℤ)] ++ sleep ++
        [(0, .result (.error .ETIMEDOUT)), (0, .go), (0, .go)]) init_freshWindow (by decide +kernel)
  · exact reached_by (start _ ({} : PausableThread.Control))
      (enter (.pause : PausableThread.Outer) true [true, true, true, true] ++ sleep ++
        [(0, .result (.error .ETIMEDOUT)), (0, .go), (0, .go)]) init_control (by decide +kernel)

end Pman.FutexCondVar
