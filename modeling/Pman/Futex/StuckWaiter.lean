import Mathlib.Data.Fintype.Pi
import Pman.Futex.RecursiveMutex
import Pman.Futex.SharedMutex

set_option autoImplicit false

/-!
# Stuck waiters of the three futex mutexes

`FutexMutex`, `FutexRecursiveMutex` and `SharedFutexMutex` repeat one algorithm and with it one
defect. A thread that returns from the futex wait starts to spin again and, if it finds the word
unlocked, takes the lock with `Locked`. The word then no longer says that other threads are
parked, and the next `unlock` wakes nobody.

## Main results

* `mutexes_not_stuck`: the three mutexes under their conditions.
-/

namespace Pman

/-- **No stuck waiter.** For any finite set of threads and any interleaving in which the
compare-and-exchange of the spin loop never takes the lock while a thread is parked and no other
thread is awake in the slow path or about to issue a wake-up, no state reached has an unlocked
word, every thread outside the operations or parked, and some thread parked; for each of the
three mutexes. -/
theorem mutexes_not_stuck (ι : Type*) [DecidableEq ι] [Fintype ι] :
    (∀ s : FutexMutex.State ι,
      (FutexMutex.system ι).ReachableWithin FutexMutex.SpinOk s → ¬ FutexMutex.Stuck s) ∧
    (∀ s : FutexRecursiveMutex.State ι,
      (FutexRecursiveMutex.system ι).ReachableWithin FutexRecursiveMutex.SpinOk s →
        ¬ FutexRecursiveMutex.Stuck s) ∧
    (∀ s : SharedFutexMutex.State ι,
      (SharedFutexMutex.system ι).ReachableWithin SharedFutexMutex.SpinOk s →
        ¬ SharedFutexMutex.Stuck s) :=
  ⟨fun _ h => FutexMutex.not_stuck h, fun _ h => FutexRecursiveMutex.not_stuck h,
    fun _ h => SharedFutexMutex.not_stuck h⟩

def accesses (t : Fin 3) (n : ℕ) : List (Fin 3 × MutexChoice (Fin 3)) := List.replicate n (t, .go)

/-- Thread `t` calls `lock`, fails its first attempt with the `n`-th access and parks. -/
def parks (t : Fin 3) (n : ℕ) : List (Fin 3 × MutexChoice (Fin 3)) :=
  (t, .lock) :: accesses t n ++ (t, .giveUp) :: accesses t 2

/-- Threads `1` and `2` park behind thread `0`. Its `unlock` wakes thread `1`, which takes the
lock in the spin loop and releases it. The numbers are the accesses of a successful `lock`, of a
failing first attempt, of `unlock` up to its exchange, and of the spin loop up to `Locked`. -/
def strand (lock attempt unlock spin : ℕ) : List (Fin 3 × MutexChoice (Fin 3)) :=
  (0, .lock) :: accesses 0 lock ++ parks 1 attempt ++ parks 2 attempt ++
    (0, .unlock) :: accesses 0 unlock ++ (0, .wake (some 1)) :: accesses 1 spin ++
    (1, .unlock) :: accesses 1 unlock

/-- Each of the three mutexes can strand a waiter: thread `2` is parked, the word is unlocked
and nobody is left to wake it. -/
theorem mutexes_can_get_stuck :
    (∃ s : FutexMutex.State (Fin 3),
      (FutexMutex.system (Fin 3)).Reachable s ∧ FutexMutex.Stuck s) ∧
    (∃ s : FutexRecursiveMutex.State (Fin 3),
      (FutexRecursiveMutex.system (Fin 3)).Reachable s ∧ FutexRecursiveMutex.Stuck s) ∧
    (∃ s : SharedFutexMutex.State (Fin 3),
      (SharedFutexMutex.system (Fin 3)).Reachable s ∧ SharedFutexMutex.Stuck s) := by
  refine ⟨?_, ?_, ?_⟩
  · exact TransitionSystem.reached_by ⟨.unlocked, fun _ => .idle, fun _ => false⟩
      (strand 1 1 1 2) rfl (by decide)
  · exact TransitionSystem.reached_by ⟨none, 0, .unlocked, fun _ => .idle, fun _ => 0⟩
      (strand 3 2 3 3) rfl (by decide)
  · exact TransitionSystem.reached_by ⟨.unlocked, none, false, false, fun _ => .idle⟩
      (strand 1 1 1 2) ⟨rfl, rfl, rfl⟩ (by decide)

/-- Thread `1` parks behind thread `0`. While the wake-up of `unlock` is pending, thread `2`
takes the lock in the spin loop; the woken thread `1` marks the word again and parks. -/
def handOver (lock attempt unlock spin : ℕ) : List (Fin 3 × MutexChoice (Fin 3)) :=
  (0, .lock) :: accesses 0 lock ++ parks 1 attempt ++ (2, .lock) :: accesses 2 attempt ++
    (0, .unlock) :: accesses 0 unlock ++ accesses 2 spin ++
    (0, .wake (some 1)) :: (1, .giveUp) :: accesses 1 2

/-- The condition of `mutexes_not_stuck` is met by runs in which a spinning thread takes the lock
past a parked one. -/
theorem mutexes_not_stuck_handOver :
    (∃ s : FutexMutex.State (Fin 3),
      (FutexMutex.system (Fin 3)).ReachableWithin FutexMutex.SpinOk s ∧
        s.pc 1 = .parked ∧ ¬ FutexMutex.Stuck s) ∧
    (∃ s : FutexRecursiveMutex.State (Fin 3),
      (FutexRecursiveMutex.system (Fin 3)).ReachableWithin FutexRecursiveMutex.SpinOk s ∧
        s.pc 1 = .parked ∧ ¬ FutexRecursiveMutex.Stuck s) ∧
    (∃ s : SharedFutexMutex.State (Fin 3),
      (SharedFutexMutex.system (Fin 3)).ReachableWithin SharedFutexMutex.SpinOk s ∧
        s.pc 1 = .parked ∧ ¬ SharedFutexMutex.Stuck s) := by
  obtain ⟨ht₁, ht₂, ht₃⟩ := mutexes_not_stuck (Fin 3)
  have h₁ : (FutexMutex.system (Fin 3)).ReachableWithin FutexMutex.SpinOk _ :=
    .final ⟨.unlocked, fun _ => .idle, fun _ => false⟩ (handOver 1 1 1 2) (by rfl) (by decide)
  have h₂ : (FutexRecursiveMutex.system (Fin 3)).ReachableWithin FutexRecursiveMutex.SpinOk _ :=
    .final ⟨none, 0, .unlocked, fun _ => .idle, fun _ => 0⟩ (handOver 3 2 3 3) (by rfl)
      (by decide)
  have h₃ : (SharedFutexMutex.system (Fin 3)).ReachableWithin SharedFutexMutex.SpinOk _ :=
    .final ⟨.unlocked, none, false, false, fun _ => .idle⟩ (handOver 1 1 1 2) ⟨rfl, rfl, rfl⟩
      (by decide)
  exact ⟨⟨_, h₁, rfl, ht₁ _ h₁⟩, ⟨_, h₂, rfl, ht₂ _ h₂⟩, ⟨_, h₃, rfl, ht₃ _ h₃⟩⟩

end Pman
