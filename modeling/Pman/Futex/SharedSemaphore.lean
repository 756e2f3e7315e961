import Pman.Futex.Semaphore

set_option autoImplicit false

/-!
# `SharedFutexSemaphore`

The semaphore of `shared_sync.cpp` that processes share. It is `FutexSemaphore` with futexes that
are not private, except that `release` does not look at the count it adds to.

## Main results

* `shared_conserves_permits`: conservation, and no stuck sleeper.
-/

namespace Pman.SharedFutexSemaphore

open FutexSemaphore

section Machine

variable {ι : Type*} [DecidableEq ι] [Fintype ι]

def new {ι : Type*} (initial_count : Int32) : Except String (State ι) :=
  if initial_count.toInt < 0 then .error "SharedFutexSemaphore: initial count cannot be negative"
  else .ok ⟨initial_count, 0, fun _ => .idle, initial_count.toInt, 0, 0⟩

def step (s : State ι) : ι × Choice ι → Option (State ι)
  | (t, c) =>
    match s.pc t, c with
    | .idle, .release count =>
      some (s.goto t (if count.toInt ≤ 0
        then .exits (.threw "SharedFutexSemaphore::release: count must be positive")
        else .fetchAdd count))
    | .fetchAdd count, .go =>
      some { s.goto t (.loadWaiters count) with
        count_ := s.count_ + count
        released := s.released + count.toInt }
    | _, _ => FutexSemaphore.step s (t, c)

def system (ι : Type*) [DecidableEq ι] [Fintype ι] :
    TransitionSystem (State ι) (ι × Choice ι) where
  init s := ∃ initial_count, new initial_count = .ok s
  step := step

end Machine

variable {ι : Type*} {s s' : State ι}

lemma of_new {initial_count : Int32} (h : new initial_count = .ok s) :
    FutexSemaphore.new initial_count = .ok s := by
  unfold new at h
  split_ifs at h with hneg
  rw [FutexSemaphore.new, if_neg hneg, h]

variable [DecidableEq ι] [Fintype ι] {a : ι × Choice ι}

/-- While the count is not negative, only the calls of `release` differ, by the text of an
exception. -/
lemma step_cases (h : Balanced s) (hst : step s a = some s') :
    FutexSemaphore.step s a = some s' ∨
      ∃ p : Pc, s.pc a.1 = .idle ∧ s' = s.goto a.1 p ∧ p.Fits ∧ p.counted = 0 ∧ p.role = .out := by
  revert hst
  fun_cases step s a
  case case1 t count hpc =>
    rintro ⟨⟩
    refine .inr ⟨_, hpc, rfl, ?_⟩
    split_ifs with hcount
    · exact ⟨trivial, rfl, rfl⟩
    · exact ⟨not_le.mp hcount, rfl, rfl⟩
  case case2 t count hpc =>
    intro hst
    refine .inl ?_
    simp only [FutexSemaphore.step, hpc, if_neg (not_lt.mpr h.nonneg)]
    exact hst
  case case3 => exact .inl

/-- The shared semaphore is balanced in every run. -/
theorem balanced_of_reachable (h : (system ι).ReachableWithin TotalOk s) : Balanced s := by
  refine h.invariant ?_ fun s a s' hI hok hst => ?_
  · rintro s ⟨initial_count, hnew⟩
    exact FutexSemaphore.balanced_of_reachable (.init ⟨_, of_new hnew⟩)
  · rcases step_cases hI hst with hsame | ⟨p, hpc, rfl, hfits, hcounted, -⟩
    · exact hI.step hok hsame
    · exact hI.goto hpc hfits hcounted

/-- **The machine refines the pool of permits**, as that of `FutexSemaphore` does. -/
theorem simulation : Simulation (system ι) (fun s a => TotalOk s a ∧ Balanced s)
    (PermitPool.system ι) (fun _ _ => True) project where
  init := by
    rintro s ⟨initial_count, hnew⟩
    exact FutexSemaphore.simulation.init s ⟨_, of_new hnew⟩
  step s a s' h hst := by
    have hmoves : PermitPool.Moves (project s) (project s') := by
      rcases step_cases h.2 hst with hsame | ⟨p, hpc, rfl, -, -, hrole⟩
      · exact moves_of_step h.2 h.1 hsame
      · exact PermitPool.moves_stutter hpc hrole
    exact hmoves.imp_right fun ⟨b, hb⟩ => ⟨b, trivial, hb⟩

/-- **The shared semaphore conserves permits and leaves nobody stuck.** So the test it leaves out
of `release` would never find a negative count. -/
theorem shared_conserves_permits (h : (system ι).ReachableWithin TotalOk s) :
    0 ≤ s.count_.toInt ∧ s.count_.toInt + s.acquired = s.initial + s.released ∧ ¬ Stuck s := by
  have hbalanced := balanced_of_reachable h
  refine ⟨hbalanced.nonneg, hbalanced.conserved, ?_⟩
  rintro ⟨hpos, hall, t, ht⟩
  have hview := simulation.reachableWithin (h.and_of fun s => balanced_of_reachable)
  refine PermitPool.not_stuck_of_view hview ⟨by omega, fun u => ?_, t, role_eq_parked.mpr ht⟩
  rcases hall u with hu | hu
  · exact .inl (congrArg Pc.role hu)
  · exact .inr (role_eq_parked.mpr hu)

theorem shared_conserves_permits_handOver :
    ∃ s : State (Fin 2), (system (Fin 2)).ReachableWithin TotalOk s ∧
      s.acquired = 1 ∧ s.released = 1 ∧ s.count_.toInt + s.acquired = s.initial + s.released ∧
      ¬ Stuck s := by
  have hs : (system (Fin 2)).ReachableWithin TotalOk _ := .final ⟨0, 0, fun _ => .idle, 0, 0, 0⟩
      [(1, .acquire), (1, .go), (1, .go), (1, .go), (1, .go), (0, .release 1), (0, .go), (0, .go),
        (0, .wake {1}), (1, .go), (1, .go), (1, .go)] ⟨0, rfl⟩ (by decide +kernel)
  exact ⟨_, hs, by decide +kernel, by decide +kernel, (shared_conserves_permits hs).2⟩

end Pman.SharedFutexSemaphore
