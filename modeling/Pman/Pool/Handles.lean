import Pman.Pool.EnhancedThreadPool

set_option autoImplicit false

/-!
# When the handle of a task is complete

`TaskHandle::isComplete` reads a flag that the entry of the task shares with its handle. A worker
stores it after it has run a task, and after it has dropped one as cancelled. `cancelAll` takes
tasks out of the queue without storing it, and nobody stores it later.

## Main results

* `isComplete_iff`: when a handle reports completion.
-/

namespace Pman

namespace EnhancedThreadPool

/-- The worker is done with the task and is about to store `completed`. -/
def Worker.stores (id : ℕ) : Worker → Bool
  | .discard entry | .complete entry _ => entry.id == id
  | _ => false

def State.left (s : State) (id : ℕ) : ℕ := s.finished.count id + s.discarded.count id

def Spares (id : ℕ) (s : State) : Act → Prop
  | .cancelAll => ∀ entry ∈ s.queue_, entry.id ≠ id
  | _ => True

instance (id : ℕ) (s : State) (a : Act) : Decidable (Spares id s a) := by
  cases a <;> dsimp only [Spares] <;> infer_instance

variable {s s' : State} {i id : ℕ}

/-- **What a step of a worker does to the flag of a task**: the task leaves the pool and its flag is
still to be stored, or the flag is stored. -/
lemma flag_of_workerStep {throws : Bool} (hst : workerStep s i throws = some s') (id : ℕ) :
    ∃ k k', s.workers[i]? = some k ∧ s'.workers = s.workers.set i k' ∧
      (s'.left id + (k.stores id).toNat = s.left id + (k'.stores id).toNat ∧
          s'.completed id = s.completed id ∨
        s'.left id = s.left id ∧ k.stores id = true ∧ k'.stores id = false ∧
          s'.completed id = true) := by
  revert hst
  fun_cases workerStep s i throws <;> rintro ⟨⟩
  case case10 hk =>
    split_ifs
    · refine ⟨_, _, hk, rfl, .inl ⟨?_, rfl⟩⟩
      simp only [State.left, State.setWorker, Slots.count_concat, Worker.stores, Bool.toNat_false]
      omega
    · exact ⟨_, _, hk, rfl, .inl ⟨rfl, rfl⟩⟩
  case case14 hk =>
    refine ⟨_, _, hk, rfl, .inl ⟨?_, rfl⟩⟩
    simp only [State.left, State.setWorker, Slots.count_concat, Worker.stores, Bool.toNat_false]
    omega
  case case11 entry hk | case15 entry _ hk =>
    refine ⟨_, _, hk, rfl, ?_⟩
    by_cases hid : entry.id = id
    · exact .inr ⟨rfl, by simp [Worker.stores, hid], rfl, by simp [State.setWorker, hid]⟩
    · refine .inl ⟨?_, Function.update_of_ne (Ne.symm hid) _ _⟩
      simp [State.left, State.setWorker, Worker.stores, hid]
  case case17 success hk => cases success <;> exact ⟨_, _, hk, rfl, .inl ⟨rfl, rfl⟩⟩
  all_goals
    rename s.workers[i]? = some _ => hk
    try split_ifs
    all_goals exact ⟨_, _, hk, rfl, .inl ⟨rfl, rfl⟩⟩

lemma completed_of_submitStep {k : ℕ} (hst : submitStep s i k = some s') :
    s'.completed = s.completed := by
  revert hst
  fun_cases submitStep s i k <;> intro hst <;> try cases hst <;> rfl
  unfold State.notifyOne at hst
  split_ifs at hst <;> cases hst <;> rfl

/-- **A task has left the pool once for its flag, or once for the worker that is to store it.**

**Proof sketch.** Induction over the run. A worker that is to store the flag has the only exit of
the task, so the flag is not stored yet. -/
lemma left_eq (h : system.ReachableWithin (Spares id) s) :
    s.left id = (s.completed id).toNat + s.workers.countP (Worker.stores id) := by
  refine TransitionSystem.ReachableWithin.invariant_of
    (I := fun s => s.left id = (s.completed id).toNat + s.workers.countP (Worker.stores id))
    (fun s => counts_of_reachable) h ?_ ?_
  · rintro s ⟨workerCount, -, rfl⟩
    simp [new, State.left, List.countP_replicate, Worker.stores]
  · intro s a s' hcounts hI hok hst
    have hframe : s'.left id = s.left id → s'.completed id = s.completed id →
        s'.workers.countP (Worker.stores id) = s.workers.countP (Worker.stores id) →
        s'.left id = (s'.completed id).toNat + s'.workers.countP (Worker.stores id) := by
      intro hleft hcompleted hworkers
      rw [hleft, hcompleted, hworkers, hI]
    cases move_of_step hst with
    | @worker i _ _ throws =>
      obtain ⟨k, k', hk, hworkers, hflag⟩ := flag_of_workerStep hst id
      have hcount := Slots.countP_set (Worker.stores id) hk k'
      have hle := hcounts.pushed_le_one id
      have htasks := hcounts.tasks id
      rw [← hworkers] at hcount
      simp only [State.outside] at htasks
      rcases hflag with ⟨hleft, hcompleted⟩ | ⟨hleft, hstores, hstored, hcompleted⟩
      · rw [hcompleted]
        omega
      · rw [hstores, hstored, Bool.toNat_true, Bool.toNat_false] at hcount
        rw [hcompleted, Bool.toNat_true]
        simp only [State.left] at hI hleft ⊢
        omega
    | submit k ht =>
      refine hframe ?_ (congrFun (completed_of_submitStep hst) id) ?_
      · rw [State.left, ht.finished, ht.discarded, State.left]
      · rcases ht.workers with heq | ⟨j, hj, heq⟩
        · rw [heq]
        · rw [heq, countP_wakeOne _ rfl hj]
    | cancelAll =>
      refine hframe ?_ rfl rfl
      have hnone : (s.queue_.map TaskEntry.id).count id = 0 := by
        refine List.count_eq_zero.mpr fun hmem => ?_
        obtain ⟨entry, hentry, heq⟩ := List.mem_map.mp hmem
        exact hok entry hentry heq
      simp only [State.left, State.cancelAll, List.count_append, hnone, add_zero]
    | resize => exact hframe rfl rfl (by simp [Worker.stores])
    | spuriousWorker hk => exact hframe rfl rfl (countP_wakeOne _ rfl hk)
    | shutdownNotify => exact hframe rfl rfl (countP_wake _ rfl _)
    | submitWithPriority | flags | waitIdle | waiter | unpark | shutdown | join =>
      exact hframe rfl rfl rfl

/-- **The handle of a task that `cancelAll` spares resolves**: `isComplete` is true exactly when the
task was executed or dropped as cancelled and its worker is not just about to store the flag. -/
theorem isComplete_iff (h : system.ReachableWithin (Spares id) s) :
    s.completed id = true ↔
      (id ∈ s.finished ∨ id ∈ s.discarded) ∧ ∀ k ∈ s.workers, k.stores id = false := by
  have hcounts := counts_of_reachable h
  have hle := hcounts.pushed_le_one id
  have htasks := hcounts.tasks id
  have hleft := left_eq h
  have hmem : id ∈ s.finished ∨ id ∈ s.discarded ↔ 0 < s.left id := by
    rw [← List.count_pos_iff, ← List.count_pos_iff, State.left]
    omega
  have hnone : (∀ k ∈ s.workers, k.stores id = false) ↔
      s.workers.countP (Worker.stores id) = 0 := by
    simp [List.countP_eq_zero]
  rw [hmem, hnone]
  simp only [State.outside, State.left] at htasks hleft ⊢
  cases hc : s.completed id <;> simp only [hc, Bool.toNat_true, Bool.toNat_false] at hleft
  · simp only [Bool.false_eq_true, false_iff]
    omega
  · simp only [true_iff]
    omega

/-- A task that is run, before a `cancelAll` that finds the queue empty. -/
theorem isComplete_iff_run : ∃ s, system.ReachableWithin (Spares 1) s ∧ s.finished = [1] ∧
    s.completed 1 = true ∧ ∀ k ∈ s.workers, k.stores 1 = false := by
  have hs : system.ReachableWithin (Spares 1) _ :=
    .final (new 1) (.submitWithPriority 0 :: List.replicate 4 (.submit 0 0) ++
      List.replicate 7 (.worker 0 false) ++ [.cancelAll]) ⟨1, by decide, rfl⟩ (by decide)
  exact ⟨_, hs, rfl, rfl, ((isComplete_iff hs).mp rfl).2⟩

/-- **A handle that does not resolve**: `cancelAll` has removed the task, nobody is about to store
its flag, and the flag is not stored. -/
theorem isComplete_missed : ∃ s, system.Reachable s ∧ 1 ∈ s.discarded ∧
    (∀ k ∈ s.workers, k.stores 1 = false) ∧ s.completed 1 = false :=
  TransitionSystem.reached_by (new 1)
    (.submitWithPriority 0 :: List.replicate 4 (.submit 0 0) ++ [.cancelAll])
    ⟨1, by decide, rfl⟩ (by decide)

end EnhancedThreadPool

end Pman
