import Pman.Pool.EnhancedThreadPool

set_option autoImplicit false

/-!
# What `waitIdle` waits for

`waitIdle` returns when the queue is empty and `activeWorkers_` is `0`. A worker pops its task under
`mutex_` and increments `activeWorkers_` only after it has released the mutex and looked at the flag
of the task. In between the predicate is true although the task is still to start.

As long as no evaluation of the predicate falls into this window, a `waitIdle` that has returned saw
the end of every task submitted before it.

## Main results

* `waitIdle_sound`: `waitIdle` waits for the tasks submitted before it.
-/

namespace Pman

open List

namespace EnhancedThreadPool

/-- The worker has popped a task and has not counted itself in `activeWorkers_`. -/
def Worker.unannounced : Worker → Bool
  | .taken _ | .enter _ => true
  | _ => false

def State.evaluates (s : State) (i : ℕ) : Bool :=
  match s.waiters[i]? with
  | none => false
  | some w => w.pc == .test || w.pc == .lastTest

/-- When a `waitIdle` finds the pool idle, no worker is between its pop and its increment of
`activeWorkers_`. -/
def Announced (s : State) : Act → Prop
  | .waiter i => s.evaluates i = true → s.idle = true → ∀ k ∈ s.workers, k.unannounced = false
  | _ => True

instance (s : State) : ∀ a : Act, Decidable (Announced s a)
  | .resize | .worker .. | .spuriousWorker _ | .submitWithPriority _ | .submit .. | .cancelAll
  | .cancel _ | .cancelStore _ | .waitIdle _ | .waiter _ | .spuriousWaiter _ | .timeout _
  | .shutdown | .shutdownNotify | .join => by dsimp only [Announced]; infer_instance

def State.Settled (s : State) (id : ℕ) : Prop := id ∈ s.finished ∨ id ∈ s.discarded

def State.Pushed (s : State) (id : ℕ) : Prop := ∃ c ∈ s.submits, c.pushed id = true

namespace Counts

variable {s : State} {id : ℕ}

lemma settled_of_idle (h : Counts s) (hidle : s.idle = true)
    (hann : ∀ k ∈ s.workers, k.unannounced = false) (hid : s.Pushed id) : s.Settled id := by
  obtain ⟨hqueue, hactive⟩ : s.queue_ = [] ∧ s.activeWorkers_ = 0 := by
    simpa [State.idle] using hidle
  have hnone : s.workers.countP (Worker.holds id) = 0 := by
    refine countP_eq_zero.mpr fun k hk hholds => ?_
    cases k with
    | taken entry | enter entry => cases hann _ hk
    | running entry =>
      -- A worker that runs its task is counted.
      have hcount := h.active
      rw [hactive, eq_comm, countP_eq_zero] at hcount
      exact hcount _ hk rfl
    | _ => cases hholds
  have hpos : 0 < s.submits.countP (Submit.pushed id) := countP_pos_iff.mpr hid
  have htasks := h.tasks id
  rw [hnone, State.outside, hqueue, countP_nil] at htasks
  rcases Nat.eq_zero_or_pos (s.finished.count id) with hzero | hfin
  · exact .inr (count_pos_iff.mp (by omega))
  · exact .inl (count_pos_iff.mp hfin)

lemma nowhere_of_settled (h : Counts s) (hid : s.Settled id) :
    (∀ entry ∈ s.queue_, entry.id ≠ id) ∧ ∀ k ∈ s.workers, k.holds id = false := by
  have htasks := h.tasks id
  have hle := h.pushed_le_one id
  have hpos : 0 < s.finished.count id + s.discarded.count id := by
    rcases hid with hid | hid
    · exact Nat.add_pos_left (count_pos_iff.mpr hid) _
    · exact Nat.add_pos_right _ (count_pos_iff.mpr hid)
  rw [State.outside] at htasks
  refine ⟨fun entry hentry heq => ?_, fun k hk => ?_⟩
  · have : 0 < s.queue_.countP fun entry => entry.id == id :=
      countP_pos_iff.mpr ⟨entry, hentry, by simpa using heq⟩
    omega
  · by_contra hholds
    have : 0 < s.workers.countP (Worker.holds id) :=
      countP_pos_iff.mpr ⟨k, hk, by simpa using hholds⟩
    omega

end Counts

structure Grows (s s' : State) : Prop where
  settled : ∀ id, s.Settled id → s'.Settled id
  pushed : ∀ id, s.Pushed id → s'.Pushed id

variable {s s' : State}

lemma Grows.of_eq (hfin : s'.finished = s.finished) (hdis : s'.discarded = s.discarded)
    (hsub : s'.submits = s.submits) : Grows s s' := by
  refine ⟨fun id h => ?_, fun id h => ?_⟩
  · rw [State.Settled, hfin, hdis]
    exact h
  · rw [State.Pushed, hsub]
    exact h

lemma Move.grows {a : Act} (hm : Move s a s') : Grows s s' := by
  cases hm with
  | worker throws ht =>
    refine ⟨fun id => Or.imp (fun h => ht.finished h) (fun h => ht.discarded h), fun id h => ?_⟩
    rw [State.Pushed, ht.submits]
    exact h
  | submitWithPriority priority =>
    exact ⟨fun _ h => h, fun id ⟨c, hc, hpushed⟩ => ⟨c, mem_append_left _ hc, hpushed⟩⟩
  | submit k ht =>
    refine ⟨fun id h => ?_, fun id h => ?_⟩
    · rw [State.Settled, ht.finished, ht.discarded]
      exact h
    · rw [State.Pushed, ht.submits]
      exact Slots.exists_mem_set ht.found (ht.pushed id) h
  | cancelAll => exact ⟨fun id => Or.imp_right (mem_append_left _), fun _ h => h⟩
  | resize | spuriousWorker | flags | waitIdle | waiter | unpark | shutdown | shutdownNotify
  | join => exact .of_eq rfl rfl rfl

lemma Move.waiters {a : Act} (hm : Move s a s') {w' : Waiter} (hw' : w' ∈ s'.waiters) :
    (∃ w ∈ s.waiters, w'.before = w.before ∧ (w'.pc = .returned true → w.pc = .returned true ∨
      s.idle = true ∧ ∃ i, a = .waiter i ∧ s.evaluates i = true)) ∨
    w'.before = s.returnedIds ∧ w'.pc ≠ .returned true := by
  cases hm with
  | worker throws ht =>
    rename_i i k k'
    by_cases hk : k = .notify
    · rw [ht.woken hk] at hw'
      obtain ⟨w, hw, rfl⟩ := mem_map.mp hw'
      refine .inl ⟨w, hw, ?_, fun hret => .inl ?_⟩
      · unfold Waiter.wake
        split_ifs <;> rfl
      · unfold Waiter.wake at hret
        split_ifs at hret
        exact hret
    · rw [ht.waiters hk] at hw'
      exact .inl ⟨w', hw', rfl, .inl⟩
  | submit k ht =>
    rw [ht.waiters] at hw'
    exact .inl ⟨w', hw', rfl, .inl⟩
  | waitIdle timed =>
    rcases mem_concat.mp hw' with hw' | rfl
    · exact .inl ⟨w', hw', rfl, .inl⟩
    · exact .inr ⟨rfl, nofun⟩
  | waiter mutex ht =>
    rename_i i w pc
    rcases mem_or_eq_of_mem_set hw' with hw' | rfl
    · exact .inl ⟨w', hw', rfl, .inl⟩
    · refine .inl ⟨w, mem_of_getElem? ht.found, rfl, fun hret => .inr ?_⟩
      obtain ⟨hidle, hpc⟩ := ht.returned hret
      refine ⟨hidle, i, rfl, ?_⟩
      rw [State.evaluates, ht.found]
      rcases hpc with hpc | hpc <;> simp [hpc]
  | unpark a hw hpc =>
    rename_i i w pc
    rcases mem_or_eq_of_mem_set hw' with hw' | rfl
    · exact .inl ⟨w', hw', rfl, .inl⟩
    · refine .inl ⟨w, mem_of_getElem? hw, rfl, fun hret => ?_⟩
      rcases hpc with rfl | rfl <;> cases hret
  | resize | spuriousWorker | submitWithPriority | cancelAll | flags | shutdown | shutdownNotify
  | join => exact .inl ⟨w', hw', rfl, .inl⟩

/-- A call knows only tasks that were submitted, and when it has returned they are settled. -/
structure Waited (s : State) (w : Waiter) : Prop where
  known : ∀ id ∈ w.before, s.Pushed id
  settled : w.pc = .returned true → ∀ id ∈ w.before, s.Settled id

lemma pushed_of_returned {id : ℕ} (hid : id ∈ s.returnedIds) : s.Pushed id := by
  obtain ⟨c, hc, rfl⟩ := mem_map.mp hid
  obtain ⟨hc, hpc⟩ := mem_filter.mp hc
  refine ⟨c, hc, ?_⟩
  have hpc : c.pc = .returned := by simpa using hpc
  simp [Submit.pushed, hpc, SubmitPc.pushed]

/-- Every call in every run has waited for its tasks.

**Proof sketch.** What is settled stays settled, so only the evaluation from which a call returns
has to be looked at. The queue is empty then, no worker runs a task and none is about to, so the
tasks of the call can be nowhere but among those that were executed or dropped. -/
lemma waited_of_reachable (h : system.ReachableWithin Announced s) :
    ∀ w ∈ s.waiters, Waited s w := by
  refine TransitionSystem.ReachableWithin.invariant_of
    (I := fun s : State => ∀ w ∈ s.waiters, Waited s w) (J := Counts)
    (fun s hr => counts_of_reachable hr) h ?_ ?_
  · rintro s ⟨workerCount, -, rfl⟩ w hw
    cases hw
  · intro s a s' hcounts hwaited hok hst w' hw'
    have hm := move_of_step hst
    have hgrows := hm.grows
    rcases hm.waiters hw' with ⟨w, hw, hbefore, hret⟩ | ⟨hbefore, hpc⟩
    · refine ⟨fun id hid => ?_, fun hpc id hid => ?_⟩
      · rw [hbefore] at hid
        exact hgrows.pushed id ((hwaited w hw).known id hid)
      · rw [hbefore] at hid
        refine hgrows.settled id ?_
        rcases hret hpc with hpc | ⟨hidle, i, rfl, heval⟩
        · exact (hwaited w hw).settled hpc id hid
        · exact hcounts.settled_of_idle hidle (hok heval hidle) ((hwaited w hw).known id hid)
    · refine ⟨fun id hid => ?_, fun hret => absurd hret hpc⟩
      rw [hbefore] at hid
      exact hgrows.pushed id (pushed_of_returned hid)

/-- **`waitIdle` waits for the tasks submitted before it**: with any number of workers, submits and
cancellations, as long as the predicate does not come out true in the window of a worker, once
`waitIdle` has returned (or `waitIdleFor` has returned `true`) every task whose `submit` had
returned before it was called was executed or dropped as cancelled, and is neither queued nor held
by a worker that has yet to start it or is running it. -/
theorem waitIdle_sound {s : State} (h : system.ReachableWithin Announced s) {w : Waiter}
    (hw : w ∈ s.waiters) (hret : w.pc = .returned true) {id : ℕ} (hid : id ∈ w.before) :
    (id ∈ s.finished ∨ id ∈ s.discarded) ∧ (∀ entry ∈ s.queue_, entry.id ≠ id) ∧
      ∀ k ∈ s.workers, k.holds id = false := by
  have hsettled := (waited_of_reachable h w hw).settled hret id hid
  exact ⟨hsettled, (counts_of_reachable h).nowhere_of_settled hsettled⟩

/-- A run with two tasks: one is executed, one is cancelled; a `waitIdle` parks while the first one
runs and a `waitIdleFor` comes in the end. -/
def idleRun : List Act :=
  [.submitWithPriority 0, .submit 0 0, .submit 0 0, .submit 0 0, .submit 0 0,
   .submitWithPriority 5, .submit 1 0, .submit 1 0, .submit 1 0, .submit 1 0,
   .cancel 2, .cancelStore 0,
   -- The worker runs the first task, and the caller finds the pool busy.
   .worker 0 false, .worker 0 false, .worker 0 false, .worker 0 false, .worker 0 false,
   .waitIdle false, .waiter 0, .waiter 0, .waiter 0,
   .worker 0 true, .worker 0 false, .worker 0 false, .worker 0 false, .worker 0 false,
   -- The second task is dropped, and its worker wakes the caller once more.
   .worker 0 false, .worker 0 false, .worker 0 false, .worker 0 false, .worker 0 false,
   .worker 0 false, .worker 0 false,
   .waiter 0, .waiter 0, .waitIdle true, .waiter 1, .waiter 1]

theorem waitIdle_sound_idleRun : ∃ s, system.ReachableWithin Announced s ∧
    s.waiters.map Waiter.pc = [.returned true, .returned true] ∧
    s.waiters.map Waiter.before = [[1, 2], [1, 2]] ∧
    s.finished = [1] ∧ s.discarded = [2] ∧
    ∀ w ∈ s.waiters, ∀ id ∈ w.before, (∀ entry ∈ s.queue_, entry.id ≠ id) ∧
      ∀ k ∈ s.workers, k.holds id = false := by
  have hs : system.ReachableWithin Announced _ :=
    .final (new 1) idleRun ⟨1, by decide, rfl⟩ (by decide)
  have hret : ∀ w ∈ (system.final (new 1) idleRun).waiters, w.pc = .returned true := by
    decide +kernel
  exact ⟨_, hs, by decide +kernel, by decide +kernel, by decide +kernel, by decide +kernel,
    fun w hw id hid => (waitIdle_sound hs hw (hret w hw) hid).2⟩

/-- **`waitIdle` may return before a task has started**: the worker has popped the task and has not
yet incremented `activeWorkers_`. The task runs after that. -/
theorem waitIdle_unsound :
    (∃ s, system.Reachable s ∧ ∃ w ∈ s.waiters, w.pc = .returned true ∧ 1 ∈ w.before ∧
      1 ∉ s.finished ∧ 1 ∉ s.discarded ∧ ∃ k ∈ s.workers, k.holds 1 = true) ∧
    ∃ s, system.Reachable s ∧ ∃ w ∈ s.waiters, w.pc = .returned true ∧ 1 ∈ w.before ∧
      ∃ k ∈ s.workers, k = .running ⟨1, 0, 0⟩ := by
  constructor
  · exact TransitionSystem.reached_by (new 1)
      [.submitWithPriority 0, .submit 0 0, .submit 0 0, .submit 0 0, .submit 0 0, .worker 0 false,
        .worker 0 false, .worker 0 false, .waitIdle false, .waiter 0, .waiter 0]
      ⟨1, by decide, rfl⟩ (by decide)
  · exact TransitionSystem.reached_by (new 1)
      [.submitWithPriority 0, .submit 0 0, .submit 0 0, .submit 0 0, .submit 0 0, .worker 0 false,
        .worker 0 false, .worker 0 false, .waitIdle false, .waiter 0, .waiter 0, .worker 0 false,
        .worker 0 false] ⟨1, by decide, rfl⟩ (by decide)

end EnhancedThreadPool

end Pman
