import Pman.Pool.EnhancedThreadPool

set_option autoImplicit false

/-!
# The wake-ups of the thread pool

A caller of `waitIdle` that has found the pool busy parks on `idleCv_` and relies on a worker to
notify it; a worker that has found nothing to do parks on `cv_` and relies on `submit` and on the
destructor. Both decide under `mutex_`, but `activeWorkers_` is decremented, `shuttingDown_` is
stored and the notifications are made without it. A notification that comes between the decision and
the parking wakes nobody. And `cancelAll`, which may empty the queue for good, notifies nobody at
all.

## Main results

* `wakeups_not_lost`: when no wake-up is lost.
-/

namespace Pman

open List

namespace EnhancedThreadPool

/-- Who waits for the pool to become idle will be notified: there is a task left, or a worker has
yet to notify. -/
def State.Attended (s : State) : Prop :=
  s.queue_ ≠ [] ∨ ∃ k ∈ s.workers, k.owesNotify = true

/-- No wake-up gets lost.
* A worker does not notify while a caller is about to park, unless it is not the last one.
* `cancelAll` does not empty the queue on callers that no worker will notify.
* The destructor does not notify while a worker is about to park. -/
def NotLost (s : State) : Act → Prop
  | .worker i _ => s.workers[i]? = some .notify →
      (∀ w ∈ s.waiters, w.pc ≠ .park) ∨ s.queue_ ≠ [] ∨
        ∃ k ∈ s.workers.eraseIdx i, k.owesNotify = true
  | .cancelAll => (∀ w ∈ s.waiters, w.pc.waits = false) ∨ s.queue_ = [] ∨
      ∃ k ∈ s.workers, k.owesNotify = true
  | .shutdownNotify => ∀ k ∈ s.workers, k ≠ .park
  | _ => True

instance (s : State) : ∀ a : Act, Decidable (NotLost s a)
  | .resize | .worker .. | .spuriousWorker _ | .submitWithPriority _ | .submit .. | .cancelAll
  | .cancel _ | .cancelStore _ | .waitIdle _ | .waiter _ | .spuriousWaiter _ | .timeout _
  | .shutdown | .shutdownNotify | .join => by dsimp only [NotLost]; infer_instance

variable {c c' : Submit} {k k' : Worker}

namespace State.Attended

variable {s s' : State} {i : ℕ}

lemma of_not_idle (hcounts : Counts s) (hidle : s.idle = false) : s.Attended := by
  by_cases hqueue : s.queue_ = []
  · have hactive : 0 < s.activeWorkers_ := by
      rw [Nat.pos_iff_ne_zero]
      intro hzero
      simp [State.idle, hqueue, hzero] at hidle
    rw [hcounts.active, countP_pos_iff] at hactive
    obtain ⟨k, hk, hactive⟩ := hactive
    refine .inr ⟨k, hk, ?_⟩
    cases k <;> first | rfl | cases hactive
  · exact .inl hqueue

lemma turn (h : s.Attended) (ht : Turn s s' i k k') (hk : k ≠ .notify) : s'.Attended := by
  have hlt := (List.getElem?_eq_some_iff.mp ht.found).1
  rw [State.Attended, ht.workers]
  rcases h with hqueue | howes
  · rcases ht.queue with heq | hnew
    · exact .inl (heq ▸ hqueue)
    · exact .inr ⟨k', List.mem_set hlt k', hnew⟩
  · exact .inr (Slots.exists_mem_set ht.found (ht.owesNotify hk) howes)

lemma turn_notify (ht : Turn s s' i k k')
    (h : s.queue_ ≠ [] ∨ ∃ k ∈ s.workers.eraseIdx i, k.owesNotify = true) : s'.Attended := by
  have hlt := (List.getElem?_eq_some_iff.mp ht.found).1
  rw [State.Attended, ht.workers]
  rcases h with hqueue | hother
  · rcases ht.queue with heq | hnew
    · exact .inl (heq ▸ hqueue)
    · exact .inr ⟨k', List.mem_set hlt k', hnew⟩
  · exact .inr (Slots.exists_mem_set_of_eraseIdx k' hother)

lemma setWorker (h : s.Attended) (hk : s.workers[i]? = some .parked) :
    (s.setWorker i .lock).Attended :=
  h.imp_right (Slots.exists_mem_set hk (by simp [Worker.owesNotify]))

lemma submit (h : s.Attended) (ht : SubmitTurn s s' i c c') : s'.Attended := by
  refine h.imp ht.queue fun howes => ?_
  rcases ht.workers with heq | ⟨j, hk, heq⟩
  · rw [heq]
    exact howes
  · rw [heq]
    exact Slots.exists_mem_set hk (by simp [Worker.owesNotify]) howes

lemma map_wake (h : s.Attended) :
    { s with workers := s.workers.map Worker.wake, destructor := .join }.Attended := by
  refine h.imp_right fun ⟨k, hk, howes⟩ => ⟨k.wake, mem_map_of_mem hk, ?_⟩
  cases k <;> exact howes

end State.Attended

/-- Callers that wait are attended to, and after the notification of the destructor no worker parks
any more. -/
structure Awake (s : State) : Prop where
  waiting : ∀ w ∈ s.waiters, w.pc.waits = true → s.Attended
  shuttingDown : s.destructor ≠ .notStarted → s.shuttingDown_ = true
  notified : s.destructor.notified = true → ∀ k ∈ s.workers, k ≠ .park ∧ k ≠ .parked

namespace Awake

variable {s s' : State} {i : ℕ}

lemma shuttingDown_of_notified (h : Awake s) (hnot : s.destructor.notified = true) :
    s.shuttingDown_ = true := by
  refine h.shuttingDown ?_
  rintro heq
  rw [heq] at hnot
  cases hnot

lemma wakeWorker (h : Awake s) (hk : s.workers[i]? = some .parked) :
    Awake (s.setWorker i .lock) := by
  refine ⟨fun w hw hwaits => (h.waiting w hw hwaits).setWorker hk, h.shuttingDown,
    fun hnot k hk' => ?_⟩
  rcases mem_or_eq_of_mem_set hk' with hk' | rfl
  · exact h.notified hnot k hk'
  · simp

lemma turn (h : Awake s) {throws : Bool} (hok : NotLost s (.worker i throws))
    (ht : Turn s s' i k k') : Awake s' := by
  refine ⟨fun w' hw' hwaits => ?_, ?_, fun hnot x hx => ?_⟩
  · by_cases hk : k = .notify
    · -- Who was parked is awake now; who is about to park needs another notification.
      rw [ht.woken hk] at hw'
      obtain ⟨w, hw, rfl⟩ := mem_map.mp hw'
      have hpark : w.pc = .park := by
        unfold Waiter.wake at hwaits
        split_ifs at hwaits with hparked
        · cases hwaits
        · cases hpc : w.pc with
          | park => rfl
          | parked => exact absurd hpc hparked
          | _ =>
            rw [hpc] at hwaits
            cases hwaits
      rcases hok (hk ▸ ht.found) with hnone | hother
      · exact absurd hpark (hnone w hw)
      · exact .turn_notify ht hother
    · rw [ht.waiters hk] at hw'
      exact (h.waiting w' hw' hwaits).turn ht hk
  · rw [ht.destructor, ht.shuttingDown]
    exact h.shuttingDown
  · rw [ht.destructor] at hnot
    rw [ht.workers] at hx
    rcases mem_or_eq_of_mem_set hx with hx | rfl
    · exact h.notified hnot x hx
    · refine ⟨fun heq => ?_, fun heq => ?_⟩
      · have := ht.park heq
        rw [h.shuttingDown_of_notified hnot] at this
        cases this
      · exact (h.notified hnot k (mem_of_getElem? ht.found)).1 (ht.parked heq)

lemma submit (h : Awake s) (ht : SubmitTurn s s' i c c') : Awake s' := by
  refine ⟨fun w hw hwaits => ?_, ?_, fun hnot k hk => ?_⟩
  · rw [ht.waiters] at hw
    exact (h.waiting w hw hwaits).submit ht
  · rw [ht.destructor, ht.shuttingDown]
    exact h.shuttingDown
  · rw [ht.destructor] at hnot
    rcases ht.workers with heq | ⟨j, -, heq⟩
    · exact h.notified hnot k (heq ▸ hk)
    · rw [heq] at hk
      rcases mem_or_eq_of_mem_set hk with hk | rfl
      · exact h.notified hnot k hk
      · simp

lemma waiter (h : Awake s) (hcounts : Counts s) {w : Waiter} {pc : WaiterPc}
    (hw : s.waiters[i]? = some w) (hwaits : pc.waits = true → w.pc.waits = true ∨ s.idle = false)
    (mutex : Option Owner) :
    Awake ({ s with mutex_ := mutex }.setWaiter i { w with pc := pc }) := by
  refine ⟨fun x hx hx' => ?_, h.shuttingDown, h.notified⟩
  show s.Attended
  rcases mem_or_eq_of_mem_set hx with hx | rfl
  · exact h.waiting x hx hx'
  · rcases hwaits hx' with hold | hidle
    · exact h.waiting w (mem_of_getElem? hw) hold
    · exact .of_not_idle hcounts hidle

lemma step (h : Awake s) (hcounts : Counts s) {a : Act} (hok : NotLost s a)
    (hst : EnhancedThreadPool.step s a = some s') : Awake s' := by
  cases move_of_step hst with
  | resize =>
    refine ⟨fun w hw hwaits => ?_, h.shuttingDown, fun hnot k hk => ?_⟩
    · refine (h.waiting w hw hwaits).imp_right fun howes => ?_
      obtain ⟨k, hk, hnotify⟩ := howes
      exact ⟨k, mem_append_left _ hk, hnotify⟩
    · rcases mem_concat.mp hk with hk | hk
      · exact h.notified hnot k hk
      · simp [hk]
  | worker throws ht => exact h.turn hok ht
  | spuriousWorker hk => exact h.wakeWorker hk
  | submit k ht => exact h.submit ht
  | cancelAll =>
    refine ⟨fun w hw hwaits => ?_, h.shuttingDown, h.notified⟩
    rcases hok with hnone | hempty | howes
    · have := hnone w hw
      rw [hwaits] at this
      cases this
    · exact .inr ((h.waiting w hw hwaits).resolve_left fun hne => hne hempty)
    · exact .inr howes
  | waitIdle timed =>
    refine ⟨fun w hw hwaits => ?_, h.shuttingDown, h.notified⟩
    rcases mem_concat.mp hw with hw | rfl
    · exact h.waiting w hw hwaits
    · cases hwaits
  | waiter mutex ht => exact h.waiter hcounts ht.found ht.waits mutex
  | unpark a hw hpc =>
    refine h.waiter hcounts hw (fun hwaits => ?_) s.mutex_
    rcases hpc with rfl | rfl <;> cases hwaits
  | shutdown hdtor =>
    refine ⟨h.waiting, fun _ => rfl, ?_⟩
    nofun
  | shutdownNotify hdtor =>
    refine ⟨fun w hw hwaits => (h.waiting w hw hwaits).map_wake, fun _ => ?_, fun _ k hk => ?_⟩
    · exact h.shuttingDown (by simp [hdtor])
    · obtain ⟨x, hx, rfl⟩ := mem_map.mp hk
      cases x with
      | park => exact absurd rfl (hok .park hx)
      | _ => simp [Worker.wake]
  | join hdtor =>
    exact ⟨h.waiting, fun _ => h.shuttingDown (by simp [hdtor]),
      fun _ => h.notified (by rw [hdtor]; rfl)⟩
  | submitWithPriority | flags => exact ⟨h.waiting, h.shuttingDown, h.notified⟩

end Awake

/-- **No wake-up is lost**: with any number of workers and callers, as long as no notification
falls into the gap before a thread parks and `cancelAll` does not take away what callers wait for,
(a) when a caller of `waitIdle` is parked although the queue is empty and `activeWorkers_` is `0`,
a worker has yet to notify `idleCv_`, and (b) once the destructor has notified the workers, none of
them is parked on `cv_`. -/
theorem wakeups_not_lost {s : State} (h : system.ReachableWithin NotLost s) :
    (∀ w ∈ s.waiters, w.pc = .parked → s.queue_ = [] → s.activeWorkers_ = 0 →
      ∃ k ∈ s.workers, k.owesNotify = true) ∧
    (s.destructor.notified = true → s.shuttingDown_ = true → ∀ k ∈ s.workers, k ≠ .parked) := by
  have hawake : Awake s := by
    refine h.invariant_of (fun s hr => counts_of_reachable hr) ?_
      fun s a s' hcounts hawake hok hst => hawake.step hcounts hok hst
    rintro s ⟨workerCount, -, rfl⟩
    exact ⟨nofun, fun hne => absurd rfl hne, nofun⟩
  refine ⟨fun w hw hpc hqueue _ => ?_, fun hnot _ k hk => (hawake.notified hnot k hk).2⟩
  exact (hawake.waiting w hw (by rw [hpc]; rfl)).resolve_left fun hne => hne hqueue

/-- The theorem in a run in which a caller is parked while a worker has still to notify it, and the
destructor has woken the other worker. -/
theorem wakeups_not_lost_shutdown : ∃ s, system.ReachableWithin NotLost s ∧
    s.waiters.map Waiter.pc = [.parked] ∧ s.queue_ = [] ∧ s.activeWorkers_ = 0 ∧
    s.destructor.notified = true ∧ s.shuttingDown_ = true ∧
    (∃ k ∈ s.workers, k.owesNotify = true) ∧ ∀ k ∈ s.workers, k ≠ .parked := by
  have hs : system.ReachableWithin NotLost _ := .final (new 2)
      [.submitWithPriority 0, .submit 0 0, .submit 0 0, .submit 0 0, .submit 0 0,
       -- The first worker runs the task, the second one parks, and so does the caller.
       .worker 0 false, .worker 0 false, .worker 0 false, .worker 0 false, .worker 0 false,
       .worker 1 false, .worker 1 false, .worker 1 false,
       .waitIdle false, .waiter 0, .waiter 0, .waiter 0,
       .worker 0 false, .worker 0 false, .worker 0 false, .shutdown, .shutdownNotify]
      ⟨2, by decide, rfl⟩ (by decide)
  have hsafe := wakeups_not_lost hs
  exact ⟨_, hs, rfl, rfl, rfl, rfl, rfl, hsafe.1 _ List.mem_cons_self rfl rfl rfl, hsafe.2 rfl rfl⟩

/-- **Wake-ups get lost**:
* the last worker notifies between the decision of a caller to park and its parking,
* `cancelAll` takes the last task from the queue that a parked caller waits for,
* the destructor notifies between the decision of a worker to park and its parking. -/
theorem wakeups_lost :
    (∃ s, system.Reachable s ∧ s.discarded = [] ∧ (∃ w ∈ s.waiters, w.pc = .parked) ∧
      s.queue_ = [] ∧ s.activeWorkers_ = 0 ∧ ∀ k ∈ s.workers, k.owesNotify = false) ∧
    (∃ s, system.Reachable s ∧ s.finished = [] ∧ (∃ w ∈ s.waiters, w.pc = .parked) ∧
      s.queue_ = [] ∧ s.activeWorkers_ = 0 ∧ ∀ k ∈ s.workers, k.owesNotify = false) ∧
    ∃ s, system.Reachable s ∧ s.destructor.notified = true ∧ s.shuttingDown_ = true ∧
      ∃ k ∈ s.workers, k = .parked := by
  refine ⟨?_, ?_, ?_⟩
  · exact TransitionSystem.reached_by (new 1)
      [.submitWithPriority 0, .submit 0 0, .submit 0 0, .submit 0 0, .submit 0 0, .worker 0 false,
        .worker 0 false, .worker 0 false, .worker 0 false, .worker 0 false, .waitIdle false,
        .waiter 0, .waiter 0, .worker 0 false, .worker 0 false, .worker 0 false, .worker 0 false,
        .worker 0 false, .waiter 0] ⟨1, by decide, rfl⟩ (by decide)
  · exact TransitionSystem.reached_by (new 1)
      [.submitWithPriority 0, .submit 0 0, .submit 0 0, .waitIdle false, .waiter 0, .waiter 0,
        .waiter 0, .cancelAll, .submit 0 0, .submit 0 0] ⟨1, by decide, rfl⟩ (by decide)
  · exact TransitionSystem.reached_by (new 1)
      [.worker 0 false, .worker 0 false, .shutdown, .shutdownNotify, .worker 0 false]
      ⟨1, by decide, rfl⟩ (by decide)

end EnhancedThreadPool

end Pman
