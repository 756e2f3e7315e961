import Pman.Pool.EnhancedThreadPool

set_option autoImplicit false

/-!
# How tasks go through the enhanced pool

A task enters the queue in `submit`, a worker pops it, and in the end the worker counts it in the
metrics under one outcome. The lemmas here say of every step which part of this way it is: what it
does to the queue, to the metrics, and to the tasks that workers have in their hands.
-/

namespace Pman

namespace EnhancedThreadPool

inductive Outcome
  | completed
  | failed
  | cancelled
deriving DecidableEq, Repr

def ThreadPoolMetrics.add (m : ThreadPoolMetrics) : Outcome → ThreadPoolMetrics
  | .completed => { m with tasksCompleted := m.tasksCompleted + 1 }
  | .failed => { m with tasksFailed := m.tasksFailed + 1 }
  | .cancelled => { m with tasksCancelled := m.tasksCancelled + 1 }

def ThreadPoolMetrics.of (m : ThreadPoolMetrics) : Outcome → ℕ
  | .completed => m.tasksCompleted
  | .failed => m.tasksFailed
  | .cancelled => m.tasksCancelled

lemma ThreadPoolMetrics.of_add (m : ThreadPoolMetrics) (outcome outcome' : Outcome) :
    (m.add outcome).of outcome' = m.of outcome' + (outcome == outcome').toNat := by
  cases outcome <;> cases outcome' <;> rfl

lemma ThreadPoolMetrics.tasksSubmitted_add (m : ThreadPoolMetrics) (outcome : Outcome) :
    (m.add outcome).tasksSubmitted = m.tasksSubmitted := by
  cases outcome <;> rfl

namespace Worker

def uncounted : Worker → Bool
  | .taken _ | .discard _ | .countCancelled | .enter _ | .running _ | .complete _ _ | .leave _
  | .countDone _ => true
  | .lock | .test | .park | .parked | .check | .notify | .exited => false

def counts : Worker → Option Outcome
  | .countCancelled => some .cancelled
  | .countDone true => some .completed
  | .countDone false => some .failed
  | _ => none

lemma uncounted_of_counts {k : Worker} {outcome : Outcome} (h : k.counts = some outcome) :
    k.uncounted = true := by
  cases k <;> first | rfl | cases h

end Worker

/-- **What a step of the worker `i` does**: it pops a task, it counts its task, or neither. -/
inductive WorkerFlow (s s' : State) (i : ℕ) : Prop
  | quiet {k k' : Worker} (found : s.workers[i]? = some k)
      (workers : s'.workers = s.workers.set i k') (submits : s'.submits = s.submits)
      (queue : s'.queue_ = s.queue_) (metrics : s'.metrics_ = s.metrics_)
      (uncounted : k'.uncounted = k.uncounted) (counts : k.counts = none)
      (empty : k = .check → s.queue_ = [])
  | pop {entry : TaskEntry} (found : s.workers[i]? = some .check)
      (workers : s'.workers = s.workers.set i (.taken entry)) (submits : s'.submits = s.submits)
      (queue : s.queue_ = entry :: s'.queue_) (metrics : s'.metrics_ = s.metrics_)
  | count {k : Worker} {outcome : Outcome} (found : s.workers[i]? = some k)
      (counts : k.counts = some outcome) (workers : s'.workers = s.workers.set i .notify)
      (submits : s'.submits = s.submits) (queue : s'.queue_ = s.queue_)
      (metrics : s'.metrics_ = s.metrics_.add outcome)

variable {s s' : State} {i : ℕ}

lemma flow_of_workerStep {throws : Bool}
    (hst : workerStep s i throws = some s') : WorkerFlow s s' i := by
  revert hst
  fun_cases workerStep s i throws <;> rintro ⟨⟩
  case case8 hk hqueue =>
    split_ifs <;> exact .quiet hk rfl rfl rfl rfl rfl rfl fun _ => hqueue
  case case9 hk _ _ hqueue => exact .pop hk rfl rfl hqueue rfl
  case case12 hk => exact .count hk rfl rfl rfl rfl rfl
  case case17 success hk => cases success <;> exact .count hk rfl rfl rfl rfl rfl
  all_goals
    rename s.workers[i]? = some _ => hk
    try split_ifs
    all_goals exact .quiet hk rfl rfl rfl rfl rfl rfl (by rintro ⟨⟩)

/-- **What a step of the `submit` `i` does**: it enters its task into the queue, it counts it, or
neither. In the end it may wake a worker. -/
inductive SubmitFlow (s s' : State) (i : ℕ) (c c' : Submit) : Prop
  | quiet (pushed : c'.pc.pushed = c.pc.pushed) (pc : c.pc ≠ .count) (pc' : c'.pc ≠ .count)
      (queue : s'.queue_ = s.queue_) (metrics : s'.metrics_ = s.metrics_)
  | push (pc : c.pc = .push) (pc' : c'.pc = .count) (queue : s'.queue_ = push s.queue_ c.entry)
      (metrics : s'.metrics_ = s.metrics_)
  | count (pc : c.pc = .count) (pc' : c'.pc = .notify) (queue : s'.queue_ = s.queue_)
      (metrics : s'.metrics_ =
        { s.metrics_ with tasksSubmitted := s.metrics_.tasksSubmitted + 1 })

lemma eq_of_set_eq_set {α : Type*} {l : List α} {a b c : α} (h : l[i]? = some a)
    (heq : l.set i b = l.set i c) : b = c := by
  have hi := (List.getElem?_eq_some_iff.mp h).1
  have hb := List.getElem?_set_self (a := b) hi
  rw [heq, List.getElem?_set_self hi] at hb
  exact (Option.some.inj hb).symm

lemma flow_of_submitStep {k : ℕ} (hst : submitStep s i k = some s') {c c' : Submit}
    (ht : SubmitTurn s s' i c c') : SubmitFlow s s' i c c' := by
  have hset : ∀ d, s'.submits = s.submits.set i d → c' = d := fun d hd =>
    eq_of_set_eq_set ht.found (ht.submits.symm.trans hd)
  unfold submitStep at hst
  rw [ht.found] at hst
  simp only at hst
  split at hst
  case h_1 hpc =>
    cases hst
    obtain rfl := hset _ rfl
    exact .quiet (by rw [hpc]; rfl) (by rw [hpc]; decide) (by simp) rfl rfl
  case h_2 hpc =>
    split_ifs at hst <;> cases hst
    · obtain rfl := hset _ rfl
      exact .quiet (by rw [hpc]; rfl) (by rw [hpc]; decide) (by simp) rfl rfl
    · obtain rfl := hset _ rfl
      exact .push hpc rfl rfl rfl
  case h_3 hpc =>
    cases hst
    obtain rfl := hset _ rfl
    exact .count hpc rfl rfl rfl
  case h_4 hpc =>
    unfold State.notifyOne at hst
    split_ifs at hst
    all_goals
      cases hst
      obtain rfl := hset _ rfl
      exact .quiet (by rw [hpc]; rfl) (by rw [hpc]; decide) (by simp) rfl rfl
  all_goals cases hst

end EnhancedThreadPool

end Pman
