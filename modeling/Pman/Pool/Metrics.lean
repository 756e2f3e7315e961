import Mathlib.Algebra.BigOperators.Group.List.Basic
import Pman.Lib.History
import Pman.Pool.TaskFlow

set_option autoImplicit false

/-!
# The metrics of the enhanced pool

The counters of `ThreadPoolMetrics` have a mutex of their own, and they are changed at other moments
than the queue: `submit` counts its task after it has released `mutex_`, a worker counts a task long
after it has popped it, and `cancelAll` counts every entry after it has popped it. So `cancelAll`,
one step in `Pman.Pool.EnhancedThreadPool`, is taken apart here: it holds `mutex_` throughout, and
in between the other threads take all steps that do not acquire `mutex_`.

A ledger beside the runs has every count of an outcome, with the number of its task.

## Main results

* `metrics_balance`: the counters account for every task.
-/

namespace Pman

open Slots TransitionSystem List Function

namespace EnhancedThreadPool

/-! ### `cancelAll` in steps -/

inductive Clearing
  | pop
  | count (entry : TaskEntry)
deriving DecidableEq, Repr

/-- The pool, and the `cancelAll` that holds `mutex_`. -/
structure MeteredState where
  pool : State
  clearing : Option Clearing

inductive MeteredAct
  | pool (a : Act)
  | cancelAll
  | clear
deriving DecidableEq, Repr

def acquires (s : State) : Act → Bool
  | .worker i _ => s.workers[i]? == some .lock
  | .submit i _ => s.submits[i]?.any fun c => c.pc == .push
  | .waiter i => s.waiters[i]?.any fun w => w.pc == .lock || w.pc == .timedOut
  | .cancelAll => true
  | _ => false

def State.clearTop (s : State) (entry : TaskEntry) (rest : List TaskEntry) : State :=
  { s with
    queue_ := rest
    cancelled := update s.cancelled entry.id true
    discarded := s.discarded ++ [entry.id] }

def State.countCancelled (s : State) : State := { s with metrics_ := s.metrics_.add .cancelled }

def meteredStep (x : MeteredState) : MeteredAct → Option MeteredState
  | .pool a =>
    if a = .cancelAll ∨ (x.clearing.isSome ∧ acquires x.pool a) then none
    else (step x.pool a).map fun s => { x with pool := s }
  | .cancelAll =>
    if x.clearing = none ∧ x.pool.mutex_ = none then some { x with clearing := some .pop } else none
  | .clear =>
    match x.clearing with
    | none => none
    | some .pop =>
      match x.pool.queue_ with
      | [] => some { x with clearing := none }
      | entry :: rest => some ⟨x.pool.clearTop entry rest, some (.count entry)⟩
    | some (.count _) => some ⟨x.pool.countCancelled, some .pop⟩

def metered : TransitionSystem MeteredState MeteredAct where
  init x := system.init x.pool ∧ x.clearing = none
  step := meteredStep

variable {s : State} {k : Worker} {i : ℕ}

variable {entry : TaskEntry} {rest : List TaskEntry} {workers : List Worker} {x : MeteredState}

/-! ### The ledger -/

/-- The tasks that the workers have popped last, and the counts that were made. -/
structure Ledger where
  current : ℕ → ℕ
  counted : List (ℕ × Outcome)

def Ledger.worker (l : Ledger) (s : State) (i : ℕ) : Ledger :=
  match s.workers[i]? with
  | none => l
  | some k =>
    match k, s.queue_ with
    | .check, entry :: _ => { l with current := update l.current i entry.id }
    | _, _ =>
      match k.counts with
      | some outcome => { l with counted := l.counted ++ [(l.current i, outcome)] }
      | none => l

def Ledger.note (x : MeteredState) (a : MeteredAct) (l : Ledger) : Ledger :=
  match a with
  | .pool (.worker i _) => l.worker x.pool i
  | .clear =>
    match x.clearing with
    | some (.count entry) => { l with counted := l.counted ++ [(entry.id, .cancelled)] }
    | _ => l
  | _ => l

def ledger : History MeteredState MeteredAct Ledger where
  start _ := ⟨fun _ => 0, []⟩
  note := Ledger.note

/-! ### Where the tasks are -/

def inHand (weight current : ℕ → ℕ) (i : ℕ) (k : Worker) : ℕ :=
  if k.uncounted then weight (current i) else 0

lemma inHand_of_uncounted (h : k.uncounted = true) (weight current : ℕ → ℕ) (i : ℕ) :
    inHand weight current i k = weight (current i) := if_pos h

lemma inHand_of_not_uncounted (h : k.uncounted = false) (weight current : ℕ → ℕ) (i : ℕ) :
    inHand weight current i k = 0 := by
  simp [inHand, h]

def Clearing.inHand (weight : ℕ → ℕ) : Option Clearing → ℕ
  | some (.count entry) => weight entry.id
  | _ => 0

/-- What the task of a `submit` weighs, once it is in the queue. -/
def entered (weight : ℕ → ℕ) (c : Submit) : ℕ :=
  if c.pc.pushed then weight c.entry.id else 0

/-- Whatever the tasks weigh, those that were entered into the queue are counted, in the queue or
in someone's hands; and the metrics agree with the ledger. -/
structure Account (x : MeteredState) (l : Ledger) : Prop where
  tasks : ∀ weight : ℕ → ℕ,
    (l.counted.map fun c => weight c.1).sum + (x.pool.queue_.map fun e => weight e.id).sum +
      (x.pool.workers.mapIdx (inHand weight l.current)).sum + Clearing.inHand weight x.clearing =
    (x.pool.submits.map (entered weight)).sum
  submitted : x.pool.metrics_.tasksSubmitted + x.pool.submits.countP (fun c => c.pc == .count) =
    x.pool.submits.countP fun c => c.pc.pushed
  metrics : ∀ outcome, x.pool.metrics_.of outcome = l.counted.countP fun c => c.2 == outcome

/-! ### Steps keep the account -/

lemma sum_inHand_set {k' : Worker} (hk : workers[i]? = some k)
    (huncounted : k'.uncounted = k.uncounted) (weight current : ℕ → ℕ) :
    ((workers.set i k').mapIdx (inHand weight current)).sum =
      (workers.mapIdx (inHand weight current)).sum := by
  have hsum := sum_mapIdx_set (f := inHand weight current) hk (fun _ _ => rfl) k'
  have hsame : inHand weight current i k' = inHand weight current i k := by
    simp only [inHand, huncounted]
  omega

lemma sum_inHand_wake (workers : List Worker) (weight current : ℕ → ℕ) :
    ((workers.map Worker.wake).mapIdx (inHand weight current)).sum =
      (workers.mapIdx (inHand weight current)).sum := by
  congr 1
  refine ext_getElem? fun i => ?_
  rw [getElem?_mapIdx, getElem?_mapIdx, getElem?_map, Option.map_map]
  congr 1
  funext k
  cases k <;> rfl

lemma sum_inHand_append (workers : List Worker) (weight current : ℕ → ℕ) :
    ((workers ++ [Worker.lock]).mapIdx (inHand weight current)).sum =
      (workers.mapIdx (inHand weight current)).sum := by
  rw [mapIdx_append, sum_append]
  rfl

lemma sum_inHand_eq_zero (h : ∀ k ∈ workers, k.uncounted = false) (weight current : ℕ → ℕ) :
    (workers.mapIdx (inHand weight current)).sum = 0 := by
  refine sum_eq_zero fun n hn => ?_
  obtain ⟨i, hi, rfl⟩ := mem_mapIdx.mp hn
  exact inHand_of_not_uncounted (h _ (getElem_mem hi)) weight current i

variable {l : Ledger}

lemma Ledger.worker_eq_self (hk : s.workers[i]? = some k) (hcounts : k.counts = none)
    (hempty : k = .check → s.queue_ = []) : l.worker s i = l := by
  unfold Ledger.worker
  rw [hk]
  simp only
  split
  case h_1 hqueue =>
    simp [hempty rfl] at hqueue
  case h_2 => rw [hcounts]

lemma Ledger.worker_pop (hk : s.workers[i]? = some .check) (hqueue : s.queue_ = entry :: rest) :
    l.worker s i = { l with current := update l.current i entry.id } := by
  unfold Ledger.worker
  rw [hk, hqueue]

lemma Ledger.worker_count {outcome : Outcome} (hk : s.workers[i]? = some k)
    (hcounts : k.counts = some outcome) :
    l.worker s i = { l with counted := l.counted ++ [(l.current i, outcome)] } := by
  unfold Ledger.worker
  rw [hk]
  simp only
  split
  case h_1 => cases hcounts
  case h_2 => rw [hcounts]

variable {x' : MeteredState}

namespace Account

variable {x : MeteredState} {l : Ledger}

variable {s : State}

variable (h : Account x l)

include h

lemma congr (hqueue : s.queue_ = x.pool.queue_)
    (hmetrics : s.metrics_ = x.pool.metrics_) (hsubmits : s.submits = x.pool.submits)
    (hworkers : ∀ weight current, (s.workers.mapIdx (inHand weight current)).sum =
      (x.pool.workers.mapIdx (inHand weight current)).sum) : Account ⟨s, x.clearing⟩ l := by
  refine ⟨fun weight => ?_, ?_, fun outcome => ?_⟩
  · simp only [hqueue, hsubmits, hworkers]
    exact h.tasks weight
  · simp only [hmetrics, hsubmits]
    exact h.submitted
  · simp only [hmetrics]
    exact h.metrics outcome

lemma worker {i : ℕ} (hflow : WorkerFlow x.pool s i) :
    Account ⟨s, x.clearing⟩ (l.worker x.pool i) := by
  cases hflow with
  | quiet found workers submits queue metrics uncounted counts empty =>
    rw [Ledger.worker_eq_self found counts empty]
    refine h.congr queue metrics submits fun weight current => ?_
    rw [workers]
    exact sum_inHand_set found uncounted weight current
  | @pop entry found workers submits queue metrics =>
    rw [Ledger.worker_pop found queue]
    refine ⟨fun weight => ?_, ?_, fun outcome => ?_⟩
    · have hsum := sum_mapIdx_set (f := inHand weight l.current)
        (g := inHand weight (update l.current i entry.id)) found
        (fun j hj => by funext k; simp [inHand, update_of_ne hj]) (.taken entry)
      rw [inHand_of_not_uncounted rfl, inHand_of_uncounted rfl, update_self] at hsum
      have htasks := h.tasks weight
      simp only [queue, map_cons, sum_cons] at htasks
      simp only [workers, submits]
      omega
    · simp only [metrics, submits]
      exact h.submitted
    · simp only [metrics]
      exact h.metrics outcome
  | @count k outcome found counts workers submits queue metrics =>
    rw [Ledger.worker_count found counts]
    refine ⟨fun weight => ?_, ?_, fun outcome' => ?_⟩
    · have hsum := sum_mapIdx_set (f := inHand weight l.current) found
        (fun _ _ => rfl) .notify
      rw [inHand_of_uncounted (Worker.uncounted_of_counts counts),
        inHand_of_not_uncounted rfl] at hsum
      have htasks := h.tasks weight
      simp only [workers, submits, queue, map_append, sum_append, map_cons,
        map_nil, sum_cons, sum_nil]
      omega
    · simp only [metrics, submits, ThreadPoolMetrics.tasksSubmitted_add]
      exact h.submitted
    · simp only [metrics, ThreadPoolMetrics.of_add, h.metrics outcome', countP_append,
        countP_singleton, ite_eq_toNat]

variable {c : Submit}

lemma submit {i : ℕ} {c' : Submit} (ht : SubmitTurn x.pool s i c c')
    (hflow : SubmitFlow x.pool s i c c') : Account ⟨s, x.clearing⟩ l := by
  have hworkers : ∀ weight current, (s.workers.mapIdx (inHand weight current)).sum =
      (x.pool.workers.mapIdx (inHand weight current)).sum := by
    intro weight current
    rcases ht.workers with heq | ⟨j, hk, heq⟩
    · rw [heq]
    · have hwake : Worker.lock.uncounted = Worker.parked.uncounted := rfl
      rw [heq]
      exact sum_inHand_set hk hwake weight current
  have hentered : ∀ weight, (s.submits.map (entered weight)).sum + entered weight c =
      (x.pool.submits.map (entered weight)).sum + entered weight c' := by
    intro weight
    rw [ht.submits, map_set]
    exact sum_set (by rw [getElem?_map, ht.found]; rfl) _
  have hcount := countP_set (fun c => c.pc == .count) ht.found c'
  have hpushed := countP_set (fun c => c.pc.pushed) ht.found c'
  rw [← ht.submits] at hcount hpushed
  have hsubmitted := h.submitted
  refine ⟨fun weight => ?_, ?_, fun outcome => ?_⟩
  · have htasks := h.tasks weight
    have hentered := hentered weight
    simp only [hworkers]
    cases hflow with
    | quiet pushed pc pc' queue metrics =>
      have hsame : entered weight c' = entered weight c := by
        simp only [entered, pushed, ht.id]
      simp only [queue]
      omega
    | push pc pc' queue metrics =>
      have hperm := (x.pool.queue_.perm_orderedInsert (fun a b => a.lt b = false) c.entry).map
        fun e => weight e.id
      have hsum := hperm.sum_eq
      have hbefore : entered weight c = 0 := by simp [entered, pc, SubmitPc.pushed]
      have hafter : entered weight c' = weight c.entry.id := by
        simp [entered, pc', SubmitPc.pushed, ht.id]
      rw [map_cons, sum_cons] at hsum
      simp only [queue, EnhancedThreadPool.push]
      omega
    | count pc pc' queue metrics =>
      have hsame : entered weight c' = entered weight c := by
        simp [entered, pc, pc', SubmitPc.pushed, ht.id]
      simp only [queue]
      omega
  · cases hflow with
    | quiet pushed pc pc' queue metrics =>
      rw [beq_eq_false_iff_ne.mpr pc, beq_eq_false_iff_ne.mpr pc'] at hcount
      rw [pushed] at hpushed
      simp only [metrics]
      omega
    | push pc pc' queue metrics =>
      rw [pc, pc', show (SubmitPc.push == .count) = false from rfl, beq_self_eq_true] at hcount
      rw [pc, pc', show SubmitPc.push.pushed = false from rfl,
        show SubmitPc.count.pushed = true from rfl] at hpushed
      simp only [metrics]
      omega
    | count pc pc' queue metrics =>
      rw [pc, pc', show (SubmitPc.notify == .count) = false from rfl, beq_self_eq_true] at hcount
      rw [pc, pc', show SubmitPc.notify.pushed = true from rfl,
        show SubmitPc.count.pushed = true from rfl] at hpushed
      simp only [Bool.toNat_true, Bool.toNat_false] at hcount
      simp only [metrics]
      omega
  · cases hflow with
    | quiet _ _ _ _ metrics | push _ _ _ metrics | count _ _ _ metrics =>
      simp only [metrics]
      exact h.metrics outcome

lemma submitWithPriority (hqueue : s.queue_ = x.pool.queue_)
    (hmetrics : s.metrics_ = x.pool.metrics_) (hworkers : s.workers = x.pool.workers)
    (hsubmits : s.submits = x.pool.submits ++ [c]) (hpc : c.pc = .sequence) :
    Account ⟨s, x.clearing⟩ l := by
  have hpushed : c.pc.pushed = false := by rw [hpc]; rfl
  refine ⟨fun weight => ?_, ?_, fun outcome => ?_⟩
  · have hentered : entered weight c = 0 := by simp [entered, hpushed]
    simp only [hqueue, hworkers, hsubmits, map_append, sum_append, map_cons,
      map_nil, sum_cons, sum_nil, hentered, add_zero]
    exact h.tasks weight
  · have hcount : (c.pc == .count) = false := by rw [hpc]; rfl
    simp only [hmetrics, hsubmits, countP_append, countP_singleton, hcount, hpushed,
      Bool.false_eq_true, if_false, add_zero]
    exact h.submitted
  · simp only [hmetrics]
    exact h.metrics outcome

lemma clear (hst : meteredStep x .clear = some x') : Account x' (Ledger.note x .clear l) := by
  obtain ⟨s, clearing⟩ := x
  simp only [meteredStep] at hst
  split at hst <;> try cases hst
  case h_2 =>
    split at hst <;> cases hst
    case h_1 =>
      exact ⟨h.tasks, h.submitted, h.metrics⟩
    case h_2 entry rest hqueue =>
      refine ⟨fun weight => ?_, h.submitted, h.metrics⟩
      have htasks := h.tasks weight
      simp only [hqueue, map_cons, sum_cons, Clearing.inHand] at htasks
      simp only [Clearing.inHand, State.clearTop, Ledger.note]
      omega
  case h_3 entry =>
    refine ⟨fun weight => ?_, ?_, fun outcome => ?_⟩
    · have htasks := h.tasks weight
      simp only [Clearing.inHand] at htasks
      simp only [Clearing.inHand, State.countCancelled, Ledger.note, map_append,
        sum_append, map_cons, map_nil, sum_cons, sum_nil]
      omega
    · exact h.submitted
    · have hmetrics := h.metrics outcome
      simp only [State.countCancelled, ThreadPoolMetrics.of_add, Ledger.note, countP_append,
        countP_singleton, ite_eq_toNat] at hmetrics ⊢
      omega

lemma pool {a : Act} (hne : a ≠ .cancelAll) (hst : step x.pool a = some s) :
    Account ⟨s, x.clearing⟩ (Ledger.note x (.pool a) l) := by
  cases a with
  | worker i throws => exact h.worker (flow_of_workerStep hst)
  | submit i k =>
    obtain ⟨c, c', ht⟩ := turn_of_submitStep hst
    exact h.submit ht (flow_of_submitStep hst ht)
  | submitWithPriority priority =>
    cases hst
    exact h.submitWithPriority rfl rfl rfl rfl rfl
  | resize =>
    cases hst
    exact h.congr rfl rfl rfl fun weight current => sum_inHand_append _ weight current
  | spuriousWorker i =>
    have hwake : Worker.lock.uncounted = Worker.parked.uncounted := rfl
    simp only [step] at hst
    split_ifs at hst with hk
    cases hst
    exact h.congr rfl rfl rfl fun weight current => sum_inHand_set hk hwake weight current
  | shutdownNotify =>
    simp only [step] at hst
    split_ifs at hst
    cases hst
    exact h.congr rfl rfl rfl fun weight current => sum_inHand_wake _ weight current
  | cancelAll => exact absurd rfl hne
  | cancel | cancelStore | waitIdle | waiter | spuriousWaiter | timeout | shutdown | join =>
    cases move_of_step hst <;> exact h.congr rfl rfl rfl fun _ _ => rfl

end Account

def ledgered : TransitionSystem (MeteredState × Ledger) MeteredAct := metered.withHistory ledger

lemma meteredStep_cases {a : MeteredAct} (hst : meteredStep x a = some x') :
    (∃ b s, a = .pool b ∧ b ≠ .cancelAll ∧ step x.pool b = some s ∧ x' = ⟨s, x.clearing⟩) ∨
    (a = .cancelAll ∧ x.clearing = none ∧ x' = { x with clearing := some .pop }) ∨ a = .clear := by
  cases a with
  | pool b =>
    simp only [meteredStep] at hst
    split_ifs at hst with hblocked
    obtain ⟨s, hs, rfl⟩ := Option.map_eq_some_iff.mp hst
    exact .inl ⟨b, s, rfl, fun heq => hblocked (.inl heq), hs, rfl⟩
  | cancelAll =>
    simp only [meteredStep] at hst
    split_ifs at hst with hfree
    exact .inr (.inl ⟨rfl, hfree.1, (Option.some.inj hst).symm⟩)
  | clear => exact .inr (.inr rfl)

/-- The account is right in every run. -/
theorem account_of_reachable {x : MeteredState × Ledger} (h : ledgered.Reachable x) :
    Account x.1 x.2 := by
  refine h.invariant (I := fun x => Account x.1 x.2) ?_ ?_
  · rintro ⟨⟨s, clearing⟩, l⟩ ⟨⟨⟨workerCount, -, hs⟩, hclearing⟩, hl⟩
    obtain rfl : s = new workerCount := hs
    obtain rfl : clearing = none := hclearing
    obtain rfl : l = ⟨fun _ => 0, []⟩ := hl
    refine ⟨fun weight => ?_, rfl, fun outcome => by cases outcome <;> rfl⟩
    have hidle : ∀ k ∈ replicate workerCount Worker.lock, k.uncounted = false := by
      intro k hk
      rw [eq_of_mem_replicate hk]
      rfl
    have hhand := sum_inHand_eq_zero hidle weight fun _ => 0
    simp only [new, Clearing.inHand, hhand, map_nil, sum_nil, add_zero]
  · rintro x a x' hx - hst
    obtain ⟨hst, hnote⟩ := withHistory_step.mp hst
    rw [hnote]
    rcases meteredStep_cases hst with ⟨b, s, rfl, hne, hs, heq⟩ | ⟨rfl, hnone, heq⟩ | rfl
    · rw [heq]
      exact hx.pool hne hs
    · rw [heq]
      refine ⟨fun weight => ?_, hx.submitted, hx.metrics⟩
      have htasks := hx.tasks weight
      rwa [hnone] at htasks
    · exact hx.clear hst

/-! ### The balance -/

namespace MeteredState

/-- The tasks that are in the queue or further on and whose `submit` has not counted them. -/
def unsubmitted (x : MeteredState) : ℕ := x.pool.submits.countP fun c => c.pc == .count

/-- The tasks that were removed from the queue and whose outcome is not counted. -/
def uncounted (x : MeteredState) : ℕ :=
  x.pool.workers.countP Worker.uncounted + Clearing.inHand (fun _ => 1) x.clearing

def Quiescent (x : MeteredState) : Prop := x.unsubmitted = 0 ∧ x.uncounted = 0

end MeteredState

lemma sum_inHand_one (workers : List Worker) (current : ℕ → ℕ) :
    (workers.mapIdx (inHand (fun _ => 1) current)).sum = workers.countP Worker.uncounted := by
  have hmap : workers.mapIdx (inHand (fun _ => 1) current) =
      workers.map fun k => k.uncounted.toNat := by
    refine ext_getElem? fun i => ?_
    rw [getElem?_mapIdx, getElem?_map]
    congr 1
    funext k
    cases k <;> rfl
  rw [hmap, sum_map_toNat]

/-- The numbers of the tasks stay different while `cancelAll` goes on. -/
theorem counts_of_metered (h : metered.Reachable x) : Counts x.pool := by
  refine h.invariant (I := fun x => Counts x.pool) ?_ ?_
  · rintro x ⟨hinit, -⟩
    have hreach : system.Reachable x.pool := .init hinit
    exact counts_of_reachable hreach
  · rintro x a x' hx - hst
    rcases meteredStep_cases hst with ⟨b, s, rfl, -, hs, rfl⟩ | ⟨rfl, -, rfl⟩ | rfl
    · exact hx.step hs
    · exact hx
    · simp only [metered, meteredStep] at hst
      split at hst <;> try cases hst
      case h_2 =>
        split at hst <;> cases hst
        case h_1 =>
          exact hx
        case h_2 entry rest hqueue =>
          refine hx.congr rfl (fun id => ?_) (fun _ _ => rfl) rfl rfl
          simp only [State.outside, State.clearTop, hqueue, countP_cons, count_append,
            count_singleton, ite_eq_toNat]
          omega
      case h_3 =>
        exact hx.congr rfl (fun _ => rfl) (fun _ _ => rfl) rfl rfl

def only (id : ℕ) (id' : ℕ) : ℕ := (id' == id).toNat

lemma sum_entered_only (s : State) (id : ℕ) :
    (s.submits.map (entered (only id))).sum = s.submits.countP (Submit.pushed id) := by
  rw [← sum_map_toNat]
  congr 2
  funext c
  simp only [entered, only, Submit.pushed]
  cases c.pc.pushed <;> cases c.entry.id == id <;> rfl

lemma length_eq_countP (counted : List (ℕ × Outcome)) :
    counted.length = counted.countP (fun c => c.2 == .completed) +
      counted.countP (fun c => c.2 == .failed) + counted.countP fun c => c.2 == .cancelled := by
  induction counted with
  | nil => rfl
  | cons c counted ih =>
    obtain ⟨id, outcome⟩ := c
    cases outcome <;> simp <;> omega

namespace Account

variable {x : MeteredState} {l : Ledger}

lemma balance (h : Account x l) :
    x.pool.metrics_.tasksSubmitted + x.unsubmitted =
      x.pool.metrics_.tasksCompleted + x.pool.metrics_.tasksFailed +
        x.pool.metrics_.tasksCancelled + x.pool.queue_.length + x.uncounted := by
  have htasks := h.tasks fun _ => 1
  have hsubmits : (x.pool.submits.map (entered fun _ => 1)).sum =
      x.pool.submits.countP fun c => c.pc.pushed := by
    rw [← sum_map_toNat]
    congr 2
    funext c
    simp only [entered]
    cases c.pc.pushed <;> rfl
  have hlength : (l.counted.map fun _ => 1).sum = l.counted.length := by simp
  have hqueue : (x.pool.queue_.map fun _ => 1).sum = x.pool.queue_.length := by simp
  have hcounted := length_eq_countP l.counted
  have hcompleted := h.metrics .completed
  have hfailed := h.metrics .failed
  have hcancelled := h.metrics .cancelled
  have hsubmitted := h.submitted
  simp only [ThreadPoolMetrics.of] at hcompleted hfailed hcancelled
  rw [hlength, hqueue, sum_inHand_one, hsubmits] at htasks
  simp only [MeteredState.unsubmitted, MeteredState.uncounted]
  omega

lemma once (h : Account x l) (id : ℕ) :
    l.counted.countP (fun c => c.1 == id) + x.pool.queue_.countP (fun e => e.id == id) +
      (x.pool.workers.mapIdx (inHand (only id) l.current)).sum +
        Clearing.inHand (only id) x.clearing =
      x.pool.submits.countP (Submit.pushed id) := by
  rw [← sum_entered_only, ← h.tasks (only id), ← sum_map_toNat, ← sum_map_toNat]
  rfl

lemma inHand_of_quiescent (hq : x.Quiescent) (weight : ℕ → ℕ) :
    (x.pool.workers.mapIdx (inHand weight l.current)).sum = 0 ∧
      Clearing.inHand weight x.clearing = 0 := by
  obtain ⟨hworkers, hclearing⟩ := Nat.add_eq_zero_iff.mp hq.2
  refine ⟨sum_inHand_eq_zero (fun k hk => ?_) weight l.current, ?_⟩
  · simpa using countP_eq_zero.mp hworkers k hk
  · cases hx : x.clearing with
    | none => rfl
    | some k =>
      cases k with
      | pop => rfl
      | count entry =>
        rw [hx] at hclearing
        cases hclearing

end Account

/-- **The metrics balance**, in every reachable state: the tasks counted as submitted, and those
that were entered and not yet counted, are those counted under some outcome, in the queue, or
removed from it and not yet counted. With nothing left to be counted, the counters balance alone.
Every counter counts the tasks of its outcome, no task is counted twice, and in the end every task
that was entered and is not in the queue is counted once.

**Proof sketch.** Weigh every task as one, and then one task as one and the others as nothing, in
`Account.tasks`. -/
theorem metrics_balance {x : MeteredState × Ledger} (h : ledgered.Reachable x) :
    let m := x.1.pool.metrics_
    m.tasksSubmitted + x.1.unsubmitted =
      m.tasksCompleted + m.tasksFailed + m.tasksCancelled + x.1.pool.queue_.length +
        x.1.uncounted ∧
    (x.1.Quiescent → m.tasksSubmitted =
      m.tasksCompleted + m.tasksFailed + m.tasksCancelled + x.1.pool.queue_.length) ∧
    (∀ outcome, m.of outcome = x.2.counted.countP fun c => c.2 == outcome) ∧
    ∀ id, x.2.counted.countP (fun c => c.1 == id) ≤ 1 ∧
      (x.1.Quiescent → (∃ c ∈ x.1.pool.submits, c.pushed id = true) →
        (∀ entry ∈ x.1.pool.queue_, entry.id ≠ id) →
        x.2.counted.countP (fun c => c.1 == id) = 1) := by
  have haccount := account_of_reachable h
  have hcounts := counts_of_metered h.of_withHistory
  refine ⟨haccount.balance, fun hq => ?_, haccount.metrics,
    fun id => ⟨?_, fun hq hpushed hout => ?_⟩⟩
  · have hbalance := haccount.balance
    rwa [hq.1, hq.2] at hbalance
  · have honce := haccount.once id
    have hle := hcounts.pushed_le_one id
    omega
  · have honce := haccount.once id
    have hle := hcounts.pushed_le_one id
    have hpos := countP_pos_iff.mpr hpushed
    have hqueue : x.1.pool.queue_.countP (fun e => e.id == id) = 0 :=
      countP_eq_zero.mpr fun e he => by simpa using hout e he
    obtain ⟨hworkers, hclearing⟩ := Account.inHand_of_quiescent (l := x.2) hq (only id)
    omega

/-- One task is run, and another one is popped by `cancelAll` before its `submit` counts it. -/
theorem metrics_balance_run :
    ∃ x : MeteredState × Ledger, ledgered.Reachable x ∧
      x.1.pool.metrics_ = ⟨2, 1, 0, 0⟩ ∧ x.1.unsubmitted = 0 ∧ x.1.uncounted = 1 ∧
      x.1.pool.metrics_.tasksSubmitted + x.1.unsubmitted =
        x.1.pool.metrics_.tasksCompleted + x.1.pool.metrics_.tasksFailed +
          x.1.pool.metrics_.tasksCancelled + x.1.pool.queue_.length + x.1.uncounted := by
  have hx : ledgered.Reachable _ := .final (⟨new 1, none⟩, ⟨fun _ => 0, []⟩)
      ([.pool (.submitWithPriority 0), .pool (.submit 0 0), .pool (.submit 0 0),
        .pool (.submit 0 0), .pool (.submit 0 0)] ++ replicate 9 (.pool (.worker 0 false)) ++
        [.pool (.submitWithPriority 0), .pool (.submit 1 0), .pool (.submit 1 0), .cancelAll,
          .clear, .pool (.submit 1 0)]) ⟨⟨⟨1, by decide, rfl⟩, rfl⟩, rfl⟩ (by decide +kernel)
  exact ⟨_, hx, by decide +kernel, by decide +kernel, by decide +kernel,
    (metrics_balance hx).1⟩

end EnhancedThreadPool

end Pman
