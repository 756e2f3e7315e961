import Pman.Async.TimerQueue

set_option autoImplicit false

/-!
# Cancelled timers of the event loops

`cancelTimer` acts on the two containers, but a batch that is being executed is a third place
where a timer lives: `processTimers` has copied the callback there and has taken the entry out of
the containers (or put it back, if it is periodic). A cancellation from inside the batch does not
reach the copy.

## Main definitions

* `TimerLoop.step`: the machine; `TimerLoop.Move`: what a step does.

## Main results

* `TimerLoop.indexed_of_reachable`: the index agrees with the multimap in every run.
* `TimerLoop.not_runsCancelled`: when a cancelled timer does not run.
-/

namespace Pman

open List

inductive TimerEvent
  | added (id : ℕ)
  | cancelled (id : ℕ) (result : Bool)
  | invoked (id : ℕ)
deriving DecidableEq, Repr

/-- The timers of a loop, with the last reading of its clock, the batches whose execution is
under way, innermost first, and the history. -/
structure TimerLoop (κ : Type*) extends TimerQueue κ where
  clock : ℤ
  batches : List (List (Pending κ))
  log : List TimerEvent

namespace TimerLoop

variable {κ : Type*}

inductive Act (κ : Type*)
  | addTimer (now duration : ℤ) (callback : Option κ)
  | addPeriodicTimer (now period : ℤ) (callback : Option κ)
  | cancelTimer (timerId : ℕ)
  /-- `processTimers` up to the execution of its batch, from the loop or from a callback. -/
  | processTimers (now : ℤ)
  /-- The innermost `processTimers` invokes its next callback. -/
  | invoke
  /-- The innermost `processTimers` is through its batch and returns. -/
  | finish
  /-- A callback throws, and the exception leaves `processTimers`. -/
  | unwind

def added (s : TimerLoop κ) (now : ℤ) : TimerQueue κ × ℕ → TimerLoop κ
  | (q, id) => { s with toTimerQueue := q, clock := now, log := s.log ++ [.added id] }

def step (s : TimerLoop κ) : Act κ → Option (TimerLoop κ)
  | .addTimer now duration callback =>
    if s.clock ≤ now then some (s.added now (s.addTimer now duration callback)) else none
  | .addPeriodicTimer now period callback =>
    if s.clock ≤ now then some (s.added now (s.addPeriodicTimer now period callback)) else none
  | .cancelTimer timerId =>
    match s.cancelTimer timerId with
    | (q, result) => some { s with toTimerQueue := q, log := s.log ++ [.cancelled timerId result] }
  | .processTimers now =>
    if s.clock ≤ now then
      match s.toTimerQueue.processTimers now with
      | (q, batch) => some { s with toTimerQueue := q, clock := now, batches := batch :: s.batches }
    else none
  | .invoke =>
    match s.batches with
    | (p :: ps) :: rest => some { s with batches := ps :: rest, log := s.log ++ [.invoked p.id] }
    | _ => none
  | .finish =>
    match s.batches with
    | [] :: rest => some { s with batches := rest }
    | _ => none
  | .unwind =>
    match s.batches with
    | _ :: rest => some { s with batches := rest }
    | [] => none

def new (clock : ℤ) : TimerLoop κ where
  toTimerQueue := TimerQueue.new
  clock := clock
  batches := []
  log := []

/-- Timers added, cancelled and run in any order, from anywhere. -/
def system (κ : Type*) : TransitionSystem (TimerLoop κ) (Act κ) where
  init s := ∃ clock, s = new clock
  step := step

/-- The callback of a timer waits in a batch that is being executed. -/
def Waits (s : TimerLoop κ) (id : ℕ) : Prop := ∃ batch ∈ s.batches, ∃ p ∈ batch, p.id = id
  deriving Decidable

/-- A timer is not cancelled while a callback of it waits in a batch. -/
def CancelOk (s : TimerLoop κ) : Act κ → Prop
  | .cancelTimer timerId => ¬ Waits s timerId
  | _ => True

instance (s : TimerLoop κ) (a : Act κ) : Decidable (CancelOk s a) := by
  cases a <;> dsimp only [CancelOk] <;> infer_instance

/-- The timer was added, later cancelled, and later its callback was invoked, whatever
`cancelTimer` answered. -/
def RunsCancelled (s : TimerLoop κ) (id : ℕ) : Prop :=
  ∃ result, [.added id, .cancelled id result, .invoked id].Sublist s.log

lemma sublist_concat {α : Type*} {l r : List α} {x : α} (h : l.Sublist (r ++ [x])) :
    l.Sublist r ∨ ∃ l', l = l' ++ [x] ∧ l'.Sublist r := by
  obtain ⟨l₁, l₂, rfl, h₁, h₂⟩ := sublist_append_iff.mp h
  rcases sublist_singleton.mp h₂ with rfl | rfl
  · rw [append_nil]
    exact .inl h₁
  · exact .inr ⟨l₁, rfl, h₁⟩

def Cancelled (log : List TimerEvent) (id : ℕ) : Prop :=
  ∃ result, [.added id, .cancelled id result].Sublist log

variable {log : List TimerEvent} {id : ℕ} {s : TimerLoop κ}

lemma Cancelled.added_mem (h : Cancelled log id) : .added id ∈ log := by
  obtain ⟨result, h⟩ := h
  exact h.subset mem_cons_self

variable {e : TimerEvent}

lemma Cancelled.of_concat (h : Cancelled (log ++ [e]) id) :
    Cancelled log id ∨ ∃ result, e = .cancelled id result := by
  obtain ⟨result, h⟩ := h
  rcases sublist_concat h with h | ⟨l', heq, -⟩
  · exact .inl ⟨result, h⟩
  · have : [TimerEvent.added id] ++ [.cancelled id result] = l' ++ [e] := heq
    exact .inr ⟨result, (append_inj' this rfl).2 |> singleton_inj.mp |>.symm⟩

lemma RunsCancelled.of_concat
    (h : ∃ result, [.added id, .cancelled id result, .invoked id].Sublist (log ++ [e])) :
    (∃ result, [.added id, .cancelled id result, .invoked id].Sublist log) ∨
      (e = .invoked id ∧ Cancelled log id) := by
  obtain ⟨result, h⟩ := h
  rcases sublist_concat h with h | ⟨l', heq, hl'⟩
  · exact .inl ⟨result, h⟩
  · have heq : [TimerEvent.added id, .cancelled id result] ++ [.invoked id] = l' ++ [e] := heq
    obtain ⟨rfl, he⟩ := append_inj' heq rfl
    exact .inr ⟨(singleton_inj.mp he).symm, result, hl'⟩

/-! ### What a step does -/

/-- What a step of the loop does. -/
inductive Move (s : TimerLoop κ) : Act κ → TimerLoop κ → Prop
  | addTimer (now duration : ℤ) (callback : Option κ) :
      Move s (.addTimer now duration callback) (s.added now (s.addTimer now duration callback))
  | addPeriodicTimer (now period : ℤ) (callback : Option κ) :
      Move s (.addPeriodicTimer now period callback)
        (s.added now (s.addPeriodicTimer now period callback))
  | cancelTimer (timerId : ℕ) :
      Move s (.cancelTimer timerId) { s with
        toTimerQueue := (s.cancelTimer timerId).1
        log := s.log ++ [.cancelled timerId (s.cancelTimer timerId).2] }
  | processTimers (now : ℤ) :
      Move s (.processTimers now) { s with
        toTimerQueue := (s.toTimerQueue.processTimers now).1
        clock := now
        batches := (s.toTimerQueue.processTimers now).2 :: s.batches }
  | invoke {p : Pending κ} {ps : List (Pending κ)} {rest : List (List (Pending κ))}
      (hb : s.batches = (p :: ps) :: rest) :
      Move s .invoke { s with batches := ps :: rest, log := s.log ++ [.invoked p.id] }
  | finish {rest : List (List (Pending κ))} (hb : s.batches = [] :: rest) :
      Move s .finish { s with batches := rest }
  | unwind {batch : List (Pending κ)} {rest : List (List (Pending κ))}
      (hb : s.batches = batch :: rest) : Move s .unwind { s with batches := rest }

variable {a : Act κ} {s' : TimerLoop κ}

lemma move_of_step (hst : step s a = some s') : Move s a s' := by
  cases a with
  | addTimer now duration callback =>
    simp only [step] at hst
    split_ifs at hst
    cases hst
    exact .addTimer now duration callback
  | addPeriodicTimer now period callback =>
    simp only [step] at hst
    split_ifs at hst
    cases hst
    exact .addPeriodicTimer now period callback
  | cancelTimer timerId =>
    cases hst
    exact .cancelTimer timerId
  | processTimers now =>
    simp only [step] at hst
    split_ifs at hst
    cases hst
    exact .processTimers now
  | invoke =>
    simp only [step] at hst
    split at hst <;> cases hst
    exact .invoke ‹_›
  | finish =>
    simp only [step] at hst
    split at hst <;> cases hst
    exact .finish ‹_›
  | unwind =>
    simp only [step] at hst
    split at hst <;> cases hst
    exact .unwind ‹_›

/-! ### The index, in every run -/

lemma indexed_step (h : s.Indexed) (hst : step s a = some s') : s'.Indexed := by
  cases move_of_step hst with
  | addTimer | addPeriodicTimer => exact h.add _ _ _ _
  | cancelTimer timerId => exact h.cancelTimer timerId
  | processTimers now => exact h.processTimers now
  | invoke | finish | unwind => exact h

/-- **The index agrees with the multimap** in every state, between callbacks as well. -/
theorem indexed_of_reachable {ok : TimerLoop κ → Act κ → Prop}
    (h : (system κ).ReachableWithin ok s) : s.Indexed := by
  refine h.invariant ?_ fun s a s' hs _ hst => indexed_step hs hst
  rintro _ ⟨clock, rfl⟩
  refine ⟨nodup_nil, ?_, nodup_nil, ?_, fun id addr => ?_⟩
  · simp [new, TimerQueue.new]
  · simp [new, TimerQueue.new]
  · simp [new, TimerQueue.new]

def addedIds (log : List TimerEvent) : List ℕ :=
  log.filterMap fun
    | .added id => some id
    | _ => none

/-- The ids given out so far are different, and the next one is above them. -/
def IdsFresh (s : TimerLoop κ) : Prop :=
  (addedIds s.log).Nodup ∧ ∀ id ∈ addedIds s.log, id < s.nextTimerId_

lemma IdsFresh.add (h : IdsFresh s) (now now' duration period : ℤ) (callback : Option κ) :
    IdsFresh (s.added now' (s.add now duration callback period)) := by
  have hids : addedIds (s.log ++ [.added s.nextTimerId_]) = addedIds s.log ++ [s.nextTimerId_] :=
    filterMap_append
  refine ⟨?_, fun id hid => ?_⟩
  · show (addedIds (s.log ++ [.added s.nextTimerId_])).Nodup
    rw [hids, nodup_append]
    refine ⟨h.1, nodup_singleton _, fun a ha b hb => ?_⟩
    rw [mem_singleton.mp hb]
    exact Nat.ne_of_lt (h.2 a ha)
  · change id ∈ addedIds (s.log ++ [.added s.nextTimerId_]) at hid
    rw [hids, mem_append, mem_singleton] at hid
    rcases hid with hid | rfl
    · exact Nat.lt_succ_of_lt (h.2 id hid)
    · exact Nat.lt_succ_self _

lemma IdsFresh.step (h : IdsFresh s) (hst : TimerLoop.step s a = some s') : IdsFresh s' := by
  have hsame {log : List TimerEvent} {e : TimerEvent} (he : addedIds [e] = []) :
      addedIds (log ++ [e]) = addedIds log := by
    rw [addedIds, filterMap_append, ← addedIds, ← addedIds, he, append_nil]
  cases move_of_step hst with
  | addTimer | addPeriodicTimer => exact h.add _ _ _ _ _
  | cancelTimer timerId =>
    simp only [IdsFresh, hsame (e := .cancelled timerId _) rfl,
      TimerQueue.nextTimerId_cancelTimer]
    exact h
  | processTimers now =>
    simp only [IdsFresh, TimerQueue.nextTimerId_processTimers]
    exact h
  | @invoke p _ _ _ =>
    simp only [IdsFresh, hsame (e := .invoked p.id) rfl]
    exact h
  | finish | unwind => exact h

/-! ### Cancelled timers are gone -/

/-- A cancelled timer is in none of the places from which timers run, and has not run. -/
structure CancelledGone (s : TimerLoop κ) : Prop where
  added_lt : ∀ id, .added id ∈ s.log → id < s.nextTimerId_
  not_stored : ∀ id, Cancelled s.log id → id ∉ TimerQueue.ids s.timersByExpiry_
  not_waiting : ∀ id, Cancelled s.log id → ¬ Waits s id
  silent : ∀ id, ¬ RunsCancelled s id

namespace CancelledGone

variable {s : TimerLoop κ}

variable (h : CancelledGone s)

include h

lemma add (now duration : ℤ) (callback : Option κ) (period : ℤ)
    (now' : ℤ) : CancelledGone (s.added now' (s.add now duration callback period)) := by
  have hold : ∀ id, Cancelled (s.log ++ [.added s.nextTimerId_]) id → Cancelled s.log id := by
    intro id hid
    rcases hid.of_concat with hid | ⟨_, heq⟩
    · exact hid
    · cases heq
  refine ⟨fun id hid => ?_, fun id hid hmem => ?_, fun id hid => h.not_waiting id (hold id hid),
    fun id hid => ?_⟩
  · rcases mem_concat.mp hid with hid | hid
    · exact Nat.lt_succ_of_lt (h.added_lt id hid)
    · rw [TimerEvent.added.injEq] at hid
      rw [hid]
      exact Nat.lt_succ_self _
  · have hcan := hold id hid
    rcases (TimerQueue.mem_ids_emplace _ _ _ _).mp hmem with heq | hmem
    · exact absurd heq (Nat.ne_of_lt (h.added_lt id hcan.added_mem))
    · exact h.not_stored id hcan hmem
  · rcases RunsCancelled.of_concat hid with hid | ⟨heq, -⟩
    · exact h.silent id hid
    · cases heq

lemma cancel (hind : s.Indexed) {timerId : ℕ} (hok : ¬ Waits s timerId) :
    CancelledGone { s with
      toTimerQueue := (s.cancelTimer timerId).1
      log := s.log ++ [.cancelled timerId (s.cancelTimer timerId).2] } := by
  have hold : ∀ id, Cancelled (s.log ++ [.cancelled timerId (s.cancelTimer timerId).2]) id →
      Cancelled s.log id ∨ id = timerId := by
    intro id hid
    rcases hid.of_concat with hid | ⟨_, heq⟩
    · exact .inl hid
    · rw [TimerEvent.cancelled.injEq] at heq
      exact .inr heq.1.symm
  refine ⟨fun id hid => ?_, fun id hid hmem => ?_, fun id hid => ?_, fun id hid => ?_⟩
  · rw [TimerQueue.nextTimerId_cancelTimer]
    exact h.added_lt id (by simpa using hid)
  · obtain ⟨n, hn, rfl⟩ := mem_map.mp hmem
    obtain ⟨hn, hne⟩ := (hind.mem_cancelTimer timerId n).mp hn
    rcases hold _ hid with hid | heq
    · exact h.not_stored _ hid (mem_map.mpr ⟨n, hn, rfl⟩)
    · exact hne heq
  · rcases hold id hid with hid | rfl
    · exact h.not_waiting id hid
    · exact hok
  · rcases RunsCancelled.of_concat hid with hid | ⟨heq, -⟩
    · exact h.silent id hid
    · cases heq

lemma process (now : ℤ) :
    CancelledGone { s with
      toTimerQueue := (s.toTimerQueue.processTimers now).1
      clock := now
      batches := (s.toTimerQueue.processTimers now).2 :: s.batches } := by
  refine ⟨fun id hid => ?_, fun id hid hmem => ?_, fun id hid hw => ?_, h.silent⟩
  · rw [TimerQueue.nextTimerId_processTimers]
    exact h.added_lt id hid
  · exact h.not_stored id hid (TimerQueue.mem_ids_of_processTimers _ now (.inl hmem))
  · obtain ⟨batch, hbatch, p, hp, rfl⟩ := hw
    rcases mem_cons.mp hbatch with rfl | hbatch
    · exact h.not_stored _ hid (TimerQueue.mem_ids_of_processTimers _ now
        (.inr (mem_map_of_mem hp)))
    · exact h.not_waiting _ hid ⟨batch, hbatch, p, hp, rfl⟩

variable {rest : List (List (Pending κ))}

lemma invoke {p : Pending κ} {ps : List (Pending κ)}
    (hb : s.batches = (p :: ps) :: rest) :
    CancelledGone { s with batches := ps :: rest, log := s.log ++ [.invoked p.id] } := by
  have hold : ∀ id, Cancelled (s.log ++ [.invoked p.id]) id → Cancelled s.log id := by
    intro id hid
    rcases hid.of_concat with hid | ⟨_, heq⟩
    · exact hid
    · cases heq
  have hwaits : Waits s p.id := ⟨p :: ps, by simp [hb], p, mem_cons_self, rfl⟩
  refine ⟨fun id hid => h.added_lt id (by simpa using hid),
    fun id hid => h.not_stored id (hold id hid), fun id hid hw => h.not_waiting id (hold id hid) ?_,
    fun id hid => ?_⟩
  · obtain ⟨batch, hbatch, x, hx, rfl⟩ := hw
    rcases mem_cons.mp hbatch with rfl | hbatch
    · exact ⟨p :: batch, by simp [hb], x, mem_cons_of_mem _ hx, rfl⟩
    · exact ⟨batch, by simp [hb, hbatch], x, hx, rfl⟩
  · rcases RunsCancelled.of_concat hid with hid | ⟨heq, hcan⟩
    · exact h.silent id hid
    · rw [TimerEvent.invoked.injEq] at heq
      exact h.not_waiting id hcan (heq ▸ hwaits)

lemma drop {batch : List (Pending κ)} (hb : s.batches = batch :: rest) :
    CancelledGone { s with batches := rest } := by
  refine { h with not_waiting := fun id hid hw => h.not_waiting id hid ?_ }
  obtain ⟨b, hb', x, hx, rfl⟩ := hw
  exact ⟨b, by simp [hb, show b ∈ rest from hb'], x, hx, rfl⟩

lemma step (hind : s.Indexed)
    (hok : CancelOk s a) (hst : TimerLoop.step s a = some s') : CancelledGone s' := by
  cases move_of_step hst with
  | addTimer | addPeriodicTimer => exact h.add _ _ _ _ _
  | cancelTimer => exact h.cancel hind hok
  | processTimers now => exact h.process now
  | invoke hb => exact h.invoke hb
  | finish hb | unwind hb => exact h.drop hb

end CancelledGone

lemma not_runsCancelled (h : (system κ).ReachableWithin CancelOk s) (id : ℕ) :
    ¬ RunsCancelled s id := by
  have hgone : CancelledGone s := by
    refine TransitionSystem.ReachableWithin.invariant_of
      (fun _ => indexed_of_reachable) h ?_ fun s a s' hind hs hok hst => hs.step hind hok hst
    rintro _ ⟨clock, rfl⟩
    refine ⟨?_, fun id hid => ?_, fun id hid => ?_, fun id hid => ?_⟩
    · simp [new]
    · simpa [new] using hid.added_mem
    · simpa [new] using hid.added_mem
    · obtain ⟨result, hid⟩ := hid
      simp [new] at hid
  exact hgone.silent id

end TimerLoop

/-! ### The two loops -/

def EpollLoop.timers (κ : Type*) : TransitionSystem (TimerLoop κ) (TimerLoop.Act κ) :=
  TimerLoop.system κ

def IoUringLoop.timers (κ : Type*) : TransitionSystem (TimerLoop κ) (TimerLoop.Act κ) :=
  TimerLoop.system κ

/-- **The index of the timers** in every state, between callbacks as well: it is a bijection between
the ids of the entries and the entries, no id was given out twice, and `cancelTimer` answers whether
the id is in the index and takes out the entry with this id and no other. -/
theorem timer_index {κ : Type*} {s : TimerLoop κ} (h : (EpollLoop.timers κ).Reachable s) :
    s.Indexed ∧ (TimerLoop.addedIds s.log).Nodup ∧
      (∀ id ∈ TimerLoop.addedIds s.log, id < s.nextTimerId_) ∧
      ∀ timerId, ((s.cancelTimer timerId).2 = true ↔ (s.timerById_ timerId).isSome = true) ∧
        ∀ n, n ∈ (s.cancelTimer timerId).1.timersByExpiry_ ↔
          n ∈ s.timersByExpiry_ ∧ n.entry.id ≠ timerId := by
  have hindexed := TimerLoop.indexed_of_reachable h
  have hfresh : TimerLoop.IdsFresh s := by
    refine h.invariant ?_ fun s a s' hs _ hst => hs.step hst
    rintro _ ⟨clock, rfl⟩
    exact ⟨nodup_nil, by simp [TimerLoop.new, TimerLoop.addedIds]⟩
  refine ⟨hindexed, hfresh.1, hfresh.2, fun timerId => ⟨?_, hindexed.mem_cancelTimer timerId⟩⟩
  unfold TimerQueue.cancelTimer
  cases s.timerById_ timerId <;> simp

/-- A periodic timer has run and is stored again; it is cancelled by its id. -/
theorem timer_index_periodic :
    ∃ s : TimerLoop Unit, (EpollLoop.timers Unit).Reachable s ∧
      (s.timerById_ 1).isSome = true ∧ (s.cancelTimer 1).2 = true := by
  have hs : (EpollLoop.timers Unit).Reachable _ := .final (TimerLoop.new 0)
      [.addPeriodicTimer 0 10 (some ()), .processTimers 10, .invoke, .finish] ⟨0, rfl⟩ (by decide)
  exact ⟨_, hs, rfl, ((timer_index hs).2.2.2 1).1.mpr rfl⟩

/-- **A cancelled timer never runs**, in either loop and in every run in which no timer is
cancelled while a callback of it waits in a batch that is being executed: no timer that was
added and later cancelled, whatever `cancelTimer` answered, has its callback invoked after
that. -/
theorem cancelled_timers_never_run (κ : Type*) :
    (∀ s : TimerLoop κ, (EpollLoop.timers κ).ReachableWithin TimerLoop.CancelOk s →
      ∀ id, ¬ s.RunsCancelled id) ∧
    (∀ s : TimerLoop κ, (IoUringLoop.timers κ).ReachableWithin TimerLoop.CancelOk s →
      ∀ id, ¬ s.RunsCancelled id) :=
  ⟨fun _ h => TimerLoop.not_runsCancelled h, fun _ h => TimerLoop.not_runsCancelled h⟩

/-- Timer `1` is periodic and runs twice, is cancelled between two batches and is due again at
time `30`, when only timer `2` runs. -/
theorem cancelled_timers_never_run_periodic :
    (∃ s : TimerLoop Unit, (EpollLoop.timers Unit).ReachableWithin TimerLoop.CancelOk s ∧
      TimerEvent.invoked 2 ∈ s.log ∧ ¬ s.RunsCancelled 1) ∧
    (∃ s : TimerLoop Unit, (IoUringLoop.timers Unit).ReachableWithin TimerLoop.CancelOk s ∧
      TimerEvent.invoked 2 ∈ s.log ∧ ¬ s.RunsCancelled 1) := by
  have hs : (TimerLoop.system Unit).ReachableWithin TimerLoop.CancelOk _ := .final (TimerLoop.new 0)
      [.addPeriodicTimer 0 10 (some ()), .processTimers 10, .invoke, .finish, .processTimers 20,
        .invoke, .finish, .cancelTimer 1, .addTimer 20 10 (some ()), .processTimers 30,
        .invoke] ⟨0, rfl⟩ (by decide)
  exact ⟨⟨_, hs, by decide, (cancelled_timers_never_run Unit).1 _ hs 1⟩,
    ⟨_, hs, by decide, (cancelled_timers_never_run Unit).2 _ hs 1⟩⟩

/-- Two timers are due in one batch; the callback of the first cancels the second, which runs
all the same. -/
theorem cancelled_timer_runs :
    (∃ s : TimerLoop Unit, (EpollLoop.timers Unit).Reachable s ∧ s.RunsCancelled 2) ∧
    (∃ s : TimerLoop Unit, (IoUringLoop.timers Unit).Reachable s ∧ s.RunsCancelled 2) := by
  have hs : (TimerLoop.system Unit).Reachable _ := .final (TimerLoop.new 0)
      [.addTimer 0 0 (some ()), .addTimer 0 0 (some ()), .processTimers 0, .invoke,
        .cancelTimer 2, .invoke] ⟨0, rfl⟩ (by decide)
  exact ⟨⟨_, hs, false, by decide⟩, ⟨_, hs, false, by decide⟩⟩

end Pman
