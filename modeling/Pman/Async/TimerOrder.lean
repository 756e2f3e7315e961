import Pman.Async.TimerLoop

set_option autoImplicit false

/-!
# Timers run once, in time and in order

The multimap of the event loops is sorted by expiry, and by insertion among equal expiries.
`processTimers` takes its expired front as its batch. So a one-shot timer runs in the first call
that reads a clock at or after its expiry, whatever callbacks do in between: they may add timers,
cancel others and run the loop again inside their batch.

The loop is paired with a history that only watches: the calls of `processTimers` in the order in
which they started, what each has run so far, which are still executing, and the timers that were
added, each with the time at which it is meant to expire. That time and the expiry in the multimap
differ if the sum does not fit into 64 bits: such a timer runs at once.

## Main results

* `Pman.timers_fire_once_in_order`: runs whose sums of times fit.
* `Pman.timer_fires_early`: a duration of `nanoseconds::max()`.
* `Pman.TimerHistory.exists_of_reachable`: every run of the loop has a history.
-/

namespace Pman

open List Function

def TimerNode.pending {κ : Type*} (n : TimerNode κ) : Option (Pending κ) :=
  n.entry.callback.map fun callback => ⟨n.entry.id, callback⟩

namespace TimerQueue

variable {κ : Type*}

/-! ### The order of the multimap -/

/-- The order of the multimap: by expiry, and by insertion for equal expiries. Nodes are numbered
in the order of their insertion. -/
def Before (n m : TimerNode κ) : Prop :=
  n.expiry < m.expiry ∨ n.expiry = m.expiry ∧ n.addr < m.addr

/-- The multimap is in order, and a new node comes last in the order of insertion. -/
structure Ordered (q : TimerQueue κ) : Prop where
  sorted : q.timersByExpiry_.Pairwise Before
  addr_lt : ∀ n ∈ q.timersByExpiry_, n.addr < q.nextNode

variable {l : List (TimerNode κ)} {q : TimerQueue κ} {n : TimerNode κ} {now : ℤ}

lemma pairwise_insertNode {node : TimerNode κ} (h : l.Pairwise Before)
    (hlt : ∀ n ∈ l, n.addr < node.addr) : (insertNode node l).Pairwise Before := by
  induction l with
  | nil => exact pairwise_singleton _ _
  | cons n rest ih =>
    obtain ⟨hhead, htail⟩ := pairwise_cons.mp h
    unfold insertNode
    split_ifs with hexp
    · refine pairwise_cons.mpr ⟨fun m hm => .inl ?_, h⟩
      rcases mem_cons.mp hm with rfl | hm
      · exact hexp
      · rcases hhead m hm with hm | ⟨hm, -⟩
        · omega
        · omega
    · refine pairwise_cons.mpr ⟨fun m hm => ?_, ih htail fun m hm => hlt m (by simp [hm])⟩
      rcases mem_insertNode.mp hm with rfl | hm
      · have hn := hlt n mem_cons_self
        unfold Before
        omega
      · exact hhead m hm

namespace Ordered

lemma emplace (h : Ordered q) (expiry : ℤ) (entry : TimerEntry κ) :
    Ordered (q.emplace expiry entry) := by
  refine ⟨pairwise_insertNode h.sorted h.addr_lt, fun n hn => ?_⟩
  rcases mem_insertNode.mp hn with rfl | hn
  · exact Nat.lt_succ_self _
  · exact Nat.lt_succ_of_lt (h.addr_lt n hn)

lemma add (h : Ordered q) (now duration : ℤ) (callback : Option κ) (period : ℤ) :
    Ordered (q.add now duration callback period).1 := by
  have hbump : Ordered { q with nextTimerId_ := q.nextTimerId_ + 1 } := ⟨h.sorted, h.addr_lt⟩
  exact hbump.emplace _ _

lemma sublist (h : Ordered q) {l : List (TimerNode κ)} (hl : l.Sublist q.timersByExpiry_)
    (byId : ℕ → Option ℕ) : Ordered { q with timersByExpiry_ := l, timerById_ := byId } :=
  ⟨h.sorted.sublist hl, fun n hn => h.addr_lt n (hl.subset hn)⟩

lemma cancelTimer (h : Ordered q) (timerId : ℕ) : Ordered (q.cancelTimer timerId).1 := by
  unfold TimerQueue.cancelTimer
  cases q.timerById_ timerId with
  | none => exact h
  | some addr => exact h.sublist filter_sublist _

lemma reschedule (h : Ordered q) (l : List (ℤ × TimerEntry κ)) : Ordered (q.reschedule l) := by
  induction l generalizing q with
  | nil => exact h
  | cons e l ih => exact ih (h.emplace e.1 e.2)

end Ordered

/-! ### The expired front -/

/-- The nodes that are expired at a reading of the clock: the front of the multimap. -/
def due (q : TimerQueue κ) (now : ℤ) : List (TimerNode κ) :=
  q.timersByExpiry_.takeWhile fun n => decide (n.expiry ≤ now)

def later (q : TimerQueue κ) (now : ℤ) : List (TimerNode κ) :=
  q.timersByExpiry_.dropWhile fun n => decide (n.expiry ≤ now)

/-- **The sweep** leaves the nodes behind the expired front, puts the callbacks of the front into
the batch and its periodic entries aside.

**Proof sketch.** Induction on the multimap, along the recursion of the sweep. -/
lemma sweep_eq (now : ℤ) (l : List (TimerNode κ)) (acc : Sweep κ) :
    (sweep now l acc).1 = l.dropWhile (fun n => decide (n.expiry ≤ now)) ∧
      (sweep now l acc).2.batch =
        acc.batch ++ (l.takeWhile fun n => decide (n.expiry ≤ now)).filterMap TimerNode.pending ∧
      ∀ e ∈ (sweep now l acc).2.toReschedule, e ∈ acc.toReschedule ∨
        ∃ n ∈ l.takeWhile (fun n => decide (n.expiry ≤ now)), e.2 = n.entry ∧
          0 < n.entry.period := by
  induction l generalizing acc with
  | nil => simp [sweep]
  | cons n rest ih =>
    unfold sweep
    by_cases hlate : now < n.expiry
    · have hnot : ¬ n.expiry ≤ now := by omega
      rw [if_pos hlate]
      simp only [dropWhile_cons, takeWhile_cons, hnot, decide_false]
      simp
    · have hle : n.expiry ≤ now := by omega
      rw [if_neg hlate]
      obtain ⟨hrest, hbatch, hput⟩ := ih (acc.collect now n.entry)
      simp only [dropWhile_cons, takeWhile_cons, hle, decide_true, if_true]
      refine ⟨hrest, ?_, fun e he => ?_⟩
      · rw [hbatch]
        cases hc : n.entry.callback with
        | none | some f => simp [Sweep.collect, TimerNode.pending, hc]
      · rcases hput e he with hold | ⟨m, hm, heq, hper⟩
        · rcases mem_append.mp hold with hold | hnew
          · exact .inl hold
          · split_ifs at hnew with hper
            · rw [mem_singleton.mp hnew]
              exact .inr ⟨n, mem_cons_self, rfl, hper⟩
            · cases hnew
        · exact .inr ⟨m, mem_cons_of_mem _ hm, heq, hper⟩

lemma sweep_later (q : TimerQueue κ) (now : ℤ) :
    (sweep now q.timersByExpiry_ ⟨q.timerById_, [], []⟩).1 = q.later now :=
  (sweep_eq _ _ _).1

lemma processTimers_batch (q : TimerQueue κ) (now : ℤ) :
    (q.processTimers now).2 = (q.due now).filterMap TimerNode.pending := by
  have hbatch := (sweep_eq now q.timersByExpiry_ ⟨q.timerById_, [], []⟩).2.1
  simpa [processTimers, due] using hbatch

lemma Ordered.processTimers (h : Ordered q) (now : ℤ) : Ordered (q.processTimers now).1 := by
  refine Ordered.reschedule (h.sublist ?_ _) _
  rw [sweep_later]
  exact dropWhile_sublist _

lemma mem_reschedule (l : List (ℤ × TimerEntry κ)) (h : n ∈ q.timersByExpiry_) :
    n ∈ (q.reschedule l).timersByExpiry_ := by
  induction l generalizing q with
  | nil => exact h
  | cons e l ih => exact ih (mem_insertNode.mpr (.inr h))

lemma mem_front_and_rest (h : l.Pairwise Before) (now : ℤ) (n : TimerNode κ) :
    (n ∈ l.takeWhile (fun n => decide (n.expiry ≤ now)) ↔ n ∈ l ∧ n.expiry ≤ now) ∧
      (n ∈ l.dropWhile (fun n => decide (n.expiry ≤ now)) ↔ n ∈ l ∧ now < n.expiry) := by
  induction l with
  | nil => simp
  | cons m rest ih =>
    obtain ⟨hhead, htail⟩ := pairwise_cons.mp h
    obtain ⟨hfront, hrest⟩ := ih htail
    by_cases hm : m.expiry ≤ now
    · simp only [takeWhile_cons, dropWhile_cons, hm, decide_true, if_true, mem_cons, hfront, hrest]
      refine ⟨⟨?_, ?_⟩, ⟨fun hn => ⟨.inr hn.1, hn.2⟩, ?_⟩⟩
      · rintro (rfl | ⟨hn, hle⟩)
        · exact ⟨.inl rfl, hm⟩
        · exact ⟨.inr hn, hle⟩
      · rintro ⟨rfl | hn, hle⟩
        · exact .inl rfl
        · exact .inr ⟨hn, hle⟩
      · rintro ⟨rfl | hn, hlt⟩
        · omega
        · exact ⟨hn, hlt⟩
    · -- The first node is not expired, so none is.
      have hall : ∀ k ∈ m :: rest, now < k.expiry := by
        intro k hk
        rcases mem_cons.mp hk with rfl | hk
        · omega
        · rcases hhead k hk with hlt | ⟨heq, -⟩
          · omega
          · omega
      simp only [takeWhile_cons, dropWhile_cons, hm, decide_false]
      refine ⟨⟨nofun, fun hn => ?_⟩, ⟨fun hn => ⟨hn, hall n hn⟩, fun hn => hn.1⟩⟩
      have := hall n hn.1
      omega

lemma Ordered.mem_due (h : Ordered q) : n ∈ q.due now ↔ n ∈ q.timersByExpiry_ ∧ n.expiry ≤ now :=
  (mem_front_and_rest h.sorted now n).1

lemma due_sublist (q : TimerQueue κ) (now : ℤ) : (q.due now).Sublist q.timersByExpiry_ :=
  takeWhile_sublist _

lemma Ordered.mem_later (h : Ordered q) :
    n ∈ q.later now ↔ n ∈ q.timersByExpiry_ ∧ now < n.expiry :=
  (mem_front_and_rest h.sorted now n).2

lemma Ordered.mem_processTimers (h : Ordered q) (hn : n ∈ q.timersByExpiry_)
    (hlate : now < n.expiry) : n ∈ (q.processTimers now).1.timersByExpiry_ := by
  refine mem_reschedule _ ?_
  rw [sweep_later]
  exact h.mem_later.mpr ⟨hn, hlate⟩

lemma lt_of_mem_toReschedule (now : ℤ) (l : List (TimerNode κ)) {acc : Sweep κ}
    (h : ∀ e ∈ acc.toReschedule, now < e.1) :
    ∀ e ∈ (sweep now l acc).2.toReschedule, now < e.1 := by
  induction l generalizing acc with
  | nil => exact h
  | cons n rest ih =>
    unfold sweep
    split_ifs with hlate
    · exact h
    · refine ih fun e he => ?_
      rcases mem_append.mp he with he | he
      · exact h e he
      · split_ifs at he with hper
        · rw [mem_singleton.mp he]
          omega
        · cases he

lemma mem_of_mem_reschedule {l : List (ℤ × TimerEntry κ)}
    (h : n ∈ (q.reschedule l).timersByExpiry_) :
    n ∈ q.timersByExpiry_ ∨ ∃ e ∈ l, n.expiry = e.1 := by
  induction l generalizing q with
  | nil => exact .inl h
  | cons e l ih =>
    rcases ih h with hn | ⟨e', he', heq⟩
    · rcases mem_insertNode.mp hn with rfl | hn
      · exact .inr ⟨e, mem_cons_self, rfl⟩
      · exact .inl hn
    · exact .inr ⟨e', mem_cons_of_mem _ he', heq⟩

lemma Ordered.lt_of_mem_processTimers (h : Ordered q)
    (hn : n ∈ (q.processTimers now).1.timersByExpiry_) : now < n.expiry := by
  rcases mem_of_mem_reschedule hn with hn | ⟨e, he, heq⟩
  · rw [sweep_later] at hn
    exact (h.mem_later.mp hn).2
  · rw [heq]
    exact lt_of_mem_toReschedule now q.timersByExpiry_ (by simp) e he

/-- An expired one-shot timer is gone.

**Proof sketch.** Ids are unique, so neither a node behind the front nor an entry that is put back
has the timer's id. -/
lemma Ordered.not_mem_ids_processTimers (h : Ordered q) (hind : Indexed q)
    (hn : n ∈ q.timersByExpiry_) (hle : n.expiry ≤ now) (hshot : n.entry.period ≤ 0) :
    n.entry.id ∉ ids (q.processTimers now).1.timersByExpiry_ := by
  have hput := (sweep_eq now q.timersByExpiry_ ⟨q.timerById_, [], []⟩).2.2
  have hsame : ∀ m ∈ q.timersByExpiry_, m.entry.id = n.entry.id → m = n := fun m hm heq =>
    inj_on_of_nodup_map hind.id_nodup hm hn heq
  intro hmem
  rcases mem_ids_reschedule hmem with hid | hid
  · obtain ⟨e, he, heq⟩ := mem_map.mp hid
    rcases hput e he with hnil | ⟨m, hm, hentry, hper⟩
    · cases hnil
    · have hmn := hsame m (h.mem_due.mp hm).1 (by rw [← hentry, heq])
      rw [hmn] at hper
      omega
  · obtain ⟨m, hm, heq⟩ := mem_map.mp hid
    rw [sweep_later] at hm
    obtain ⟨hmq, hlate⟩ := h.mem_later.mp hm
    rw [hsame m hmq heq] at hlate
    omega

lemma mem_ids_of_mem_filterMap {p : Pending κ} (h : p ∈ l.filterMap TimerNode.pending) :
    p.id ∈ ids l := by
  obtain ⟨n, hn, hp⟩ := mem_filterMap.mp h
  obtain ⟨f, -, rfl⟩ := Option.map_eq_some_iff.mp hp
  exact mem_map_of_mem hn

lemma filterMap_pending_filter (hnd : (ids l).Nodup) (hn : n ∈ l) {f : κ}
    (hf : n.entry.callback = some f) :
    (l.filterMap TimerNode.pending).filter (fun p => decide (p.id = n.entry.id)) =
      [⟨n.entry.id, f⟩] := by
  induction l with
  | nil => cases hn
  | cons m rest ih =>
    obtain ⟨hnotin, hnd'⟩ : m.entry.id ∉ ids rest ∧ (ids rest).Nodup := nodup_cons.mp hnd
    rcases mem_cons.mp hn with rfl | hn
    · have hnone : (rest.filterMap TimerNode.pending).filter
          (fun p => decide (p.id = n.entry.id)) = [] := by
        rw [filter_eq_nil_iff]
        intro p hp heq
        rw [decide_eq_true_iff] at heq
        exact hnotin (heq ▸ mem_ids_of_mem_filterMap hp)
      have hpending : n.pending = some ⟨n.entry.id, f⟩ := by simp [TimerNode.pending, hf]
      rw [filterMap_cons_some hpending, filter_cons_of_pos (by simp), hnone]
    · have hne : m.entry.id ≠ n.entry.id := fun heq =>
        hnotin (heq ▸ mem_map_of_mem hn)
      cases hc : m.entry.callback with
      | none =>
        have hpending : m.pending = none := by simp [TimerNode.pending, hc]
        rw [filterMap_cons_none hpending]
        exact ih hnd' hn
      | some g =>
        have hpending : m.pending = some ⟨m.entry.id, g⟩ := by simp [TimerNode.pending, hc]
        rw [filterMap_cons_some hpending, filter_cons_of_neg (by simpa using hne)]
        exact ih hnd' hn

end TimerQueue

/-! ### The loop with its history -/

/-- A call of `processTimers`: the reading of the clock and the expired front it found. -/
structure TimerCall (κ : Type*) where
  now : ℤ
  due : List (TimerNode κ)

def TimerCall.callbacks {κ : Type*} (c : TimerCall κ) : List (Pending κ) :=
  c.due.filterMap TimerNode.pending

/-- A timer that was added: its entry, its expiry, and how many calls had started before. -/
structure AddedTimer (κ : Type*) where
  entry : TimerEntry κ
  expiry : ℤ
  born : ℕ

structure TimerHistory (κ : Type*) where
  loop : TimerLoop κ
  /-- The calls of `processTimers`, in the order in which they started. -/
  calls : List (TimerCall κ)
  ran : ℕ → List (Pending κ)
  /-- The calls that are still executing, innermost first. -/
  opened : List ℕ
  timers : List (AddedTimer κ)

namespace TimerHistory

variable {κ : Type*}

def book (s : TimerHistory κ) : TimerLoop.Act κ → TimerHistory κ
  | .addTimer now duration callback =>
    { s with timers := s.timers ++
        [⟨⟨s.loop.nextTimerId_, callback, 0⟩, now + duration, s.calls.length⟩] }
  | .addPeriodicTimer now period callback =>
    { s with timers := s.timers ++
        [⟨⟨s.loop.nextTimerId_, callback, period⟩, now + period, s.calls.length⟩] }
  | .cancelTimer _ => s
  | .processTimers now =>
    { s with
      calls := s.calls ++ [⟨now, s.loop.due now⟩]
      opened := s.calls.length :: s.opened }
  | .invoke =>
    match s.loop.batches, s.opened with
    | (p :: _) :: _, k :: _ => { s with ran := update s.ran k (s.ran k ++ [p]) }
    | _, _ => s
  | .finish | .unwind => { s with opened := s.opened.tail }

def step (s : TimerHistory κ) (a : TimerLoop.Act κ) : Option (TimerHistory κ) :=
  match (EpollLoop.timers κ).step s.loop a with
  | none => none
  | some loop => some { s.book a with loop := loop }

def new (clock : ℤ) : TimerHistory κ where
  loop := TimerLoop.new clock
  calls := []
  ran := fun _ => []
  opened := []
  timers := []

def system (κ : Type*) : TransitionSystem (TimerHistory κ) (TimerLoop.Act κ) where
  init s := ∃ clock, s = new clock
  step := step

/-- No callback throws. -/
def NoThrow (_ : TimerLoop κ) : TimerLoop.Act κ → Prop
  | .unwind => False
  | _ => True

/-- The sums of times that the step computes fit into 64 bits. -/
def InRange (s : TimerLoop κ) : TimerLoop.Act κ → Prop
  | .addTimer now duration _ | .addPeriodicTimer now duration _ => Signed64.Fits (now + duration)
  | .processTimers now =>
    ∀ n ∈ s.timersByExpiry_, n.expiry ≤ now → Signed64.Fits (now + n.entry.period)
  | _ => True

/-- The condition on runs. -/
def Regular (s : TimerLoop κ) (a : TimerLoop.Act κ) : Prop := NoThrow s a ∧ InRange s a

instance (s : TimerLoop κ) : ∀ a, Decidable (NoThrow s a)
  | .addTimer .. | .addPeriodicTimer .. | .cancelTimer _ | .processTimers _ | .invoke | .unwind
  | .finish => by dsimp only [NoThrow]; infer_instance

instance (s : TimerLoop κ) : ∀ a, Decidable (Regular s a)
  | .addTimer .. | .addPeriodicTimer .. | .cancelTimer _ | .processTimers _ | .invoke | .unwind
  | .finish => by dsimp only [Regular, InRange]; infer_instance

variable {ok : TimerLoop κ → TimerLoop.Act κ → Prop}

/-- **Every run of the loop has a history**: the history only watches. -/
theorem exists_of_reachable {s : TimerLoop κ} (h : (EpollLoop.timers κ).ReachableWithin ok s) :
    ∃ t, (system κ).ReachableWithin (fun t => ok t.loop) t ∧ t.loop = s := by
  induction h with
  | init hi =>
    obtain ⟨clock, rfl⟩ := hi
    exact ⟨new clock, .init ⟨clock, rfl⟩, rfl⟩
  | @step s s' a _ hok hst ih =>
    obtain ⟨t, ht, rfl⟩ := ih
    refine ⟨{ t.book a with loop := s' }, ht.step hok ?_, rfl⟩
    show step t a = _
    simp only [step, hst]

variable {s : TimerHistory κ} {calls : List (TimerCall κ)}

/-- The loop of a history runs as the history says. -/
lemma loop_reachable (h : (system κ).ReachableWithin (fun t => ok t.loop) s) :
    (EpollLoop.timers κ).ReachableWithin ok s.loop := by
  refine h.invariant (I := fun s => (EpollLoop.timers κ).ReachableWithin ok s.loop) ?_ ?_
  · rintro _ ⟨clock, rfl⟩
    exact .init ⟨clock, rfl⟩
  intro s a s' hr hok hst
  simp only [system, step] at hst
  split at hst <;> cases hst
  case h_2 loop hloop =>
    exact hr.step hok hloop

/-- The first call after a timer was added that finds it expired. -/
def FirstDue (calls : List (TimerCall κ)) (r : AddedTimer κ) (k : ℕ) : Prop :=
  r.born ≤ k ∧ (∃ c, calls[k]? = some c ∧ r.expiry ≤ c.now) ∧
    ∀ (j : ℕ) c, r.born ≤ j → j < k → calls[j]? = some c → c.now < r.expiry

def Uncancelled (s : TimerHistory κ) (r : AddedTimer κ) : Prop :=
  ∀ result, .cancelled r.entry.id result ∉ s.loop.log

/-! ### Calls that are executing -/

/-- Each call has run a part of its batch, and the rest of it is the batch that is executing. -/
structure Executing (s : TimerHistory κ) : Prop where
  open_batches : List.Forall₂ (fun k batch => ∃ c, s.calls[k]? = some c ∧
    s.ran k ++ batch = c.callbacks) s.opened s.loop.batches
  nodup : s.opened.Nodup
  returned : ∀ (k : ℕ) c, s.calls[k]? = some c → k ∉ s.opened → s.ran k = c.callbacks
  unstarted : ∀ k, s.calls.length ≤ k → s.ran k = []

namespace Executing

variable {k : ℕ} {c : TimerCall κ} {rest : List (List (Pending κ))}

lemma lt_of_opened (h : Executing s) (hk : k ∈ s.opened) : k < s.calls.length := by
  obtain ⟨i, hi, rfl⟩ := List.getElem_of_mem hk
  have hi' : i < s.loop.batches.length := h.open_batches.length_eq ▸ hi
  obtain ⟨c, hc, -⟩ := h.open_batches.get hi hi'
  exact (List.getElem?_eq_some_iff.mp hc).1

lemma ran_isPrefix (h : Executing s) (hc : s.calls[k]? = some c) : s.ran k <+: c.callbacks := by
  by_cases hk : k ∈ s.opened
  · obtain ⟨i, hi, rfl⟩ := getElem_of_mem hk
    have hi' : i < s.loop.batches.length := h.open_batches.length_eq ▸ hi
    obtain ⟨c', hc', hsplit⟩ := h.open_batches.get hi hi'
    have heq : c' = c := Option.some.inj (hc'.symm.trans hc)
    rw [← heq, ← hsplit]
    exact prefix_append _ _
  · exact (h.returned k c hc hk).symm ▸ prefix_rfl

variable {loop : TimerLoop κ}

lemma congr (h : Executing s) (hbatches : loop.batches = s.loop.batches)
    (timers : List (AddedTimer κ)) : Executing { s with loop, timers } :=
  { h with open_batches := by simpa only [hbatches] using h.open_batches }

lemma start (h : Executing s) (hbatches : loop.batches = c.callbacks :: s.loop.batches) :
    Executing { s with loop, calls := s.calls ++ [c], opened := s.calls.length :: s.opened } := by
  refine ⟨?_, ?_, fun k d hd hk => ?_, fun k hk => ?_⟩
  · rw [hbatches]
    refine .cons ⟨c, getElem?_concat_length, ?_⟩ (h.open_batches.imp fun k batch => ?_)
    · rw [h.unstarted _ (Nat.le_refl _), nil_append]
    · rintro ⟨d, hd, hsplit⟩
      exact ⟨d, by rw [getElem?_append_left (List.getElem?_eq_some_iff.mp hd).1, hd], hsplit⟩
  · exact nodup_cons.mpr ⟨fun hmem => Nat.lt_irrefl _ (h.lt_of_opened hmem), h.nodup⟩
  · rw [mem_cons, not_or] at hk
    have hlt := (List.getElem?_eq_some_iff.mp hd).1
    rw [length_append, length_singleton] at hlt
    rw [getElem?_append_left (by omega)] at hd
    exact h.returned k d hd hk.2
  · rw [length_append, length_singleton] at hk
    exact h.unstarted k (by omega)

lemma invoke (h : Executing s) {p : Pending κ} {ps : List (Pending κ)} {ks : List ℕ}
    (hb : s.loop.batches = (p :: ps) :: rest) (hk : s.opened = k :: ks)
    (hbatches : loop.batches = ps :: rest) :
    Executing { s with loop, ran := update s.ran k (s.ran k ++ [p]) } := by
  have hopen := h.open_batches
  rw [hb, hk] at hopen
  obtain ⟨⟨c, hc, hsplit⟩, htail⟩ := forall₂_cons.mp hopen
  have hnd := h.nodup
  rw [hk] at hnd
  refine ⟨?_, h.nodup, fun j d hd hj => ?_, fun j hj => ?_⟩
  · rw [hbatches, hk]
    refine .cons ⟨c, hc, ?_⟩ ?_
    · simp only [update_self, append_assoc, singleton_append, hsplit]
    · have houter : ∀ j ∈ ks, j ≠ k := fun j hj heq => (nodup_cons.mp hnd).1 (heq ▸ hj)
      refine ((forall₂_and_left ks rest).mpr ⟨houter, htail⟩).imp ?_
      rintro j batch ⟨hj, d, hd, hrest⟩
      exact ⟨d, hd, by simp only [update_of_ne hj, hrest]⟩
  · have hjk : j ≠ k := fun heq => hj (by rw [hk, heq]; exact mem_cons_self)
    exact (update_of_ne hjk ..).trans (h.returned j d hd hj)
  · have hjk : j ≠ k := fun heq =>
      Nat.not_lt.mpr hj (heq ▸ (List.getElem?_eq_some_iff.mp hc).1)
    exact (update_of_ne hjk ..).trans (h.unstarted j hj)

lemma finish (h : Executing s) (hb : s.loop.batches = [] :: rest) (hbatches : loop.batches = rest) :
    Executing { s with loop, opened := s.opened.tail } := by
  have hopen := h.open_batches
  have hnd := h.nodup
  cases hk : s.opened with
  | nil =>
    simp [hb, hk] at hopen
  | cons k ks =>
    rw [hb, hk] at hopen
    rw [hk] at hnd
    obtain ⟨⟨c, hc, hsplit⟩, htail⟩ := forall₂_cons.mp hopen
    refine ⟨by rwa [hbatches], (nodup_cons.mp hnd).2, fun j d hd hj => ?_, h.unstarted⟩
    by_cases hjk : j = k
    · -- The call that returns has nothing left of its batch.
      subst hjk
      rw [← Option.some.inj (hc.symm.trans hd), ← hsplit, append_nil]
    · refine h.returned j d hd ?_
      rw [hk, mem_cons, not_or]
      exact ⟨hjk, hj⟩

end Executing

/-! ### Where a timer is -/

/-- The timer is in the multimap, and no call since it was added has found it expired. -/
structure Stored (q : TimerQueue κ) (calls : List (TimerCall κ)) (r : AddedTimer κ) : Prop where
  node : ∃ n ∈ q.timersByExpiry_, n.entry = r.entry ∧ n.expiry = r.expiry
  not_due : ∀ c ∈ calls, r.entry.id ∉ TimerQueue.ids c.due
  early : ∀ (k : ℕ) c, r.born ≤ k → calls[k]? = some c → c.now < r.expiry

/-- The timer was in the batch of the first call that found it expired, and in no other. -/
structure Fired (q : TimerQueue κ) (calls : List (TimerCall κ)) (r : AddedTimer κ) : Prop where
  gone : r.entry.id ∉ TimerQueue.ids q.timersByExpiry_
  first : ∃ k c, FirstDue calls r k ∧ calls[k]? = some c ∧ (∃ n ∈ c.due, n.entry = r.entry) ∧
    ∀ (j : ℕ) d, calls[j]? = some d → j ≠ k → r.entry.id ∉ TimerQueue.ids d.due

variable {r : AddedTimer κ} {k j : ℕ}

lemma FirstDue.concat (h : FirstDue calls r k) (c : TimerCall κ) : FirstDue (calls ++ [c]) r k := by
  obtain ⟨hborn, ⟨d, hd, hle⟩, hearly⟩ := h
  have hk := (List.getElem?_eq_some_iff.mp hd).1
  refine ⟨hborn, ⟨d, by rw [getElem?_append_left hk, hd], hle⟩, fun j e hj hlt he => ?_⟩
  rw [getElem?_append_left (by omega)] at he
  exact hearly j e hj hlt he

lemma FirstDue.unique (hk : FirstDue calls r k) (hj : FirstDue calls r j) : j = k := by
  obtain ⟨hkborn, ⟨c, hc, hcle⟩, hkearly⟩ := hk
  obtain ⟨hjborn, ⟨d, hd, hdle⟩, hjearly⟩ := hj
  rcases Nat.lt_trichotomy j k with hlt | heq | hgt
  · have := hkearly j d hjborn hlt hd
    omega
  · exact heq
  · have := hjearly k c hkborn hgt hc
    omega

lemma getElem?_concat_cases {c d : TimerCall κ} (h : (calls ++ [c])[j]? = some d) :
    calls[j]? = some d ∧ j < calls.length ∨ d = c ∧ j = calls.length := by
  rcases Nat.lt_trichotomy j calls.length with hlt | rfl | hgt
  · rw [getElem?_append_left hlt] at h
    exact .inl ⟨h, hlt⟩
  · rw [getElem?_concat_length] at h
    exact .inr ⟨(Option.some.inj h).symm, rfl⟩
  · rw [getElem?_eq_none (by simp; omega)] at h
    cases h

section

variable {q : TimerQueue κ}

lemma Stored.process (h : Stored q calls r) (hord : TimerQueue.Ordered q)
    (hind : TimerQueue.Indexed q) (hborn : r.born ≤ calls.length) (hshot : r.entry.period ≤ 0)
    (now : ℤ) :
    Stored (q.processTimers now).1 (calls ++ [⟨now, q.due now⟩]) r ∨
      Fired (q.processTimers now).1 (calls ++ [⟨now, q.due now⟩]) r := by
  obtain ⟨n, hn, hentry, hexp⟩ := h.node
  have hsame : ∀ m ∈ q.timersByExpiry_, m.entry.id = r.entry.id → m = n := fun m hm heq =>
    inj_on_of_nodup_map hind.id_nodup hm hn (by rw [heq, hentry])
  by_cases hlate : now < r.expiry
  · left
    refine ⟨⟨n, hord.mem_processTimers hn (by omega), hentry, hexp⟩, fun c hc => ?_,
      fun k c hk hc => ?_⟩
    · rcases mem_concat.mp hc with hc | rfl
      · exact h.not_due c hc
      · intro hmem
        obtain ⟨m, hm, heq⟩ := mem_map.mp hmem
        obtain ⟨hmq, hle⟩ := hord.mem_due.mp hm
        rw [hsame m hmq heq] at hle
        omega
    · rcases getElem?_concat_cases hc with ⟨hc, -⟩ | ⟨rfl, -⟩
      · exact h.early k c hk hc
      · exact hlate
  · right
    refine ⟨?_, calls.length, ⟨now, q.due now⟩, ⟨hborn, ⟨_, getElem?_concat_length, ?_⟩, ?_⟩,
      getElem?_concat_length, ⟨n, hord.mem_due.mpr ⟨hn, by omega⟩, hentry⟩, ?_⟩
    · rw [← hentry]
      exact hord.not_mem_ids_processTimers hind hn (by omega) (by rw [hentry]; exact hshot)
    · show r.expiry ≤ now
      omega
    · intro j c hj hlt hc
      rw [getElem?_append_left hlt] at hc
      exact h.early j c hj hc
    · intro j d hd hne
      rcases getElem?_concat_cases hd with ⟨hd, -⟩ | ⟨-, heq⟩
      · exact h.not_due d (mem_of_getElem? hd)
      · exact absurd heq hne

lemma Fired.process (h : Fired q calls r) (now : ℤ) :
    Fired (q.processTimers now).1 (calls ++ [⟨now, q.due now⟩]) r := by
  obtain ⟨hgone, k, c, hfirst, hc, hdue, hother⟩ := h
  have hk := (List.getElem?_eq_some_iff.mp hc).1
  refine ⟨fun hmem => hgone (TimerQueue.mem_ids_of_processTimers _ now (.inl hmem)), k, c,
    hfirst.concat _, by rw [getElem?_append_left hk, hc], hdue, fun j d hd hne => ?_⟩
  rcases getElem?_concat_cases hd with ⟨hd, -⟩ | ⟨rfl, -⟩
  · exact hother j d hd hne
  · exact fun hmem => hgone (((q.due_sublist now).map _).subset hmem)

end

/-- What the history records of a queue, its calls, its timers and its log. -/
structure Recorded (s : TimerHistory κ) : Prop where
  ordered : TimerQueue.Ordered s.loop.toTimerQueue
  /-- A batch is in order, expired, and of different timers that were added. -/
  batches : ∀ c ∈ s.calls, c.due.Pairwise TimerQueue.Before ∧ (∀ n ∈ c.due, n.expiry ≤ c.now) ∧
    (TimerQueue.ids c.due).Nodup ∧ ∀ n ∈ c.due, n.entry.id < s.loop.nextTimerId_
  added : ∀ r ∈ s.timers, r.entry.id < s.loop.nextTimerId_ ∧ r.born ≤ s.calls.length
  /-- A timer is in no batch of a call that started before the timer was added. -/
  late : ∀ r ∈ s.timers, ∀ (k : ℕ) c, s.calls[k]? = some c → k < r.born →
    r.entry.id ∉ TimerQueue.ids c.due
  tracked : ∀ r ∈ s.timers, r.entry.period ≤ 0 → Uncancelled s r →
    Stored s.loop.toTimerQueue s.calls r ∨ Fired s.loop.toTimerQueue s.calls r

namespace Recorded

lemma congr (h : Recorded s) {loop : TimerLoop κ} (hqueue : loop.toTimerQueue = s.loop.toTimerQueue)
    (hlog : s.loop.log ⊆ loop.log) (ran : ℕ → List (Pending κ)) (opened : List ℕ) :
    Recorded { s with loop, ran, opened } := by
  refine ⟨?_, ?_, ?_, h.late, fun r hr hshot hun => ?_⟩ <;> rw [hqueue]
  exacts [h.ordered, h.batches, h.added,
    h.tracked r hr hshot fun result hmem => hun result (hlog hmem)]

lemma add (h : Recorded s) {now duration : ℤ} (hfits : Signed64.Fits (now + duration))
    (callback : Option κ) (period now' : ℤ) : Recorded { s with
      loop := s.loop.added now' (s.loop.add now duration callback period)
      timers := s.timers ++ [⟨⟨s.loop.nextTimerId_, callback, period⟩, now + duration,
        s.calls.length⟩] } := by
  refine ⟨h.ordered.add now duration callback period, fun c hc => ?_, fun r hr => ?_,
    fun r hr k c hc hk => ?_, fun r hr hshot hun => ?_⟩
  · obtain ⟨hsorted, hexp, hnd, hlt⟩ := h.batches c hc
    exact ⟨hsorted, hexp, hnd, fun n hn => Nat.lt_succ_of_lt (hlt n hn)⟩
  · rcases mem_concat.mp hr with hr | rfl
    · exact ⟨Nat.lt_succ_of_lt (h.added r hr).1, (h.added r hr).2⟩
    · exact ⟨Nat.lt_succ_self _, Nat.le_refl _⟩
  · rcases mem_concat.mp hr with hr | hr
    · exact h.late r hr k c hc hk
    · -- The new timer has a number that no batch has seen.
      rw [hr]
      intro hmem
      obtain ⟨n, hn, heq⟩ := mem_map.mp hmem
      have hlt := (h.batches c (mem_of_getElem? hc)).2.2.2 n hn
      exact absurd heq (Nat.ne_of_lt hlt)
  · rcases mem_concat.mp hr with hr | rfl
    · have hne := Nat.ne_of_lt (h.added r hr).1
      rcases h.tracked r hr hshot fun result hmem => hun result (mem_append_left _ hmem) with
        ⟨⟨n, hn, hentry⟩, hdue, hearly⟩ | ⟨hgone, hfirst⟩
      · exact .inl ⟨⟨n, TimerQueue.mem_insertNode.mpr (.inr hn), hentry⟩, hdue, hearly⟩
      · refine .inr ⟨fun hmem => ?_, hfirst⟩
        rcases (TimerQueue.mem_ids_emplace _ _ _ _).mp hmem with heq | hmem
        · exact hne heq
        · exact hgone hmem
    · refine .inl ⟨⟨_, TimerQueue.mem_insertNode.mpr (.inl rfl), rfl, Signed64.wrap_of_fits hfits⟩,
        fun c hc hmem => ?_, fun k c hk hc => ?_⟩
      · obtain ⟨n, hn, heq⟩ := mem_map.mp hmem
        exact absurd heq (Nat.ne_of_lt ((h.batches c hc).2.2.2 n hn))
      · have hlt := (List.getElem?_eq_some_iff.mp hc).1
        exact absurd hlt (Nat.not_lt.mpr hk)

lemma cancel (h : Recorded s) (hind : s.loop.Indexed) (timerId : ℕ) :
    Recorded { s with loop := { s.loop with
      toTimerQueue := (s.loop.cancelTimer timerId).1
      log := s.loop.log ++ [.cancelled timerId (s.loop.cancelTimer timerId).2] } } := by
  have hnext := TimerQueue.nextTimerId_cancelTimer s.loop.toTimerQueue timerId
  refine ⟨h.ordered.cancelTimer timerId, fun c hc => ?_, fun r hr => ?_, h.late,
    fun r hr hshot hun => ?_⟩
  · rw [hnext]
    exact h.batches c hc
  · rw [hnext]
    exact h.added r hr
  · have hne : r.entry.id ≠ timerId := by
      intro heq
      refine hun (s.loop.cancelTimer timerId).2 (mem_append_right _ ?_)
      rw [heq]
      exact mem_singleton_self _
    rcases h.tracked r hr hshot fun result hmem => hun result (mem_append_left _ hmem) with
      ⟨⟨n, hn, hentry, hexp⟩, hdue, hearly⟩ | ⟨hgone, hfirst⟩
    · refine .inl ⟨⟨n, (hind.mem_cancelTimer timerId n).mpr ⟨hn, ?_⟩, hentry, hexp⟩, hdue, hearly⟩
      rw [hentry]
      exact hne
    · refine .inr ⟨fun hmem => hgone ?_, hfirst⟩
      obtain ⟨n, hn, heq⟩ := mem_map.mp hmem
      exact mem_map.mpr ⟨n, ((hind.mem_cancelTimer timerId n).mp hn).1, heq⟩

lemma process (h : Recorded s) (hind : s.loop.Indexed) (now : ℤ)
    (clock : ℤ) (batches : List (List (Pending κ))) (opened : List ℕ) :
    Recorded { s with
      loop := ⟨(s.loop.toTimerQueue.processTimers now).1, clock, batches, s.loop.log⟩
      calls := s.calls ++ [⟨now, s.loop.due now⟩]
      opened } := by
  have hnext := TimerQueue.nextTimerId_processTimers s.loop.toTimerQueue now
  have hsub := s.loop.due_sublist now
  refine ⟨h.ordered.processTimers now, fun c hc => ?_, fun r hr => ?_, fun r hr k c hc hk => ?_,
    fun r hr hshot hun => ?_⟩
  · rw [hnext]
    rcases mem_concat.mp hc with hc | rfl
    · exact h.batches c hc
    · exact ⟨h.ordered.sorted.sublist hsub, fun n hn => (h.ordered.mem_due.mp hn).2,
        hind.id_nodup.sublist (hsub.map _), fun n hn => hind.id_lt n (hsub.subset hn)⟩
  · rw [hnext, length_append]
    exact ⟨(h.added r hr).1, Nat.le_add_right_of_le (h.added r hr).2⟩
  · rcases getElem?_concat_cases hc with ⟨hc, -⟩ | ⟨-, rfl⟩
    · exact h.late r hr k c hc hk
    · exact absurd (h.added r hr).2 (Nat.not_le.mpr hk)
  · rcases h.tracked r hr hshot hun with hstored | hfired
    · exact hstored.process h.ordered hind (h.added r hr).2 hshot now
    · exact .inr (hfired.process now)

end Recorded

lemma sound_step {s' : TimerHistory κ} {a : TimerLoop.Act κ} (hind : s.loop.Indexed)
    (hrec : Recorded s) (hexec : Executing s) (hok : Regular s.loop a) (hst : step s a = some s') :
    Recorded s' ∧ Executing s' := by
  simp only [step] at hst
  split at hst <;> cases hst
  case h_2 loop hloop =>
    cases TimerLoop.move_of_step hloop with
    | addTimer | addPeriodicTimer => exact ⟨hrec.add hok.2 _ _ _, hexec.congr (by rfl) _⟩
    | cancelTimer timerId => exact ⟨hrec.cancel hind timerId, hexec.congr (by rfl) _⟩
    | processTimers now =>
      refine ⟨hrec.process hind now _ _ _, hexec.start ?_⟩
      simpa [TimerCall.callbacks] using TimerQueue.processTimers_batch s.loop.toTimerQueue now
    | @invoke p ps rest hb =>
      have hopen := hexec.open_batches
      cases hk : s.opened with
      | nil =>
        simp [hb, hk] at hopen
      | cons k ks =>
        have hbook : s.book .invoke = { s with ran := update s.ran k (s.ran k ++ [p]) } := by
          simp only [book, hb, hk]
        rw [hbook]
        exact ⟨hrec.congr (by rfl) (subset_append_left _ _) _ _, hexec.invoke hb hk (by rfl)⟩
    | finish hb => exact ⟨hrec.congr (by rfl) (by simp) _ _, hexec.finish hb (by rfl)⟩
    | unwind => exact absurd hok.1 id

/-- Every history without exceptions is recorded and executed as its calls say. -/
theorem sound_of_reachable (h : (system κ).ReachableWithin (fun s => Regular s.loop) s) :
    Recorded s ∧ Executing s := by
  refine TransitionSystem.ReachableWithin.invariant_of (I := fun s => Recorded s ∧ Executing s)
    (J := fun s : TimerHistory κ => s.loop.Indexed)
    (fun _ hr => TimerLoop.indexed_of_reachable (loop_reachable hr)) h ?_ ?_
  · rintro _ ⟨clock, rfl⟩
    refine ⟨⟨⟨List.Pairwise.nil, ?_⟩, ?_, ?_, ?_, ?_⟩, .nil, nodup_nil, ?_, fun _ _ => rfl⟩
    · simp [new, TimerLoop.new, TimerQueue.new]
    all_goals simp [new]
  · intro s a s' hind hs hok hst
    exact sound_step hind hs.1 hs.2 hok hst

end TimerHistory

/-- **Timers fire exactly once, never early and in order**, in every run in which no callback
throws and the sums of times fit into 64 bits; callbacks may add and cancel timers and run the loop
again.

A one-shot timer with a callback that was never cancelled runs in the first call after it was
added that reads a clock at or after its expiry, and in no other call: there its callback is run
at most once while the call executes, and once when it has returned. Each call runs the callbacks
of its expired front from first to last, in the order of expiry and of insertion for equal
expiries; none of them is early; and none belongs to a timer that was added after the call had
started. -/
theorem timers_fire_once_in_order {κ : Type*} {s : TimerHistory κ}
    (h : (TimerHistory.system κ).ReachableWithin (fun s => TimerHistory.Regular s.loop) s) :
    (∀ r ∈ s.timers, r.entry.period ≤ 0 → s.Uncancelled r → ∀ f, r.entry.callback = some f →
      ∀ (k : ℕ) c, s.calls[k]? = some c →
        (TimerHistory.FirstDue s.calls r k →
          ((s.ran k).filter fun p => decide (p.id = r.entry.id)).length ≤ 1 ∧
          (k ∉ s.opened →
            ((s.ran k).filter fun p => decide (p.id = r.entry.id)) = [⟨r.entry.id, f⟩])) ∧
        (¬ TimerHistory.FirstDue s.calls r k → ∀ p ∈ s.ran k, p.id ≠ r.entry.id)) ∧
    (∀ (k : ℕ) c, s.calls[k]? = some c →
      s.ran k <+: c.callbacks ∧ (k ∉ s.opened → s.ran k = c.callbacks) ∧
      c.due.Pairwise TimerQueue.Before ∧ (∀ n ∈ c.due, n.expiry ≤ c.now) ∧
      ∀ r ∈ s.timers, k < r.born → ∀ p ∈ s.ran k, p.id ≠ r.entry.id) := by
  obtain ⟨hrec, hexec⟩ := TimerHistory.sound_of_reachable h
  have hmem : ∀ (k : ℕ) c, s.calls[k]? = some c → ∀ p ∈ s.ran k, p.id ∈ TimerQueue.ids c.due :=
    fun k c hc p hp => TimerQueue.mem_ids_of_mem_filterMap ((hexec.ran_isPrefix hc).subset hp)
  refine ⟨fun r hr hshot hun f hf k c hc => ?_, fun k c hc => ?_⟩
  · rcases hrec.tracked r hr hshot hun with
      hstored | ⟨-, k', c', hfirst, hc', ⟨n, hn, hentry⟩, hother⟩
    · refine ⟨fun hfirst => ?_, fun _ p hp heq => ?_⟩
      · obtain ⟨hborn, ⟨d, hd, hle⟩, -⟩ := hfirst
        have := hstored.early k d hborn hd
        omega
      · exact hstored.not_due c (mem_of_getElem? hc) (heq ▸ hmem k c hc p hp)
    · refine ⟨fun hk => ?_, fun hnot p hp heq => ?_⟩
      · obtain rfl := hfirst.unique hk
        obtain rfl := Option.some.inj (hc'.symm.trans hc)
        have honce : c'.callbacks.filter (fun p => decide (p.id = r.entry.id)) =
            [⟨r.entry.id, f⟩] := by
          rw [← hentry] at hf ⊢
          exact TimerQueue.filterMap_pending_filter
            (hrec.batches c' (mem_of_getElem? hc)).2.2.1 hn hf
        refine ⟨?_, fun hreturned => by rw [hexec.returned _ _ hc hreturned, honce]⟩
        have hle := ((hexec.ran_isPrefix hc).sublist.filter
          fun p => decide (p.id = r.entry.id)).length_le
        rwa [honce] at hle
      · have hne : k ≠ k' := fun heq => hnot (heq ▸ hfirst)
        exact hother k c hc hne (heq ▸ hmem k c hc p hp)
  · obtain ⟨hsorted, hexp, -, -⟩ := hrec.batches c (mem_of_getElem? hc)
    refine ⟨hexec.ran_isPrefix hc, hexec.returned k c hc, hsorted, hexp, fun r hr hk p hp heq => ?_⟩
    exact hrec.late r hr k c hc hk (heq ▸ hmem k c hc p hp)

/-- Two timers expire at `10`; the callback of the first adds one that is due at once. It runs in
the call after, and the first timer runs once. -/
theorem timers_fire_once_in_order_nested : ∃ s : TimerHistory Unit,
    (TimerHistory.system Unit).ReachableWithin (fun s => TimerHistory.Regular s.loop) s ∧
      ((s.ran 0).map Pending.id = [1, 2] ∧ (s.ran 1).map Pending.id = [3]) ∧
      ∀ r ∈ s.timers, r.entry.period ≤ 0 → s.Uncancelled r → ∀ f, r.entry.callback = some f →
        ∀ (k : ℕ) c, s.calls[k]? = some c →
          ¬ TimerHistory.FirstDue s.calls r k → ∀ p ∈ s.ran k, p.id ≠ r.entry.id := by
  have hs : (TimerHistory.system Unit).ReachableWithin (fun s => TimerHistory.Regular s.loop) _ :=
    .final (TimerHistory.new 0)
      [.addTimer 0 10 (some ()), .addTimer 0 10 (some ()), .processTimers 10, .invoke,
        .addTimer 10 0 (some ()), .invoke, .finish, .processTimers 10, .invoke, .finish] ⟨0, rfl⟩
      (by decide)
  exact ⟨_, hs, by decide, fun r hr hshot hun f hf k c hc =>
    ((timers_fire_once_in_order hs).1 r hr hshot hun f hf k c hc).2⟩

/-- **A timer runs early**: a one-shot timer that is added at `10` with the longest duration runs
in the first call, which reads `10`. -/
theorem timer_fires_early : ∃ s : TimerHistory Unit,
    (TimerHistory.system Unit).ReachableWithin (fun s => TimerHistory.NoThrow s.loop) s ∧
      s.timers.map (fun r => (r.entry.id, r.expiry)) = [(1, 10 + (2 ^ 63 - 1))] ∧
      s.calls.map TimerCall.now = [10] ∧ (s.ran 0).map Pending.id = [1] := by
  refine ⟨_, .final (TimerHistory.new 0)
    [.addTimer 10 (2 ^ 63 - 1) (some ()), .processTimers 10, .invoke] ⟨0, rfl⟩ ?_, ?_⟩ <;> decide

end Pman
