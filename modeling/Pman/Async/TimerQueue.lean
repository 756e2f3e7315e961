import Mathlib.Data.Int.Order.Basic
import Mathlib.Data.List.Nodup
import Pman.Lib.Signed64
import Pman.Lib.TransitionSystem

set_option autoImplicit false

/-!
# The timers of the event loops

`EpollLoop` and `IoUringLoop` keep their timers in a multimap from expiry to timer entry and an
index from timer id to the multimap's iterator. `processTimers` first sweeps the expired entries
into a batch, puts the periodic ones back with a new expiry, and only then runs the callbacks of the
batch. A callback may add and cancel timers and may run the loop again, so batches nest.

An iterator is modelled by the address of the node it points to. Clock readings and durations are
integers; ids are natural numbers.
-/

namespace Pman

open List Function

/-- A timer as the loops store it; an empty `std::function` is `none`, period zero is a one-shot
timer. -/
structure TimerEntry (κ : Type*) where
  id : ℕ
  callback : Option κ
  period : ℤ

structure TimerNode (κ : Type*) where
  addr : ℕ
  expiry : ℤ
  entry : TimerEntry κ

/-- A callback that waits in a batch, with the id of the timer it was copied from. -/
structure Pending (κ : Type*) where
  id : ℕ
  callback : κ

structure TimerQueue (κ : Type*) where
  timersByExpiry_ : List (TimerNode κ)
  timerById_ : ℕ → Option ℕ
  nextTimerId_ : ℕ
  nextNode : ℕ

namespace TimerQueue

variable {κ : Type*}

def new : TimerQueue κ where
  timersByExpiry_ := []
  timerById_ := fun _ => none
  nextTimerId_ := 1
  nextNode := 0

def insertNode (node : TimerNode κ) : List (TimerNode κ) → List (TimerNode κ)
  | [] => [node]
  | n :: rest => if node.expiry < n.expiry then node :: n :: rest else n :: insertNode node rest

/-- `timersByExpiry_.emplace` and the entry of the index. -/
def emplace (q : TimerQueue κ) (expiry : ℤ) (entry : TimerEntry κ) : TimerQueue κ :=
  { q with
    timersByExpiry_ := insertNode ⟨q.nextNode, expiry, entry⟩ q.timersByExpiry_
    timerById_ := update q.timerById_ entry.id (some q.nextNode)
    nextNode := q.nextNode + 1 }

/-- The common part of `addTimer` and `addPeriodicTimer`; the expiry is a 64-bit sum. -/
def add (q : TimerQueue κ) (now duration : ℤ) (callback : Option κ) (period : ℤ) :
    TimerQueue κ × ℕ :=
  let id := q.nextTimerId_
  let q := { q with nextTimerId_ := q.nextTimerId_ + 1 }
  (q.emplace (Signed64.wrap (now + duration)) ⟨id, callback, period⟩, id)

def addTimer (q : TimerQueue κ) (now duration : ℤ) (callback : Option κ) : TimerQueue κ × ℕ :=
  q.add now duration callback 0

def addPeriodicTimer (q : TimerQueue κ) (now period : ℤ) (callback : Option κ) :
    TimerQueue κ × ℕ :=
  q.add now period callback period

def cancelTimer (q : TimerQueue κ) (timerId : ℕ) : TimerQueue κ × Bool :=
  match q.timerById_ timerId with
  | none => (q, false)
  | some addr =>
    ({ q with
      timersByExpiry_ := q.timersByExpiry_.filter fun n => n.addr ≠ addr
      timerById_ := update q.timerById_ timerId none }, true)

structure Sweep (κ : Type*) where
  timerById_ : ℕ → Option ℕ
  toReschedule : List (ℤ × TimerEntry κ)
  batch : List (Pending κ)

def Sweep.collect (acc : Sweep κ) (now : ℤ) (entry : TimerEntry κ) : Sweep κ where
  timerById_ := update acc.timerById_ entry.id none
  toReschedule := acc.toReschedule ++
    if 0 < entry.period then [(now + entry.period, entry)] else []
  batch := acc.batch ++ entry.callback.toList.map fun callback => ⟨entry.id, callback⟩

/-- The sweep: from the earliest node to the first one that is not expired. -/
def sweep (now : ℤ) : List (TimerNode κ) → Sweep κ → List (TimerNode κ) × Sweep κ
  | [], acc => ([], acc)
  | n :: rest, acc =>
    if now < n.expiry then (n :: rest, acc) else sweep now rest (acc.collect now n.entry)

def reschedule (q : TimerQueue κ) (toReschedule : List (ℤ × TimerEntry κ)) : TimerQueue κ :=
  toReschedule.foldl (fun q e => q.emplace e.1 e.2) q

/-- `processTimers` up to the execution of its batch, which is the second component. -/
def processTimers (q : TimerQueue κ) (now : ℤ) : TimerQueue κ × List (Pending κ) :=
  match sweep now q.timersByExpiry_ ⟨q.timerById_, [], []⟩ with
  | (rest, acc) =>
    ({ q with timersByExpiry_ := rest, timerById_ := acc.timerById_ }.reschedule acc.toReschedule,
      acc.batch)

/-! ### The index agrees with the multimap -/

def ids (l : List (TimerNode κ)) : List ℕ := l.map fun n => n.entry.id

/-- `timerById_` is a bijection between the ids of the entries and the entries. -/
structure Indexed (q : TimerQueue κ) : Prop where
  addr_nodup : (q.timersByExpiry_.map TimerNode.addr).Nodup
  addr_lt : ∀ n ∈ q.timersByExpiry_, n.addr < q.nextNode
  id_nodup : (ids q.timersByExpiry_).Nodup
  id_lt : ∀ n ∈ q.timersByExpiry_, n.entry.id < q.nextTimerId_
  byId : ∀ id addr, q.timerById_ id = some addr ↔
    ∃ n ∈ q.timersByExpiry_, n.entry.id = id ∧ n.addr = addr

lemma insertNode_perm (node : TimerNode κ) (l : List (TimerNode κ)) :
    (insertNode node l).Perm (node :: l) := by
  induction l with
  | nil => exact .refl _
  | cons n rest ih =>
    unfold insertNode
    split_ifs with h
    · exact .refl _
    · exact (ih.cons n).trans (.swap _ _ _)

variable {n : TimerNode κ} {l : List (TimerNode κ)} {acc : Sweep κ} {id : ℕ}

lemma mem_insertNode {node : TimerNode κ} : n ∈ insertNode node l ↔ n = node ∨ n ∈ l := by
  rw [(insertNode_perm node l).mem_iff, mem_cons]

lemma mem_ids_emplace (q : TimerQueue κ) (expiry : ℤ) (entry : TimerEntry κ) (id : ℕ) :
    id ∈ ids (q.emplace expiry entry).timersByExpiry_ ↔
      id = entry.id ∨ id ∈ ids q.timersByExpiry_ := by
  unfold ids emplace
  rw [((insertNode_perm _ _).map _).mem_iff, map_cons, mem_cons]

variable {q : TimerQueue κ}

lemma Indexed.emplace (h : Indexed q) {expiry : ℤ} {entry : TimerEntry κ}
    (hid : entry.id ∉ ids q.timersByExpiry_) (hlt : entry.id < q.nextTimerId_) :
    Indexed (q.emplace expiry entry) := by
  have hperm := insertNode_perm ⟨q.nextNode, expiry, entry⟩ q.timersByExpiry_
  refine ⟨?_, ?_, ?_, ?_, ?_⟩
  · refine (hperm.map _).nodup_iff.mpr (nodup_cons.mpr ⟨fun hmem => ?_, h.addr_nodup⟩)
    obtain ⟨n, hn, heq⟩ := mem_map.mp hmem
    exact absurd heq (Nat.ne_of_lt (h.addr_lt n hn))
  · intro n hn
    rcases mem_insertNode.mp hn with rfl | hn
    · exact Nat.lt_succ_self _
    · exact Nat.lt_succ_of_lt (h.addr_lt n hn)
  · exact (hperm.map _).nodup_iff.mpr (nodup_cons.mpr ⟨hid, h.id_nodup⟩)
  · intro n hn
    rcases mem_insertNode.mp hn with rfl | hn
    · exact hlt
    · exact h.id_lt n hn
  · intro id addr
    show update q.timerById_ entry.id (some q.nextNode) id = some addr ↔
      ∃ n ∈ insertNode ⟨q.nextNode, expiry, entry⟩ q.timersByExpiry_, _
    by_cases heq : id = entry.id
    · subst heq
      rw [update_self]
      constructor
      · intro hsome
        exact ⟨_, mem_insertNode.mpr (.inl rfl), rfl, Option.some.inj hsome⟩
      · rintro ⟨n, hn, hnid, rfl⟩
        rcases mem_insertNode.mp hn with rfl | hn
        · rfl
        · exact absurd (mem_map.mpr ⟨n, hn, hnid⟩) hid
    · rw [update_of_ne heq, h.byId]
      constructor
      · rintro ⟨n, hn, hnid⟩
        exact ⟨n, mem_insertNode.mpr (.inr hn), hnid⟩
      · rintro ⟨n, hn, hnid⟩
        rcases mem_insertNode.mp hn with rfl | hn
        · exact absurd hnid.1.symm heq
        · exact ⟨n, hn, hnid⟩

lemma Indexed.add (h : Indexed q) (now duration : ℤ) (callback : Option κ) (period : ℤ) :
    Indexed (q.add now duration callback period).1 := by
  have hbump : Indexed { q with nextTimerId_ := q.nextTimerId_ + 1 } :=
    { h with id_lt := fun n hn => Nat.lt_succ_of_lt (h.id_lt n hn) }
  refine hbump.emplace (fun hmem => ?_) (Nat.lt_succ_self _)
  obtain ⟨n, hn, heq⟩ := mem_map.mp hmem
  exact absurd heq (Nat.ne_of_lt (h.id_lt n hn))

lemma Indexed.mem_cancelTimer (h : Indexed q) (timerId : ℕ) (n : TimerNode κ) :
    n ∈ (q.cancelTimer timerId).1.timersByExpiry_ ↔
      n ∈ q.timersByExpiry_ ∧ n.entry.id ≠ timerId := by
  unfold cancelTimer
  cases hid : q.timerById_ timerId with
  | none =>
    refine ⟨fun hn => ⟨hn, fun heq => ?_⟩, fun hn => hn.1⟩
    have := (h.byId timerId n.addr).mpr ⟨n, hn, heq, rfl⟩
    simp [hid] at this
  | some addr =>
    obtain ⟨m, hm, hmid, hmaddr⟩ := (h.byId timerId addr).mp hid
    simp only [mem_filter, decide_eq_true_eq, ne_eq]
    refine and_congr_right fun hn => not_congr ⟨fun heq => ?_, fun heq => ?_⟩
    · have : n = m := inj_on_of_nodup_map h.addr_nodup hn hm (heq.trans hmaddr.symm)
      rw [this, hmid]
    · have : n = m := inj_on_of_nodup_map h.id_nodup hn hm (heq.trans hmid.symm)
      rw [this, hmaddr]

lemma cancelTimer_sublist (q : TimerQueue κ) (timerId : ℕ) :
    (q.cancelTimer timerId).1.timersByExpiry_.Sublist q.timersByExpiry_ := by
  unfold cancelTimer
  cases q.timerById_ timerId with
  | none => exact .refl _
  | some addr => exact filter_sublist

lemma Indexed.cancelTimer (h : Indexed q) (timerId : ℕ) : Indexed (q.cancelTimer timerId).1 := by
  have hmem := h.mem_cancelTimer timerId
  have hsub := q.cancelTimer_sublist timerId
  have hnext : (q.cancelTimer timerId).1.nextNode = q.nextNode ∧
      (q.cancelTimer timerId).1.nextTimerId_ = q.nextTimerId_ := by
    unfold TimerQueue.cancelTimer
    cases q.timerById_ timerId <;> exact ⟨rfl, rfl⟩
  have hbyId : ∀ id, (q.cancelTimer timerId).1.timerById_ id =
      if id = timerId then none else q.timerById_ id := by
    intro id
    unfold TimerQueue.cancelTimer
    cases hid : q.timerById_ timerId with
    | none =>
      split_ifs with heq
      · rw [heq, hid]
      · rfl
    | some addr => exact update_apply _ _ _ _
  refine ⟨h.addr_nodup.sublist (hsub.map _), fun n hn => ?_, h.id_nodup.sublist (hsub.map _),
    fun n hn => ?_, fun id addr => ?_⟩
  · rw [hnext.1]
    exact h.addr_lt n (hsub.subset hn)
  · rw [hnext.2]
    exact h.id_lt n (hsub.subset hn)
  · rw [hbyId]
    split_ifs with heq
    · refine ⟨nofun, fun hex => ?_⟩
      obtain ⟨n, hn, hnid, -⟩ := hex
      exact absurd (hnid.trans heq) ((hmem n).mp hn).2
    · rw [h.byId]
      refine exists_congr fun n => ?_
      rw [hmem, and_assoc]
      refine and_congr_right fun _ => ⟨fun hn => ⟨hn.1 ▸ heq, hn⟩, fun hn => hn.2⟩

def rescheduleIds (l : List (ℤ × TimerEntry κ)) : List ℕ := l.map fun e => e.2.id

/-- The sweep so far: the index agrees with what is left of the multimap, and what is to be put
back has ids of its own. -/
structure Swept (q : TimerQueue κ) (rest : List (TimerNode κ)) (acc : Sweep κ) : Prop where
  indexed : Indexed { q with timersByExpiry_ := rest, timerById_ := acc.timerById_ }
  nodup : (rescheduleIds acc.toReschedule ++ ids rest).Nodup
  lt : ∀ e ∈ acc.toReschedule, e.2.id < q.nextTimerId_

variable {rest : List (TimerNode κ)}

lemma Indexed.tail {byId : ℕ → Option ℕ}
    (h : Indexed { q with timersByExpiry_ := n :: rest, timerById_ := byId }) :
    Indexed { q with
      timersByExpiry_ := rest
      timerById_ := update byId n.entry.id none } := by
  have hnd := nodup_cons.mp h.id_nodup
  refine ⟨(nodup_cons.mp h.addr_nodup).2, fun m hm => h.addr_lt m (mem_cons_of_mem _ hm),
    hnd.2, fun m hm => h.id_lt m (mem_cons_of_mem _ hm), fun id addr => ?_⟩
  show update byId n.entry.id none id = some addr ↔
    ∃ m ∈ rest, m.entry.id = id ∧ m.addr = addr
  by_cases heq : id = n.entry.id
  · subst heq
    rw [update_self]
    refine ⟨nofun, fun hex => ?_⟩
    obtain ⟨m, hm, hmid, -⟩ := hex
    exact absurd (mem_map.mpr ⟨m, hm, hmid⟩) hnd.1
  · rw [update_of_ne heq]
    refine (h.byId id addr).trans ⟨fun hex => ?_, fun hex => ?_⟩
    · obtain ⟨m, hm, hmid⟩ := hex
      rcases mem_cons.mp hm with rfl | hm
      · exact absurd hmid.1.symm heq
      · exact ⟨m, hm, hmid⟩
    · obtain ⟨m, hm, hmid⟩ := hex
      exact ⟨m, mem_cons_of_mem _ hm, hmid⟩

lemma Swept.collect (h : Swept q (n :: rest) acc) (now : ℤ) :
    Swept q rest (acc.collect now n.entry) := by
  have hlt : n.entry.id < q.nextTimerId_ := h.indexed.id_lt n mem_cons_self
  refine ⟨h.indexed.tail, ?_, ?_⟩
  · unfold Sweep.collect
    have hnd := h.nodup
    split_ifs with hper
    · simpa [rescheduleIds, ids] using hnd
    · rw [append_nil]
      exact hnd.sublist ((List.Sublist.refl _).append (sublist_cons_self _ _))
  · intro e he
    rcases mem_append.mp he with he | he
    · exact h.lt e he
    · split_ifs at he with hper
      · rw [mem_singleton.mp he]
        exact hlt
      · cases he

lemma Swept.sweep (now : ℤ) (h : Swept q l acc) :
    Swept q (sweep now l acc).1 (sweep now l acc).2 := by
  induction l generalizing acc with
  | nil => exact h
  | cons n rest ih =>
    unfold TimerQueue.sweep
    split_ifs with hlate
    · exact h
    · exact ih (h.collect now)

lemma Indexed.reschedule (h : Indexed q) {l : List (ℤ × TimerEntry κ)}
    (hnd : (rescheduleIds l ++ ids q.timersByExpiry_).Nodup)
    (hlt : ∀ e ∈ l, e.2.id < q.nextTimerId_) : Indexed (q.reschedule l) := by
  induction l generalizing q with
  | nil => exact h
  | cons e l ih =>
    obtain ⟨hnotin, hnd'⟩ : e.2.id ∉ rescheduleIds l ++ ids q.timersByExpiry_ ∧
        (rescheduleIds l ++ ids q.timersByExpiry_).Nodup := nodup_cons.mp hnd
    rw [mem_append, not_or] at hnotin
    refine ih (h.emplace hnotin.2 (hlt e mem_cons_self)) ?_
      fun x hx => hlt x (mem_cons_of_mem _ hx)
    rw [nodup_append] at hnd' ⊢
    refine ⟨hnd'.1, (h.emplace hnotin.2 (hlt e mem_cons_self)).id_nodup, fun a ha b hb => ?_⟩
    rcases (mem_ids_emplace _ _ _ _).mp hb with rfl | hb
    · exact fun heq => hnotin.1 (heq ▸ ha)
    · exact hnd'.2.2 a ha b hb

lemma Indexed.processTimers (h : Indexed q) (now : ℤ) : Indexed (q.processTimers now).1 := by
  have hswept : Swept q q.timersByExpiry_ ⟨q.timerById_, [], []⟩ :=
    ⟨h, by simpa [rescheduleIds] using h.id_nodup, by simp⟩
  have h' := hswept.sweep now
  exact h'.indexed.reschedule h'.nodup h'.lt

/-! ### Which ids a call can involve -/

/-- The ids that occur in a sweep: left in the multimap, to be put back, or in the batch. -/
def Sweep.Has (rest : List (TimerNode κ)) (acc : Sweep κ) (id : ℕ) : Prop :=
  id ∈ ids rest ∨ id ∈ rescheduleIds acc.toReschedule ∨ id ∈ acc.batch.map Pending.id

lemma Sweep.has_of_sweep (now : ℤ) (h : Sweep.Has (sweep now l acc).1 (sweep now l acc).2 id) :
    Sweep.Has l acc id := by
  induction l generalizing acc with
  | nil => exact h
  | cons n rest ih =>
    unfold TimerQueue.sweep at h
    split_ifs at h with hlate
    · exact h
    · rcases ih h with hid | hid | hid
      · exact .inl (mem_cons_of_mem _ hid)
      · unfold collect rescheduleIds at hid
        rw [map_append, mem_append] at hid
        rcases hid with hid | hid
        · exact .inr (.inl hid)
        · split_ifs at hid with hper
          · exact .inl (by rw [mem_singleton.mp hid]; exact mem_cons_self)
          · cases hid
      · unfold collect at hid
        rw [map_append, mem_append] at hid
        rcases hid with hid | hid
        · exact .inr (.inr hid)
        · obtain ⟨p, hp, rfl⟩ := mem_map.mp hid
          obtain ⟨f, -, rfl⟩ := mem_map.mp hp
          exact .inl mem_cons_self

lemma mem_ids_reschedule {l : List (ℤ × TimerEntry κ)}
    (h : id ∈ ids (q.reschedule l).timersByExpiry_) :
    id ∈ rescheduleIds l ∨ id ∈ ids q.timersByExpiry_ := by
  induction l generalizing q with
  | nil => exact .inr h
  | cons e l ih =>
    rcases ih h with hid | hid
    · exact .inl (mem_cons_of_mem _ hid)
    · rcases (mem_ids_emplace _ _ _ _).mp hid with rfl | hid
      · exact .inl mem_cons_self
      · exact .inr hid

lemma mem_ids_of_processTimers (q : TimerQueue κ) (now : ℤ)
    (h : id ∈ ids (q.processTimers now).1.timersByExpiry_ ∨
      id ∈ (q.processTimers now).2.map Pending.id) : id ∈ ids q.timersByExpiry_ := by
  have hhas : Sweep.Has q.timersByExpiry_ ⟨q.timerById_, [], []⟩ id := by
    refine Sweep.has_of_sweep now ?_
    rcases h with h | h
    · rcases mem_ids_reschedule h with h | h
      · exact .inr (.inl h)
      · exact .inl h
    · exact .inr (.inr h)
  rcases hhas with h | h | h
  · exact h
  · cases h
  · cases h

lemma nextTimerId_reschedule (q : TimerQueue κ) (l : List (ℤ × TimerEntry κ)) :
    (q.reschedule l).nextTimerId_ = q.nextTimerId_ := by
  induction l generalizing q with
  | nil => rfl
  | cons e l ih => exact ih _

lemma nextTimerId_processTimers (q : TimerQueue κ) (now : ℤ) :
    (q.processTimers now).1.nextTimerId_ = q.nextTimerId_ :=
  nextTimerId_reschedule _ _

lemma nextTimerId_cancelTimer (q : TimerQueue κ) (timerId : ℕ) :
    (q.cancelTimer timerId).1.nextTimerId_ = q.nextTimerId_ := by
  unfold cancelTimer
  cases q.timerById_ timerId <;> rfl

end TimerQueue

end Pman
