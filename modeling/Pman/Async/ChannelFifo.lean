import Pman.Async.Channel
import Pman.Lib.FifoLedger

set_option autoImplicit false

/-!
# The channel is a first-in-first-out queue

The buffer followed by the parked values is one queue: a call that is not rejected puts its value at
the end, whether it enters the buffer or parks; a receive takes the front; `close` drops the parked
block at the end. Every step of the channel is matched by one operation of a `FifoLedger` or by
none, so nothing is lost, duplicated or reordered.

Moves are read as copies here: `mv = id`.

## Main results

* `conserves_fifo`: values leave in the order of their calls, and what becomes of all of them.
-/

namespace Pman

namespace Channel

variable {T : Type*}

/-- The calls that were not rejected, with the values they were given. -/
def accepted (log : List (Event T)) : List (ℕ × T) :=
  log.filterMap fun
    | .accepted call value => some (call, value)
    | _ => none

def dropped (log : List (Event T)) : List ℕ :=
  log.filterMap fun
    | .dropped call => some call
    | _ => none

def dequeued (log : List (Event T)) : List T :=
  log.filterMap fun
    | .dequeued value => some value
    | _ => none

def Loop.parked (s : Loop T) : List (ℕ × T) :=
  s.sendWaiters_.map fun w => (w.handle.call, w.value)

lemma dropped_shut (s : Loop T) : dropped s.shut.log = dropped s.log ++ s.parked.map Prod.fst := by
  simp [dropped, Loop.shut, Loop.parked, List.filterMap_map, Function.comp_def]

lemma accepted_shut (s : Loop T) : accepted s.shut.log = accepted s.log := by
  simp [accepted, Loop.shut, List.filterMap_map]

lemma dequeued_shut (s : Loop T) : dequeued s.shut.log = dequeued s.log := by
  simp [dequeued, Loop.shut, List.filterMap_map]

/-- The ledger `L` agrees with the channel: same history, and its queue is the buffer followed by
the parked values. -/
structure Accounts (s : Loop T) (L : FifoLedger ℕ T) : Prop where
  offered : L.offered = accepted s.log
  dropped : L.dropped = dropped s.log
  taken : L.taken.map Prod.snd = dequeued s.log
  queue : ∃ front, L.queue = front ++ s.parked ∧ front.map Prod.snd = s.buffer_
  numbered : ∀ e ∈ L.offered, e.1 < s.nextCall

namespace Accounts

variable {s : Loop T} {L : FifoLedger ℕ T}

variable (h : Accounts s L)

include h

lemma newCall : Accounts s.newCall L :=
  { h with numbered := fun e he => Nat.lt_succ_of_lt (h.numbered e he) }

lemma unpost (i : ℕ) : Accounts (s.unpost i) L :=
  ⟨h.offered, h.dropped, h.taken, h.queue, h.numbered⟩

lemma parkReceiver (handle : Handle) : Accounts (RecvAwaiter.awaitSuspend s handle) L :=
  ⟨h.offered, h.dropped, h.taken, h.queue, h.numbered⟩

lemma sendReturned (call : ℕ) (b : Bool) : Accounts (s.record (.sendReturned call b)) L :=
  ⟨by simpa [Loop.record, accepted] using h.offered,
    by simpa [Loop.record, Channel.dropped] using h.dropped,
    by simpa [Loop.record, dequeued] using h.taken, h.queue, h.numbered⟩

lemma recvReturned (call : ℕ) (o : Option T) : Accounts (s.record (.recvReturned call o)) L :=
  ⟨by simpa [Loop.record, accepted] using h.offered,
    by simpa [Loop.record, Channel.dropped] using h.dropped,
    by simpa [Loop.record, dequeued] using h.taken, h.queue, h.numbered⟩

lemma nextCall_notMem : s.nextCall ∉ L.offered.map Prod.fst := by
  intro hmem
  obtain ⟨e, he, heq⟩ := List.mem_map.mp hmem
  exact absurd heq (Nat.ne_of_lt (h.numbered e he))

lemma offer {s' : Loop T} (value : T)
    (hacc : accepted s'.log = accepted s.log ++ [(s.nextCall, value)])
    (hdrop : Channel.dropped s'.log = Channel.dropped s.log)
    (hdeq : dequeued s'.log = dequeued s.log) (hnext : s'.nextCall = s.nextCall + 1)
    (hqueue : ∀ front, front.map Prod.snd = s.buffer_ → ∃ front',
      front ++ s.parked ++ [(s.nextCall, value)] = front' ++ s'.parked ∧
        front'.map Prod.snd = s'.buffer_) :
    ∃ L', Accounts s' L' := by
  obtain ⟨front, hq, hfront⟩ := h.queue
  obtain ⟨front', hq', hfront'⟩ := hqueue front hfront
  refine ⟨L.offer s.nextCall value h.nextCall_notMem, ?_, ?_, ?_, ⟨front', ?_, hfront'⟩, ?_⟩
  · rw [hacc, ← h.offered]
    rfl
  · rw [hdrop]
    exact h.dropped
  · rw [hdeq]
    exact h.taken
  · rw [← hq', ← hq]
    rfl
  · intro e he
    rw [hnext]
    rcases List.mem_concat.mp he with he | rfl
    · exact Nat.lt_succ_of_lt (h.numbered e he)
    · exact Nat.lt_succ_self _

lemma push (hnil : s.sendWaiters_ = []) (value : T) :
    ∃ L', Accounts ((s.newCall.push s.nextCall value).record (.accepted s.nextCall value)) L' := by
  rw [Loop.push_eq]
  refine h.offer value (by simp [accepted, Loop.record, Loop.newCall])
    (by simp [Channel.dropped, Loop.record, Loop.newCall])
    (by simp [dequeued, Loop.record, Loop.newCall]) rfl fun front hfront => ?_
  refine ⟨front ++ [(s.nextCall, value)], ?_, ?_⟩
  · simp [Loop.parked, Loop.record, Loop.newCall, hnil]
  · simp [Loop.record, Loop.newCall, hfront]

lemma park (value : T) :
    ∃ L', Accounts ((s.newCall.park s.nextCall value).record (.accepted s.nextCall value)) L' := by
  refine h.offer value (by simp [accepted, Loop.record, Loop.newCall, Loop.park,
      SendAwaiter.awaitSuspend, Loop.sendAwaiter])
    (by simp [Channel.dropped, Loop.record, Loop.newCall, Loop.park, SendAwaiter.awaitSuspend,
      Loop.sendAwaiter])
    (by simp [dequeued, Loop.record, Loop.newCall, Loop.park, SendAwaiter.awaitSuspend,
      Loop.sendAwaiter]) rfl fun front hfront => ?_
  refine ⟨front, ?_, hfront⟩
  simp [Loop.parked, Loop.record, Loop.newCall, Loop.park, SendAwaiter.awaitSuspend,
    Loop.sendAwaiter, Handle.call]

lemma take (hwf : WellFormed s) {value : T} {rest : List T}
    (hb : s.buffer_ = value :: rest) : ∃ L', Accounts (s.take value rest) L' := by
  obtain ⟨front, hq, hfront⟩ := h.queue
  rw [hb] at hfront
  obtain ⟨e, front', rfl, hval, hrest⟩ := List.map_eq_cons_iff.mp hfront
  refine ⟨L.take e (front' ++ s.parked) hq, ?_⟩
  cases hw : s.sendWaiters_ with
  | nil =>
    rw [Loop.take_of_nil _ _ _ hw]
    refine ⟨?_, ?_, ?_, ⟨front', rfl, hrest⟩, h.numbered⟩
    · simpa [accepted, FifoLedger.take] using h.offered
    · simpa [Channel.dropped, FifoLedger.take] using h.dropped
    · simpa [dequeued, FifoLedger.take, hval] using h.taken
  | cons w ws =>
    rw [Loop.take_of_cons _ _ _ hw (hwf.rest_lt hb)]
    refine ⟨?_, ?_, ?_, ⟨front' ++ [(w.handle.call, w.value)], ?_, ?_⟩, h.numbered⟩
    · simpa [accepted, FifoLedger.take] using h.offered
    · simpa [Channel.dropped, FifoLedger.take] using h.dropped
    · simpa [dequeued, FifoLedger.take, hval] using h.taken
    · simp [FifoLedger.take, Loop.parked, hw]
    · simp [hrest]

lemma shut : ∃ L', Accounts s.shut L' := by
  obtain ⟨front, hq, hfront⟩ := h.queue
  refine ⟨L.dropBack front s.parked hq, ?_, ?_, ?_, ⟨front, ?_, hfront⟩, h.numbered⟩
  · rw [accepted_shut]
    exact h.offered
  · rw [dropped_shut, ← h.dropped]
    rfl
  · rw [dequeued_shut]
    exact h.taken
  · simp [FifoLedger.dropBack, Loop.parked, Loop.shut]

end Accounts

lemma exists_accounts_of_step {s s' : Loop T} {a : Act T} {L : FifoLedger ℕ T}
    (hwf : WellFormed s) (h : Accounts s L) (hst : step id s a = some s') :
    ∃ L', Accounts s' L' := by
  cases effect_of_step hst with
  | trySendRejected => exact ⟨L, h.newCall⟩
  | trySendDone value _ hroom => exact h.push (hwf.sendWaiters_eq_nil hroom) value
  | sendRefused => exact ⟨L, h.newCall.sendReturned _ _⟩
  | sendDone value _ hroom =>
    obtain ⟨L', h'⟩ := h.push (hwf.sendWaiters_eq_nil hroom) value
    exact ⟨L', h'.sendReturned _ _⟩
  | sendParked value => exact h.park value
  | tryRecvEmpty | closeAgain => exact ⟨L, h⟩
  | tryRecvDone value rest hb => exact h.take hwf hb
  | recvDone value rest hb =>
    obtain ⟨L', h'⟩ := h.newCall.take hwf.newCall hb
    exact ⟨L', h'.recvReturned _ _⟩
  | recvEnded => exact ⟨L, h.newCall.recvReturned _ _⟩
  | recvParked => exact ⟨L, h.newCall.parkReceiver _⟩
  | resumeSender => exact ⟨L, (h.unpost _).sendReturned _ _⟩
  | resumeReceiverEnded => exact ⟨L, (h.unpost _).recvReturned _ _⟩
  | resumeReceiverDone i call _ value rest hb =>
    obtain ⟨L', h'⟩ := (h.unpost i).take (hwf.unpost i) hb
    exact ⟨L', h'.recvReturned _ _⟩
  | closeFirst => exact h.shut

/-- Every run keeps a ledger. -/
theorem exists_accounts_of_reachable {s : Loop T} (h : (system id).Reachable s) :
    ∃ L, Accounts s L := by
  refine TransitionSystem.ReachableWithin.invariant_of (I := fun s => ∃ L, Accounts s L)
    (fun _ => wellFormed_of_reachable) h ?_ fun s a s' hwf ⟨L, hL⟩ _ hst =>
      exists_accounts_of_step hwf hL hst
  rintro _ ⟨capacity, rfl⟩
  exact ⟨.empty, rfl, rfl, rfl, ⟨[], rfl, rfl⟩, by simp [FifoLedger.empty]⟩

/-- **Conservation and global order.** In every state a run reaches, for every capacity: the
values dequeued so far, followed by the buffer, followed by the parked values, are in order the
values of the calls that were not rejected, except those that were parked when `close` ran; the
buffer keeps to its capacity; and a parked sender implies a full buffer.

**Proof sketch.** The law of the ledger the run keeps, read for the values. -/
theorem conserves_fifo {s : Loop T} (h : (system id).Reachable s) :
    dequeued s.log ++ s.buffer_ ++ s.sendWaiters_.map SendWaiter.value =
        ((accepted s.log).filter fun e => e.1 ∉ dropped s.log).map Prod.snd ∧
      s.buffer_.length ≤ s.capacity_ ∧
      (s.sendWaiters_ ≠ [] → s.buffer_.length = s.capacity_) := by
  have hwf := wellFormed_of_reachable h
  obtain ⟨L, hL⟩ := exists_accounts_of_reachable h
  obtain ⟨front, hq, hfront⟩ := hL.queue
  refine ⟨?_, hwf.bounded, hwf.full⟩
  have hparked : s.sendWaiters_.map SendWaiter.value = s.parked.map Prod.snd := by
    simp [Loop.parked]
  have hlaw := L.values_conserved
  rw [hL.offered, hL.dropped, hL.taken, hq, List.map_append, hfront, ← hparked,
    ← List.append_assoc] at hlaw
  exact hlaw

/-- Capacity one: the second send parks, a receive hands it over, a third send parks and is
dropped by `close`. -/
theorem conserves_fifo_handOver : ∃ s : Loop ℕ,
    (system id).Reachable s ∧ dequeued s.log = [10] ∧ s.buffer_ = [20] ∧
      dequeued s.log ++ s.buffer_ ++ s.sendWaiters_.map SendWaiter.value =
        ((accepted s.log).filter fun e => e.1 ∉ dropped s.log).map Prod.snd := by
  have hs : (system (id : ℕ → ℕ)).Reachable _ :=
    .final (Loop.new 1) [.send 10, .send 20, .tryRecv, .send 30, .close] ⟨1, rfl⟩ (by decide)
  exact ⟨_, hs, rfl, rfl, (conserves_fifo hs).1⟩

end Channel

end Pman
