import Mathlib.Data.List.Perm.Basic
import Pman.Async.Channel

set_option autoImplicit false

/-!
# When `recv` reports the end of the stream

A parked receiver is woken when a value enters the buffer, but it takes the value only when its
resumption runs. Until then a `tryRecv`, or a `recv` that finds the buffer filled, may take it, and
the woken receiver returns `nullopt` although the channel is open.

`Channel.woken` counts the values promised to woken receivers. As long as only values beyond that
count are taken directly, or a parked sender refills the buffer and no receiver is parked to claim
the refill, the promise is kept. The count also bounds the buffer: while a receiver is parked, every
buffered value has a woken receiver that will come for it.

## Main results

* `recv_ends_at_end`: when `nullopt` means the end.
* `wakeups_accounted`: values beside parked receivers are promised to woken ones.
-/

namespace Pman

open List

namespace Channel

variable {T : Type*}

def Handle.isReceiver : Handle → Bool
  | .sender _ => false
  | .receiver _ => true

/-- The number of receivers whose resumption is posted and has not run. -/
def woken (s : Loop T) : ℕ := s.posted.countP Handle.isReceiver

/-- A `tryRecv` or a `recv` that takes a value while the channel is open finds more values than
receivers are woken, or it makes room for a parked sender while no receiver is parked. -/
def TakeOk (s : Loop T) (a : Act T) : Prop :=
  (a = .tryRecv ∨ a = .recv) → s.closed_ = false → s.buffer_ ≠ [] →
    woken s < s.buffer_.length ∨ (s.sendWaiters_ ≠ [] ∧ s.recvWaiters_ = [])

instance [DecidableEq T] (s : Loop T) (a : Act T) : Decidable (TakeOk s a) :=
  inferInstanceAs (Decidable (_ → _ → _ → _ ∨ (_ ∧ _)))

lemma countP_append_take_one_le (p : Handle → Bool) (l r : List Handle) :
    (l ++ r.take 1).countP p ≤ l.countP p + 1 := by
  have : (r.take 1).countP p ≤ (r.take 1).length := countP_le_length
  rw [countP_append]
  have : (r.take 1).length ≤ 1 := by
    rw [length_take]
    omega
  omega

/-- The promise to the woken receivers, and what `nullopt` answers stand for. -/
structure Promised (s : Loop T) : Prop where
  /-- While the channel is open there is a value for every woken receiver. -/
  kept : s.closed_ = false → woken s ≤ s.buffer_.length
  /-- An answer `nullopt` was given at the end of the stream. -/
  ended : ∀ call, .recvReturned call none ∈ s.log → s.closed_ = true ∧ s.buffer_ = []

variable {rest : List T}

namespace Promised

variable {s : Loop T}

variable (h : Promised s)

include h

lemma newCall : Promised s.newCall := ⟨h.kept, h.ended⟩

lemma record {e : Event T} (he : ∀ call, e ≠ .recvReturned call none) : Promised (s.record e) := by
  refine ⟨h.kept, fun call hmem => ?_⟩
  rcases mem_concat.mp hmem with hmem | hmem
  · exact h.ended call hmem
  · exact absurd hmem.symm (he call)

lemma recordEnd (hc : s.closed_ = true) (hb : s.buffer_ = []) (call : ℕ) :
    Promised (s.record (.recvReturned call none)) :=
  ⟨h.kept, fun _ _ => ⟨hc, hb⟩⟩

lemma not_ended (hopen : s.closed_ = false) (call : ℕ) : .recvReturned call none ∉ s.log := by
  intro hmem
  have := (h.ended call hmem).1
  simp [hopen] at this

lemma push (hopen : s.closed_ = false) (call : ℕ) (value : T) : Promised (s.push call value) := by
  rw [Loop.push_eq]
  refine ⟨fun _ => ?_, fun call' hmem => ?_⟩
  · have hk := h.kept hopen
    have hle := countP_append_take_one_le Handle.isReceiver s.posted s.recvWaiters_
    simp only [woken, length_append, length_singleton] at hk ⊢
    omega
  · rcases mem_append.mp hmem with hmem | hmem
    · exact absurd hmem (h.not_ended hopen call')
    · simp at hmem

lemma take (hwf : WellFormed s) {value : T} (hb : s.buffer_ = value :: rest)
    (hok : s.closed_ = false → woken s ≤ rest.length ∨ (s.sendWaiters_ ≠ [] ∧ s.recvWaiters_ = []))
    : Promised (s.take value rest) := by
  have hnone : ∀ call, .recvReturned call none ∉ s.log := by
    intro call hmem
    have := (h.ended call hmem).2
    simp [hb] at this
  cases hw : s.sendWaiters_ with
  | nil =>
    rw [Loop.take_of_nil _ _ _ hw]
    refine ⟨fun hopen => ?_, fun call hmem => ?_⟩
    · rcases hok hopen with hle | ⟨hne, -⟩
      · exact hle
      · exact absurd hw hne
    · simp [hnone] at hmem
  | cons w ws =>
    have hrest := hwf.rest_lt hb
    rw [Loop.take_of_cons _ _ _ hw hrest]
    refine ⟨fun hopen => ?_, fun call hmem => ?_⟩
    · have hsender : Handle.isReceiver w.handle = false := by
        rw [hwf.senders w (by simp [hw])]
        rfl
      have hk := h.kept hopen
      rw [hb, length_cons] at hk
      rw [woken, countP_append, countP_singleton, hsender, length_append, length_singleton]
      rcases hok hopen with hle | ⟨-, hnil⟩
      · have := countP_append_take_one_le Handle.isReceiver s.posted s.recvWaiters_
        simp only [woken] at hle
        simp only [Bool.false_eq_true, if_false]
        omega
      · simpa [hnil, woken] using hk
    · simp [hnone] at hmem

lemma shut (hopen : s.closed_ = false) : Promised s.shut := by
  refine ⟨fun hc => by simp [Loop.shut] at hc, fun call hmem => ?_⟩
  rcases mem_append.mp hmem with hmem | hmem
  · exact absurd hmem (h.not_ended hopen call)
  · simp at hmem

end Promised

variable {s : Loop T} {call i : ℕ}

lemma woken_unpost_receiver (hp : s.posted[i]? = some (.receiver call)) :
    woken (s.unpost i) + 1 = woken s := by
  obtain ⟨hi, hget⟩ := List.getElem?_eq_some_iff.mp hp
  have hperm := (List.getElem_cons_eraseIdx_perm hi).countP_eq Handle.isReceiver
  rwa [hget, List.countP_cons_of_pos rfl] at hperm

lemma woken_unpost_sender (hp : s.posted[i]? = some (.sender call)) :
    woken (s.unpost i) = woken s := by
  obtain ⟨hi, hget⟩ := List.getElem?_eq_some_iff.mp hp
  have hperm := (List.getElem_cons_eraseIdx_perm hi).countP_eq Handle.isReceiver
  rwa [hget, List.countP_cons_of_neg (by simp [Handle.isReceiver])] at hperm

lemma woken_unpost_le (s : Loop T) (i : ℕ) : woken (s.unpost i) ≤ woken s :=
  List.Sublist.countP_le (eraseIdx_sublist _ _)

variable {a : Act T} {s' : Loop T} {mv : T → T}

lemma Promised.step (hwf : WellFormed s) (h : Promised s)
    (hok : TakeOk s a) (hst : Channel.step mv s a = some s') : Promised s' := by
  have hunpost : ∀ i, Promised (s.unpost i) := fun i =>
    ⟨fun hopen => Nat.le_trans (woken_unpost_le s i) (h.kept hopen), h.ended⟩
  -- a direct receive meets the side condition of `take`
  have hdirect : ∀ {value rest}, s.buffer_ = value :: rest → (a = .tryRecv ∨ a = .recv) →
      s.closed_ = false →
        woken s ≤ rest.length ∨ (s.sendWaiters_ ≠ [] ∧ s.recvWaiters_ = []) := by
    intro value rest hb ha hopen
    refine (hok ha hopen (by simp [hb])).imp_left fun hlt => ?_
    rw [hb, length_cons] at hlt
    omega
  cases effect_of_step hst with
  | trySendRejected => exact h.newCall
  | trySendDone value hopen => exact (h.newCall.push hopen _ _).record (by simp)
  | sendRefused => exact h.newCall.record (by simp)
  | sendDone value hopen => exact ((h.newCall.push hopen _ _).record (by simp)).record (by simp)
  | sendParked value =>
    have hpark : Promised (s.newCall.park s.nextCall (mv value)) := ⟨h.kept, h.ended⟩
    exact hpark.record (by simp)
  | tryRecvEmpty => exact h
  | tryRecvDone value rest hb => exact h.take hwf hb (hdirect hb (.inl rfl))
  | recvDone value rest hb =>
    exact (h.newCall.take hwf.newCall hb (hdirect hb (.inr rfl))).record (by simp)
  | recvEnded hc hb => exact h.newCall.recordEnd hc hb _
  | recvParked => exact ⟨h.kept, h.ended⟩
  | resumeSender i => exact (hunpost i).record (by simp)
  | resumeReceiverEnded i call hp hb =>
    -- a woken receiver that finds nothing: the promise says the channel is closed
    have hclosed : s.closed_ = true := by
      by_contra hopen
      have hk := h.kept (by simpa using hopen)
      have := woken_unpost_receiver hp
      rw [hb, length_nil] at hk
      omega
    exact (hunpost i).recordEnd hclosed hb call
  | resumeReceiverDone i call hp value rest hb =>
    refine ((hunpost i).take (hwf.unpost i) hb fun hopen => .inl ?_).record (by simp)
    have hk := h.kept hopen
    have := woken_unpost_receiver hp
    rw [hb, length_cons] at hk
    omega
  | closeAgain => exact h
  | closeFirst hopen => exact h.shut hopen

/-- **`nullopt` means the end of the stream**, in every run in which a receive that takes a value
directly from the open channel leaves enough values for the woken receivers, or a parked sender
refills the buffer while no receiver is parked: whenever a `recv` has returned `nullopt`, the
channel is closed and its buffer is empty. -/
theorem recv_ends_at_end {mv : T → T} {s : Loop T} (h : (system mv).ReachableWithin TakeOk s)
    (call : ℕ) (hend : .recvReturned call none ∈ s.log) : s.closed_ = true ∧ s.buffer_ = [] := by
  have hp : Promised s := by
    refine TransitionSystem.ReachableWithin.invariant_of
      (fun _ => wellFormed_of_reachable) h ?_ fun s a s' hwf hp hok hst => hp.step hwf hok hst
    rintro _ ⟨capacity, rfl⟩
    exact ⟨fun _ => Nat.le_refl _, by simp [Loop.new]⟩
  exact hp.ended call hend

/-- A receiver parks, is woken by a value, takes it in its own turn, parks again and is told the
end when the channel is closed. -/
theorem recv_ends_at_end_drained : ∃ s : Loop ℕ,
    (system id).ReachableWithin TakeOk s ∧ .recvReturned 2 none ∈ s.log ∧
      s.closed_ = true ∧ s.buffer_ = [] := by
  have hs : (system (id : ℕ → ℕ)).ReachableWithin TakeOk _ :=
    .final (Loop.new 1) [.recv, .trySend 10, .resume 0, .recv, .close, .resume 0] ⟨1, rfl⟩
      (by decide)
  exact ⟨_, hs, by decide, recv_ends_at_end hs 2 (by decide)⟩

/-- A woken receiver loses its value to another `recv` and reports the end of an open channel. -/
theorem recv_ends_while_open : ∃ s : Loop ℕ,
    (system id).Reachable s ∧ .recvReturned 0 none ∈ s.log ∧ s.closed_ = false := by
  exact TransitionSystem.reached_by (Loop.new 1) [.recv, .trySend 10, .recv, .resume 0]
    ⟨1, rfl⟩ (by decide)

/-! ### Values and woken receivers -/

/-- While a receiver is parked there are no more values than woken receivers. -/
def Accounted (s : Loop T) : Prop := s.recvWaiters_ ≠ [] → s.buffer_.length ≤ woken s

lemma countP_wake (hrecv : ∀ h ∈ s.recvWaiters_, ∃ call, h = .receiver call)
    (h : s.recvWaiters_ ≠ []) :
    (s.posted ++ s.recvWaiters_.take 1).countP Handle.isReceiver = woken s + 1 := by
  obtain ⟨handle, rest, heq⟩ := exists_cons_of_ne_nil h
  obtain ⟨call, rfl⟩ := hrecv handle (by simp [heq])
  rw [heq, countP_append]
  rfl

lemma ne_nil_of_tail_ne_nil {α : Type*} {l : List α} (h : l.tail ≠ []) : l ≠ [] := by
  rintro rfl
  exact h rfl

namespace Accounted

variable {s : Loop T}

lemma push (h : Accounted s) (hrecv : ∀ h ∈ s.recvWaiters_, ∃ call, h = .receiver call)
    (call : ℕ) (value : T) : Accounted (s.push call value) := by
  rw [Loop.push_eq]
  intro htail
  have hne := ne_nil_of_tail_ne_nil htail
  have hbound := h hne
  have hwake := countP_wake hrecv hne
  simp only [woken, length_append, length_singleton] at hbound hwake ⊢
  omega

lemma take (hrecv : ∀ h ∈ s.recvWaiters_, ∃ call, h = .receiver call)
    (hroom : rest.length < s.capacity_) (h : s.recvWaiters_ ≠ [] → rest.length ≤ woken s)
    (value : T) : Accounted (s.take value rest) := by
  cases hw : s.sendWaiters_ with
  | nil =>
    rw [Loop.take_of_nil _ _ _ hw]
    exact h
  | cons w ws =>
    rw [Loop.take_of_cons _ _ _ hw hroom]
    intro htail
    have hne := ne_nil_of_tail_ne_nil htail
    have hbound := h hne
    have hwake := countP_wake hrecv hne
    show (rest ++ [w.value]).length ≤
      countP _ (s.posted ++ s.recvWaiters_.take 1 ++ [w.handle])
    rw [countP_append, hwake, length_append, length_singleton]
    omega

lemma step (hwf : WellFormed s) (h : Accounted s)
    (hst : Channel.step mv s a = some s') : Accounted s' := by
  have hdirect : ∀ {value rest}, s.buffer_ = value :: rest → s.recvWaiters_ ≠ [] →
      rest.length ≤ woken s := by
    intro value rest hb hne
    have := h hne
    rw [hb, length_cons] at this
    omega
  have hempty : ∀ {s' : Loop T}, s'.buffer_ = [] → Accounted s' := by
    intro s' hb _
    rw [hb]
    exact Nat.zero_le _
  cases effect_of_step hst with
  | trySendRejected | sendRefused | sendParked | tryRecvEmpty | recvEnded | closeAgain => exact h
  | trySendDone value | sendDone value => exact push (s := s.newCall) h hwf.receivers _ _
  | tryRecvDone value rest hb => exact take hwf.receivers (hwf.rest_lt hb) (hdirect hb) value
  | recvDone value rest hb =>
    exact take (s := s.newCall) hwf.receivers (hwf.rest_lt hb) (hdirect hb) value
  | recvParked _ hb | resumeReceiverEnded i call hp hb => exact hempty hb
  | resumeSender i call hp =>
    intro hne
    have hcount : woken (s.unpost i) = woken s := woken_unpost_sender hp
    have hbound : s.buffer_.length ≤ woken s := h hne
    rwa [← hcount] at hbound
  | resumeReceiverDone i call hp value rest hb =>
    refine take (s := s.unpost i) hwf.receivers (hwf.rest_lt hb) (fun hne => ?_) value
    have hbound := h hne
    have hcount := woken_unpost_receiver hp
    rw [hb, length_cons] at hbound
    omega
  | closeFirst => exact fun hne => absurd rfl hne

end Accounted

lemma accounted_of_reachable (h : (system mv).Reachable s) : Accounted s := by
  refine TransitionSystem.ReachableWithin.invariant_of
    (fun _ => wellFormed_of_reachable) h ?_ fun s a s' hwf hacc _ hst => hacc.step hwf hst
  rintro _ ⟨capacity, rfl⟩
  exact fun hne => absurd rfl hne

/-- **Wake-up accounting**, for every capacity and every run: while a receiver is parked there are
no more values in the buffer than receivers that are woken and not yet resumed. So with room for a
value and no resumption pending, a receiver is parked neither beside a buffered value nor beside a
parked sender. -/
theorem wakeups_accounted {mv : T → T} {s : Loop T} (h : (system mv).Reachable s) :
    (s.recvWaiters_ ≠ [] → s.buffer_.length ≤ woken s) ∧
      (1 ≤ s.capacity_ → s.posted = [] → s.recvWaiters_ ≠ [] →
        s.buffer_ = [] ∧ s.sendWaiters_ = []) := by
  have hacc := accounted_of_reachable h
  refine ⟨hacc, fun hcap hposted hne => ?_⟩
  have hbuffer : s.buffer_ = [] := by
    have hbound := hacc hne
    rw [woken, hposted] at hbound
    exact length_eq_zero_iff.mp (Nat.le_zero.mp hbound)
  refine ⟨hbuffer, (wellFormed_of_reachable h).sendWaiters_eq_nil ?_⟩
  rw [hbuffer]
  exact hcap

/-- Two receivers park and a value wakes the first: the buffered value is the woken receiver's. -/
theorem wakeups_accounted_parked : ∃ s : Loop ℕ,
    (system id).Reachable s ∧ s.recvWaiters_ = [.receiver 1] ∧ s.buffer_ = [10] ∧
      s.buffer_.length ≤ woken s := by
  have hs : (system (id : ℕ → ℕ)).Reachable _ :=
    .final (Loop.new 1) [.recv, .recv, .trySend 10] ⟨1, rfl⟩ (by decide)
  exact ⟨_, hs, rfl, rfl, (wakeups_accounted hs).1 (by decide)⟩

end Channel

end Pman
