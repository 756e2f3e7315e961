import Pman.Async.Channel

set_option autoImplicit false

/-!
# Senders, receivers and the life of a channel

`Sender` and `Receiver` are handles that share one reference count. The channel is closed by
`close`, or by `~ChannelImpl` when the last handle of either kind is gone. So dropping all senders
does not close it while a receiver is left, although the documentation of `Sender` says so. Here
the turns of the loop on a channel stand beside the copies, moves and drops of its handles; a
handle that was moved from does not count.

## Main results

* `ended_of_no_sender`: receivers without senders are told the end.
-/

namespace Pman.Channel

variable {T : Type*} {mv : T → T}

/-- The channel with the numbers of its senders and receivers. -/
structure Handles (T : Type*) where
  chan : Loop T
  senders : ℕ
  receivers : ℕ

inductive HandleAct (T : Type*)
  | copySender
  | moveSender
  | dropSender
  | copyReceiver
  | moveReceiver
  | dropReceiver
  | turn (a : Act T)

/-- The handles that a turn needs; a resumption needs the channel to exist. -/
def Handles.serves (s : Handles T) : Act T → Bool
  | .trySend _ | .send _ | .close => decide (0 < s.senders)
  | .tryRecv | .recv => decide (0 < s.receivers)
  | .resume _ => decide (0 < s.senders + s.receivers)

def Handles.release (s : Handles T) : Handles T :=
  if s.senders + s.receivers = 0 then { s with chan := s.chan.close } else s

def handleStep (mv : T → T) (s : Handles T) : HandleAct T → Option (Handles T)
  | .copySender => if 0 < s.senders then some { s with senders := s.senders + 1 } else none
  | .copyReceiver => if 0 < s.receivers then some { s with receivers := s.receivers + 1 } else none
  | .moveSender => if 0 < s.senders then some s else none
  | .moveReceiver => if 0 < s.receivers then some s else none
  | .dropSender =>
    if 0 < s.senders then some (Handles.release { s with senders := s.senders - 1 }) else none
  | .dropReceiver =>
    if 0 < s.receivers then some (Handles.release { s with receivers := s.receivers - 1 }) else none
  | .turn a =>
    if s.serves a then (step mv s.chan a).map fun chan => { s with chan := chan } else none

/-- A channel as `channel` makes it, with one handle of each kind. -/
def handleSystem (mv : T → T) : TransitionSystem (Handles T) (HandleAct T) where
  init s := ∃ capacity, s = ⟨Loop.new capacity, 1, 1⟩
  step := handleStep mv

/-- The last sender is dropped while there is a receiver only if the channel is closed. -/
def ClosedFirst (s : Handles T) : HandleAct T → Prop
  | .dropSender => s.senders = 1 → 0 < s.receivers → s.chan.closed_ = true
  | _ => True

instance (s : Handles T) (a : HandleAct T) : Decidable (ClosedFirst s a) := by
  cases a <;> dsimp only [ClosedFirst] <;> infer_instance

lemma closed_of_step {s s' : Loop T} {a : Act T} (hst : step mv s a = some s')
    (h : s.closed_ = true) : s'.closed_ = true := by
  cases effect_of_step hst <;>
    simp_all [Loop.record, Loop.newCall, Loop.unpost]

lemma handles_step {s s' : Handles T} {a : HandleAct T}
    (h : (system mv).Reachable s.chan ∧ (s.senders = 0 → 0 < s.receivers → s.chan.closed_ = true))
    (hok : ClosedFirst s a) (hst : handleStep mv s a = some s') :
    (system mv).Reachable s'.chan ∧
      (s'.senders = 0 → 0 < s'.receivers → s'.chan.closed_ = true) := by
  obtain ⟨hr, hc⟩ := h
  cases a with
  | copySender | copyReceiver =>
    obtain ⟨hpos, ⟨⟩⟩ := Option.ite_none_right_eq_some.mp hst
    refine ⟨hr, fun hs hrecv => ?_⟩
    dsimp only at hs hrecv
    exact hc (by omega) (by omega)
  | moveSender | moveReceiver =>
    obtain ⟨-, ⟨⟩⟩ := Option.ite_none_right_eq_some.mp hst
    exact ⟨hr, hc⟩
  | dropSender =>
    obtain ⟨hpos, ⟨⟩⟩ := Option.ite_none_right_eq_some.mp hst
    unfold Handles.release
    split_ifs with hlast
    · exact ⟨hr.step (a := .close) trivial rfl, fun _ hrecv => by dsimp only at hlast hrecv; omega⟩
    · exact ⟨hr, fun hs hrecv => hok (by dsimp only at hs; omega) hrecv⟩
  | dropReceiver =>
    obtain ⟨hpos, ⟨⟩⟩ := Option.ite_none_right_eq_some.mp hst
    unfold Handles.release
    split_ifs with hlast
    · exact ⟨hr.step (a := .close) trivial rfl, fun _ hrecv => by dsimp only at hlast hrecv; omega⟩
    · exact ⟨hr, fun hs hrecv => hc hs (by dsimp only at hrecv; omega)⟩
  | turn =>
    obtain ⟨-, hst⟩ := Option.ite_none_right_eq_some.mp hst
    obtain ⟨chan, hchan, rfl⟩ := Option.map_eq_some_iff.mp hst
    exact ⟨hr.step trivial hchan, fun hs hrecv => closed_of_step hchan (hc hs hrecv)⟩

/-- **Without senders the channel has ended**, in every run in which the last sender is dropped,
while a receiver is left, only from a closed channel: nobody is parked, and once the buffer is
empty, every `recv` that is called and every receiver that was woken is told the end. -/
theorem ended_of_no_sender {s : Handles T} (h : (handleSystem mv).ReachableWithin ClosedFirst s)
    (hs : s.senders = 0) (hr : 0 < s.receivers) :
    s.chan.closed_ = true ∧ s.chan.recvWaiters_ = [] ∧ (s.chan.buffer_ = [] →
      (∃ s', handleStep mv s (.turn .recv) = some s' ∧
        s'.chan.log = s.chan.log ++ [.recvReturned s.chan.nextCall none]) ∧
      ∀ i call, s.chan.posted[i]? = some (.receiver call) →
        ∃ s', handleStep mv s (.turn (.resume i)) = some s' ∧
          s'.chan.log = s.chan.log ++ [.recvReturned call none]) := by
  obtain ⟨hreach, hclosed⟩ := h.invariant (I := fun s => (system mv).Reachable s.chan ∧
      (s.senders = 0 → 0 < s.receivers → s.chan.closed_ = true)) (by
    rintro _ ⟨capacity, rfl⟩
    exact ⟨.init ⟨capacity, rfl⟩, by simp⟩) fun s a s' hI hok hst => handles_step hI hok hst
  have hc := hclosed hs hr
  refine ⟨hc, ((wellFormed_of_reachable hreach).closed hc).1, fun hb => ⟨?_, fun i call hp => ?_⟩⟩
  · simp [handleStep, Handles.serves, hr, step, Loop.recv, Loop.tryRecv, Loop.takeFront,
      Loop.newCall, hb, Loop.isClosed, hc, bookRecv, Loop.record]
  · simp [handleStep, Handles.serves, hs, hr, step, hp, resumed, RecvAwaiter.awaitResume,
      Loop.takeFront, hb, Loop.record]

/-- The last sender closes the channel before it is dropped, while a receiver is parked. -/
theorem ended_of_no_sender_closed :
    ∃ s, (handleSystem (id : ℕ → ℕ)).ReachableWithin ClosedFirst s ∧ s.senders = 0 ∧
      s.receivers = 2 ∧ s.chan.posted = [.receiver 0] ∧ s.chan.closed_ = true := by
  obtain ⟨s, h, hs, hr, hp⟩ : ∃ s, (handleSystem (id : ℕ → ℕ)).ReachableWithin ClosedFirst s ∧
      s.senders = 0 ∧ s.receivers = 2 ∧ s.chan.posted = [.receiver 0] :=
    TransitionSystem.reached_by ⟨Loop.new 1, 1, 1⟩
      [.copyReceiver, .turn .recv, .turn .close, .dropSender] ⟨1, rfl⟩ (by decide)
  exact ⟨s, h, hs, hr, hp, (ended_of_no_sender h hs (by omega)).1⟩

/-- **A receiver waits for nobody**: the only sender is dropped, and the channel stays open with the
receiver parked. -/
theorem no_sender_parked : ∃ s : Handles ℕ, (handleSystem id).Reachable s ∧ s.senders = 0 ∧
    s.receivers = 1 ∧ s.chan.closed_ = false ∧ s.chan.recvWaiters_ = [.receiver 0] ∧
      s.chan.posted = [] :=
  TransitionSystem.reached_by ⟨Loop.new 1, 1, 1⟩ [.turn .recv, .dropSender] ⟨1, rfl⟩ (by decide)

end Pman.Channel
