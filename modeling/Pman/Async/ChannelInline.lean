import Mathlib.Data.Fintype.Basic
import Pman.Lib.LockProgram

set_option autoImplicit false

/-!
# Channel operations outside of an event loop

Without a current event loop `resumeHandle` resumes a parked coroutine at once, and all its callers
hold `mutex_`. A resumed receiver locks `mutex_` in `await_resume`. A resumed sender does not, but
what it does next runs under the lock as well. So wherever a receiver is woken, and wherever the
code behind a woken sender uses the channel, the thread deadlocks with itself; elsewhere it does
not. `~ChannelImpl`, and `~Actor` through `stop`, come down to `close`.

Resumptions within one another are followed to a depth that is given with the operation.

## Main results

* `inline_not_selfDeadlock`: when no call waits for its own mutex.
* `inline_selfDeadlock`: the calls that do.
-/

namespace Pman.ChannelInline

open TransitionSystem LockProgram

variable {T : Type*}

/-- `ChannelImpl`, with the number of parked receivers and the values of parked senders. -/
structure Memory (T : Type*) where
  capacity_ : ℕ
  closed_ : Bool
  buffer_ : List T
  recvWaiters_ : ℕ
  sendWaiters_ : List T

inductive Site
  | access
  | wake
  | receiver
  | sender
deriving DecidableEq, Repr

/-- Programs over `mutex_`. -/
abbrev Code (T : Type*) := Prog Unit (Memory T) Unit Site

def write (f : Memory T → Memory T) (k : Code T) : Code T :=
  .act .access (fun _ m => f m) fun _ _ => k

def read (k : Memory T → Code T) : Code T := .act .access (fun _ m => m) fun _ m => k m

/-- `resume` is what the thread does when it resumes a receiver. -/
def wakeNextReceiverLocked (resume : Code T → Code T) (k : Code T) : Code T :=
  .act .wake (fun _ m => { m with recvWaiters_ := m.recvWaiters_ - 1 }) fun _ m =>
    if m.recvWaiters_ = 0 then k else resume k

def wakeNextSenderLocked (resume : Code T → Code T) (k : Code T) : Code T :=
  read fun m =>
    match m.sendWaiters_ with
    | [] => k
    | value :: rest =>
      if m.buffer_.length < m.capacity_ then
        write (fun m => { m with sendWaiters_ := rest, buffer_ := m.buffer_ ++ [value] }) <|
        wakeNextReceiverLocked resume <| .callout .sender k
      else k

/-- The region of `tryRecv` and of `RecvAwaiter::await_resume`; it tells whether there was a
value. -/
def takeFront (resume : Code T → Code T) (k : Bool → Code T) : Code T :=
  .lock () <| read fun m =>
    if m.buffer_.isEmpty then .unlock () (k false)
    else
      write (fun m => { m with buffer_ := m.buffer_.tail }) <|
      wakeNextSenderLocked resume <| .unlock () (k true)

def resumeReceiver : ℕ → Code T → Code T
  | 0, k => k
  | depth + 1, k => takeFront (resumeReceiver depth) fun _ => .callout .receiver k

def trySend (value : T) (depth : ℕ) (k : Bool → Code T) : Code T :=
  read fun m =>
    if m.closed_ then k false
    else
      .lock () <| read fun m =>
        if m.capacity_ ≤ m.buffer_.length then .unlock () (k false)
        else
          write (fun m => { m with buffer_ := m.buffer_ ++ [value] }) <|
          wakeNextReceiverLocked (resumeReceiver depth) <| .unlock () (k true)

def await (ready : Memory T → Bool) (park : Memory T → Memory T) (resumed k : Code T) : Code T :=
  read fun m =>
    if m.closed_ then resumed
    else
      .lock () <| read fun m => .unlock () <|
        if ready m then resumed else .lock () <| write park <| .unlock () k

/-- `Sender::send`; `SendAwaiter::await_resume` does not lock. -/
def send (value : T) (depth : ℕ) (k : Code T) : Code T :=
  read fun m =>
    if m.closed_ then k
    else
      trySend value depth fun sent =>
        if sent then k
        else
          await (fun m => decide (m.buffer_.length < m.capacity_))
            (fun m => { m with sendWaiters_ := m.sendWaiters_ ++ [value] }) k k

def recv (depth : ℕ) (k : Code T) : Code T :=
  takeFront (resumeReceiver depth) fun got =>
    if got then k
    else
      read fun m =>
        if m.closed_ then k
        else
          await (fun m => !m.buffer_.isEmpty)
            (fun m => { m with recvWaiters_ := m.recvWaiters_ + 1 })
            (takeFront (resumeReceiver depth) fun _ => k) k

/-- The loops of `close` resume all receivers and then all senders. -/
def close (depth : ℕ) (k : Code T) : Code T :=
  .act .access (fun _ m => { m with closed_ := true }) fun _ m =>
    if m.closed_ then k
    else
      .lock () <| .act .wake (fun _ m => m) fun _ m =>
        (resumeReceiver depth)^[m.recvWaiters_] <|
        (Prog.callout .sender)^[m.sendWaiters_.length] <|
        write (fun m => { m with recvWaiters_ := 0, sendWaiters_ := [] }) <| .unlock () k

/-- The operations that lock `mutex_`; `close` stands for the destructors as well. -/
inductive Op (T : Type*)
  | trySend (value : T) (depth : ℕ)
  | tryRecv (depth : ℕ)
  | send (value : T) (depth : ℕ)
  | recv (depth : ℕ)
  | close (depth : ℕ)
  | size

def program : Op T → Code T
  | .trySend value depth => trySend value depth fun _ => .done
  | .tryRecv depth => takeFront (resumeReceiver depth) fun _ => .done
  | .send value depth => send value depth .done
  | .recv depth => recv depth .done
  | .close depth => close depth .done
  | .size => .lock () <| read fun _ => .unlock () .done

def system (ι T : Type*) [DecidableEq ι] :
    TransitionSystem (Config Unit (Memory T) Unit Site ι) (ι × Choice Unit (Op T)) :=
  LockProgram.system ι program fun _ => True

def Allowed (site : Site) (m : Memory T) : Prop := site = .wake → m.recvWaiters_ = 0
  deriving Decidable

def MayCall (site : Site) : Prop := site ≠ .sender
  deriving Decidable

abbrev Safe (held : Finset Unit) (c : Code T) : Prop := c.Safe Allowed MayCall held

variable {held : Finset Unit} {k : Code T} {resume : Code T → Code T}

lemma safe_write {f : Memory T → Memory T} (h : Safe held k) : Safe held (write f k) :=
  fun _ _ _ => h

lemma safe_read {k : Memory T → Code T} (h : ∀ m, Safe held (k m)) : Safe held (read k) :=
  fun _ m _ => h m

lemma safe_lock (h : Safe {()} k) : Safe ∅ (.lock () k) := ⟨by simp, h⟩

lemma safe_unlock (h : Safe ∅ k) : Safe {()} (.unlock () k) :=
  ⟨by simp, h⟩

lemma safe_wakeNextReceiverLocked (h : Safe held k) :
    Safe held (wakeNextReceiverLocked resume k) := by
  intro _ m hm
  simpa [hm rfl] using h

lemma safe_takeFront {k : Bool → Code T} (h : ∀ b, Safe ∅ (k b)) : Safe ∅ (takeFront resume k) := by
  refine safe_lock (safe_read fun m => ?_)
  split_ifs
  · exact safe_unlock (h _)
  refine safe_write (safe_read fun m => ?_)
  have hout := safe_unlock (h true)
  split
  · exact hout
  split_ifs
  · exact safe_write (safe_wakeNextReceiverLocked ⟨fun hcall => absurd rfl hcall, hout⟩)
  · exact hout

lemma safe_trySend {value : T} {depth : ℕ} {k : Bool → Code T} (h : ∀ b, Safe ∅ (k b)) :
    Safe ∅ (trySend value depth k) := by
  refine safe_read fun m => ?_
  split_ifs
  · exact h _
  refine safe_lock (safe_read fun m => ?_)
  split_ifs
  · exact safe_unlock (h _)
  · exact safe_write (safe_wakeNextReceiverLocked (safe_unlock (h _)))

lemma safe_await {ready : Memory T → Bool} {park : Memory T → Memory T} {resumed : Code T}
    (hr : Safe ∅ resumed) (h : Safe ∅ k) : Safe ∅ (await ready park resumed k) := by
  refine safe_read fun m => ?_
  split_ifs
  · exact hr
  refine safe_lock (safe_read fun m => safe_unlock ?_)
  split_ifs
  · exact hr
  · exact safe_lock (safe_write (safe_unlock h))

lemma safe_close {depth : ℕ} (h : Safe ∅ k) : Safe ∅ (close depth k) := by
  intro _ m _
  dsimp only
  split_ifs
  · exact h
  refine safe_lock fun _ m hm => ?_
  simp only [hm rfl, Function.iterate_zero, id]
  induction m.sendWaiters_.length with
  | zero => exact safe_write (safe_unlock h)
  | succ n ih =>
    rw [Function.iterate_succ_apply']
    exact ⟨fun hcall => absurd rfl hcall, ih⟩

lemma safe_done : Safe ∅ (.done : Code T) := rfl

lemma safe_program (op : Op T) : Safe ∅ (program op) := by
  cases op with
  | trySend => exact safe_trySend fun _ => safe_done
  | tryRecv => exact safe_takeFront fun _ => safe_done
  | send =>
    refine safe_read fun m => ?_
    split_ifs
    · exact safe_done
    refine safe_trySend fun sent => ?_
    split_ifs
    · exact safe_done
    · exact safe_await safe_done safe_done
  | recv depth =>
    unfold program recv
    refine safe_takeFront fun got => ?_
    split_ifs
    · exact safe_done
    refine safe_read fun m => ?_
    split_ifs
    · exact safe_done
    · exact safe_await (safe_takeFront fun _ => safe_done) safe_done
  | close => exact safe_close safe_done
  | size => exact safe_lock (safe_read fun _ => safe_unlock safe_done)

/-- **No self-deadlock**, from any state of the channel, if no receiver is parked where one would be
resumed and resumed senders do not use the channel. -/
theorem inline_not_selfDeadlock {ι : Type*} [DecidableEq ι] {c : Config Unit (Memory T) Unit Site ι}
    (h : (system ι T).ReachableWithin (StepOk Allowed MayCall) c) (t : ι) : ¬ SelfDeadlock c t :=
  not_selfDeadlock safe_program h t

def call (op : Op ℕ) (n : ℕ) : List (Unit × Choice Unit (Op ℕ)) :=
  ((), .start op) :: List.replicate n ((), .go ())

/-- A parked sender is resumed, does not use the channel, and its value is in the buffer. -/
theorem inline_not_selfDeadlock_sender : ∃ c,
    (system Unit ℕ).ReachableWithin (StepOk Allowed MayCall) c ∧
      c.mem.sendWaiters_ = [] ∧ c.mem.buffer_ = [2] ∧ ¬ SelfDeadlock c () := by
  obtain ⟨c, h, hs, hb⟩ : ∃ c, (system Unit ℕ).ReachableWithin (StepOk Allowed MayCall) c ∧
      c.mem.sendWaiters_ = [] ∧ c.mem.buffer_ = [2] :=
    reached_by (initial ⟨1, false, [1], 0, [2]⟩) (call (.tryRecv 1) 8)
      ⟨_, trivial, rfl⟩ (by decide)
  exact ⟨c, h, hs, hb, inline_not_selfDeadlock h ()⟩

/-- **Self-deadlocks of one thread**: it sends to or closes a channel with a parked receiver, as the
destructor of an actor does that waits for a message; or it receives from a channel with a parked
sender, which sends again. -/
theorem inline_selfDeadlock :
    (∃ c : Config Unit (Memory ℕ) Unit Site Unit, (system Unit ℕ).Reachable c ∧
      c.mem.recvWaiters_ = 0 ∧ SelfDeadlock c ()) ∧
    (∃ c : Config Unit (Memory ℕ) Unit Site Unit, (system Unit ℕ).Reachable c ∧
      c.mem.closed_ = true ∧ SelfDeadlock c ()) ∧
    ∃ c : Config Unit (Memory ℕ) Unit Site Unit, (system Unit ℕ).Reachable c ∧
      c.mem.buffer_ = [2] ∧ SelfDeadlock c () :=
  ⟨reached_by (initial ⟨1, false, [], 1, []⟩) (call (.trySend 0 1) 5) ⟨_, trivial, rfl⟩ (by decide),
    reached_by (initial ⟨1, false, [], 1, []⟩) (call (.close 1) 3) ⟨_, trivial, rfl⟩ (by decide),
    reached_by (initial ⟨1, false, [1], 0, [2]⟩)
      (call (.tryRecv 1) 6 ++ call (.trySend 3 1) 1) ⟨_, trivial, rfl⟩ (by decide)⟩

end Pman.ChannelInline
