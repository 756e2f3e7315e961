import Mathlib.Data.List.Nodup
import Pman.Lib.TransitionSystem

set_option autoImplicit false

/-!
# The bounded channel on one event loop

`ChannelImpl` keeps a bounded buffer and two queues of suspended coroutines. A sender that finds the
buffer full parks its value with its handle; whoever takes a value from the buffer moves the first
parked value in and posts the resumption of its sender, and every value that enters the buffer posts
the resumption of the first parked receiver. Other calls come in before posted resumptions run.

`Channel.Loop` is the channel with what the event loop holds for it: the posted resumptions, the
`sent_flag` cells that senders share with their parked entries, the number of the next call and a
history.

`Sender::send` moves its argument into the call of `trySend` and uses it again when that call fails,
so what a move leaves behind is a parameter: `mv v` is what remains of `v`. Elements whose move is a
copy have `mv = id`.

## Main results

* `wellFormed_of_reachable`: what holds of the buffer and the parked calls in every run.
-/

namespace Pman

open List

namespace Channel

/-- A coroutine suspended in the channel, named by the number of its `send` or `recv` call. -/
inductive Handle
  | sender (call : ℕ)
  | receiver (call : ℕ)
deriving DecidableEq, Repr

def Handle.call : Handle → ℕ
  | .sender call => call
  | .receiver call => call

variable {T : Type*}

/-- A parked sender. The pointer `sent_flag` is the number of the call it was allocated for;
`sendAwaiter` always allocates one, so it is never null. -/
structure SendWaiter (T : Type*) where
  handle : Handle
  value : T
  sent_flag : ℕ

structure ChannelImpl (T : Type*) where
  capacity_ : ℕ
  closed_ : Bool
  buffer_ : List T
  recvWaiters_ : List Handle
  sendWaiters_ : List (SendWaiter T)

inductive Event (T : Type*)
  /-- A `send` or `trySend` call was not rejected: it sent its value or parked. -/
  | accepted (call : ℕ) (value : T)
  | entered (call : ℕ) (element : T)
  | dropped (call : ℕ)
  | dequeued (element : T)
  | sendReturned (call : ℕ) (result : Bool)
  | recvReturned (call : ℕ) (result : Option T)
deriving DecidableEq, Repr

structure Loop (T : Type*) extends ChannelImpl T where
  /-- The cells the `sent_flag` pointers point to. -/
  sentFlags : ℕ → Bool
  /-- The coroutines whose resumption is posted, oldest first. -/
  posted : List Handle
  nextCall : ℕ
  log : List (Event T)

inductive CoResult (α : Type*)
  | returned (a : α)
  | suspended

namespace Loop

def record (s : Loop T) (e : Event T) : Loop T := { s with log := s.log ++ [e] }

def newCall (s : Loop T) : Loop T := { s with nextCall := s.nextCall + 1 }

def resumeHandle (s : Loop T) (handle : Handle) : Loop T :=
  { s with posted := s.posted ++ [handle] }

def pushBack (s : Loop T) (call : ℕ) (element : T) : Loop T :=
  { s with buffer_ := s.buffer_ ++ [element] }.record (.entered call element)

def wakeNextReceiverLocked (s : Loop T) : Loop T :=
  match s.recvWaiters_ with
  | [] => s
  | handle :: rest => { s with recvWaiters_ := rest }.resumeHandle handle

def wakeNextSenderLocked (s : Loop T) : Loop T :=
  match s.sendWaiters_ with
  | [] => s
  | waiter :: rest =>
    if s.buffer_.length < s.capacity_ then
      let s := { s with sendWaiters_ := rest }
      let s := s.pushBack waiter.handle.call waiter.value
      let s := { s with sentFlags := Function.update s.sentFlags waiter.sent_flag true }
      let s := s.wakeNextReceiverLocked
      s.resumeHandle waiter.handle
    else s

def trySend (s : Loop T) (call : ℕ) (value : T) : Loop T × Bool :=
  if s.closed_ then (s, false)
  else if s.capacity_ ≤ s.buffer_.length then (s, false)
  else ((s.pushBack call value).wakeNextReceiverLocked, true)

/-- The common body of `tryRecv` and of `RecvAwaiter::await_resume`: move the front out, pop it,
wake the next sender. -/
def takeFront (s : Loop T) : Loop T × Option T :=
  match s.buffer_ with
  | [] => (s, none)
  | value :: rest =>
    (({ s with buffer_ := rest }.record (.dequeued value)).wakeNextSenderLocked, some value)

def tryRecv (s : Loop T) : Loop T × Option T := s.takeFront

/-- The first call closes the channel; it resumes every parked receiver and every parked sender
and forgets them, with the senders' values. -/
def close (s : Loop T) : Loop T :=
  if s.closed_ then s
  else
    let s := { s with closed_ := true }
    let s := s.recvWaiters_.foldl resumeHandle s
    let s := { s with recvWaiters_ := [] }
    let s := s.sendWaiters_.foldl
      (fun s waiter => (s.resumeHandle waiter.handle).record (.dropped waiter.handle.call)) s
    { s with sendWaiters_ := [] }

def isClosed (s : Loop T) : Bool := s.closed_

def sendAwaiter (s : Loop T) (call : ℕ) : Loop T :=
  { s with sentFlags := Function.update s.sentFlags call false }

end Loop

namespace SendAwaiter

def awaitReady (s : Loop T) : Bool := s.closed_ || decide (s.buffer_.length < s.capacity_)

def awaitSuspend (s : Loop T) (handle : Handle) (value : T) (sent_flag : ℕ) : Loop T :=
  { s with sendWaiters_ := s.sendWaiters_ ++ [⟨handle, value, sent_flag⟩] }

def awaitResume (s : Loop T) (sent_flag : ℕ) : Bool :=
  if s.closed_ then false else s.sentFlags sent_flag

end SendAwaiter

namespace RecvAwaiter

def awaitReady (s : Loop T) : Bool := s.closed_ || !s.buffer_.isEmpty

def awaitSuspend (s : Loop T) (handle : Handle) : Loop T :=
  { s with recvWaiters_ := s.recvWaiters_ ++ [handle] }

def awaitResume (s : Loop T) : Loop T × Option T := s.takeFront

end RecvAwaiter

namespace Loop

/-- `Sender::send`, up to completion or suspension. After the failed `trySend` the argument is
what the move into that call left of it. -/
def send (mv : T → T) (s : Loop T) (call : ℕ) (value : T) : Loop T × CoResult Bool :=
  if s.isClosed then (s, .returned false)
  else
    match s.trySend call value with
    | (s, true) => (s, .returned true)
    | (s, false) =>
      let s := s.sendAwaiter call
      if SendAwaiter.awaitReady s then (s, .returned (SendAwaiter.awaitResume s call))
      else (SendAwaiter.awaitSuspend s (.sender call) (mv value) call, .suspended)

def recv (s : Loop T) (call : ℕ) : Loop T × CoResult (Option T) :=
  match s.tryRecv with
  | (s, some value) => (s, .returned (some value))
  | (s, none) =>
    if s.isClosed then (s, .returned none)
    else if RecvAwaiter.awaitReady s then
      match RecvAwaiter.awaitResume s with
      | (s, result) => (s, .returned result)
    else (RecvAwaiter.awaitSuspend s (.receiver call), .suspended)

end Loop

inductive Act (T : Type*)
  | trySend (value : T)
  | send (value : T)
  | tryRecv
  | recv
  /-- Run the posted resumption at an index; the loop itself always runs index `0`. -/
  | resume (i : ℕ)
  | close
deriving DecidableEq, Repr

def bookSend (call : ℕ) (value : T) : Loop T × CoResult Bool → Loop T
  | (s, .returned true) => (s.record (.accepted call value)).record (.sendReturned call true)
  | (s, .returned false) => s.record (.sendReturned call false)
  | (s, .suspended) => s.record (.accepted call value)

def bookRecv (call : ℕ) : Loop T × CoResult (Option T) → Loop T
  | (s, .returned result) => s.record (.recvReturned call result)
  | (s, .suspended) => s

def resumed (s : Loop T) : Handle → Loop T
  | .sender call => s.record (.sendReturned call (SendAwaiter.awaitResume s call))
  | .receiver call =>
    match RecvAwaiter.awaitResume s with
    | (s, result) => s.record (.recvReturned call result)

def step (mv : T → T) (s : Loop T) : Act T → Option (Loop T)
  | .trySend value =>
    match s.newCall.trySend s.nextCall value with
    | (s', true) => some (s'.record (.accepted s.nextCall value))
    | (s', false) => some s'
  | .send value => some (bookSend s.nextCall value (s.newCall.send mv s.nextCall value))
  | .tryRecv => some s.tryRecv.1
  | .recv => some (bookRecv s.nextCall (s.newCall.recv s.nextCall))
  | .resume i =>
    match s.posted[i]? with
    | none => none
    | some handle => some (resumed { s with posted := s.posted.eraseIdx i } handle)
  | .close => some s.close

def Loop.new (capacity : ℕ) : Loop T where
  capacity_ := capacity
  closed_ := false
  buffer_ := []
  recvWaiters_ := []
  sendWaiters_ := []
  sentFlags := fun _ => false
  posted := []
  nextCall := 0
  log := []

/-- The channel driven by one event-loop thread, for every capacity. -/
def system (mv : T → T) : TransitionSystem (Loop T) (Act T) where
  init s := ∃ capacity, s = Loop.new capacity
  step := step mv

/-! ### What a step can do

The moves below are what the operations come to once their tests are decided. -/

variable {rest : List T} {value : T}

namespace Loop

def push (s : Loop T) (call : ℕ) (value : T) : Loop T :=
  (s.pushBack call value).wakeNextReceiverLocked

def park (s : Loop T) (call : ℕ) (left : T) : Loop T :=
  SendAwaiter.awaitSuspend (s.sendAwaiter call) (.sender call) left call

/-- The front `value` leaves the buffer `value :: rest` and a parked sender is served. -/
def take (s : Loop T) (value : T) (rest : List T) : Loop T :=
  ({ s with buffer_ := rest }.record (.dequeued value)).wakeNextSenderLocked

def unpost (s : Loop T) (i : ℕ) : Loop T := { s with posted := s.posted.eraseIdx i }

def shut (s : Loop T) : Loop T :=
  { s with
    closed_ := true
    recvWaiters_ := []
    sendWaiters_ := []
    posted := s.posted ++ s.recvWaiters_ ++ s.sendWaiters_.map SendWaiter.handle
    log := s.log ++ s.sendWaiters_.map fun waiter => .dropped waiter.handle.call }

lemma wakeNextReceiverLocked_eq (s : Loop T) :
    s.wakeNextReceiverLocked =
      { s with
        recvWaiters_ := s.recvWaiters_.tail
        posted := s.posted ++ s.recvWaiters_.take 1 } := by
  obtain ⟨⟨cap, closed, buffer, recvWaiters, sendWaiters⟩, flags, posted, next, log⟩ := s
  cases recvWaiters <;> simp [wakeNextReceiverLocked, resumeHandle]

lemma push_eq (s : Loop T) (call : ℕ) (value : T) :
    s.push call value =
      { s with
        buffer_ := s.buffer_ ++ [value]
        recvWaiters_ := s.recvWaiters_.tail
        posted := s.posted ++ s.recvWaiters_.take 1
        log := s.log ++ [.entered call value] } := by
  rw [push, wakeNextReceiverLocked_eq]
  rfl

lemma take_of_nil (s : Loop T) (value : T) (rest : List T) (h : s.sendWaiters_ = []) :
    s.take value rest = { s with buffer_ := rest, log := s.log ++ [.dequeued value] } := by
  simp [take, record, wakeNextSenderLocked, h]

lemma take_of_cons (s : Loop T) (value : T) (rest : List T) {waiter : SendWaiter T}
    {waiters : List (SendWaiter T)} (h : s.sendWaiters_ = waiter :: waiters)
    (hroom : rest.length < s.capacity_) :
    s.take value rest =
      { s with
        buffer_ := rest ++ [waiter.value]
        sendWaiters_ := waiters
        recvWaiters_ := s.recvWaiters_.tail
        posted := s.posted ++ s.recvWaiters_.take 1 ++ [waiter.handle]
        sentFlags := Function.update s.sentFlags waiter.sent_flag true
        log := s.log ++ [.dequeued value] ++ [.entered waiter.handle.call waiter.value] } := by
  simp [take, record, wakeNextSenderLocked, h, hroom, pushBack, wakeNextReceiverLocked_eq,
    resumeHandle]

variable {s : Loop T}

lemma takeFront_of_nil (h : s.buffer_ = []) : s.takeFront = (s, none) := by
  simp [takeFront, h]

lemma takeFront_of_cons (h : s.buffer_ = value :: rest) :
    s.takeFront = (s.take value rest, some value) := by
  simp [takeFront, h, take]

lemma foldl_resumeHandle (hs : List Handle) (s : Loop T) :
    hs.foldl resumeHandle s = { s with posted := s.posted ++ hs } := by
  induction hs generalizing s with
  | nil => simp
  | cons h hs ih => simp [ih, resumeHandle]

lemma foldl_dropped (ws : List (SendWaiter T)) (s : Loop T) :
    ws.foldl (fun s waiter => (s.resumeHandle waiter.handle).record
        (.dropped waiter.handle.call)) s =
      { s with
        posted := s.posted ++ ws.map SendWaiter.handle
        log := s.log ++ ws.map fun waiter => .dropped waiter.handle.call } := by
  induction ws generalizing s with
  | nil => simp
  | cons w ws ih =>
    rw [foldl_cons, ih]
    simp [resumeHandle, record]

lemma close_of_closed (h : s.closed_ = true) : s.close = s := by
  simp [close, h]

lemma close_of_open (h : s.closed_ = false) : s.close = s.shut := by
  simp [close, h, foldl_resumeHandle, foldl_dropped, shut]

end Loop

/-- What an operation does to the channel. -/
inductive Effect (mv : T → T) (s : Loop T) : Act T → Loop T → Prop
  | trySendRejected (value : T) (h : s.closed_ = true ∨ s.capacity_ ≤ s.buffer_.length) :
      Effect mv s (.trySend value) s.newCall
  | trySendDone (value : T) (hopen : s.closed_ = false) (hroom : s.buffer_.length < s.capacity_) :
      Effect mv s (.trySend value)
        ((s.newCall.push s.nextCall value).record (.accepted s.nextCall value))
  | sendRefused (value : T) (h : s.closed_ = true) :
      Effect mv s (.send value) (s.newCall.record (.sendReturned s.nextCall false))
  | sendDone (value : T) (hopen : s.closed_ = false) (hroom : s.buffer_.length < s.capacity_) :
      Effect mv s (.send value)
        (((s.newCall.push s.nextCall value).record (.accepted s.nextCall value)).record
          (.sendReturned s.nextCall true))
  | sendParked (value : T) (hopen : s.closed_ = false) (hfull : s.capacity_ ≤ s.buffer_.length) :
      Effect mv s (.send value)
        ((s.newCall.park s.nextCall (mv value)).record (.accepted s.nextCall value))
  | tryRecvEmpty (h : s.buffer_ = []) : Effect mv s .tryRecv s
  | tryRecvDone (value : T) (rest : List T) (h : s.buffer_ = value :: rest) :
      Effect mv s .tryRecv (s.take value rest)
  | recvDone (value : T) (rest : List T) (h : s.buffer_ = value :: rest) :
      Effect mv s .recv
        ((s.newCall.take value rest).record (.recvReturned s.nextCall (some value)))
  | recvEnded (hclosed : s.closed_ = true) (h : s.buffer_ = []) :
      Effect mv s .recv (s.newCall.record (.recvReturned s.nextCall none))
  | recvParked (hopen : s.closed_ = false) (h : s.buffer_ = []) :
      Effect mv s .recv (RecvAwaiter.awaitSuspend s.newCall (.receiver s.nextCall))
  | resumeSender (i call : ℕ) (hp : s.posted[i]? = some (.sender call)) :
      Effect mv s (.resume i)
        ((s.unpost i).record (.sendReturned call (!s.closed_ && s.sentFlags call)))
  | resumeReceiverEnded (i call : ℕ) (hp : s.posted[i]? = some (.receiver call))
      (h : s.buffer_ = []) :
      Effect mv s (.resume i) ((s.unpost i).record (.recvReturned call none))
  | resumeReceiverDone (i call : ℕ) (hp : s.posted[i]? = some (.receiver call)) (value : T)
      (rest : List T) (h : s.buffer_ = value :: rest) :
      Effect mv s (.resume i)
        (((s.unpost i).take value rest).record (.recvReturned call (some value)))
  | closeAgain (h : s.closed_ = true) : Effect mv s .close s
  | closeFirst (hopen : s.closed_ = false) : Effect mv s .close s.shut

variable {s : Loop T} {mv : T → T}

lemma trySend_of_open (call : ℕ) (value : T) (hopen : s.closed_ = false) :
    s.trySend call value =
      if s.buffer_.length < s.capacity_ then (s.push call value, true) else (s, false) := by
  by_cases hroom : s.buffer_.length < s.capacity_
  · simp [Loop.trySend, hopen, hroom, Loop.push]
  · simp [Loop.trySend, hopen, hroom, Nat.not_lt.mp hroom]

variable {a : Act T} {s' : Loop T}

/-- **What a step can do.**

**Proof sketch.** Each call is unfolded along its own tests: `trySend` and `send` along closed
and full, the receives along an empty buffer, a resumption along the kind of coroutine. -/
lemma effect_of_step (hst : step mv s a = some s') : Effect mv s a s' := by
  cases a with
  | trySend value =>
    cases hc : s.closed_ with
    | true =>
      have : s' = s.newCall := by
        simpa [step, Loop.trySend, Loop.newCall, hc] using hst.symm
      exact this ▸ .trySendRejected value (.inl hc)
    | false =>
      rw [step, trySend_of_open _ _ (by exact hc)] at hst
      by_cases hroom : s.buffer_.length < s.capacity_
      · rw [if_pos (by exact hroom)] at hst
        exact Option.some.inj hst ▸ .trySendDone value hc hroom
      · rw [if_neg (by exact hroom)] at hst
        exact Option.some.inj hst ▸ .trySendRejected value (.inr (Nat.not_lt.mp hroom))
  | send value =>
    cases hst
    cases hc : s.closed_ with
    | true =>
      have : s.newCall.send mv s.nextCall value = (s.newCall, .returned false) := by
        simp [Loop.send, Loop.isClosed, Loop.newCall, hc]
      rw [this]
      exact .sendRefused value hc
    | false =>
      have hcl : ¬ s.newCall.isClosed = true := by simp [Loop.isClosed, Loop.newCall, hc]
      rw [Loop.send, if_neg hcl, trySend_of_open _ _ (by exact hc)]
      by_cases hroom : s.buffer_.length < s.capacity_
      · rw [if_pos (by exact hroom)]
        exact .sendDone value hc hroom
      · rw [if_neg (by exact hroom)]
        have hready : SendAwaiter.awaitReady (s.newCall.sendAwaiter s.nextCall) = false := by
          simp [SendAwaiter.awaitReady, Loop.sendAwaiter, Loop.newCall, hc, hroom]
        simp only [hready]
        exact .sendParked value hc (Nat.not_lt.mp hroom)
  | tryRecv =>
    cases hst
    cases hb : s.buffer_ with
    | nil =>
      rw [Loop.tryRecv, Loop.takeFront_of_nil hb]
      exact .tryRecvEmpty hb
    | cons value rest =>
      rw [Loop.tryRecv, Loop.takeFront_of_cons hb]
      exact .tryRecvDone value rest hb
  | recv =>
    cases hst
    cases hb : s.buffer_ with
    | cons value rest =>
      rw [Loop.recv, Loop.tryRecv, Loop.takeFront_of_cons (by exact hb)]
      exact .recvDone value rest hb
    | nil =>
      rw [Loop.recv, Loop.tryRecv, Loop.takeFront_of_nil (by exact hb)]
      cases hc : s.closed_ with
      | true =>
        simp only [Loop.isClosed, Loop.newCall, hc, if_true]
        exact .recvEnded hc hb
      | false =>
        have hready : RecvAwaiter.awaitReady s.newCall = false := by
          simp [RecvAwaiter.awaitReady, Loop.newCall, hc, hb]
        have hcl : s.newCall.isClosed = false := hc
        simp only [hready, hcl]
        exact .recvParked hc hb
  | resume i =>
    simp only [step] at hst
    split at hst <;> cases hst
    case h_2 handle hp =>
      cases handle with
      | sender call =>
        have hres : SendAwaiter.awaitResume (s.unpost i) call =
            (!s.closed_ && s.sentFlags call) := by
          cases hc : s.closed_ <;> simp [SendAwaiter.awaitResume, Loop.unpost, hc]
        have heff : Effect mv s (.resume i) _ := .resumeSender i call hp
        rwa [← hres] at heff
      | receiver call =>
        cases hb : s.buffer_ with
        | nil =>
          rw [resumed, RecvAwaiter.awaitResume, Loop.takeFront_of_nil (by exact hb)]
          exact .resumeReceiverEnded i call hp hb
        | cons value rest =>
          rw [resumed, RecvAwaiter.awaitResume, Loop.takeFront_of_cons (by exact hb)]
          exact .resumeReceiverDone i call hp value rest hb
  | close =>
    cases hst
    cases hc : s.closed_ with
    | true =>
      rw [Loop.close_of_closed hc]
      exact .closeAgain hc
    | false =>
      rw [Loop.close_of_open hc]
      exact .closeFirst hc

/-! ### Well-formed states -/

/-- The invariant of the channel. -/
structure WellFormed (s : Loop T) : Prop where
  bounded : s.buffer_.length ≤ s.capacity_
  full : s.sendWaiters_ ≠ [] → s.buffer_.length = s.capacity_
  receivers : ∀ h ∈ s.recvWaiters_, ∃ call, h = .receiver call
  senders : ∀ w ∈ s.sendWaiters_, w.handle = .sender w.sent_flag
  numbered : ∀ w ∈ s.sendWaiters_, w.sent_flag < s.nextCall
  nodup : (s.sendWaiters_.map SendWaiter.sent_flag).Nodup
  entered_lt : ∀ call x, .entered call x ∈ s.log → call < s.nextCall
  closed : s.closed_ = true → s.recvWaiters_ = [] ∧ s.sendWaiters_ = []

namespace WellFormed

variable {s : Loop T}

variable (h : WellFormed s)

include h

lemma record {e : Event T} (he : ∀ call x, e ≠ .entered call x) : WellFormed (s.record e) := by
  refine { h with entered_lt := fun call x hx => ?_ }
  rcases mem_concat.mp hx with hx | hx
  · exact h.entered_lt call x hx
  · exact absurd hx.symm (he call x)

lemma unpost (i : ℕ) : WellFormed (s.unpost i) :=
  ⟨h.bounded, h.full, h.receivers, h.senders, h.numbered, h.nodup, h.entered_lt, h.closed⟩

lemma newCall : WellFormed s.newCall :=
  { h with
    numbered := fun w hw => Nat.lt_succ_of_lt (h.numbered w hw)
    entered_lt := fun call x hx => Nat.lt_succ_of_lt (h.entered_lt call x hx) }

lemma sendWaiters_eq_nil (hroom : s.buffer_.length < s.capacity_) : s.sendWaiters_ = [] := by
  by_contra hne
  have := h.full hne
  omega

lemma push (hroom : s.buffer_.length < s.capacity_) {call : ℕ}
    (hcall : call < s.nextCall) (value : T) : WellFormed (s.push call value) := by
  have hnil := h.sendWaiters_eq_nil hroom
  rw [Loop.push_eq]
  refine ⟨?_, fun hne => absurd hnil hne, ?_, h.senders, h.numbered, h.nodup, ?_, ?_⟩
  · simp only [length_append, length_singleton]
    omega
  · exact fun x hx => h.receivers x (mem_of_mem_tail hx)
  · intro k x hx
    rcases mem_concat.mp hx with hx | hx
    · exact h.entered_lt k x hx
    · rw [Event.entered.injEq] at hx
      rw [hx.1]
      exact hcall
  · intro hc
    simp [h.closed hc]

lemma park (hopen : s.closed_ = false) (hfull : s.capacity_ ≤ s.buffer_.length)
    (left : T) : WellFormed (s.newCall.park s.nextCall left) := by
  have hbound := h.bounded
  refine ⟨hbound, fun _ => ?_, h.receivers, ?_, ?_, ?_, h.newCall.entered_lt, fun hc => ?_⟩
  · show s.buffer_.length = s.capacity_
    omega
  · intro w hw
    rcases mem_concat.mp hw with hw | rfl
    · exact h.senders w hw
    · rfl
  · intro w hw
    rcases mem_concat.mp hw with hw | rfl
    · exact Nat.lt_succ_of_lt (h.numbered w hw)
    · exact Nat.lt_succ_self _
  · show ((s.sendWaiters_ ++ [_]).map SendWaiter.sent_flag).Nodup
    rw [map_append, map_singleton, ← concat_eq_append]
    refine h.nodup.concat fun hmem => ?_
    obtain ⟨w, hw, heq⟩ := mem_map.mp hmem
    exact absurd heq (Nat.ne_of_lt (h.numbered w hw))
  · have : s.closed_ = true := hc
    simp [hopen] at this

lemma parkReceiver (hopen : s.closed_ = false) (call : ℕ) :
    WellFormed (RecvAwaiter.awaitSuspend s (.receiver call)) := by
  refine { h with receivers := ?_, closed := fun hc => ?_ }
  · intro x hx
    rcases mem_concat.mp hx with hx | hx
    · exact h.receivers x hx
    · exact ⟨call, hx⟩
  · have : s.closed_ = true := hc
    simp [hopen] at this

lemma rest_lt (hb : s.buffer_ = value :: rest) : rest.length < s.capacity_ := by
  have := h.bounded
  rw [hb, length_cons] at this
  omega

lemma take (hb : s.buffer_ = value :: rest) : WellFormed (s.take value rest) := by
  have hrest := h.rest_lt hb
  cases hw : s.sendWaiters_ with
  | nil =>
    rw [Loop.take_of_nil _ _ _ hw]
    refine { h with
      bounded := Nat.le_of_lt hrest
      full := fun hne => absurd hw hne
      entered_lt := fun call x hx => h.entered_lt call x ?_ }
    simpa using hx
  | cons w ws =>
    have hfull := h.full (by simp [hw])
    rw [hb, length_cons] at hfull
    have hnd := h.nodup
    rw [hw, map_cons, nodup_cons] at hnd
    have hsub : ∀ x ∈ ws, x ∈ s.sendWaiters_ := fun x hx => by simp [hw, hx]
    have hlen : (rest ++ [w.value]).length = s.capacity_ := by
      rw [length_append, length_singleton]
      exact hfull
    rw [Loop.take_of_cons _ _ _ hw hrest]
    refine ⟨Nat.le_of_eq hlen, fun _ => hlen, ?_, fun x hx => h.senders x (hsub x hx),
      fun x hx => h.numbered x (hsub x hx), hnd.2, fun call x hx => ?_, fun hc => ?_⟩
    · exact fun x hx => h.receivers x (mem_of_mem_tail hx)
    · have hmem : w ∈ s.sendWaiters_ := by simp [hw]
      rw [h.senders w hmem] at hx
      simp only [mem_append, mem_singleton, reduceCtorEq, or_false,
        Event.entered.injEq, Handle.call] at hx
      rcases hx with hx | ⟨rfl, -⟩
      · exact h.entered_lt call x hx
      · exact h.numbered w hmem
    · have := (h.closed hc).2
      simp [hw] at this

lemma shut : WellFormed s.shut :=
  ⟨h.bounded, by simp [Loop.shut], by simp [Loop.shut], by simp [Loop.shut], by simp [Loop.shut],
    nodup_nil, fun call x hx => h.entered_lt call x (by simpa [Loop.shut] using hx),
    fun _ => ⟨rfl, rfl⟩⟩

lemma step {mv : T → T} (hst : Channel.step mv s a = some s') : WellFormed s' := by
  cases effect_of_step hst with
  | trySendRejected => exact h.newCall
  | trySendDone value _ hroom =>
    exact (h.newCall.push hroom (Nat.lt_succ_self _) _).record (by simp)
  | sendRefused | recvEnded => exact h.newCall.record (by simp)
  | sendDone value _ hroom =>
    exact ((h.newCall.push hroom (Nat.lt_succ_self _) _).record (by simp)).record (by simp)
  | sendParked value hopen hfull => exact (h.park hopen hfull _).record (by simp)
  | tryRecvEmpty => exact h
  | tryRecvDone value rest hb => exact h.take hb
  | recvDone value rest hb => exact (h.newCall.take hb).record (by simp)
  | recvParked hopen => exact h.newCall.parkReceiver hopen _
  | resumeSender | resumeReceiverEnded => exact (h.unpost _).record (by simp)
  | resumeReceiverDone i call _ value rest hb => exact ((h.unpost i).take hb).record (by simp)
  | closeAgain => exact h
  | closeFirst => exact h.shut

end WellFormed

/-- The channel is well-formed in every run. -/
theorem wellFormed_of_reachable {ok : Loop T → Act T → Prop}
    (h : (system mv).ReachableWithin ok s) : WellFormed s := by
  refine h.invariant ?_ fun s a s' hs _ hst => hs.step hst
  rintro _ ⟨capacity, rfl⟩
  exact ⟨Nat.zero_le _, by simp [Loop.new], by simp [Loop.new], by simp [Loop.new],
    by simp [Loop.new], nodup_nil, by simp [Loop.new], fun _ => ⟨rfl, rfl⟩⟩

/-! ### Closing -/

@[simp] lemma Loop.closed_take (s : Loop T) (value : T) (rest : List T) :
    (s.take value rest).closed_ = s.closed_ := by
  cases hw : s.sendWaiters_ with
  | nil => rw [take_of_nil s value rest hw]
  | cons waiter waiters =>
    by_cases hroom : rest.length < s.capacity_
    · rw [take_of_cons s value rest hw hroom]
    · simp [take, record, wakeNextSenderLocked, hw, hroom]

lemma Effect.closed_eq (h : Effect mv s a s') (ha : a ≠ .close) : s'.closed_ = s.closed_ := by
  cases h with
  | closeAgain | closeFirst => exact absurd rfl ha
  | trySendDone | sendDone => simp [Loop.push_eq, Loop.record, Loop.newCall]
  | tryRecvDone | recvDone | resumeReceiverDone =>
    simp [Loop.record, Loop.newCall, Loop.unpost]
  | _ => rfl

end Channel

end Pman
