import Pman.Async.ChannelReceive

set_option autoImplicit false

/-!
# The channel across threads

The channel is documented as safe for many producers and consumers. Its `mutex_` protects single
regions, but `send` and `recv` are made of several: they try, ask in `await_ready` whether to wait,
and park in `await_suspend`, each under a lock of its own. An answer may be out of date when the
next region acts on it.

Every region, and every access to the atomic `closed_` outside of one, is a step. A state has the
channel and for each call how far it has come; any call may take its next step, so every number of
threads is covered. Posted resumptions run in any order, since they may be posted to different
loops.

## Main results

* `channel_correct_across_threads`: the channel used from several threads.
-/

namespace Pman

open List Function

namespace Channel.Loop

variable {T : Type*}

def trySendLocked (s : Loop T) (call : ℕ) (value : T) : Loop T × Bool :=
  if s.capacity_ ≤ s.buffer_.length then (s, false)
  else ((s.pushBack call value).wakeNextReceiverLocked, true)

def closeLocked (s : Loop T) : Loop T :=
  let s := s.recvWaiters_.foldl resumeHandle s
  let s := { s with recvWaiters_ := [] }
  let s := s.sendWaiters_.foldl
    (fun s waiter => (s.resumeHandle waiter.handle).record (.dropped waiter.handle.call)) s
  { s with sendWaiters_ := [] }

lemma closeLocked_eq (s : Loop T) :
    s.closeLocked =
      { s with
        recvWaiters_ := []
        sendWaiters_ := []
        posted := s.posted ++ s.recvWaiters_ ++ s.sendWaiters_.map SendWaiter.handle
        log := s.log ++ s.sendWaiters_.map fun waiter => .dropped waiter.handle.call } := by
  simp [closeLocked, foldl_resumeHandle, foldl_dropped]

end Channel.Loop

namespace ChannelThreads

open Channel

variable {T : Type*}

inductive Pc (T : Type*)
  | idle
  | sendIsClosed (value : T)
  | sendTry (value : T)
  | sendTryLocked (value : T)
  | sendReady (left : T)
  | sendReadyLocked (left : T)
  | sendSuspend (left : T)
  | sendParked
  | sendResume
  | sendFlag
  | trySend (value : T)
  | trySendLocked (value : T)
  | tryRecv
  | recvTry
  | recvIsClosed
  | recvReady
  | recvReadyLocked
  | recvSuspend
  | recvParked
  | recvResume
  | close
  | closeLocked
  | returned
deriving DecidableEq, Repr

def Pc.allocated : Pc T → Bool
  | .sendReady _ | .sendReadyLocked _ | .sendSuspend _ | .sendParked | .sendResume | .sendFlag
  | .returned => true
  | _ => false

/-- A `send` that returned, and whether the channel was closed by then. -/
structure Answer where
  call : ℕ
  result : Bool
  closed : Bool
deriving DecidableEq, Repr

/-- The channel, the calls and the answers of `send`. -/
structure State (T : Type*) where
  chan : Loop T
  pc : ℕ → Pc T
  answers : List Answer

namespace State

def goTo (s : State T) (call : ℕ) (pc : Pc T) : State T :=
  { s with pc := update s.pc call pc }

def answer (s : State T) (call : ℕ) (result : Bool) : State T :=
  { s with
    chan := s.chan.record (.sendReturned call result)
    answers := s.answers ++ [(⟨call, result, s.chan.closed_⟩ : Answer)] }.goTo call .returned

def recvAnswer (s : State T) (call : ℕ) (result : Option T) : State T :=
  { s with chan := s.chan.record (.recvReturned call result) }.goTo call .returned

def start (s : State T) (pc : Pc T) : State T :=
  { s with chan := s.chan.newCall }.goTo s.chan.nextCall pc

/-- `trySend` has failed, and `sendAwaiter` is called with what is left of the value. -/
def makeAwaiter (mv : T → T) (s : State T) (call : ℕ) (value : T) : State T :=
  { s with chan := s.chan.sendAwaiter call }.goTo call (.sendReady (mv value))

end State

def run (mv : T → T) (s : State T) (call : ℕ) : Option (State T) :=
  match s.pc call with
  | .idle | .sendParked | .recvParked | .returned => none
  | .sendIsClosed value =>
    some (if s.chan.isClosed then s.answer call false else s.goTo call (.sendTry value))
  | .sendTry value =>
    some (if s.chan.closed_ then s.makeAwaiter mv call value
      else s.goTo call (.sendTryLocked value))
  | .sendTryLocked value =>
    match s.chan.trySendLocked call value with
    | (chan, true) => some ({ s with chan := chan }.answer call true)
    | (chan, false) => some ({ s with chan := chan }.makeAwaiter mv call value)
  | .sendReady left =>
    some (s.goTo call (if s.chan.closed_ then .sendResume else .sendReadyLocked left))
  | .sendReadyLocked left =>
    some (s.goTo call
      (if s.chan.buffer_.length < s.chan.capacity_ then .sendResume else .sendSuspend left))
  | .sendSuspend left =>
    some ({ s with chan := SendAwaiter.awaitSuspend s.chan (.sender call) left call }.goTo call
      .sendParked)
  | .sendResume =>
    some (if s.chan.closed_ then s.answer call false else s.goTo call .sendFlag)
  | .sendFlag => some (s.answer call (s.chan.sentFlags call))
  | .trySend value =>
    some (s.goTo call (if s.chan.closed_ then .returned else .trySendLocked value))
  | .trySendLocked value =>
    some ({ s with chan := (s.chan.trySendLocked call value).1 }.goTo call .returned)
  | .tryRecv => some ({ s with chan := s.chan.tryRecv.1 }.goTo call .returned)
  | .recvTry =>
    match s.chan.tryRecv with
    | (chan, some value) => some ({ s with chan := chan }.recvAnswer call (some value))
    | (chan, none) => some ({ s with chan := chan }.goTo call .recvIsClosed)
  | .recvIsClosed =>
    some (if s.chan.isClosed then s.recvAnswer call none else s.goTo call .recvReady)
  | .recvReady =>
    some (s.goTo call (if s.chan.closed_ then .recvResume else .recvReadyLocked))
  | .recvReadyLocked =>
    some (s.goTo call (if s.chan.buffer_.isEmpty then .recvSuspend else .recvResume))
  | .recvSuspend =>
    some ({ s with chan := RecvAwaiter.awaitSuspend s.chan (.receiver call) }.goTo call .recvParked)
  | .recvResume =>
    match RecvAwaiter.awaitResume s.chan with
    | (chan, result) => some ({ s with chan := chan }.recvAnswer call result)
  | .close =>
    some (if s.chan.closed_ then s.goTo call .returned
      else { s with chan := { s.chan with closed_ := true } }.goTo call .closeLocked)
  | .closeLocked => some ({ s with chan := s.chan.closeLocked }.goTo call .returned)

/-- A posted resumption runs: a sender up to its load of `closed_`, a receiver through the region
of its `await_resume`. -/
def resume (s : State T) (i : ℕ) : Option (State T) :=
  match s.chan.posted[i]? with
  | none => none
  | some (.sender call) =>
    let s := { s with chan := s.chan.unpost i }
    some (if s.chan.closed_ then s.answer call false else s.goTo call .sendFlag)
  | some (.receiver call) =>
    match RecvAwaiter.awaitResume (s.chan.unpost i) with
    | (chan, result) => some ({ s with chan := chan }.recvAnswer call result)

inductive Act (T : Type*)
  | send (value : T)
  | trySend (value : T)
  | recv
  | tryRecv
  | close
  | run (call : ℕ)
  | resume (i : ℕ)
deriving DecidableEq, Repr

def step (mv : T → T) (s : State T) : Act T → Option (State T)
  | .send value => some (s.start (.sendIsClosed value))
  | .trySend value => some (s.start (.trySend value))
  | .recv => some (s.start .recvTry)
  | .tryRecv => some (s.start .tryRecv)
  | .close => some (s.start .close)
  | .run call => run mv s call
  | .resume i => resume s i

def new (capacity : ℕ) : State T where
  chan := Loop.new capacity
  pc := fun _ => .idle
  answers := []

/-- Calls on one channel from any number of threads, their steps interleaved freely. -/
def system (mv : T → T) : TransitionSystem (State T) (Act T) where
  init s := ∃ capacity, s = new capacity
  step := step mv

/-- A region that acts on an earlier answer finds it still true: `await_ready` of a `send` whose
`trySend` failed finds no room (or the channel closed by now), its `await_suspend` finds no room,
and `await_suspend` of a `recv` finds no value that is not meant for a woken receiver. -/
def Pc.UpToDate (chan : Loop T) : Pc T → Prop
  | .sendReadyLocked _ => chan.capacity_ ≤ chan.buffer_.length ∨ chan.closed_ = true
  | .sendSuspend _ => chan.capacity_ ≤ chan.buffer_.length
  | .recvSuspend => chan.buffer_.length ≤ woken chan
  | _ => True

instance (chan : Loop T) (pc : Pc T) : Decidable (pc.UpToDate chan) := by
  cases pc <;> dsimp only [Pc.UpToDate] <;> infer_instance

def UpToDate (s : State T) : Act T → Prop
  | .run call => (s.pc call).UpToDate s.chan
  | _ => True

instance (s : State T) (a : Act T) : Decidable (UpToDate s a) := by
  cases a <;> dsimp only [UpToDate] <;> infer_instance

/-! ### The channel between regions -/

structure Regions (s : Loop T) : Prop where
  bounded : s.buffer_.length ≤ s.capacity_
  full : s.sendWaiters_ ≠ [] → s.buffer_.length = s.capacity_
  receivers : ∀ h ∈ s.recvWaiters_, ∃ call, h = .receiver call
  senders : ∀ w ∈ s.sendWaiters_, w.handle = .sender w.sent_flag
  accounted : Accounted s

namespace Regions

variable {s : Loop T}

lemma sendWaiters_eq_nil (h : Regions s) (hroom : s.buffer_.length < s.capacity_) :
    s.sendWaiters_ = [] := by
  by_contra hne
  have := h.full hne
  omega

variable {value : T} {rest : List T} {i call : ℕ}

variable (h : Regions s)

include h

lemma rest_lt (hb : s.buffer_ = value :: rest) : rest.length < s.capacity_ := by
  have := h.bounded
  rw [hb, length_cons] at this
  omega

lemma push (hroom : s.buffer_.length < s.capacity_) (call : ℕ) (value : T) :
    Regions (s.push call value) := by
  have hnil := h.sendWaiters_eq_nil hroom
  have hacc := h.accounted.push h.receivers call value
  rw [Loop.push_eq] at hacc ⊢
  refine ⟨?_, fun hne => absurd hnil hne, fun x hx => h.receivers x (mem_of_mem_tail hx),
    h.senders, hacc⟩
  show (s.buffer_ ++ [value]).length ≤ s.capacity_
  rw [length_append, length_singleton]
  omega

lemma trySendLocked (call : ℕ) (value : T) : Regions (s.trySendLocked call value).1 := by
  unfold Loop.trySendLocked
  split_ifs with hfull
  · exact h
  · exact h.push (Nat.not_le.mp hfull) call value

lemma take (hb : s.buffer_ = value :: rest) {t : Loop T} (hcap : t.capacity_ = s.capacity_)
    (hsend : t.sendWaiters_ = s.sendWaiters_) (hrecv : t.recvWaiters_ = s.recvWaiters_)
    (hbound : t.recvWaiters_ ≠ [] → rest.length ≤ woken t) : Regions (t.take value rest) := by
  have hroom : rest.length < t.capacity_ := hcap ▸ h.rest_lt hb
  have hreceivers : ∀ x ∈ t.recvWaiters_, ∃ call, x = .receiver call := hrecv ▸ h.receivers
  have hacc := Accounted.take hreceivers hroom hbound value
  cases hw : t.sendWaiters_ with
  | nil =>
    rw [Loop.take_of_nil _ _ _ hw] at hacc ⊢
    exact ⟨Nat.le_of_lt hroom, fun hne => absurd hw hne, hreceivers, by simp [hw], hacc⟩
  | cons w ws =>
    have hfull := h.full (by simp [← hsend, hw])
    rw [hb, length_cons] at hfull
    have hlen : (rest ++ [w.value]).length = t.capacity_ := by
      rw [length_append, length_singleton, hcap]
      exact hfull
    rw [Loop.take_of_cons _ _ _ hw hroom] at hacc ⊢
    refine ⟨Nat.le_of_eq hlen, fun _ => hlen,
      fun x hx => hreceivers x (mem_of_mem_tail hx), fun x hx => ?_, hacc⟩
    exact h.senders x (by rw [← hsend, hw]; exact mem_cons_of_mem _ hx)

lemma takeFront : Regions s.takeFront.1 := by
  cases hb : s.buffer_ with
  | nil =>
    rw [Loop.takeFront_of_nil hb]
    exact h
  | cons value rest =>
    rw [Loop.takeFront_of_cons hb]
    refine h.take hb rfl rfl rfl fun hne => ?_
    have hbound := h.accounted hne
    rw [hb, length_cons] at hbound
    omega

lemma resumeReceiver (hp : s.posted[i]? = some (.receiver call)) :
    Regions (s.unpost i).takeFront.1 := by
  have hcount := woken_unpost_receiver hp
  cases hb : s.buffer_ with
  | nil =>
    rw [Loop.takeFront_of_nil (by exact hb)]
    refine { h with accounted := fun _ => ?_ }
    show s.buffer_.length ≤ _
    rw [hb]
    exact Nat.zero_le _
  | cons value rest =>
    rw [Loop.takeFront_of_cons (by exact hb)]
    refine h.take hb rfl rfl rfl fun hne => ?_
    have hbound := h.accounted hne
    rw [hb, length_cons] at hbound
    omega

lemma resumeSender (hp : s.posted[i]? = some (.sender call)) : Regions (s.unpost i) := by
  refine { h with accounted := fun hne => ?_ }
  have hcount : woken (s.unpost i) = woken s := woken_unpost_sender hp
  rw [hcount]
  exact h.accounted hne

lemma parkSender (hfull : s.capacity_ ≤ s.buffer_.length) (call : ℕ) (left : T) :
    Regions (SendAwaiter.awaitSuspend s (.sender call) left call) := by
  refine { h with full := fun _ => Nat.le_antisymm h.bounded hfull, senders := fun w hw => ?_ }
  rcases mem_concat.mp hw with hw | rfl
  · exact h.senders w hw
  · rfl

lemma parkReceiver (hacc : s.buffer_.length ≤ woken s) (call : ℕ) :
    Regions (RecvAwaiter.awaitSuspend s (.receiver call)) := by
  refine ⟨h.bounded, h.full, fun x hx => ?_, h.senders, fun _ => hacc⟩
  rcases mem_concat.mp hx with hx | hx
  · exact h.receivers x hx
  · exact ⟨call, hx⟩

lemma closeLocked : Regions s.closeLocked := by
  rw [Loop.closeLocked_eq]
  exact ⟨h.bounded, fun hne => absurd rfl hne, by simp, by simp, fun hne => absurd rfl hne⟩

end Regions

/-! ### The flags of the senders -/

/-- The sender was served, or the channel is closed: what it answers is right. -/
def Settled (s : Loop T) (call : ℕ) : Prop := s.sentFlags call = true ∨ s.closed_ = true

/-- What a region does to the senders: it may serve parked ones and settle them. -/
structure Progress (s s' : Loop T) : Prop where
  nextCall : s'.nextCall = s.nextCall
  settled : ∀ call, Settled s call → Settled s' call
  closed : s.closed_ = true → s'.closed_ = true
  posted : ∀ call, .sender call ∈ s'.posted → .sender call ∈ s.posted ∨
    (∃ w ∈ s.sendWaiters_, w.handle = .sender call) ∧ Settled s' call
  waiters : ∀ w ∈ s'.sendWaiters_, w ∈ s.sendWaiters_
  receivers : ∀ call, .receiver call ∈ s'.posted ++ s'.recvWaiters_ →
    .receiver call ∈ s.posted ++ s.recvWaiters_

namespace Progress

variable {s t u : Loop T}

lemma of_eq (hnext : t.nextCall = s.nextCall) (hflags : t.sentFlags = s.sentFlags)
    (hclosed : t.closed_ = s.closed_) (hposted : t.posted ⊆ s.posted)
    (hsend : t.sendWaiters_ = s.sendWaiters_) (hrecv : t.recvWaiters_ = s.recvWaiters_) :
    Progress s t := by
  refine ⟨hnext, fun call h => ?_, fun h => hclosed ▸ h, fun call h => .inl (hposted h),
    fun w hw => hsend ▸ hw, fun call h => ?_⟩
  · rw [Settled, hflags, hclosed]
    exact h
  · rw [hrecv] at h
    rcases mem_append.mp h with h | h
    · exact mem_append_left _ (hposted h)
    · exact mem_append_right _ h

lemma refl (s : Loop T) : Progress s s := of_eq rfl rfl rfl (List.Subset.refl _) rfl rfl

lemma record (s : Loop T) (e : Event T) : Progress s (s.record e) :=
  of_eq rfl rfl rfl (List.Subset.refl _) rfl rfl

lemma unpost (s : Loop T) (i : ℕ) : Progress s (s.unpost i) :=
  of_eq rfl rfl rfl eraseIdx_subset rfl rfl

lemma trans (hst : Progress s t) (htu : Progress t u) : Progress s u := by
  refine ⟨htu.nextCall.trans hst.nextCall, fun call h => htu.settled call (hst.settled call h),
    fun h => htu.closed (hst.closed h), fun call h => ?_,
    fun w hw => hst.waiters w (htu.waiters w hw),
    fun call h => hst.receivers call (htu.receivers call h)⟩
  rcases htu.posted call h with h | ⟨⟨w, hw, heq⟩, hset⟩
  · rcases hst.posted call h with h | ⟨hw, hset⟩
    · exact .inl h
    · exact .inr ⟨hw, htu.settled call hset⟩
  · exact .inr ⟨⟨w, hst.waiters w hw, heq⟩, hset⟩

variable {call : ℕ}

lemma lt (h : Progress s t) (hlt : call < s.nextCall) : call < t.nextCall :=
  h.nextCall.symm ▸ hlt

lemma closing (s : Loop T) : Progress s { s with closed_ := true } :=
  ⟨rfl, fun _ _ => .inr rfl, fun _ => rfl, fun _ h => .inl h, fun _ hw => hw, fun _ h => h⟩

variable {l : List Handle}

lemma sender_mem_wake (hr : ∀ h ∈ s.recvWaiters_, ∃ call, h = .receiver call)
    (hl : l ⊆ s.recvWaiters_) (h : .sender call ∈ s.posted ++ l) : .sender call ∈ s.posted := by
  rcases mem_append.mp h with h | h
  · exact h
  · obtain ⟨k, hk⟩ := hr _ (hl h)
    cases hk

lemma mem_wake {r : List Handle} {h : Handle} (hmem : h ∈ l ++ r.take 1 ++ r.tail) :
    h ∈ l ++ r := by
  cases r with
  | nil | cons x r => simpa using hmem

lemma trySendLocked (h : Regions s) (call : ℕ) (value : T) :
    Progress s (s.trySendLocked call value).1 := by
  unfold Loop.trySendLocked
  split_ifs
  · exact refl s
  · show Progress s (s.push call value)
    rw [Loop.push_eq]
    exact ⟨rfl, fun _ h => h, fun h => h,
      fun k hk => .inl (sender_mem_wake h.receivers (take_subset _ _) hk), fun w hw => hw,
      fun _ hk => mem_wake hk⟩

lemma takeFront (hbound : s.buffer_.length ≤ s.capacity_)
    (hrecv : ∀ h ∈ s.recvWaiters_, ∃ call, h = .receiver call)
    (hsend : ∀ w ∈ s.sendWaiters_, w.handle = .sender w.sent_flag) : Progress s s.takeFront.1 := by
  cases hb : s.buffer_ with
  | nil =>
    rw [Loop.takeFront_of_nil hb]
    exact refl s
  | cons value rest =>
    rw [Loop.takeFront_of_cons hb]
    cases hw : s.sendWaiters_ with
    | nil =>
      rw [Loop.take_of_nil _ _ _ hw]
      exact of_eq rfl rfl rfl (List.Subset.refl _) rfl rfl
    | cons w ws =>
      have hhandle := hsend w (by simp [hw])
      have hroom : rest.length < s.capacity_ := by
        rw [hb, length_cons] at hbound
        omega
      rw [Loop.take_of_cons _ _ _ hw hroom]
      have hflag : ∀ k, s.sentFlags k = true →
          update s.sentFlags w.sent_flag true k = true := by
        intro k hk
        by_cases heq : k = w.sent_flag
        · rw [heq, update_self]
        · rw [update_of_ne heq, hk]
      refine ⟨rfl, fun k hk => hk.imp (hflag k) id, fun hc => hc, fun k hk => ?_, fun x hx => ?_,
        fun k hk => mem_wake ?_⟩
      · rcases mem_concat.mp hk with hk | hk
        · exact .inl (sender_mem_wake hrecv (take_subset _ _) hk)
        · have heq : k = w.sent_flag := Handle.sender.inj (hk.trans hhandle)
          refine .inr ⟨⟨w, by simp [hw], hk.symm⟩, .inl ?_⟩
          show update s.sentFlags w.sent_flag true k = true
          rw [heq, update_self]
      · rw [hw]
        exact mem_cons_of_mem _ hx
      · simpa [hhandle] using hk

lemma closeLocked (h : Regions s) (hclosed : s.closed_ = true) : Progress s s.closeLocked := by
  rw [Loop.closeLocked_eq]
  refine ⟨rfl, fun _ _ => .inr hclosed, fun hc => hc, fun k hk => ?_, fun x hx => (by cases hx),
    fun k hk => ?_⟩
  · rcases mem_append.mp hk with hk | hk
    · exact .inl (sender_mem_wake h.receivers (List.Subset.refl _) hk)
    · obtain ⟨w, hw, heq⟩ := mem_map.mp hk
      exact .inr ⟨⟨w, hw, heq⟩, .inr hclosed⟩
  · rw [append_nil] at hk
    rcases mem_append.mp hk with hk | hk
    · exact hk
    · obtain ⟨w, hw, heq⟩ := mem_map.mp hk
      simp [h.senders w hw] at heq

lemma takeFront_regions (h : Regions s) : Progress s s.takeFront.1 :=
  takeFront h.bounded h.receivers h.senders

end Progress

/-- The answers given are right, and those still owed will be. -/
structure Answers (s : State T) : Prop where
  fresh : ∀ call, s.chan.nextCall ≤ call → s.pc call = .idle
  /-- Calls that are parked or woken to receive were made. -/
  made : ∀ call, .receiver call ∈ s.chan.posted ++ s.chan.recvWaiters_ → call < s.chan.nextCall
  /-- Calls that are parked or woken to send have their flag. -/
  allocated : ∀ call, (.sender call ∈ s.chan.posted ∨
    ∃ w ∈ s.chan.sendWaiters_, w.handle = .sender call) → (s.pc call).allocated = true
  posted : ∀ call, .sender call ∈ s.chan.posted → Settled s.chan call
  resuming : ∀ call, s.pc call = .sendResume → s.chan.closed_ = true
  flagged : ∀ call, s.pc call = .sendFlag → Settled s.chan call
  closing : ∀ call, s.pc call = .closeLocked → s.chan.closed_ = true
  answered : ∀ a ∈ s.answers, a.closed = false → a.result = true

variable {result : Bool} {chan : Loop T}

namespace Answers

variable {s : State T}

lemma progress (h : Answers s) (hp : Progress s.chan chan) : Answers { s with chan := chan } := by
  refine ⟨fun call hc => h.fresh call (hp.nextCall ▸ hc),
    fun call hc => hp.nextCall.symm ▸ h.made call (hp.receivers call hc),
    fun call hc => h.allocated call ?_,
    fun call hc => ?_, fun call hc => hp.closed (h.resuming call hc),
    fun call hc => hp.settled call (h.flagged call hc), fun call hc => hp.closed (h.closing call hc),
    h.answered⟩
  · rcases hc with hc | ⟨w, hw, heq⟩
    · rcases hp.posted call hc with hc | ⟨hw, -⟩
      · exact .inl hc
      · exact .inr hw
    · exact .inr ⟨w, hp.waiters w hw, heq⟩
  · rcases hp.posted call hc with hc | ⟨-, hset⟩
    · exact hp.settled call (h.posted call hc)
    · exact hset

variable {call : ℕ} {pc : Pc T}

section

variable (h : Answers s)

include h

section

variable (hlt : call < s.chan.nextCall)

include hlt

lemma goTo (halloc : (s.pc call).allocated = true → pc.allocated = true)
    (hresume : pc = .sendResume → s.chan.closed_ = true)
    (hflag : pc = .sendFlag → Settled s.chan call)
    (hclose : pc = .closeLocked → s.chan.closed_ = true) : Answers (s.goTo call pc) := by
  have hself : (s.goTo call pc).pc call = pc := update_self _ _ _
  have hother : ∀ k, k ≠ call → (s.goTo call pc).pc k = s.pc k := fun k hk =>
    update_of_ne hk _ _
  have hcases : ∀ {p : Pc T} (k : ℕ), (s.goTo call pc).pc k = p →
      k = call ∧ pc = p ∨ s.pc k = p := by
    intro p k hk
    by_cases heq : k = call
    · rw [heq, hself] at hk
      exact .inl ⟨heq, hk⟩
    · rw [hother k heq] at hk
      exact .inr hk
  refine ⟨fun k hk => ?_, h.made, fun k hk => ?_, h.posted, fun k hk => ?_, fun k hk => ?_,
    fun k hk => ?_, h.answered⟩
  · have hk : s.chan.nextCall ≤ k := hk
    rw [hother k (by omega)]
    exact h.fresh k hk
  · by_cases heq : k = call
    · rw [heq, hself]
      exact halloc (h.allocated call (heq ▸ hk))
    · rw [hother k heq]
      exact h.allocated k hk
  · rcases hcases k hk with ⟨-, hpc⟩ | hk
    · exact hresume hpc
    · exact h.resuming k hk
  · rcases hcases k hk with ⟨rfl, hpc⟩ | hk
    · exact hflag hpc
    · exact h.flagged k hk
  · rcases hcases k hk with ⟨-, hpc⟩ | hk
    · exact hclose hpc
    · exact h.closing k hk

lemma goTo_free (halloc : (s.pc call).allocated = true → pc.allocated = true)
    (hfree : pc ≠ .sendResume ∧ pc ≠ .sendFlag ∧ pc ≠ .closeLocked) : Answers (s.goTo call pc) :=
  h.goTo hlt halloc (fun heq => absurd heq hfree.1) (fun heq => absurd heq hfree.2.1)
    fun heq => absurd heq hfree.2.2

lemma answer
    (hright : s.chan.closed_ = false → result = true) : Answers (s.answer call result) := by
  have hrec := h.progress (Progress.record s.chan (.sendReturned call result))
  have hans : Answers { s with
      chan := s.chan.record (.sendReturned call result)
      answers := s.answers ++ [(⟨call, result, s.chan.closed_⟩ : Answer)] } := by
    refine { hrec with answered := fun a ha hopen => ?_ }
    rcases mem_concat.mp ha with ha | rfl
    · exact h.answered a ha hopen
    · exact hright hopen
  exact hans.goTo_free hlt (fun _ => rfl) (by simp)

lemma recvAnswer (result : Option T) : Answers (s.recvAnswer call result) :=
  (h.progress (Progress.record s.chan _)).goTo_free hlt (fun _ => rfl) (by simp)

end

lemma start (hfree : pc ≠ .sendResume ∧ pc ≠ .sendFlag ∧ pc ≠ .closeLocked) :
    Answers (s.start pc) := by
  have hidle := h.fresh s.chan.nextCall (Nat.le_refl _)
  have hnew : Answers { s with chan := s.chan.newCall } :=
    { h with
      fresh := fun call hc => h.fresh call (Nat.le_of_succ_le hc)
      made := fun call hc => Nat.lt_succ_of_lt (h.made call hc) }
  refine hnew.goTo_free (Nat.lt_succ_self _) (fun halloc => ?_) hfree
  rw [hidle] at halloc
  cases halloc

lemma makeAwaiter (hlt : call < s.chan.nextCall) (hnot : (s.pc call).allocated = false) (mv : T → T)
    (value : T) : Answers (s.makeAwaiter mv call value) := by
  have hne : ∀ k, (s.pc k).allocated = true → k ≠ call := by
    rintro k hk rfl
    simp [hnot] at hk
  have hset : ∀ k, k ≠ call → Settled s.chan k → Settled (s.chan.sendAwaiter call) k := by
    intro k hk hs
    refine hs.imp (fun hf => ?_) id
    show update s.chan.sentFlags call false k = true
    rw [update_of_ne hk, hf]
  have hnew : Answers { s with chan := s.chan.sendAwaiter call } := by
    refine { h with posted := fun k hk => ?_, flagged := fun k hk => ?_ }
    · exact hset k (hne k (h.allocated k (.inl hk))) (h.posted k hk)
    · have hk' : s.pc k = .sendFlag := hk
      exact hset k (hne k (by rw [hk']; rfl)) (h.flagged k hk)
  exact hnew.goTo_free hlt (fun _ => rfl) (by simp)

lemma parkSender (hlt : call < s.chan.nextCall) (halloc : (s.pc call).allocated = true) (left : T) :
    Answers ({ s with chan := SendAwaiter.awaitSuspend s.chan (.sender call) left call }.goTo call
      .sendParked) := by
  have hnew : Answers { s with
      chan := SendAwaiter.awaitSuspend s.chan (.sender call) left call } := by
    refine { h with allocated := fun k hk => ?_ }
    rcases hk with hk | ⟨w, hw, heq⟩
    · exact h.allocated k (.inl hk)
    · rcases mem_concat.mp hw with hw | rfl
      · exact h.allocated k (.inr ⟨w, hw, heq⟩)
      · rw [Handle.sender.injEq] at heq
        exact heq ▸ halloc
  exact hnew.goTo_free hlt (fun _ => rfl) (by simp)

lemma parkReceiver (hlt : call < s.chan.nextCall) (hnot : (s.pc call).allocated = false) :
    Answers ({ s with chan := RecvAwaiter.awaitSuspend s.chan (.receiver call) }.goTo call
      .recvParked) := by
  have hnew : Answers { s with chan := RecvAwaiter.awaitSuspend s.chan (.receiver call) } := by
    refine { h with made := fun k hk => ?_ }
    have hk : .receiver k ∈ s.chan.posted ++ (s.chan.recvWaiters_ ++ [.receiver call]) := hk
    rw [← append_assoc] at hk
    rcases mem_concat.mp hk with hk | hk
    · exact h.made k hk
    · rw [Handle.receiver.injEq] at hk
      exact hk ▸ hlt
  refine hnew.goTo_free hlt (fun halloc => ?_) (by simp)
  simp [hnot] at halloc

end

end Answers

/-! ### Every interleaving -/

/-- The invariant of the runs across threads. -/
structure Sound (s : State T) : Prop where
  regions : Regions s.chan
  answers : Answers s

namespace Sound

variable {s : State T} {call : ℕ}

lemma region (h : Sound s) (hreg : Regions chan) (hp : Progress s.chan chan) :
    Sound { s with chan := chan } :=
  ⟨hreg, h.answers.progress hp⟩

variable {pc : Pc T} {mv : T → T} {s' : State T}

section

variable (h : Sound s)

include h

section

variable (hlt : call < s.chan.nextCall)

include hlt

lemma goTo_free (halloc : (s.pc call).allocated = true → pc.allocated = true)
    (hfree : pc ≠ .sendResume ∧ pc ≠ .sendFlag ∧ pc ≠ .closeLocked) : Sound (s.goTo call pc) :=
  ⟨h.regions, h.answers.goTo_free hlt halloc hfree⟩

lemma goTo_closed (halloc : (s.pc call).allocated = true → pc.allocated = true)
    (hclosed : s.chan.closed_ = true) : Sound (s.goTo call pc) :=
  ⟨h.regions, h.answers.goTo hlt halloc (fun _ => hclosed) (fun _ => .inr hclosed) fun _ => hclosed⟩

lemma answer (hright : s.chan.closed_ = false → result = true) : Sound (s.answer call result) := by
  obtain ⟨⟨hbound, hfull, hrecv, hsend, hacc⟩, hans⟩ := h
  exact ⟨⟨hbound, hfull, hrecv, hsend, hacc⟩, hans.answer hlt hright⟩

lemma recvAnswer (result : Option T) : Sound (s.recvAnswer call result) := by
  obtain ⟨⟨hbound, hfull, hrecv, hsend, hacc⟩, hans⟩ := h
  exact ⟨⟨hbound, hfull, hrecv, hsend, hacc⟩, hans.recvAnswer hlt result⟩

lemma makeAwaiter (hnot : (s.pc call).allocated = false) (mv : T → T) (value : T) :
    Sound (s.makeAwaiter mv call value) := by
  obtain ⟨⟨hbound, hfull, hrecv, hsend, hacc⟩, hans⟩ := h
  exact ⟨⟨hbound, hfull, hrecv, hsend, hacc⟩, hans.makeAwaiter hlt hnot mv value⟩

lemma awaitResume (hset : Settled s.chan call) :
    Sound (if s.chan.closed_ then s.answer call false else s.goTo call .sendFlag) := by
  split_ifs with hclosed
  · exact h.answer hlt fun hopen => absurd (hopen.symm.trans hclosed) (by simp)
  · exact ⟨h.regions, h.answers.goTo hlt (fun _ => rfl) nofun (fun _ => hset) nofun⟩

lemma trySendLocked (value : T) :
    Sound { s with chan := (s.chan.trySendLocked call value).1 } ∧
      call < (s.chan.trySendLocked call value).1.nextCall := by
  have hprog := Progress.trySendLocked h.regions call value
  exact ⟨h.region (h.regions.trySendLocked call value) hprog, hprog.lt hlt⟩

lemma takeFront : Sound { s with chan := s.chan.tryRecv.1 } ∧ call < s.chan.tryRecv.1.nextCall := by
  have hprog := Progress.takeFront_regions h.regions
  exact ⟨h.region h.regions.takeFront hprog, hprog.lt hlt⟩

end

lemma run (hok : (s.pc call).UpToDate s.chan)
    (hst : ChannelThreads.run mv s call = some s') : Sound s' := by
  -- A call that takes a step was made.
  have hlt : call < s.chan.nextCall := by
    by_contra hge
    simp [ChannelThreads.run, h.answers.fresh call (Nat.not_lt.mp hge)] at hst
  have hsend := fun value : T => h.trySendLocked hlt value
  have htake := h.takeFront hlt
  revert hst
  fun_cases ChannelThreads.run mv s call <;> rintro ⟨⟩
  case case5 hpc =>
    split_ifs with hclosed
    · exact h.answer hlt fun hopen => absurd (hopen.symm.trans hclosed) (by simp)
    · exact h.goTo_free hlt (by simp [hpc, Pc.allocated]) (by simp)
  case case6 value hpc =>
    split_ifs
    · exact h.makeAwaiter hlt (by rw [hpc]; rfl) mv value
    · exact h.goTo_free hlt (by simp [hpc, Pc.allocated]) (by simp)
  case case7 value _ _ hchan =>
    have hsent := hsend value
    rw [hchan] at hsent
    exact hsent.1.answer hsent.2 fun _ => rfl
  case case8 value hpc _ hchan =>
    have hsent := hsend value
    rw [hchan] at hsent
    exact hsent.1.makeAwaiter hsent.2 (by simp [hpc, Pc.allocated]) mv value
  case case9 =>
    split_ifs with hclosed
    · exact h.goTo_closed hlt (fun _ => rfl) hclosed
    · exact h.goTo_free hlt (fun _ => rfl) (by simp)
  case case10 hpc =>
    rw [hpc] at hok
    split_ifs with hroom
    · -- The answer of `trySend` is out of date here, unless the channel is closed.
      exact h.goTo_closed hlt (fun _ => rfl) (hok.resolve_left (Nat.not_le.mpr hroom))
    · exact h.goTo_free hlt (fun _ => rfl) (by simp)
  case case11 left hpc =>
    rw [hpc] at hok
    exact ⟨h.regions.parkSender hok call left, h.answers.parkSender hlt (by rw [hpc]; rfl) left⟩
  case case12 hpc => exact h.awaitResume hlt (.inr (h.answers.resuming call hpc))
  case case13 hpc =>
    refine h.answer hlt fun hopen => (h.answers.flagged call hpc).resolve_right fun hclosed => ?_
    exact absurd (hopen.symm.trans hclosed) (by simp)
  case case15 value _ => exact (hsend value).1.goTo_free (hsend value).2 (fun _ => rfl) (by simp)
  case case16 => exact htake.1.goTo_free htake.2 (fun _ => rfl) (by simp)
  case case17 hchan =>
    rw [hchan] at htake
    exact htake.1.recvAnswer htake.2 _
  case case18 hpc _ hchan =>
    rw [hchan] at htake
    exact htake.1.goTo_free htake.2 (by simp [hpc, Pc.allocated]) (by simp)
  case case19 hpc =>
    split_ifs
    · exact h.recvAnswer hlt none
    · exact h.goTo_free hlt (by simp [hpc, Pc.allocated]) (by simp)
  case case22 hpc =>
    rw [hpc] at hok
    exact ⟨h.regions.parkReceiver hok call, h.answers.parkReceiver hlt (by rw [hpc]; rfl)⟩
  case case23 hchan =>
    rw [Loop.tryRecv, ← RecvAwaiter.awaitResume, hchan] at htake
    exact htake.1.recvAnswer htake.2 _
  case case24 hpc =>
    split_ifs
    · exact h.goTo_free hlt (fun _ => rfl) (by simp)
    · obtain ⟨hbound, hfull, hrecv, hsend, hacc⟩ := h.regions
      have hreg : Regions { s.chan with closed_ := true } := ⟨hbound, hfull, hrecv, hsend, hacc⟩
      have hclosing := h.region hreg (Progress.closing s.chan)
      exact hclosing.goTo_closed hlt (by simp [hpc, Pc.allocated]) rfl
  case case25 hpc =>
    have hprog := Progress.closeLocked h.regions (h.answers.closing call hpc)
    exact (h.region h.regions.closeLocked hprog).goTo_free (hprog.lt hlt) (fun _ => rfl) (by simp)
  all_goals
    split_ifs <;> exact h.goTo_free hlt (by simp [*, Pc.allocated]) (by simp)

lemma resume {i : ℕ} (hst : ChannelThreads.resume s i = some s') : Sound s' := by
  have hunpost := Progress.unpost s.chan i
  unfold ChannelThreads.resume at hst
  split at hst <;> cases hst
  case h_2 k hp =>
    have hmem : .sender k ∈ s.chan.posted := mem_of_getElem? hp
    have hlt : k < s.chan.nextCall := by
      by_contra hge
      have halloc := h.answers.allocated k (.inl hmem)
      rw [h.answers.fresh k (Nat.not_lt.mp hge)] at halloc
      cases halloc
    exact (h.region (h.regions.resumeSender hp) hunpost).awaitResume hlt
      (h.answers.posted k hmem)
  case h_3 k hp =>
    have hlt := h.answers.made k (mem_append_left _ (mem_of_getElem? hp))
    have hprog := hunpost.trans
      (Progress.takeFront h.regions.bounded h.regions.receivers h.regions.senders)
    exact (h.region (h.regions.resumeReceiver hp) hprog).recvAnswer (hprog.lt hlt) _

lemma step {a : Act T} (hok : UpToDate s a)
    (hst : ChannelThreads.step mv s a = some s') : Sound s' := by
  have hstart : ∀ {pc : Pc T}, (pc ≠ .sendResume ∧ pc ≠ .sendFlag ∧ pc ≠ .closeLocked) →
      Sound (s.start pc) := by
    intro pc hfree
    obtain ⟨⟨hbound, hfull, hrecv, hsend, hacc⟩, hans⟩ := h
    exact ⟨⟨hbound, hfull, hrecv, hsend, hacc⟩, hans.start hfree⟩
  cases a with
  | send value | trySend value | recv | tryRecv | close =>
    cases hst
    exact hstart (by simp)
  | run call => exact h.run hok hst
  | resume i => exact h.resume hst

end

end Sound

/-- Every run within the condition is sound. -/
theorem sound_of_reachable {mv : T → T} {s : State T}
    (h : (system mv).ReachableWithin UpToDate s) : Sound s := by
  refine h.invariant ?_ fun s a s' hs hok hst => hs.step hok hst
  rintro _ ⟨capacity, rfl⟩
  refine ⟨⟨Nat.zero_le _, ?_, ?_, ?_, ?_⟩, ?_, ?_, ?_, ?_, ?_, ?_, ?_, ?_⟩
  · exact fun hne => absurd rfl hne
  · simp [new, Loop.new]
  · simp [new, Loop.new]
  · exact fun hne => absurd rfl hne
  · exact fun _ _ => rfl
  · simp [new, Loop.new]
  · simp [new, Loop.new]
  · simp [new, Loop.new]
  · simp [new]
  · simp [new]
  · simp [new]
  · simp [new]

/-- **The channel is correct across threads**, in every interleaving in which the regions that act
on an earlier answer find it still true: a `send` that finds the channel open when it returns has
answered `true`; no sender is parked while the buffer has room; and while a receiver is parked,
every buffered value is accounted for by a receiver that was woken and has not run. -/
theorem channel_correct_across_threads {mv : T → T} {s : State T}
    (h : (system mv).ReachableWithin UpToDate s) :
    (∀ a ∈ s.answers, a.closed = false → a.result = true) ∧
      (s.chan.sendWaiters_ ≠ [] → ¬ s.chan.buffer_.length < s.chan.capacity_) ∧
      (s.chan.recvWaiters_ ≠ [] → s.chan.buffer_.length ≤ woken s.chan) := by
  obtain ⟨hreg, hans⟩ := sound_of_reachable h
  refine ⟨hans.answered, fun hne hlt => ?_, hreg.accounted⟩
  exact absurd (hreg.full hne) (Nat.ne_of_lt hlt)

/-- One thread fills the buffer, a second one parks to send behind it, a third receives, and the
second returns `true`. -/
theorem channel_correct_across_threads_handOver : ∃ s : State ℕ,
    (system id).ReachableWithin UpToDate s ∧ s.answers = [⟨1, true, false⟩] ∧
      s.chan.buffer_ = [20] ∧ ∀ a ∈ s.answers, a.closed = false → a.result = true := by
  have hs : (system (id : ℕ → ℕ)).ReachableWithin UpToDate _ := .final (new 1)
      [.trySend 10, .run 0, .send 20, .run 1, .run 0, .run 1, .run 1, .run 1, .run 1, .run 1,
        .tryRecv, .run 2, .resume 0, .run 1] ⟨1, rfl⟩ (by decide)
  exact ⟨_, hs, by decide, rfl, (channel_correct_across_threads hs).1⟩

/-- **Answers that are out of date.** The buffer of capacity one is full, and a `send` fails to
try. A `tryRecv` then empties the buffer: before `await_ready`, and the `send` returns `false` from
an open channel; or before `await_suspend`, and the `send` parks beside the empty buffer. And a
value that is sent before `await_suspend` of a `recv` finds nobody to wake: the `recv` parks beside
it. -/
theorem channel_wrong_across_threads :
    (∃ s : State ℕ, (system id).Reachable s ∧ ⟨1, false, false⟩ ∈ s.answers) ∧
    (∃ s : State ℕ, (system id).Reachable s ∧ s.chan.sendWaiters_ ≠ [] ∧
      s.chan.buffer_.length < s.chan.capacity_) ∧
    (∃ s : State ℕ, (system id).Reachable s ∧ s.chan.recvWaiters_ ≠ [] ∧
      woken s.chan < s.chan.buffer_.length) := by
  refine ⟨?_, ?_, ?_⟩
  · exact TransitionSystem.reached_by (new 1)
      [.trySend 10, .run 0, .run 0, .send 20, .run 1, .run 1, .run 1, .run 1, .tryRecv, .run 2,
        .run 1, .run 1, .run 1] ⟨1, rfl⟩ (by decide)
  · refine ⟨_, .final (new 1)
      [.trySend 10, .run 0, .run 0, .send 20, .run 1, .run 1, .run 1, .run 1, .run 1, .tryRecv,
        .run 2, .run 1] ⟨1, rfl⟩ (by decide), ?_, by decide⟩
    rintro ⟨⟩
  · exact TransitionSystem.reached_by (new 1)
      [.recv, .run 0, .run 0, .run 0, .run 0, .trySend 10, .run 1, .run 1, .run 0]
      ⟨1, rfl⟩ (by decide)

end ChannelThreads

end Pman
