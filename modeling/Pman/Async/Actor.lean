import Mathlib.Data.Finset.Basic
import Pman.Async.Channel

set_option autoImplicit false

/-!
# Actors and their registry

An actor has a mailbox, a stop flag, the actors it is linked to and the actors that monitor it. The
registry keeps the actors by pid and two tables of names.

`notifyExit` takes a dying actor out of the registry and the name tables, sends an exit signal to
each linked actor that is still registered, and then a `DownMessage` to each such monitor. The
default `handleExitSignal` crashes the linked actor, which calls `notifyExit` again: a recursion
without a set of visited pids, which runs inline on the loop's thread. It is written with a bound on
its depth, and its result carries the exits that were performed, in the order in which their
monitors were notified, each with the registry its monitors found.

The registry holds the objects of dead actors too; `actors_` is the set of pids registered. Sets are
unordered in the source, so the order in which a set is gone through is a parameter.

## Main results

* `notifyExit_invariant`: the invariant rule for cascades.
-/

namespace Pman

open Function

namespace Actors

abbrev ProcessId := ℕ

def INVALID_PID : ProcessId := 0

inductive ExitReason
  | Normal
  | Killed
  | Exception
  | Linked
deriving DecidableEq, Repr

structure ExitSignal where
  pid : ProcessId
  reason : ExitReason
  message : String
deriving DecidableEq, Repr

structure DownMessage where
  pid : ProcessId
  monitor : ProcessId
  reason : ExitReason
deriving DecidableEq, Repr

inductive Payload (μ : Type*)
  | user (value : μ)
  | down (message : DownMessage)
deriving DecidableEq, Repr

/-- A message. The payload is `none` when the pointer is null. -/
structure Message (μ : Type*) where
  from_ : ProcessId
  payload : Option (Payload μ)
deriving DecidableEq, Repr

variable {μ : Type*}

/-- What a move leaves of a message: the pointer is null, the pid is copied. -/
def Message.movedFrom (msg : Message μ) : Message μ := { msg with payload := none }

/-! ### The actor object -/

structure Actor (μ : Type*) where
  stopped_ : Bool
  mailbox_impl_ : Channel.Loop (Message μ)
  links_ : Finset ProcessId
  monitors_ : Finset ProcessId

namespace Actor

def new : Actor μ where
  stopped_ := false
  mailbox_impl_ := Channel.Loop.new 1000
  links_ := ∅
  monitors_ := ∅

/-- `mailbox_rx_.recv()`, up to completion or suspension. -/
def receive (a : Actor μ) : Actor μ × Channel.CoResult (Option (Message μ)) :=
  let call := a.mailbox_impl_.nextCall
  let r := a.mailbox_impl_.newCall.recv call
  ({ a with mailbox_impl_ := Channel.bookRecv call r }, r.2)

/-- `mailbox_tx_.send(std::move(msg))` unless the actor was stopped, up to completion or
suspension. -/
def sendMessage (a : Actor μ) (msg : Message μ) : Actor μ × Channel.CoResult Bool :=
  if a.stopped_ then (a, .returned false)
  else
    let call := a.mailbox_impl_.nextCall
    let r := a.mailbox_impl_.newCall.send Message.movedFrom call msg
    ({ a with mailbox_impl_ := Channel.bookSend call msg r }, r.2)

def stop (a : Actor μ) : Actor μ :=
  if a.stopped_ then a
  else { a with stopped_ := true, mailbox_impl_ := a.mailbox_impl_.close }

def addLink (pid : ProcessId) (a : Actor μ) : Actor μ := { a with links_ := insert pid a.links_ }

def addMonitor (pid : ProcessId) (a : Actor μ) : Actor μ :=
  { a with monitors_ := insert pid a.monitors_ }

/-- The loop resumes a coroutine that was suspended in the mailbox. -/
def resume (a : Actor μ) (i : ℕ) : Option (Actor μ) :=
  (Channel.step Message.movedFrom a.mailbox_impl_ (.resume i)).map fun mailbox =>
    { a with mailbox_impl_ := mailbox }

def mailbox (a : Actor μ) : List (Message μ) := a.mailbox_impl_.buffer_

def HasRoom (a : Actor μ) : Prop := a.mailbox.length < a.mailbox_impl_.capacity_
  deriving Decidable

def ClosedByStop (a : Actor μ) : Prop := a.mailbox_impl_.closed_ = true → a.stopped_ = true

lemma closedByStop_new : (new : Actor μ).ClosedByStop := by
  simp [ClosedByStop, new, Channel.Loop.new]

section

variable (a : Actor μ)

include a

@[simp] lemma stopped_stop : a.stop.stopped_ = true := by
  cases h : a.stopped_ <;> simp [stop, h]

@[simp] lemma links_stop : a.stop.links_ = a.links_ := by
  cases h : a.stopped_ <;> simp [stop, h]

@[simp] lemma monitors_stop : a.stop.monitors_ = a.monitors_ := by
  cases h : a.stopped_ <;> simp [stop, h]

lemma closedByStop_stop : a.stop.ClosedByStop := fun _ => stopped_stop a

@[simp] lemma mailbox_stop : a.stop.mailbox = a.mailbox := by
  cases h : a.stopped_ with
  | true => simp [stop, h]
  | false =>
    cases hc : a.mailbox_impl_.closed_ with
    | true => simp [stop, h, mailbox, Channel.Loop.close_of_closed hc]
    | false => simp [stop, h, mailbox, Channel.Loop.close_of_open hc, Channel.Loop.shut]

@[simp] lemma stopped_sendMessage (msg : Message μ) :
    (a.sendMessage msg).1.stopped_ = a.stopped_ := by
  cases h : a.stopped_ <;> simp [sendMessage, h]

@[simp] lemma links_sendMessage (msg : Message μ) : (a.sendMessage msg).1.links_ = a.links_ := by
  cases h : a.stopped_ <;> simp [sendMessage, h]

@[simp] lemma monitors_sendMessage (msg : Message μ) :
    (a.sendMessage msg).1.monitors_ = a.monitors_ := by
  cases h : a.stopped_ <;> simp [sendMessage, h]

end

variable {a : Actor μ}

lemma effect_sendMessage (h : a.stopped_ = false) (msg : Message μ) :
    Channel.Effect Message.movedFrom a.mailbox_impl_ (.send msg)
      (a.sendMessage msg).1.mailbox_impl_ := by
  have hst : Channel.step Message.movedFrom a.mailbox_impl_ (.send msg) =
      some (a.sendMessage msg).1.mailbox_impl_ := by
    simp [sendMessage, h, Channel.step]
  exact Channel.effect_of_step hst

lemma closed_sendMessage (a : Actor μ) (msg : Message μ) :
    (a.sendMessage msg).1.mailbox_impl_.closed_ = a.mailbox_impl_.closed_ := by
  cases h : a.stopped_ with
  | true => simp [sendMessage, h]
  | false => exact (effect_sendMessage h msg).closed_eq (by simp)

/-- **A message arrives where there is room for it**: in the mailbox of an actor that was not
stopped, at the end. Otherwise the mailbox stays as it is; the sender may be parked behind it. -/
lemma mailbox_sendMessage (ha : a.ClosedByStop) (msg : Message μ) :
    (a.sendMessage msg).1.mailbox =
      if a.stopped_ = false ∧ a.HasRoom then a.mailbox ++ [msg] else a.mailbox := by
  cases h : a.stopped_ with
  | true => simp [sendMessage, h]
  | false =>
    have hopen : a.mailbox_impl_.closed_ = false := by
      by_contra hc
      simp [ha (Bool.not_eq_false _ ▸ hc)] at h
    have heff := effect_sendMessage h msg
    unfold mailbox HasRoom mailbox
    generalize (a.sendMessage msg).1.mailbox_impl_ = after at heff ⊢
    cases heff with
    | sendRefused _ hc => simp [hopen] at hc
    | sendDone _ _ hroom =>
      rw [if_pos ⟨rfl, hroom⟩]
      simp [Channel.Loop.push_eq, Channel.Loop.record, Channel.Loop.newCall]
    | sendParked _ _ hfull =>
      rw [if_neg fun hroom => not_lt.mpr hfull hroom.2]
      rfl

lemma closedByStop_sendMessage (ha : a.ClosedByStop) (msg : Message μ) :
    (a.sendMessage msg).1.ClosedByStop := by
  intro hc
  rw [closed_sendMessage] at hc
  rw [stopped_sendMessage]
  exact ha hc

end Actor

/-! ### The registry -/

structure ProcessRegistry (μ : Type*) where
  next_pid_ : ProcessId
  actors_ : Finset ProcessId
  /-- The actor objects by pid, those of dead actors included. -/
  actor : ProcessId → Actor μ
  names_ : String → Option ProcessId
  reverse_names_ : ProcessId → Option String

namespace ProcessRegistry

def new : ProcessRegistry μ where
  next_pid_ := 1
  actors_ := ∅
  actor := fun _ => Actor.new
  names_ := fun _ => none
  reverse_names_ := fun _ => none

def modify (r : ProcessRegistry μ) (pid : ProcessId) (f : Actor μ → Actor μ) : ProcessRegistry μ :=
  { r with actor := update r.actor pid (f (r.actor pid)) }

/-- A new actor is registered under the next pid; what its `run` does comes in later steps. -/
def spawn (r : ProcessRegistry μ) : ProcessRegistry μ × ProcessId :=
  ({ r with
      next_pid_ := r.next_pid_ + 1
      actors_ := insert r.next_pid_ r.actors_
      actor := update r.actor r.next_pid_ Actor.new }, r.next_pid_)

def registerName (r : ProcessRegistry μ) (name : String) (pid : ProcessId) :
    ProcessRegistry μ × Bool :=
  if (r.names_ name).isSome then (r, false)
  else
    ({ r with
        names_ := update r.names_ name (some pid)
        reverse_names_ := update r.reverse_names_ pid (some name) }, true)

def unregisterName (r : ProcessRegistry μ) (name : String) : ProcessRegistry μ :=
  match r.names_ name with
  | some pid =>
    { r with
      reverse_names_ := update r.reverse_names_ pid none
      names_ := update r.names_ name none }
  | none => r

def whereis (r : ProcessRegistry μ) (name : String) : Option ProcessId := r.names_ name

def send (r : ProcessRegistry μ) (to_ from_ : ProcessId) (payload : Option (Payload μ)) :
    ProcessRegistry μ × Channel.CoResult Bool :=
  if to_ ∈ r.actors_ then
    (r.modify to_ fun a => (a.sendMessage ⟨from_, payload⟩).1,
      ((r.actor to_).sendMessage ⟨from_, payload⟩).2)
  else (r, .returned false)

def sendName (r : ProcessRegistry μ) (name : String) (from_ : ProcessId)
    (payload : Option (Payload μ)) : ProcessRegistry μ × Channel.CoResult Bool :=
  match r.whereis name with
  | some pid => r.send pid from_ payload
  | none => (r, .returned false)

def link (r : ProcessRegistry μ) (pid1 pid2 : ProcessId) : ProcessRegistry μ :=
  if pid1 ∈ r.actors_ ∧ pid2 ∈ r.actors_ then
    (r.modify pid1 (Actor.addLink pid2)).modify pid2 (Actor.addLink pid1)
  else r

def monitor (r : ProcessRegistry μ) (watcher watched : ProcessId) : ProcessRegistry μ × ProcessId :=
  if watched ∈ r.actors_ then
    (r.modify watched (Actor.addMonitor watcher), watcher)
  else (r, INVALID_PID)

def stop (r : ProcessRegistry μ) (pid : ProcessId) : ProcessRegistry μ := r.modify pid Actor.stop

/-! ### Exits -/

def eraseActor (r : ProcessRegistry μ) (pid : ProcessId) : ProcessRegistry μ :=
  { r with actors_ := r.actors_.erase pid }

/-- The second block of `notifyExit`: the name in `reverse_names_`, if there is one. -/
def eraseName (r : ProcessRegistry μ) (pid : ProcessId) : ProcessRegistry μ :=
  match r.reverse_names_ pid with
  | some name =>
    { r with
      names_ := update r.names_ name none
      reverse_names_ := update r.reverse_names_ pid none }
  | none => r

def depart (r : ProcessRegistry μ) (pid : ProcessId) : ProcessRegistry μ :=
  (r.eraseActor pid).eraseName pid

end ProcessRegistry

/-- The orders in which `notifyExit` of a pid goes through its copies of the two sets. -/
structure IterationOrder where
  links : ProcessId → Finset ProcessId → List ProcessId
  monitors : ProcessId → Finset ProcessId → List ProcessId
  mem_links : ∀ pid s q, q ∈ links pid s ↔ q ∈ s
  mem_monitors : ∀ pid s q, q ∈ monitors pid s ↔ q ∈ s
  nodup_monitors : ∀ pid s, (monitors pid s).Nodup

/-- An exit that was performed: of a registered actor, with the registry in which its monitors were
looked up. -/
structure Exit (μ : Type*) where
  pid : ProcessId
  reason : ExitReason
  registry : ProcessRegistry μ

variable {reason : ExitReason} {pid : ProcessId} {r : ProcessRegistry μ}
  {x : ProcessRegistry μ × List (Exit μ)} {msg : String} {n : ℕ}

namespace ProcessRegistry

/-- The registry and the exits performed; `none` when the recursion is cut off. -/
abbrev Outcome (μ : Type*) := Option (ProcessRegistry μ × List (Exit μ))

/-- The loop over the links: those still registered get the signal. -/
def signalLinks (handleExitSignal : ProcessRegistry μ → ProcessId → ExitSignal → Outcome μ)
    (signal : ExitSignal) : ProcessRegistry μ → List ProcessId → Outcome μ
  | r, [] => some (r, [])
  | r, linked_pid :: rest =>
    if linked_pid ∈ r.actors_ then
      (handleExitSignal r linked_pid signal).bind fun x =>
        (signalLinks handleExitSignal signal x.1 rest).map fun y => (y.1, x.2 ++ y.2)
    else signalLinks handleExitSignal signal r rest

/-- The loop over the monitors: those still registered get a `DownMessage`. -/
def notifyMonitors (pid : ProcessId) (reason : ExitReason) :
    ProcessRegistry μ → List ProcessId → ProcessRegistry μ
  | r, [] => r
  | r, monitor_pid :: rest =>
    if monitor_pid ∈ r.actors_ then
      notifyMonitors pid reason
        (r.send monitor_pid INVALID_PID (some (.down ⟨pid, monitor_pid, reason⟩))).1 rest
    else notifyMonitors pid reason r rest

/-- `Actor::handleCrash`, over the `notifyExit` it calls. The actor was started, so `registry_` is
set. -/
def handleCrash (notifyExit : ProcessRegistry μ → ProcessId → ExitReason → String → Outcome μ)
    (r : ProcessRegistry μ) (pid : ProcessId) (reason : ExitReason) (msg : String) : Outcome μ :=
  notifyExit (r.stop pid) pid reason msg

def handleExitSignal (notifyExit : ProcessRegistry μ → ProcessId → ExitReason → String → Outcome μ)
    (r : ProcessRegistry μ) (pid : ProcessId) (signal : ExitSignal) : Outcome μ :=
  handleCrash notifyExit r pid .Linked ("Linked process " ++ toString signal.pid ++ " died")

def notifyExit (order : IterationOrder) :
    ℕ → ProcessRegistry μ → ProcessId → ExitReason → String → Outcome μ
  | 0, _, _, _, _ => none
  | n + 1, r, pid, reason, msg =>
    if pid ∈ r.actors_ then
      let actor := r.actor pid
      (signalLinks (handleExitSignal (notifyExit order n)) ⟨pid, reason, msg⟩ (r.depart pid)
          (order.links pid actor.links_)).map fun x =>
        (notifyMonitors pid reason x.1 (order.monitors pid (x.1.actor pid).monitors_),
          x.2 ++ [⟨pid, reason, x.1⟩])
    else some (r.depart pid, [])

section Fields

variable (r : ProcessRegistry μ) (pid q : ProcessId)

@[simp] lemma actors_depart : (r.depart pid).actors_ = r.actors_.erase pid := by
  unfold depart eraseName
  split <;> rfl

@[simp] lemma actor_depart : (r.depart pid).actor = r.actor := by
  unfold depart eraseName
  split <;> rfl

@[simp] lemma next_pid_depart : (r.depart pid).next_pid_ = r.next_pid_ := by
  unfold depart eraseName
  split <;> rfl

@[simp] lemma actors_modify (f : Actor μ → Actor μ) : (r.modify pid f).actors_ = r.actors_ := rfl

@[simp] lemma next_pid_modify (f : Actor μ → Actor μ) :
    (r.modify pid f).next_pid_ = r.next_pid_ := rfl

@[simp] lemma actor_modify_self (f : Actor μ → Actor μ) :
    (r.modify pid f).actor pid = f (r.actor pid) := update_self ..

variable {pid q} in
@[simp] lemma actor_modify_of_ne (f : Actor μ → Actor μ) (h : q ≠ pid) :
    (r.modify pid f).actor q = r.actor q := update_of_ne h ..

variable {f : Actor μ → Actor μ}

lemma modify_field {β : Type*} (field : Actor μ → β)
    (hf : ∀ a, field (f a) = field a) : field ((r.modify pid f).actor q) = field (r.actor q) := by
  by_cases hq : q = pid
  · subst hq
    rw [actor_modify_self, hf]
  · rw [actor_modify_of_ne r f hq]

@[simp] lemma monitors_modify_addLink (w : ProcessId) :
    ((r.modify pid (Actor.addLink q)).actor w).monitors_ = (r.actor w).monitors_ :=
  r.modify_field pid w Actor.monitors_ fun _ => rfl

@[simp] lemma closedByStop_modify_addLink (w : ProcessId) :
    ((r.modify pid (Actor.addLink q)).actor w).ClosedByStop = (r.actor w).ClosedByStop :=
  r.modify_field pid w Actor.ClosedByStop fun _ => rfl

@[simp] lemma links_modify_addMonitor (w : ProcessId) :
    ((r.modify pid (Actor.addMonitor q)).actor w).links_ = (r.actor w).links_ :=
  r.modify_field pid w Actor.links_ fun _ => rfl

@[simp] lemma closedByStop_modify_addMonitor (w : ProcessId) :
    ((r.modify pid (Actor.addMonitor q)).actor w).ClosedByStop = (r.actor w).ClosedByStop :=
  r.modify_field pid w Actor.ClosedByStop fun _ => rfl

lemma forall_modify {p : ProcessId → Actor μ → Prop} :
    (∀ q, p q ((r.modify pid f).actor q)) ↔
      p pid (f (r.actor pid)) ∧ ∀ q, q ≠ pid → p q (r.actor q) :=
  forall_update_iff r.actor p

end Fields

lemma send_eq (r : ProcessRegistry μ) (to_ from_ : ProcessId) (payload : Option (Payload μ)) :
    (r.send to_ from_ payload).1 =
      if to_ ∈ r.actors_ then r.modify to_ fun a => (a.sendMessage ⟨from_, payload⟩).1 else r := by
  unfold send
  split <;> rfl

/-! ### What a cascade keeps -/

section Invariant

variable {P : ProcessRegistry μ → Prop} {order : IterationOrder}

lemma notifyMonitors_invariant
    (hsend : ∀ r to_ msg, to_ ∈ r.actors_ → P r → P (r.modify to_ fun a => (a.sendMessage msg).1))
    (pid : ProcessId) (reason : ExitReason) (ms : List ProcessId) (r : ProcessRegistry μ)
    (hr : P r) : P (notifyMonitors pid reason r ms) := by
  induction ms generalizing r with
  | nil => exact hr
  | cons m ms ih =>
    rw [notifyMonitors]
    split
    case isTrue hm =>
      rw [send_eq, if_pos hm]
      exact ih _ (hsend r m _ hm hr)
    case isFalse => exact ih r hr

/-- **The rule for the loop over the links**: what holds of an empty loop, and of a signal before
the rest of a loop, holds of every loop. -/
lemma signalLinks_rule {handle : ProcessRegistry μ → ProcessId → ExitSignal → Outcome μ}
    {signal : ExitSignal} {R : ProcessRegistry μ → ProcessRegistry μ × List (Exit μ) → Prop}
    (hnil : ∀ r, R r (r, []))
    (hcons : ∀ r q x y, q ∈ r.actors_ → handle r q signal = some x → R x.1 y →
      R r (y.1, x.2 ++ y.2))
    {links : List ProcessId} {y : ProcessRegistry μ × List (Exit μ)}
    (hy : signalLinks handle signal r links = some y) : R r y := by
  induction links generalizing r y with
  | nil =>
    cases hy
    exact hnil r
  | cons q links ih =>
    rw [signalLinks] at hy
    split at hy
    case isFalse => exact ih hy
    case isTrue hq =>
      obtain ⟨x, hx, hy⟩ := Option.bind_eq_some_iff.mp hy
      obtain ⟨z, hz, rfl⟩ := Option.map_eq_some_iff.mp hy
      exact hcons r q x z hq hx (ih hz)

/-- **The rule for cascades.** What is kept when a registered actor is stopped and departs, and when
a registered actor is sent a message, is kept by a whole cascade that begins with a departure; it
also holds whenever the monitors of an exit are looked up.

**Proof sketch.** Induction on the depth, with the rule for the loop over the links. -/
theorem notifyExit_invariant (hdie : ∀ r q, q ∈ r.actors_ → P r → P ((r.stop q).depart q))
    (hsend : ∀ r to_ msg, to_ ∈ r.actors_ → P r → P (r.modify to_ fun a => (a.sendMessage msg).1))
    (hr : P (r.depart pid)) (hx : notifyExit order n r pid reason msg = some x) :
    P x.1 ∧ ∀ e ∈ x.2, P e.registry := by
  induction n generalizing r pid reason msg x with
  | zero => simp [notifyExit] at hx
  | succ n ih =>
    rw [notifyExit] at hx
    split at hx
    case isFalse =>
      cases hx
      exact ⟨hr, by simp⟩
    case isTrue =>
      obtain ⟨y, hy, rfl⟩ := Option.map_eq_some_iff.mp hx
      obtain ⟨hy1, hy2⟩ : P y.1 ∧ ∀ e ∈ y.2, P e.registry := by
        refine signalLinks_rule (R := fun r y => P r → P y.1 ∧ ∀ e ∈ y.2, P e.registry)
          (fun r hr => ⟨hr, by simp⟩) (fun r q x z hq hx hz hr => ?_) hy hr
        obtain ⟨hx1, hx2⟩ := ih (hdie r q hq hr) hx
        obtain ⟨hz1, hz2⟩ := hz hx1
        refine ⟨hz1, fun e he => ?_⟩
        rcases List.mem_append.mp he with he | he
        · exact hx2 e he
        · exact hz2 e he
      refine ⟨notifyMonitors_invariant hsend pid reason _ _ hy1, fun e he => ?_⟩
      rcases List.mem_concat.mp he with he | rfl
      · exact hy2 e he
      · exact hy1

end Invariant

end ProcessRegistry

/-- **What exits leave as it is.** Links and monitors stay, also of the dead; objects of actors that
were not registered are not touched; an actor that is still registered was not stopped meanwhile,
and one that is no longer registered was stopped, the actor `p` that began it apart. -/
structure Descends (p : ProcessId) (before after : ProcessRegistry μ) : Prop where
  next_pid_ : after.next_pid_ = before.next_pid_
  subset : after.actors_ ⊆ before.actors_
  links_ : ∀ q, (after.actor q).links_ = (before.actor q).links_
  monitors_ : ∀ q, (after.actor q).monitors_ = (before.actor q).monitors_
  unregistered : ∀ q, q ∉ before.actors_ → after.actor q = before.actor q
  survivor : ∀ q ∈ after.actors_, (after.actor q).stopped_ = (before.actor q).stopped_
  departed : ∀ q ∈ before.actors_, q ∉ after.actors_ → q = p ∨ (after.actor q).stopped_ = true
  closedByStop : (∀ q, (before.actor q).ClosedByStop) → ∀ q, (after.actor q).ClosedByStop

namespace Descends

variable {p : ProcessId} {before r : ProcessRegistry μ}

lemma depart (before : ProcessRegistry μ) (p : ProcessId) :
    Descends p before (before.depart p) where
  next_pid_ := by simp
  subset := by simpa using Finset.erase_subset p before.actors_
  links_ := by simp
  monitors_ := by simp
  unregistered := by simp
  survivor := by simp
  departed := by
    intro q hq hgone
    rw [ProcessRegistry.actors_depart, Finset.mem_erase, not_and_or, not_not] at hgone
    exact .inl (hgone.resolve_right (not_not_intro hq))
  closedByStop := by simp

lemma die (h : Descends p before r) {q : ProcessId} (hq : q ∈ r.actors_) :
    Descends p before ((r.stop q).depart q) where
  next_pid_ := by simpa [ProcessRegistry.stop] using h.next_pid_
  subset := by
    intro w hw
    rw [ProcessRegistry.actors_depart] at hw
    exact h.subset (Finset.mem_of_mem_erase hw)
  links_ w := by
    rw [ProcessRegistry.actor_depart, ← h.links_ w]
    exact r.modify_field q w Actor.links_ Actor.links_stop
  monitors_ w := by
    rw [ProcessRegistry.actor_depart, ← h.monitors_ w]
    exact r.modify_field q w Actor.monitors_ Actor.monitors_stop
  unregistered w hw := by
    have hne : w ≠ q := fun heq => hw (h.subset (heq ▸ hq))
    rw [ProcessRegistry.actor_depart, ← h.unregistered w hw]
    exact ProcessRegistry.actor_modify_of_ne r _ hne
  survivor w hw := by
    rw [ProcessRegistry.actors_depart, Finset.mem_erase] at hw
    rw [ProcessRegistry.actor_depart, ← h.survivor w hw.2]
    exact congrArg Actor.stopped_ (ProcessRegistry.actor_modify_of_ne r _ hw.1)
  departed w hw hgone := by
    rw [ProcessRegistry.actor_depart]
    by_cases hwq : w = q
    · subst hwq
      right
      simp [ProcessRegistry.stop]
    · have hgone' : w ∉ r.actors_ := by
        simpa [ProcessRegistry.stop, hwq] using hgone
      rcases h.departed w hw hgone' with hp | hstop
      · exact .inl hp
      · right
        rw [ProcessRegistry.stop, ProcessRegistry.actor_modify_of_ne r _ hwq]
        exact hstop
  closedByStop hall w := by
    rw [ProcessRegistry.actor_depart]
    by_cases hwq : w = q
    · subst hwq
      rw [ProcessRegistry.stop, ProcessRegistry.actor_modify_self]
      exact Actor.closedByStop_stop _
    · rw [ProcessRegistry.stop, ProcessRegistry.actor_modify_of_ne r _ hwq]
      exact h.closedByStop hall w

lemma send (h : Descends p before r) {to_ : ProcessId} (hto : to_ ∈ r.actors_) (msg : Message μ) :
    Descends p before (r.modify to_ fun a => (a.sendMessage msg).1) where
  next_pid_ := h.next_pid_
  subset := h.subset
  links_ w := by
    rw [← h.links_ w]
    exact r.modify_field to_ w Actor.links_ fun a => a.links_sendMessage msg
  monitors_ w := by
    rw [← h.monitors_ w]
    exact r.modify_field to_ w Actor.monitors_ fun a => a.monitors_sendMessage msg
  unregistered w hw := by
    have hne : w ≠ to_ := fun heq => hw (h.subset (heq ▸ hto))
    rw [ProcessRegistry.actor_modify_of_ne r _ hne]
    exact h.unregistered w hw
  survivor w hw := by
    rw [← h.survivor w hw]
    exact r.modify_field to_ w Actor.stopped_ fun a => a.stopped_sendMessage msg
  departed w hw hgone := by
    rw [r.modify_field to_ w Actor.stopped_ fun a => a.stopped_sendMessage msg]
    exact h.departed w hw hgone
  closedByStop hall w := by
    by_cases hw : w = to_
    · subst hw
      rw [ProcessRegistry.actor_modify_self]
      exact Actor.closedByStop_sendMessage (h.closedByStop hall w) msg
    · rw [ProcessRegistry.actor_modify_of_ne r _ hw]
      exact h.closedByStop hall w

end Descends

/-- **What a cascade leaves as it is**, at its end and whenever monitors are looked up. -/
theorem ProcessRegistry.descends_notifyExit {order : IterationOrder}
    (hx : notifyExit order n r pid reason msg = some x) :
    Descends pid r x.1 ∧ ∀ e ∈ x.2, Descends pid r e.registry :=
  notifyExit_invariant (fun _ _ hq h => h.die hq) (fun _ _ msg hto h => h.send hto msg)
    (.depart r pid) hx

end Actors

end Pman
