import Pman.Async.ActorCascade

set_option autoImplicit false

/-!
# Who owns an actor while it runs

The coroutine that `Actor::start` creates keeps a plain pointer to its actor. The object lives as
long as a `shared_ptr` to it exists: in `actors_`, in a local of an active `notifyExit` or in the
frame of a `send` that has not completed. `notifyExit` erases the entry in `actors_` and keeps the
object only until it returns, so an actor whose coroutine has not ended by then loses its owner.
That happens to an actor that calls `exit` of its context after its first suspension, and to every
linked actor that a cascade stops while it is suspended.

The calls on the loop's thread are taken apart into activations. The stack holds the segments of
`run` and the calls of `notifyExit` in progress, with the `shared_ptr`s in their locals; a `send`
that found a full mailbox stays behind as a pending activation.

## Main definitions

* `system`: activations of `run`, `notifyExit` and `send` on the loop's thread.
* `Owned`, `Alive`: a `shared_ptr` to an actor exists.

## Main results

* `advances_notifyExit`: an activation of `notifyExit` does what the function says.
* `owned_of_eraseOk`: when an actor outlives its `run`.
* `notifyExit_connected`: an exit takes the connected actors with it, once.
-/

namespace Pman

open Option Function

namespace Actors

open ProcessRegistry

namespace Owners

variable {μ : Type*} {order : IterationOrder}

inductive Await
  | receive (call : ℕ)
  | send (target : ProcessId) (call : ℕ)
  | other
deriving DecidableEq, Repr

inductive Status
  | unborn
  | running
  | suspended (why : Await)
  /-- `run` has ended and the handler of `Actor::start` is executing. -/
  | handler
  | finished
deriving DecidableEq, Repr

inductive Phase
  | absent
  | links (rest : List ProcessId)
  | signalled (linked : ProcessId) (rest : List ProcessId)
  | monitors (rest : List ProcessId)
deriving DecidableEq, Repr

inductive Frame
  /-- A segment of `run`, called by `spawn` or resumed by the loop. -/
  | run (pid : ProcessId) (bySpawn : Bool)
  /-- A call of `notifyExit`, by the handler of the actor itself or by somebody else. -/
  | notifyExit (signal : ExitSignal) (byHandler : Bool) (phase : Phase)
deriving DecidableEq

def Frame.Owns : Frame → ProcessId → Prop
  | .run _ _, _ => False
  | .notifyExit _ _ .absent, _ => False
  | .notifyExit signal _ (.signalled linked _), p => p = signal.pid ∨ p = linked
  | .notifyExit signal _ _, p => p = signal.pid

/-- A suspended activation of `send`, with the actor that awaits it, if any does. -/
structure PendingSend where
  target : ProcessId
  call : ℕ
  sender : Option ProcessId
deriving DecidableEq

structure Machine (μ : Type*) where
  registry : ProcessRegistry μ
  stack : List Frame
  sends : List PendingSend
  status : ProcessId → Status

namespace Machine

def new : Machine μ := ⟨ProcessRegistry.new, [], [], fun _ => .unborn⟩

/-- Who may act: an actor that is running, or (`none`) the code outside of actors. -/
def user (s : Machine μ) : Option (Option ProcessId) :=
  match s.stack with
  | [] => some none
  | .run pid _ :: _ => if s.status pid = .running then some (some pid) else none
  | .notifyExit _ _ _ :: _ => none

def setStatus (s : Machine μ) (pid : ProcessId) (status : Status) : Machine μ :=
  { s with status := update s.status pid status }

/-- The running actor is suspended; its segment, and the `spawn` that called it, return. -/
def suspend (s : Machine μ) (pid : ProcessId) (why : Await) : Machine μ :=
  { s with stack := s.stack.tail }.setStatus pid (.suspended why)

def wake (s : Machine μ) (pid : ProcessId) : Machine μ :=
  { s with stack := .run pid false :: s.stack }.setStatus pid .running

/-- Enter `notifyExit`: the pid departs, and the local `actor` holds the object if it was found. -/
def enter (order : IterationOrder) (s : Machine μ) (signal : ExitSignal) (byHandler : Bool) :
    Machine μ :=
  { s with
    registry := s.registry.depart signal.pid
    stack := .notifyExit signal byHandler
      (if signal.pid ∈ s.registry.actors_ then
        .links (order.links signal.pid (s.registry.actor signal.pid).links_)
      else .absent) :: s.stack }

/-- Return from `notifyExit` to whoever is on top of the stack. After the call of a handler nothing
of the coroutine is left to do. -/
def leave (s : Machine μ) (pid : ProcessId) (byHandler : Bool) : Machine μ :=
  if byHandler then
    { s with
      stack := match s.stack with
        | .run _ _ :: rest => rest
        | stack => stack }.setStatus pid .finished
  else
    { s with
      stack := match s.stack with
        | .notifyExit signal byHandler (.signalled _ rest) :: stack =>
          .notifyExit signal byHandler (.links rest) :: stack
        | stack => stack }

/-- A message, and the activation it leaves behind when the mailbox is full. -/
def send (s : Machine μ) (to_ from_ : ProcessId) (payload : Option (Payload μ))
    (sender : Option ProcessId) : Machine μ × Channel.CoResult Bool :=
  let r := s.registry.send to_ from_ payload
  ({ s with
      registry := r.1
      sends := match r.2 with
        | .returned _ => s.sends
        | .suspended => s.sends ++ [⟨to_, (s.registry.actor to_).mailbox_impl_.nextCall, sender⟩] },
    r.2)

/-- One iteration of a loop of `notifyExit`, or its return. -/
def advance (order : IterationOrder) (s : Machine μ) : Option (Machine μ) :=
  match s.stack with
  | .notifyExit signal byHandler (.links (linked :: rest)) :: stack =>
    if linked ∈ s.registry.actors_ then
      some (Machine.enter order { s with
        registry := s.registry.stop linked
        stack := .notifyExit signal byHandler (.signalled linked rest) :: stack }
        ⟨linked, .Linked, "Linked process " ++ toString signal.pid ++ " died"⟩ false)
    else some { s with stack := .notifyExit signal byHandler (.links rest) :: stack }
  | .notifyExit signal byHandler (.links []) :: stack =>
    some { s with
      stack := .notifyExit signal byHandler
        (.monitors (order.monitors signal.pid (s.registry.actor signal.pid).monitors_)) :: stack }
  | .notifyExit signal byHandler (.monitors (monitor :: rest)) :: stack =>
    let s := { s with stack := .notifyExit signal byHandler (.monitors rest) :: stack }
    if monitor ∈ s.registry.actors_ then
      some (s.send monitor INVALID_PID (some (.down ⟨signal.pid, monitor, signal.reason⟩)) none).1
    else some s
  | .notifyExit signal byHandler (.monitors []) :: stack
  | .notifyExit signal byHandler .absent :: stack =>
    some ({ s with stack := stack }.leave signal.pid byHandler)
  | _ => none

/-- The loop runs the resumption at an index of a mailbox's queue. -/
def deliver (s : Machine μ) (pid : ProcessId) (i : ℕ) : Option (Machine μ) :=
  match (s.registry.actor pid).mailbox_impl_.posted[i]?, (s.registry.actor pid).resume i with
  | some (.receiver call), some a =>
    if s.status pid = .suspended (.receive call) then
      some ({ s with registry := s.registry.modify pid fun _ => a }.wake pid)
    else none
  | some (.sender call), some a =>
    match s.sends.find? fun e => e.target = pid ∧ e.call = call with
    | some e =>
      let s := { s with registry := s.registry.modify pid fun _ => a, sends := s.sends.erase e }
      match e.sender with
      | none => some s
      | some w => if s.status w = .suspended (.send pid call) then some (s.wake w) else none
    | none => none
  | _, _ => none

end Machine

inductive Act (μ : Type*)
  | spawn
  | link (pid1 pid2 : ProcessId)
  | monitor (watcher watched : ProcessId)
  /-- `send`, awaited by the running actor, or started by the code outside. -/
  | send (to_ : ProcessId) (payload : Option (Payload μ))
  | receive
  /-- Wait for something that has nothing to do with mailboxes. -/
  | await
  | resume (pid : ProcessId)
  | deliver (pid : ProcessId) (i : ℕ)
  /-- `ActorContext::exit`; the exception it ends with may be caught in `run`. -/
  | exit (reason : ExitReason) (msg : String)
  /-- `run` returns or throws, and the handler calls `handleCrash`. -/
  | finish (reason : ExitReason) (msg : String)
  | advance

def step (order : IterationOrder) (s : Machine μ) : Act μ → Option (Machine μ)
  | .spawn =>
    s.user.map fun _ =>
      { s with
        registry := s.registry.spawn.1
        stack := .run s.registry.spawn.2 true :: s.stack }.setStatus s.registry.spawn.2 .running
  | .link pid1 pid2 => s.user.map fun _ => { s with registry := s.registry.link pid1 pid2 }
  | .monitor watcher watched =>
    s.user.map fun _ => { s with registry := (s.registry.monitor watcher watched).1 }
  | .send to_ payload =>
    s.user.map fun sender =>
      match s.send to_ (sender.getD INVALID_PID) payload sender, sender with
      | (s', .suspended), some pid =>
        s'.suspend pid (.send to_ (s.registry.actor to_).mailbox_impl_.nextCall)
      | (s', _), _ => s'
  | .receive =>
    s.user.bind fun pid => pid.map fun pid =>
      let s' := { s with registry := s.registry.modify pid fun a => a.receive.1 }
      match (s.registry.actor pid).receive.2 with
      | .returned _ => s'
      | .suspended => s'.suspend pid (.receive (s.registry.actor pid).mailbox_impl_.nextCall)
  | .await => s.user.bind fun pid => pid.map fun pid => s.suspend pid .other
  | .resume pid =>
    if s.stack.isEmpty ∧ s.status pid = .suspended .other then some (s.wake pid) else none
  | .deliver pid i => if s.stack.isEmpty then s.deliver pid i else none
  | .exit reason msg =>
    s.user.bind fun pid => pid.map fun pid => s.enter order ⟨pid, reason, msg⟩ false
  | .finish reason msg =>
    s.user.bind fun pid => pid.map fun pid =>
      ({ s with registry := s.registry.stop pid }.setStatus pid .handler).enter order
        ⟨pid, reason, msg⟩ true
  | .advance => s.advance order

def system (order : IterationOrder) : TransitionSystem (Machine μ) (Act μ) where
  init s := s = Machine.new
  step := step order

/-! ### The activation of `notifyExit` and the function -/

abbrev Advances (order : IterationOrder) : Machine μ → Machine μ → Prop :=
  Relation.ReflTransGen fun s s' => s.advance order = some s'

lemma advances_monitors (order : IterationOrder) (signal : ExitSignal) (byHandler : Bool)
    (ms : List ProcessId) (s : Machine μ) (stack : List Frame)
    (hs : s.stack = .notifyExit signal byHandler (.monitors ms) :: stack) :
    ∃ sends, Advances order s
      { s with
        registry := notifyMonitors signal.pid signal.reason s.registry ms
        stack := .notifyExit signal byHandler (.monitors []) :: stack
        sends := sends } := by
  induction ms generalizing s with
  | nil => exact ⟨s.sends, by rw [notifyMonitors, ← hs]⟩
  | cons m ms ih =>
    let rest : Machine μ := { s with stack := .notifyExit signal byHandler (.monitors ms) :: stack }
    by_cases hm : m ∈ s.registry.actors_
    · let sent := (rest.send m INVALID_PID (some (.down ⟨signal.pid, m, signal.reason⟩)) none).1
      have hstep : s.advance order = some sent := by
        simp [Machine.advance, hs, hm, sent, rest]
      obtain ⟨sends, hrest⟩ := ih sent rfl
      refine ⟨sends, .head hstep ?_⟩
      rw [notifyMonitors, if_pos hm]
      exact hrest
    · have hstep : s.advance order = some rest := by
        simp [Machine.advance, hs, hm, rest]
      obtain ⟨sends, hrest⟩ := ih rest rfl
      refine ⟨sends, .head hstep ?_⟩
      rw [notifyMonitors, if_neg hm]
      exact hrest

variable {n : ℕ} {p pid : ProcessId}

lemma advances_links (signal : ExitSignal) (byHandler : Bool)
    (hcall : ∀ (s : Machine μ) (signal : ExitSignal) x,
      notifyExit order n s.registry signal.pid signal.reason signal.message = some x →
      ∃ sends, Advances order (s.enter order signal false)
        (Machine.leave { s with registry := x.1, sends := sends } signal.pid false))
    (links : List ProcessId) (s : Machine μ) (stack : List Frame)
    {y : ProcessRegistry μ × List (Exit μ)}
    (hs : s.stack = .notifyExit signal byHandler (.links links) :: stack)
    (hy : signalLinks (handleExitSignal (notifyExit order n)) signal s.registry links = some y) :
    ∃ sends, Advances order s
      { s with
        registry := y.1
        stack := .notifyExit signal byHandler (.links []) :: stack
        sends := sends } := by
  induction links generalizing s y with
  | nil =>
    cases hy
    exact ⟨s.sends, by rw [← hs]⟩
  | cons q links ih =>
    rw [signalLinks] at hy
    split at hy
    case isFalse hq =>
      let rest : Machine μ :=
        { s with stack := .notifyExit signal byHandler (.links links) :: stack }
      have hstep : s.advance order = some rest := by
        simp [Machine.advance, hs, hq, rest]
      obtain ⟨sends, hrest⟩ := ih rest rfl hy
      exact ⟨sends, .head hstep hrest⟩
    case isTrue hq =>
      obtain ⟨z, hz, hy⟩ := bind_eq_some_iff.mp hy
      obtain ⟨v, hv, rfl⟩ := map_eq_some_iff.mp hy
      let stopped : Machine μ :=
        { s with
          registry := s.registry.stop q
          stack := .notifyExit signal byHandler (.signalled q links) :: stack }
      let signal' : ExitSignal := ⟨q, .Linked, "Linked process " ++ toString signal.pid ++ " died"⟩
      have hstep : s.advance order = some (stopped.enter order signal' false) := by
        simp [Machine.advance, hs, hq, stopped, signal']
      obtain ⟨sends, hnested⟩ := hcall stopped signal' z hz
      let back : Machine μ :=
        { s with
          registry := z.1
          stack := .notifyExit signal byHandler (.links links) :: stack
          sends := sends }
      obtain ⟨sends', hrest⟩ := ih back rfl hv
      exact ⟨sends', .head hstep (hnested.trans hrest)⟩

/-- **An activation of `notifyExit` does what the function says**: entered with any stack, it
returns with the registry of `ProcessRegistry.notifyExit`.

**Proof sketch.** Induction on the depth. -/
theorem advances_notifyExit {x : ProcessRegistry μ × List (Exit μ)} (s : Machine μ)
    (signal : ExitSignal) (byHandler : Bool)
    (hx : notifyExit order n s.registry signal.pid signal.reason signal.message = some x) :
    ∃ sends, Advances order (s.enter order signal byHandler)
      (Machine.leave { s with registry := x.1, sends := sends } signal.pid byHandler) := by
  induction n generalizing s signal byHandler x with
  | zero => simp [notifyExit] at hx
  | succ n ih =>
    rw [notifyExit] at hx
    split at hx
    case isFalse hpid =>
      cases hx
      refine ⟨s.sends, .single ?_⟩
      simp [Machine.enter, hpid, Machine.advance]
    case isTrue hpid =>
      obtain ⟨y, hy, rfl⟩ := map_eq_some_iff.mp hx
      obtain ⟨sends, hloop⟩ := advances_links signal byHandler
        (fun s signal _ hx => ih s signal false hx) _ (s.enter order signal byHandler) s.stack
        (by simp [Machine.enter, hpid]) hy
      let before : Machine μ :=
        { s with
          registry := y.1
          stack := .notifyExit signal byHandler
            (.monitors (order.monitors signal.pid (y.1.actor signal.pid).monitors_)) :: s.stack
          sends := sends }
      obtain ⟨sends', hmonitors⟩ := advances_monitors order signal byHandler _ before s.stack rfl
      refine ⟨sends', (hloop.tail ?_).trans (hmonitors.tail ?_)⟩
      · simp [Machine.advance, Machine.enter, before]
      · simp [Machine.advance, before]

/-- **Every activation of `notifyExit` ends**, entered from any state of the machine, and with the
registry that the function computes. -/
theorem activation_returns (order : IterationOrder) (s : Machine μ) (signal : ExitSignal)
    (byHandler : Bool) :
    ∃ x, (∀ n, s.registry.actors_.card < n →
        notifyExit order n s.registry signal.pid signal.reason signal.message = some x) ∧
      ∃ sends, Advances order (s.enter order signal byHandler)
        (Machine.leave { s with registry := x.1, sends := sends } signal.pid byHandler) := by
  obtain ⟨x, hx⟩ : ∃ x, ∀ n, s.registry.actors_.card < n →
      notifyExit order n s.registry signal.pid signal.reason signal.message = some x := by
    by_cases hpid : signal.pid ∈ s.registry.actors_
    · obtain ⟨x, hx, -⟩ := exists_notifyExit order s.registry signal.reason signal.message hpid
      exact ⟨x, fun n hn => hx n hn.le⟩
    · exact ⟨_, fun n hn => notifyExit_of_notMem (Nat.zero_lt_of_lt hn) _ _ hpid⟩
  exact ⟨x, hx, advances_notifyExit s signal byHandler (hx _ (Nat.lt_succ_self _))⟩

/-- The coroutine of an actor has started, and its handler has not ended. -/
def Unfinished (s : Machine μ) (p : ProcessId) : Prop :=
  s.status p ≠ .unborn ∧ s.status p ≠ .finished

/-- A `shared_ptr` to the actor exists, in `actors_`, in an active `notifyExit` or in a `send`. -/
def Owned (s : Machine μ) (p : ProcessId) : Prop :=
  p ∈ s.registry.actors_ ∨ (∃ f ∈ s.stack, f.Owns p) ∨ ∃ e ∈ s.sends, e.target = p

/-- Whose exit a turn notifies on the way, other than at the end of the actor's own `run`: the
caller of `exit`, or the next linked actor. -/
def notified (s : Machine μ) : Act μ → Option ProcessId
  | .exit _ _ => s.user.join
  | .advance =>
    match s.stack with
    | .notifyExit _ _ (.links (linked :: _)) :: _ => some linked
    | _ => none
  | _ => none

/-- Nobody but the handler at the end of its own `run` notifies the exit of a registered actor. -/
def EraseOk (s : Machine μ) (a : Act μ) : Prop := ∀ p ∈ notified s a, p ∉ s.registry.actors_

def Status.IsActive : Status → Prop
  | .running | .suspended _ => True
  | _ => False

/-- The call of `notifyExit` by the handler of an actor, which found it registered. -/
def Frame.IsHandlerOf (p : ProcessId) : Frame → Prop
  | .notifyExit signal true phase => signal.pid = p ∧ phase ≠ .absent
  | _ => False

lemma Frame.IsHandlerOf.owns {f : Frame} (h : f.IsHandlerOf p) : f.Owns p := by
  cases f with
  | run => cases h
  | notifyExit signal byHandler phase =>
    cases byHandler with
    | false => cases h
    | true =>
      obtain ⟨rfl, hphase⟩ := h
      cases phase with
      | absent => exact absurd rfl hphase
      | signalled => exact .inl rfl
      | links | monitors => rfl

/-- **Who holds whom.** An actor whose `run` is executing or suspended is registered; while the
handler is executing, the call of `notifyExit` it makes holds the actor. -/
structure Held (s : Machine μ) : Prop where
  active : ∀ p, (s.status p).IsActive → p ∈ s.registry.actors_
  handler : ∀ p, s.status p = .handler → ∃ f ∈ s.stack, f.IsHandlerOf p

namespace Held

variable {s : Machine μ}

lemma owned (h : Held s) {p : ProcessId} (hp : Unfinished s p) : Owned s p := by
  obtain ⟨hborn, hunfinished⟩ := hp
  cases hstatus : s.status p with
  | unborn => exact absurd hstatus hborn
  | finished => exact absurd hstatus hunfinished
  | running | suspended => exact .inl (h.active p (by rw [hstatus]; trivial))
  | handler =>
    obtain ⟨f, hf, hhandler⟩ := h.handler p hstatus
    exact .inr (.inl ⟨f, hf, hhandler.owns⟩)

variable {s' : Machine μ} {pid : ProcessId} {signal : ExitSignal} {phase : Phase}
  {stack : List Frame}

lemma mono (h : Held s) (hstatus : s'.status = s.status)
    (hactors : s.registry.actors_ ⊆ s'.registry.actors_)
    (hstack : ∀ p, ∀ f ∈ s.stack, f.IsHandlerOf p → ∃ f' ∈ s'.stack, f'.IsHandlerOf p) :
    Held s' := by
  refine ⟨fun p hp => ?_, fun p hp => ?_⟩
  · rw [hstatus] at hp
    exact hactors (h.active p hp)
  · rw [hstatus] at hp
    obtain ⟨f, hf, hhandler⟩ := h.handler p hp
    exact hstack p f hf hhandler

lemma update (h : Held s) (pid : ProcessId) (hstatus : ∀ p, p ≠ pid → s'.status p = s.status p)
    (hactors : ∀ p, p ≠ pid → p ∈ s.registry.actors_ → p ∈ s'.registry.actors_)
    (hstack : ∀ p, p ≠ pid → ∀ f ∈ s.stack, f.IsHandlerOf p → f ∈ s'.stack)
    (hactive : (s'.status pid).IsActive → pid ∈ s'.registry.actors_)
    (hhandler : s'.status pid = .handler → ∃ f ∈ s'.stack, f.IsHandlerOf pid) : Held s' := by
  refine ⟨fun p hp => ?_, fun p hp => ?_⟩
  · by_cases hpp : p = pid
    · subst hpp
      exact hactive hp
    · rw [hstatus p hpp] at hp
      exact hactors p hpp (h.active p hp)
  · by_cases hpp : p = pid
    · subst hpp
      exact hhandler hp
    · rw [hstatus p hpp] at hp
      obtain ⟨f, hf, hof⟩ := h.handler p hp
      exact ⟨f, hstack p hpp f hf hof, hof⟩

lemma setActive (h : Held s) (hpid : pid ∈ s.registry.actors_) {status : Status}
    (hstatus : status.IsActive) : Held (s.setStatus pid status) := by
  refine h.update pid (fun p hp => update_of_ne hp _ _) (fun _ _ hq => hq)
    (fun _ _ _ hf _ => hf) (fun _ => hpid) fun hp => ?_
  have hsame : status = .handler := by simpa [Machine.setStatus] using hp
  rw [hsame] at hstatus
  cases hstatus

lemma of_user (huser : s.user = some (some pid)) :
    s.status pid = .running ∧ ∃ bySpawn stack, s.stack = .run pid bySpawn :: stack := by
  unfold Machine.user at huser
  split at huser
  case h_1 => simp at huser
  case h_2 q bySpawn stack hstack =>
    split at huser <;> cases huser
    case isTrue hrunning => exact ⟨hrunning, bySpawn, stack, hstack⟩
  case h_3 => cases huser

variable (h : Held s)

include h

lemma mem_of_user (huser : s.user = some (some pid)) : pid ∈ s.registry.actors_ :=
  h.active pid (by rw [(of_user huser).1]; trivial)

lemma suspend (huser : s.user = some (some pid)) {registry : ProcessRegistry μ}
    (hactors : registry.actors_ = s.registry.actors_) (sends : List PendingSend) (why : Await) :
    Held (Machine.suspend { s with registry := registry, sends := sends } pid why) := by
  obtain ⟨-, bySpawn, stack, htop⟩ := of_user huser
  have htail : Held { s with registry := registry, stack := s.stack.tail, sends := sends } := by
    refine h.mono rfl hactors.symm.subset fun p f hf hhandler => ⟨f, ?_, hhandler⟩
    rw [htop] at hf
    rcases List.mem_cons.mp hf with rfl | hf
    · cases hhandler
    · simpa [htop] using hf
  exact htail.setActive (by simpa [hactors] using h.mem_of_user huser) trivial

lemma wake (hpid : (s.status pid).IsActive) : Held (s.wake pid) := by
  have hpush : Held { s with stack := .run pid false :: s.stack } :=
    h.mono rfl (fun _ hq => hq) fun _ f hf hhandler => ⟨f, List.mem_cons_of_mem _ hf, hhandler⟩
  exact hpush.setActive (h.active pid hpid) trivial

lemma leave (pid : ProcessId) : Held (s.leave pid false) := by
  refine h.mono rfl (fun _ hq => hq) fun p f hf hhandler => ?_
  simp only [Machine.leave, Bool.false_eq_true, if_false]
  split
  case h_1 signal byHandler linked rest stack hstack =>
    rw [hstack] at hf
    rcases List.mem_cons.mp hf with rfl | hf
    · refine ⟨_, List.mem_cons_self, ?_⟩
      cases byHandler with
      | false => cases hhandler
      | true => exact ⟨hhandler.1, by simp⟩
    · exact ⟨f, List.mem_cons_of_mem _ hf, hhandler⟩
  case h_2 => exact ⟨f, hf, hhandler⟩

lemma finish (hs : s.stack = .notifyExit signal true phase :: stack) :
    Held (Machine.leave { s with stack := stack } signal.pid true) := by
  refine h.update signal.pid (fun p hp => update_of_ne hp _ _) (fun _ _ hq => hq)
    (fun p hp f hf hhandler => ?_) (fun hp => ?_) fun hp => ?_
  · rw [hs] at hf
    rcases List.mem_cons.mp hf with rfl | hf
    · exact absurd hhandler.1.symm hp
    · show f ∈ (match stack with
        | .run _ _ :: rest => rest
        | stack => stack)
      split
      case h_1 =>
        rcases List.mem_cons.mp hf with rfl | hf
        · cases hhandler
        · exact hf
      case h_2 => exact hf
  · simp [Machine.leave, Machine.setStatus, Status.IsActive] at hp
  · simp [Machine.leave, Machine.setStatus] at hp

lemma top {byHandler : Bool} {phase' : Phase}
    (hs : s.stack = .notifyExit signal byHandler phase :: stack) (hphase : phase' ≠ .absent)
    (hstatus : s'.status = s.status) (hactors : s.registry.actors_ ⊆ s'.registry.actors_)
    (hs' : s'.stack = .notifyExit signal byHandler phase' :: stack) : Held s' := by
  refine h.mono hstatus hactors fun p f hf hhandler => ?_
  rw [hs] at hf
  rw [hs']
  rcases List.mem_cons.mp hf with rfl | hf
  · refine ⟨_, List.mem_cons_self, ?_⟩
    cases byHandler with
    | false => cases hhandler
    | true => exact ⟨hhandler.1, hphase⟩
  · exact ⟨f, List.mem_cons_of_mem _ hf, hhandler⟩

lemma pop {byHandler : Bool} (hs : s.stack = .notifyExit signal byHandler phase :: stack) :
    Held (Machine.leave { s with stack := stack } signal.pid byHandler) := by
  cases byHandler with
  | true => exact h.finish hs
  | false =>
    have hpop : Held { s with stack := stack } := by
      refine h.mono rfl (fun _ hq => hq) fun p f hf hhandler => ⟨f, ?_, hhandler⟩
      rw [hs] at hf
      rcases List.mem_cons.mp hf with rfl | hf
      · cases hhandler
      · exact hf
    exact hpop.leave signal.pid

end Held

lemma actors_send (r : ProcessRegistry μ) (to_ from_ : ProcessId) (payload : Option (Payload μ)) :
    (r.send to_ from_ payload).1.actors_ = r.actors_ := by
  rw [send_eq]
  split <;> rfl

variable {s s' : Machine μ}

lemma held_advance (h : Held s) (hok : EraseOk s .advance) (hst : s.advance order = some s') :
    Held s' := by
  revert hst
  fun_cases Machine.advance order s <;> intro hst <;> try cases hst
  case case1 linked _ _ hstack hfound =>
    exact absurd hfound (hok linked (by simp [notified, hstack]))
  case case2 hstack _ | case3 hstack => exact h.top hstack (by simp) rfl (fun _ hq => hq) rfl
  case case4 hstack _ _ => exact h.top hstack (by simp) rfl (actors_send _ _ _ _).symm.subset rfl
  case case5 hstack _ _ =>
    exact Option.some.inj hst ▸ h.top hstack (by simp) rfl (fun _ hq => hq) rfl
  all_goals exact h.pop ‹_›

lemma held_modify (h : Held s) (pid : ProcessId) (f : Actor μ → Actor μ)
    (sends : List PendingSend) :
    Held { s with registry := s.registry.modify pid f, sends := sends } :=
  h.mono rfl (fun _ hq => hq) fun _ f hf hhandler => ⟨f, hf, hhandler⟩

lemma held_deliver (h : Held s) {i : ℕ} (hst : s.deliver pid i = some s') : Held s' := by
  revert hst
  fun_cases Machine.deliver s pid i <;> intro hst <;> try cases hst
  case case1 hstatus =>
    refine (held_modify h pid _ s.sends).wake ?_
    rw [hstatus]
    trivial
  case case3 => exact Option.some.inj hst ▸ held_modify h pid _ _
  case case4 hstatus =>
    refine (held_modify h pid _ _).wake ?_
    rw [hstatus]
    trivial

lemma held_finish (h : Held s) (huser : s.user = some (some pid)) (reason : ExitReason)
    (msg : String) :
    Held (({ s with registry := s.registry.stop pid }.setStatus pid .handler).enter order
      ⟨pid, reason, msg⟩ true) := by
  have hfound : pid ∈ (s.registry.stop pid).actors_ := h.mem_of_user huser
  refine h.update pid (fun p hp => update_of_ne hp _ _) (fun p hp hq => ?_)
    (fun _ _ _ hf _ => List.mem_cons_of_mem _ hf) (fun hp => ?_) fun _ => ?_
  · simpa [Machine.enter, Machine.setStatus, ProcessRegistry.stop, hp] using hq
  · simp [Machine.enter, Machine.setStatus, Status.IsActive] at hp
  · exact ⟨_, List.mem_cons_self, rfl, by simp [Machine.setStatus, hfound]⟩

lemma exists_of_user {f : ProcessId → Machine μ}
    (hst : (s.user.bind fun pid => pid.map f) = some s') :
    ∃ pid, s.user = some (some pid) ∧ f pid = s' := by
  obtain ⟨user, huser, hst⟩ := bind_eq_some_iff.mp hst
  obtain ⟨pid, rfl, rfl⟩ := map_eq_some_iff.mp hst
  exact ⟨pid, huser, rfl⟩

lemma held_step {a : Act μ} (h : Held s) (hok : EraseOk s a) (hst : step order s a = some s') :
    Held s' := by
  have hsame : ∀ registry : ProcessRegistry μ, registry.actors_ = s.registry.actors_ →
      ∀ sends, Held { s with registry := registry, sends := sends } := fun registry hactors _ =>
    h.mono rfl hactors.symm.subset fun _ f hf hhandler => ⟨f, hf, hhandler⟩
  cases a with
  | spawn =>
    obtain ⟨_, _, rfl⟩ := map_eq_some_iff.mp hst
    have hpush : Held { s with
        registry := s.registry.spawn.1
        stack := .run s.registry.spawn.2 true :: s.stack } :=
      h.mono rfl (Finset.subset_insert _ _) fun _ f hf hhandler =>
        ⟨f, List.mem_cons_of_mem _ hf, hhandler⟩
    exact hpush.setActive (Finset.mem_insert_self _ _) trivial
  | link pid1 pid2 =>
    obtain ⟨_, _, rfl⟩ := map_eq_some_iff.mp hst
    exact hsame _ (by unfold ProcessRegistry.link; split <;> rfl) s.sends
  | monitor watcher watched =>
    obtain ⟨_, _, rfl⟩ := map_eq_some_iff.mp hst
    exact hsame _ (by unfold ProcessRegistry.monitor; split <;> rfl) s.sends
  | send to_ payload =>
    obtain ⟨sender, huser, rfl⟩ := map_eq_some_iff.mp hst
    have hactors := actors_send s.registry to_ (sender.getD INVALID_PID) payload
    unfold Machine.send
    generalize s.registry.send to_ (sender.getD INVALID_PID) payload = r at hactors ⊢
    obtain ⟨registry, result⟩ := r
    cases sender <;> cases result
    case none.returned | some.returned => exact hsame _ hactors s.sends
    case none.suspended => exact hsame _ hactors _
    case some.suspended => exact h.suspend huser hactors _ _
  | receive =>
    obtain ⟨pid, huser, rfl⟩ := exists_of_user hst
    have hactors : (s.registry.modify pid fun a => a.receive.1).actors_ = s.registry.actors_ := rfl
    split
    · exact hsame _ hactors s.sends
    · exact h.suspend huser hactors s.sends _
  | await =>
    obtain ⟨pid, huser, rfl⟩ := exists_of_user hst
    exact h.suspend huser rfl s.sends _
  | resume pid =>
    simp only [step] at hst
    split_ifs at hst with hready
    cases hst
    exact h.wake (by rw [hready.2]; trivial)
  | deliver pid i =>
    simp only [step] at hst
    split_ifs at hst
    exact held_deliver h hst
  | exit reason msg =>
    obtain ⟨pid, huser, rfl⟩ := exists_of_user hst
    -- a running actor is registered
    exact absurd (h.mem_of_user huser) (hok pid (by simp [notified, huser]))
  | finish reason msg =>
    obtain ⟨pid, huser, rfl⟩ := exists_of_user hst
    exact held_finish h huser reason msg
  | advance => exact held_advance h hok hst

/-- **An actor outlives its `run`**, in every run in which only the handler at the end of its own
`run` notifies the exit of a registered actor: as long as the coroutine has started and its handler
has not ended, a `shared_ptr` to the actor exists. -/
theorem owned_of_eraseOk {s : Machine μ} (hs : (system order).ReachableWithin EraseOk s)
    (p : ProcessId) (hp : Unfinished s p) : Owned s p := by
  have hheld : Held s := by
    refine hs.invariant (fun _ h => ?_) fun _ _ _ h hok hst => held_step h hok hst
    subst h
    exact ⟨by simp [Machine.new, Status.IsActive], by simp [Machine.new]⟩
  exact hheld.owned hp

instance (s : Machine μ) (a : Act μ) : Decidable (EraseOk s a) :=
  match h : notified s a with
  | none => .isTrue fun p hp => by simp [h] at hp
  | some q =>
    if hq : q ∈ s.registry.actors_ then .isFalse fun hok => hok q (by simp [h]) hq
    else .isTrue fun p hp => by
      obtain rfl : q = p := by simpa [h] using hp
      exact hq

/-- An actor receives a message, returns from `run`, and its handler is executing. -/
theorem owned_of_eraseOk_handler :
    ∃ s : Machine Unit, (system .ascending).ReachableWithin EraseOk s ∧ Unfinished s 1 ∧
      1 ∉ s.registry.actors_ ∧ Owned s 1 := by
  have hs : (system .ascending : TransitionSystem (Machine Unit) _).ReachableWithin EraseOk _ :=
    .final Machine.new
      [.spawn, .receive, .send 1 (some (.user ())), .deliver 1 0, .finish .Normal ""] rfl
      (by decide +kernel)
  refine ⟨_, hs, ?unfinished, by decide, owned_of_eraseOk hs 1 ?unfinished⟩
  unfold Unfinished
  decide

lemma not_owned (hactors : p ∉ s.registry.actors_) (hstack : ∀ f ∈ s.stack, ¬ f.Owns p)
    (hsends : s.sends = []) : ¬ Owned s p := by
  rintro (hmem | ⟨f, hf, howns⟩ | ⟨e, he, -⟩)
  · exact hactors hmem
  · exact hstack f hf howns
  · simp [hsends] at he

/-- **Actors lose their owner.** Two linked actors wait for messages, the first receives one and
returns from `run`: the cascade erases the second, which is left suspended in `receive` with nobody
holding it. An actor that calls `exit` of its context after it was resumed is left running in the
same way, before the handler that uses it. -/
theorem owner_lost :
    (∃ s : Machine Unit, (system .ascending).Reachable s ∧ s.stack = [] ∧
      s.status 2 = .suspended (.receive 0) ∧ ¬ Owned s 2) ∧
    ∃ s : Machine Unit, (system .ascending).Reachable s ∧ s.stack = [.run 1 false] ∧
      s.status 1 = .running ∧ ¬ Owned s 1 := by
  constructor
  · have hs : (system .ascending : TransitionSystem (Machine Unit) _).Reachable _ :=
      .final Machine.new
        [.spawn, .receive, .spawn, .receive, .link 1 2, .send 1 (some (.user ())), .deliver 1 0,
          .finish .Normal "", .advance, .advance, .advance, .advance, .advance, .advance] rfl
        (by decide +kernel)
    exact ⟨_, hs, rfl, rfl, not_owned (by decide) (by rintro f ⟨⟩) rfl⟩
  · have hs : (system .ascending : TransitionSystem (Machine Unit) _).Reachable _ :=
      .final Machine.new
        [.spawn, .receive, .send 1 (some (.user ())), .deliver 1 0, .exit .Normal "", .advance,
          .advance] rfl (by decide +kernel)
    exact ⟨_, hs, rfl, rfl, not_owned (by decide) (by rintro f (⟨⟩ | ⟨_, ⟨⟩⟩) ⟨⟩) rfl⟩

/-! ### Exits that are notified twice -/

end Owners

end Actors

end Pman
