import Mathlib.Tactic.SplitIfs
import Pman.Lib.TransitionSystem

set_option autoImplicit false

/-!
# `timeout` and `race`

Both let a task and a timer compete for one flag, `completed_`: whoever sets it resumes the waiter,
which cancels the timer. `timeout` starts the task in `await_suspend`, after it has set `handle_`
and added the timer, and `race` in its constructor, before there is a handle. `race` of a `void`
task starts it without a completion callback.

A cancelled timer does not fire. The number of a timer is never zero, so the waiter always cancels.

The awaiter lives in the frame of the waiter and is destroyed when the waiter goes on. `timeout` owns
its task, which goes with it; the task of `race` is not its own and keeps the completion callback.

## Main definitions

* `system`: an awaiter with its task and its timer, for all four awaiters.

## Main results

* `resumed_eq`: the first event decides.
* `timeout_resolves_once`, `race_tells_winner`: what the waiters of `timeout` and `race` receive.
-/

namespace Pman.Timeout

open TransitionSystem

variable {T E R : Type*}

inductive Event (T E : Type*)
  | finish (result : Except E T)
  | fire

inductive Outcome (T E : Type*)
  | value (v : T)
  | error (e : E)
  | timeoutError
  | undefined
deriving DecidableEq

/-- An awaiter: whether its constructor starts the task, whether the task gets a completion
callback, and `await_resume`, by `timedOut_` and the result of the task. -/
structure Awaiter (T E R : Type*) where
  startsFirst : Bool
  notifies : Bool
  awaitResume : Bool → Option (Except E T) → R

def timeout : Awaiter T E (Outcome T E) where
  startsFirst := false
  notifies := true
  awaitResume timedOut_ result :=
    if timedOut_ then .timeoutError
    else
      match result with
      | some (.ok v) => .value v
      | some (.error e) => .error e
      | none => .undefined

/-- `TimeoutAwaiter<void>`, which does not ask the task for its result. -/
def timeoutVoid : Awaiter Unit E (Outcome Unit E) where
  startsFirst := false
  notifies := true
  awaitResume timedOut_ _ := if timedOut_ then .timeoutError else .value ()

/-- `NonCancellingTimeoutAwaiter`, which answers `nullopt` either way. -/
def race : Awaiter T E (Option T) where
  startsFirst := true
  notifies := true
  awaitResume _ _ := none

def raceVoid : Awaiter Unit E Bool where
  startsFirst := true
  notifies := false
  awaitResume timedOut_ _ := !timedOut_

inductive Timer
  | none
  | armed
  | fired
  | cancelled
deriving DecidableEq

/-- An awaiter with its task and its timer, what happened, and what the waiter has received each
time it was resumed. -/
structure State (T E R : Type*) where
  handle_ : Bool := false
  completed_ : Bool := false
  timedOut_ : Bool := false
  timer : Timer := .none
  started : Bool := false
  result : Option (Except E T) := none
  history : List (Event T E) := []
  resumed : List R := []

def State.settle (s : State T E R) (A : Awaiter T E R) (timedOut : Bool) : State T E R :=
  if s.completed_ then s
  else
    let s := { s with completed_ := true, timedOut_ := timedOut }
    if s.handle_ then
      { s with
        timer := if s.timer = .armed then .cancelled else s.timer
        resumed := s.resumed ++ [A.awaitResume timedOut s.result] }
    else s

inductive Act (T E : Type*)
  /-- `await_suspend` sets the handle and adds the timer. -/
  | suspend
  | start
  | finish (result : Except E T)
  | fire

def system (A : Awaiter T E R) : TransitionSystem (State T E R) (Act T E) where
  init s := s = {}
  step s
    | .suspend =>
      if s.handle_ = false ∧ (A.startsFirst = true → s.started = true) then
        some { s with handle_ := true, timer := .armed }
      else none
    | .start =>
      if s.started = false ∧ (A.startsFirst = false → s.handle_ = true) then
        some { s with started := true }
      else none
    | .finish result =>
      if s.started = true ∧ s.result = none then
        let s := { s with result := some result, history := s.history ++ [.finish result] }
        some (if A.notifies then s.settle A false else s)
      else none
    | .fire =>
      if s.timer = .armed then
        some (State.settle { s with timer := .fired, history := s.history ++ [.fire] } A true)
      else none

variable {A : Awaiter T E R} {s : State T E R}

def Awaiter.outcome (A : Awaiter T E R) : Event T E → R
  | .finish result => A.awaitResume false (some result)
  | .fire => A.awaitResume true none

/-- The invariant: the first event has decided the outcome. -/
structure Decided (A : Awaiter T E R) (s : State T E R) : Prop where
  timer : s.timer ≠ .none → s.handle_ = true
  started : A.startsFirst = false → s.started = true → s.handle_ = true
  undecided : s.history = [] → s.completed_ = false ∧ s.result = none
  decided : s.history ≠ [] → s.completed_ = true
  fired : s.timer = .fired → s.history ≠ []
  resumed : s.resumed = s.history.head?.toList.map A.outcome

/-- **The first event decides**, and later ones do nothing: in every run in which an end of the task
finds the handle set, and is reported or not the first event. -/
theorem resumed_eq {ok : State T E R → Act T E → Prop} (h : (system A).ReachableWithin ok s)
    (hok : ∀ s result, Decided A s → ok s (.finish result) → s.started = true →
      s.handle_ = true ∧ (A.notifies = true ∨ s.history ≠ [])) : Decided A s := by
  refine h.invariant ?_ fun s a s' hs ha hst => ?_
  · rintro _ rfl
    exact ⟨by simp, by simp, by simp, by simp, by simp, rfl⟩
  cases a with
  | suspend =>
    simp only [system] at hst
    split_ifs at hst
    cases hst
    exact ⟨fun _ => rfl, fun _ _ => rfl, hs.undecided, hs.decided, by simp, hs.resumed⟩
  | start =>
    simp only [system] at hst
    split_ifs at hst with hstart
    cases hst
    exact { hs with started := fun hA _ => hstart.2 hA }
  | finish result =>
    simp only [system] at hst
    split at hst
    case isFalse => cases hst
    rename_i hrun
    cases hst
    obtain ⟨hhandle, hfirst⟩ := hok s result hs ha hrun.1
    have hres := hs.resumed
    cases hh : s.history with
    | nil =>
      rw [hh] at hfirst hres
      have hnot := (hs.undecided hh).1
      have hA : A.notifies = true := by simpa using hfirst
      refine ⟨?_, ?_, ?_, ?_, ?_, ?_⟩ <;>
        simp [hA, State.settle, hnot, hhandle, hres, Awaiter.outcome]
    | cons e rest =>
      have hdone := hs.decided (by simp [hh])
      rw [hh] at hres
      refine ⟨?_, ?_, ?_, ?_, ?_, ?_⟩ <;> cases A.notifies <;>
        simp [State.settle, hdone, hhandle, hres]
  | fire =>
    simp only [system] at hst
    split_ifs at hst with harmed
    cases hst
    have hhandle := hs.timer (by simp [harmed])
    have hres := hs.resumed
    cases hh : s.history with
    | nil =>
      rw [hh] at hres
      obtain ⟨hnot, hnone⟩ := hs.undecided hh
      refine ⟨?_, ?_, ?_, ?_, ?_, ?_⟩ <;>
        simp [State.settle, hnot, hhandle, hres, Awaiter.outcome, hnone]
    | cons e rest =>
      have hdone := hs.decided (by simp [hh])
      rw [hh] at hres
      refine ⟨?_, ?_, ?_, ?_, ?_, ?_⟩ <;> simp [State.settle, hdone, hhandle, hres]

/-- What the first event should give the waiter of `timeout`. -/
def Event.receives : Event T E → Outcome T E
  | .finish (.ok v) => .value v
  | .finish (.error e) => .error e
  | .fire => .timeoutError

/-- **`timeout` resolves once and with the right side**, for tasks with a value, and for `void`
tasks that do not end with an exception first: nothing is received before the first event, and after
it exactly what it stands for, whatever happens later. -/
theorem timeout_resolves_once {s : State T E (Outcome T E)} (h : (system timeout).Reachable s)
    {v : State Unit E (Outcome Unit E)} (hv : (system timeoutVoid).Reachable v)
    (hthrow : ∀ e, v.history.head? ≠ some (.finish (.error e))) :
    s.resumed = s.history.head?.toList.map Event.receives ∧
    v.resumed = v.history.head?.toList.map Event.receives := by
  have hs := resumed_eq h fun s _ hs _ hrun => ⟨hs.started rfl hrun, .inl rfl⟩
  have hd := resumed_eq hv fun s _ hs _ hrun => ⟨hs.started rfl hrun, .inl rfl⟩
  rw [hs.resumed, hd.resumed]
  refine ⟨List.map_congr_left fun e _ => ?_, List.map_congr_left fun e he => ?_⟩
  · cases e with
    | fire => rfl
    | finish result => cases result <;> rfl
  · cases e with
    | fire => rfl
    | finish result =>
      cases result with
      | ok => rfl
      | error e => exact absurd (Option.mem_toList.mp he) (hthrow e)

/-- A task that ends in time, and a void task that does not. -/
theorem timeout_resolves_once_sync :
    (∃ s : State ℕ Unit (Outcome ℕ Unit), (system timeout).Reachable s ∧ s.resumed = [.value 7]) ∧
    ∃ v : State Unit Unit (Outcome Unit Unit), (system timeoutVoid).Reachable v ∧
      v.resumed = [.timeoutError] := by
  obtain ⟨s, h, hs⟩ : ∃ s, (system (timeout (T := ℕ) (E := Unit))).Reachable s ∧
      s.history.head?.toList.map Event.receives = [.value 7] :=
    reached_by {} [.suspend, .start, .finish (.ok 7)] rfl (by decide)
  obtain ⟨v, hv, hf⟩ : ∃ v, (system (timeoutVoid (E := Unit))).Reachable v ∧
      v.history.head?.toList.map Event.receives = [.timeoutError] :=
    reached_by {} [.suspend, .start, .fire, .finish (.ok ())] rfl (by decide)
  have hthrow : ∀ e, v.history.head? ≠ some (.finish (.error e)) := fun e he => by
    simp [he, Event.receives] at hf
  obtain ⟨h1, h2⟩ := timeout_resolves_once h hv hthrow
  exact ⟨⟨s, h, h1.trans hs⟩, ⟨v, hv, h2.trans hf⟩⟩

/-- **The exception of a `void` task is lost**: the waiter goes on as if the task had returned. -/
theorem timeout_loses_exception : ∃ v : State Unit String (Outcome Unit String),
    (system timeoutVoid).Reachable v ∧
      v.history.map Event.receives = [.error "failed"] ∧ v.resumed = [.value ()] :=
  reached_by {} [.suspend, .start, .finish (.error "failed")] rfl (by decide)

/-- The task ends while the waiter waits: after `await_suspend`, and before the waiter goes on and
destroys the awaiter that the completion callback refers to. -/
def EndsAwaited (s : State T E R) : Act T E → Prop
  | .finish _ => s.handle_ = true ∧ s.resumed = []
  | _ => True

/-- The task does not end before the timer has fired. -/
def EndsAfterTimer (s : State T E R) : Act T E → Prop
  | .finish _ => s.timer = .fired
  | _ => True

instance (s : State T E R) (a : Act T E) : Decidable (EndsAwaited s a) := by
  cases a <;> dsimp only [EndsAwaited] <;> infer_instance

instance (s : State T E R) (a : Act T E) : Decidable (EndsAfterTimer s a) := by
  cases a <;> dsimp only [EndsAfterTimer] <;> infer_instance

def Event.wins : Event T E → Bool
  | .finish _ => true
  | .fire => false

/-- **`race` tells who won**, for a task with a value that ends while the waiter waits or not at all,
and for a `void` task that does not end before the timer fires: the waiter is resumed once, at the
first event, and for `void` tasks learns whether it was the end of the task. -/
theorem race_tells_winner {s : State T E (Option T)}
    (h : (system race).ReachableWithin EndsAwaited s) {v : State Unit E Bool}
    (hv : (system raceVoid).ReachableWithin EndsAfterTimer v) :
    s.resumed = s.history.head?.toList.map (fun _ => none) ∧
    v.resumed = v.history.head?.toList.map Event.wins := by
  have hs := resumed_eq h fun s _ _ hended _ => ⟨hended.1, .inl rfl⟩
  have hd := resumed_eq hv fun s _ hs hfired _ =>
    have hfired : s.timer = .fired := hfired
    ⟨hs.timer (by simp [hfired]), .inr (hs.fired hfired)⟩
  rw [hs.resumed, hd.resumed]
  refine ⟨List.map_congr_left fun e _ => ?_, List.map_congr_left fun e _ => ?_⟩ <;> cases e <;> rfl

/-- A task ends first, and the timer of a void task fires first. -/
theorem race_tells_winner_awaited :
    (∃ s : State ℕ Unit (Option ℕ), (system race).ReachableWithin EndsAwaited s ∧
      s.history.map Event.wins = [true] ∧ s.resumed = [none]) ∧
    ∃ v : State Unit Unit Bool, (system raceVoid).ReachableWithin EndsAfterTimer v ∧
      v.history.map Event.wins = [false, true] ∧ v.resumed = [false] := by
  obtain ⟨s, h, hs⟩ : ∃ s, (system (race (T := ℕ) (E := Unit))).ReachableWithin EndsAwaited s ∧
      s.history.map Event.wins = [true] ∧
      s.history.head?.toList.map (fun _ => none) = [(none : Option ℕ)] :=
    reached_by {} [.start, .suspend, .finish (.ok 7)] rfl (by decide)
  obtain ⟨v, hv, hf⟩ : ∃ v, (system (raceVoid (E := Unit))).ReachableWithin EndsAfterTimer v ∧
      v.history.map Event.wins = [false, true] ∧
      v.history.head?.toList.map Event.wins = [false] :=
    reached_by {} [.start, .suspend, .fire, .finish (.ok ())] rfl (by decide)
  obtain ⟨h1, h2⟩ := race_tells_winner h hv
  exact ⟨⟨s, h, hs.1, h1.trans hs.2⟩, ⟨v, hv, hf.1, h2.trans hf.2⟩⟩

/-- **`race` loses a task that ends in its constructor**: the waiter is never resumed, and the timer
has fired. It answers `false` for a `void` task that ended before the timer. And a task with a value
that ends after the timer calls back an awaiter whose waiter has gone on. -/
theorem race_loses :
    (∃ s : State ℕ Unit (Option ℕ), (system race).Reachable s ∧
      s.history.map Event.wins = [true, false] ∧ s.resumed = []) ∧
    (∃ v : State Unit Unit Bool, (system raceVoid).Reachable v ∧
      v.history.map Event.wins = [true, false] ∧ v.resumed = [false]) ∧
    ∃ s : State ℕ Unit (Option ℕ), (system race).Reachable s ∧ s.resumed = [none] ∧
      ((system race).step s (.finish (.ok 7))).isSome :=
  ⟨reached_by {} [.start, .finish (.ok 7), .suspend, .fire] rfl (by decide),
    reached_by {} [.start, .suspend, .finish (.ok ()), .fire] rfl (by decide),
    reached_by {} [.start, .suspend, .fire] rfl (by decide)⟩

end Pman.Timeout
