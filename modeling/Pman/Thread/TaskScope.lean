import Mathlib.Data.Nat.Notation
import Mathlib.Tactic.SplitIfs
import Pman.Lib.TransitionSystem

set_option autoImplicit false

/-!
# Task scopes

`TaskScope::join` takes the threads out of the scope under the lock, waits for them without it, and
marks the scope as joined under the lock again. What is spawned in between is not waited for, and
neither is it by the destructor, which does not join a scope that is marked as joined.

A thread that has finished stays finished, so the loop of `join` over the threads that it took is
over when all of them have finished. Any thread that is not a task of the scope may call `join`.

## Main results

* `threads_done`: when leaving a scope means that its threads are done.
-/

namespace Pman.Thread

inductive Status
  | running
  /-- The task threw and the thread has recorded the exception. -/
  | caught
  | finished
deriving DecidableEq, Repr

/-- A call of `join` that waits, by the destructor or not, with the threads it has taken. -/
structure Join where
  threads : List ℕ
  destructor : Bool
deriving DecidableEq, Repr

/-- How the destructor has ended: with the threads that were in `threads_`, or in `std::terminate`
as its `join` has thrown. -/
inductive Ended
  | destroyed (threads : List ℕ)
  | terminated
deriving DecidableEq, Repr

/-- A scope with its threads and the calls of `join`. Threads, and the exceptions they throw, are
numbered in the order of the calls of `spawn`. -/
structure TaskScope where
  tasks : List Status := []
  threads_ : List ℕ := []
  joins : List Join := []
  exception_ : Option ℕ := none
  /-- The exception that was recorded first. -/
  first : Option ℕ := none
  joined_ : Bool := false
  exceptionPropagated_ : Bool := false
  /-- How the calls of `join` have ended: with the exception they have thrown, if any. -/
  outcomes : List (Option ℕ) := []
  ended : Option Ended := none

inductive Act
  | spawn
  | throws (task : ℕ)
  | finish (task : ℕ)
  | join
  | destroy
  | joinEnds (index : ℕ)
deriving DecidableEq, Repr

namespace TaskScope

variable (s : TaskScope)

def spawn : TaskScope :=
  if s.joined_ then s
  else { s with tasks := s.tasks ++ [.running], threads_ := s.threads_ ++ [s.tasks.length] }

/-- The handler of the thread's function. -/
def throws (task : ℕ) : Option TaskScope :=
  if s.tasks[task]? = some .running then
    some { s with
      tasks := s.tasks.set task .caught
      exception_ := s.exception_.or (some task)
      first := s.first.or (some task) }
  else none

def finish (task : ℕ) : Option TaskScope :=
  if s.tasks[task]? = none ∨ s.tasks[task]? = some .finished then none
  else some { s with tasks := s.tasks.set task .finished }

/-- The first critical section of `join`. -/
def join (destructor : Bool) : TaskScope :=
  { s with threads_ := [], joins := s.joins ++ [⟨s.threads_, destructor⟩] }

/-- The destructor calls `join` or destroys the members. -/
def destroy : TaskScope :=
  if s.joined_ then { s with ended := some (.destroyed s.threads_) } else s.join true

/-- What `join` throws. -/
def rethrown : Option ℕ := if s.exceptionPropagated_ then none else s.exception_

/-- The last critical section of `join`, when the threads have finished. -/
def joinEnds (index : ℕ) : Option TaskScope :=
  s.joins[index]?.bind fun j =>
    if ∀ t ∈ j.threads, s.tasks[t]? = some .finished then
      some { s with
        joins := s.joins.eraseIdx index
        exceptionPropagated_ := s.exceptionPropagated_ || s.exception_.isSome
        exception_ := none
        joined_ := true
        outcomes := s.outcomes ++ [s.rethrown]
        ended := if !j.destructor then none
          else if s.rethrown.isSome then some .terminated else some (.destroyed s.threads_) }
    else none

def step : Act → Option TaskScope
  | .spawn => some s.spawn
  | .throws task => s.throws task
  | .finish task => s.finish task
  | .join => some (s.join false)
  | .destroy => some s.destroy
  | .joinEnds index => s.joinEnds index

def system : TransitionSystem TaskScope Act where
  init s := s = {}
  step s a := if s.ended = none then s.step a else none

/-- While a `join` waits, nothing is spawned, no other `join` is called and the scope is not
destroyed. -/
def Orderly : Act → Prop
  | .spawn | .join | .destroy => s.joins = []
  | _ => True

instance : DecidablePred s.Orderly
  | .spawn | .join | .destroy => inferInstanceAs (Decidable (s.joins = []))
  | .throws _ | .finish _ | .joinEnds _ => .isTrue trivial

/-- The invariant of the scope. -/
structure Sound : Prop where
  single : s.joins.length ≤ 1
  covered : ∀ t status, s.tasks[t]? = some status →
    status = .finished ∨ t ∈ s.threads_ ∨ ∃ j ∈ s.joins, t ∈ j.threads
  taken : s.joins ≠ [] → s.threads_ = []
  before : s.joined_ = false →
    s.exception_ = s.first ∧ s.exceptionPropagated_ = false ∧ s.outcomes = []
  after : s.joined_ = true → (∀ status ∈ s.tasks, status = .finished) ∧ s.threads_ = [] ∧
    s.exception_ = none ∧ ∃ rest, s.outcomes = s.first :: rest ∧ ∀ o ∈ rest, o = none
  ended : ∀ threads, s.ended = some (.destroyed threads) → threads = []

namespace Sound

variable {s} {s' : TaskScope} {task : ℕ}

variable (h : Sound s)

include h

lemma spawn (hidle : s.joins = []) : Sound s.spawn := by
  unfold TaskScope.spawn
  split_ifs with hjoined
  · exact h
  refine ⟨h.single, fun t status ht => ?_, fun hne => absurd hidle hne, h.before,
    fun hj => absurd hj hjoined, h.ended⟩
  grind [h.covered t status]

/-- A thread that has not finished is waited for, and the scope is not joined. -/
lemma unfinished {status : Status} (hstatus : s.tasks[task]? = some status)
    (hne : status ≠ .finished) : s.joined_ = false ∧
      (task ∈ s.threads_ ∨ ∃ j ∈ s.joins, task ∈ j.threads) := by
  refine ⟨Bool.eq_false_iff.mpr fun hj => ?_, (h.covered task status hstatus).resolve_left hne⟩
  exact hne ((h.after hj).1 status (List.mem_of_getElem? hstatus))

lemma throws (hthrows : s.throws task = some s') : Sound s' := by
  unfold TaskScope.throws at hthrows
  split_ifs at hthrows with hrunning
  cases hthrows
  obtain ⟨hjoined, hheld⟩ := h.unfinished hrunning nofun
  refine ⟨h.single, fun t status ht => ?_, h.taken, ?_, fun hj => ?_, h.ended⟩
  · grind [h.covered t status]
  · simpa [(h.before hjoined).1] using h.before
  · simp [hjoined] at hj

lemma finish (hfinish : s.finish task = some s') : Sound s' := by
  unfold TaskScope.finish at hfinish
  split_ifs at hfinish with hdone
  cases hfinish
  refine { h with
    covered := fun t status ht => ?_
    after := fun hj => ⟨fun status hs => ?_, (h.after hj).2⟩ }
  · grind [h.covered t status]
  · exact (List.mem_or_eq_of_mem_set hs).elim ((h.after hj).1 status) id

lemma join (hidle : s.joins = []) (destructor : Bool) : Sound (s.join destructor) := by
  refine ⟨by simp [TaskScope.join, hidle], fun t status ht => ?_, fun _ => rfl, h.before,
    fun hj => ⟨(h.after hj).1, rfl, (h.after hj).2.2⟩, h.ended⟩
  refine (h.covered t status ht).imp_right fun hheld => .inr ?_
  simpa [TaskScope.join, hidle] using hheld

lemma destroy (hidle : s.joins = []) : Sound s.destroy := by
  unfold TaskScope.destroy
  split_ifs with hjoined
  · refine { h with ended := ?_ }
    rintro _ ⟨⟩
    exact (h.after hjoined).2.1
  · exact h.join hidle true

lemma joinEnds {index : ℕ} (hends : s.joinEnds index = some s') : Sound s' := by
  obtain ⟨j, hj, hends⟩ := Option.bind_eq_some_iff.mp hends
  obtain ⟨hall, ⟨⟩⟩ := Option.ite_none_right_eq_some.mp hends
  have hjoins : s.joins = [j] ∧ s.joins.eraseIdx index = [] := by
    rcases hs : s.joins with _ | ⟨j', _ | ⟨j'', rest⟩⟩
    · simp [hs] at hj
    · cases index <;> simp_all
    · have := h.single
      simp [hs] at this
  have htaken : s.threads_ = [] := h.taken (by simp [hjoins.1])
  have hfinished : ∀ status ∈ s.tasks, status = .finished := by
    intro status hstatus
    obtain ⟨t, ht⟩ := List.mem_iff_getElem?.mp hstatus
    rcases h.covered t status ht with hs | hs | ⟨j', hj', hs⟩
    · exact hs
    · simp [htaken] at hs
    · rw [hjoins.1, List.mem_singleton] at hj'
      exact Option.some_inj.mp (ht.symm.trans (hall t (hj' ▸ hs)))
  have houtcomes : ∃ rest, s.outcomes ++ [s.rethrown] = s.first :: rest ∧ ∀ o ∈ rest, o = none := by
    unfold rethrown
    cases hjoined : s.joined_ with
    | false =>
      obtain ⟨hfirst, hprop, hnone⟩ := h.before hjoined
      exact ⟨[], by simp [hprop, hnone, hfirst], nofun⟩
    | true =>
      obtain ⟨-, -, hnone, rest, hrest, hall⟩ := h.after hjoined
      exact ⟨rest ++ [none], by simp [hrest, hnone], by simpa [or_imp, forall_and] using hall⟩
  refine ⟨by simp [hjoins.2], fun t status ht => .inl (hfinished status (List.mem_of_getElem? ht)),
    fun hne => absurd hjoins.2 hne, nofun, fun _ => ⟨hfinished, htaken, rfl, houtcomes⟩,
    fun threads hended => ?_⟩
  grind

lemma step {a : Act} (horderly : s.Orderly a) (hstep : s.step a = some s') : Sound s' := by
  cases a with
  | spawn => exact Option.some_inj.mp hstep ▸ h.spawn horderly
  | throws task => exact h.throws hstep
  | finish task => exact h.finish hstep
  | join => exact Option.some_inj.mp hstep ▸ h.join horderly false
  | destroy => exact Option.some_inj.mp hstep ▸ h.destroy horderly
  | joinEnds index => exact h.joinEnds hstep

end Sound

/-- **Leaving a scope means that its threads are done**, if nothing is spawned and no other `join`
is called while a `join` waits: once a `join` has ended all threads have finished, the destructor
destroys no joinable thread, and the first `join` alone throws the exception that was recorded
first. -/
theorem threads_done {s : TaskScope} (h : system.ReachableWithin Orderly s) :
    (s.outcomes ≠ [] → (∀ status ∈ s.tasks, status = .finished) ∧
      ∃ rest, s.outcomes = s.first :: rest ∧ ∀ o ∈ rest, o = none) ∧
    ∀ threads, s.ended = some (.destroyed threads) → threads = [] := by
  have hs : Sound s := by
    refine h.invariant ?_ fun s a s' hs horderly hstep => ?_
    · rintro _ rfl
      exact ⟨Nat.zero_le _, nofun, nofun, fun _ => ⟨rfl, rfl, rfl⟩, nofun, nofun⟩
    · simp only [system] at hstep
      split_ifs at hstep
      exact hs.step horderly hstep
  refine ⟨fun hne => ?_, hs.ended⟩
  have hjoined : s.joined_ = true := by
    by_contra hj
    exact hne (hs.before (Bool.eq_false_iff.mpr hj)).2.2
  exact ⟨(hs.after hjoined).1, (hs.after hjoined).2.2.2⟩

/-- The theorem for a scope with two tasks, the second of which throws, that is joined twice and
then destroyed. -/
theorem threads_done_two : ∃ s, system.ReachableWithin Orderly s ∧ s.outcomes = [some 1, none] ∧
    s.first = some 1 ∧ (∀ status ∈ s.tasks, status = .finished) ∧
      s.ended = some (.destroyed []) := by
  have hs : system.ReachableWithin Orderly _ := .final {}
      [.spawn, .spawn, .throws 1, .join, .finish 1, .finish 0, .joinEnds 0, .join, .joinEnds 0,
        .destroy] (by rfl) (by decide)
  exact ⟨_, hs, rfl, rfl, ((threads_done hs).1 (by decide)).1, rfl⟩

/-- A task spawns another one while `join` waits for it: `join` returns while that is running, and
the destructor destroys its thread. -/
theorem thread_left_running : ∃ s, system.Reachable s ∧ s.outcomes = [none] ∧
    s.tasks = [.finished, .running] ∧ s.ended = some (.destroyed [1]) :=
  TransitionSystem.reached_by {} [.spawn, .join, .spawn, .finish 0, .joinEnds 0, .destroy] rfl
    (by decide)

end TaskScope

end Pman.Thread
