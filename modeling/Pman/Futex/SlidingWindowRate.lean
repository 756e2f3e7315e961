import Mathlib.Data.Int.ConditionallyCompleteOrder
import Pman.Futex.RateLimiter
import Pman.Futex.Regions
import Pman.Lib.History
import Pman.Lib.SlidingWindow

set_option autoImplicit false

/-!
# The rate of the sliding window

Beside the runs of `SlidingWindowRateLimiter`, whose mutex regions are taken as atomic, a history
keeps the last reading of the clock and the timestamps of all requests that were granted, also of
those that the limiter has forgotten. A region that takes a request reads the clock twice: to prune
the timestamps, and to record the new one.

## Main results

* `window_bound`: no window has more grants than the maximum.
-/

namespace Pman

namespace SlidingWindowRateLimiter

open Regions (State Choice)
open SlidingWindow (Windowed length_dropWhile)

def grants : RegionEnd monitor → Bool
  | .leaves .acquired | .leaves (.granted true) => true
  | _ => false

def Inner.Begins : Inner → Prop
  | .cleanup _ | .remainingRequests | .timeUntilReset => True
  | .record _ | .full _ => False

/-- There is room for a request after `cleanup` at this reading. -/
def Data.hasRoom (d : Data) (now : ℤ) : Prop :=
  (d.cleanup now).timestamps_.length < d.config_.maxRequests

inductive Outcome (d : Data) : List ℤ → RegionEnd monitor → Data → Prop
  /-- The timestamps are pruned and the request is recorded. -/
  | recorded {now now' : ℤ} {x : RegionEnd monitor} (hroom : d.hasRoom now)
      (hx : grants x = true) : Outcome d [now, now'] x
        { d.cleanup now with timestamps_ := (d.cleanup now).timestamps_ ++ [now'] }
  | full {now now' : ℤ} {x : RegionEnd monitor} (hroom : ¬ d.hasRoom now)
      (hx : grants x = false) (hwaits : ∀ cv duration p, x = .waits cv duration p → p.Begins) :
      Outcome d [now, now'] x (d.cleanup now)
  | looked {now : ℤ} {r : Result} (hx : grants (.leaves r) = false) :
      Outcome d [now] (.leaves r) d

def region (inputs : List ℤ) (p : Inner) (d : Data) : Option (RegionEnd monitor × Data) :=
  monitor.region inputs p d

variable {d d' : Data} {inputs : List ℤ} {x : RegionEnd monitor} {now : ℤ}

lemma region_of_hasRoom (hroom : d.hasRoom now) (c : Call) (inputs : List ℤ) :
    region (now :: inputs) (.cleanup c) d = region inputs (.record c) (d.cleanup now) := by
  have hif : (d.cleanup now).timestamps_.length < (d.cleanup now).config_.maxRequests := hroom
  simp only [region, Monitor.region, monitor, inner, hif, if_true]

lemma region_of_not_hasRoom (hroom : ¬ d.hasRoom now) (c : Call) (inputs : List ℤ) :
    region (now :: inputs) (.cleanup c) d = region inputs (.full c) (d.cleanup now) := by
  have hif : ¬ (d.cleanup now).timestamps_.length < (d.cleanup now).config_.maxRequests := hroom
  simp only [region, Monitor.region, monitor, inner, hif, if_false]

variable {c : Call}

lemma region_record (h : region inputs (.record c) d = some (x, d')) :
    ∃ now, inputs = [now] ∧ grants x = true ∧
      d' = { d with timestamps_ := d.timestamps_ ++ [now] } := by
  rcases inputs with _ | ⟨now, inputs⟩
  · cases h
  · obtain ⟨rfl, rfl, hdata⟩ := Monitor.region_of_ofStep rfl h
    exact ⟨now, rfl, by cases c <;> rfl, hdata⟩

lemma inner_full (c : Call) (now : ℤ) (d : Data) :
    ∃ x : RegionEnd monitor, RegionEnd.ofStep (inner (.full c) now d).1 = some x ∧
      (inner (.full c) now d).2 = d ∧ grants x = false ∧
      ∀ cv duration p, x = .waits cv duration p → Inner.Begins p := by
  cases c with
  | tryAcquire => exact ⟨_, rfl, rfl, rfl, by simp⟩
  | acquire => exact ⟨_, rfl, rfl, rfl, by rintro _ _ _ ⟨⟩; trivial⟩
  | tryAcquireFor deadline =>
    simp only [inner]
    split_ifs
    · exact ⟨_, rfl, rfl, rfl, by simp⟩
    · exact ⟨_, rfl, rfl, rfl, by rintro _ _ _ ⟨⟩; trivial⟩

lemma region_full (h : region inputs (.full c) d = some (x, d')) :
    (∃ now, inputs = [now]) ∧ grants x = false ∧ d' = d ∧
      ∀ cv duration p, x = .waits cv duration p → Inner.Begins p := by
  rcases inputs with _ | ⟨now, inputs⟩
  · cases h
  · obtain ⟨y, hend, hsame, hy⟩ := inner_full c now d
    obtain ⟨rfl, rfl, hdata⟩ := Monitor.region_of_ofStep hend h
    exact ⟨⟨now, rfl⟩, hy.1, hdata.trans hsame, hy.2⟩

variable {p : Inner}

lemma outcome_of_region (hp : p.Begins) (h : region inputs p d = some (x, d')) :
    Outcome d inputs x d' := by
  cases p with
  | record | full => exact hp.elim
  | remainingRequests | timeUntilReset =>
    rcases inputs with _ | ⟨now, inputs⟩
    · cases h
    · obtain ⟨rfl, rfl, rfl⟩ := Monitor.region_of_ofStep rfl h
      exact .looked rfl
  | cleanup c =>
    rcases inputs with _ | ⟨now, inputs⟩
    · cases h
    · by_cases hroom : d.hasRoom now
      · rw [region_of_hasRoom hroom] at h
        obtain ⟨now', rfl, hx, rfl⟩ := region_record h
        exact .recorded hroom hx
      · rw [region_of_not_hasRoom hroom] at h
        obtain ⟨⟨now', rfl⟩, hx, rfl, hwaits⟩ := region_full h
        exact .full hroom hx hwaits

/-- What is written down about a run: the last reading of the clock, and the timestamps of the
requests granted. -/
structure Log where
  clock : WithBot ℤ
  grants : List ℤ

def readings : Choice monitor → List ℤ
  | .run now => [now]
  | .region inputs => inputs
  | .start _ | .throw => []

def latest (clock : WithBot ℤ) : List ℤ → WithBot ℤ
  | [] => clock
  | now :: readings => latest (WithBot.some now) readings

/-- What a region records: the last reading, if the request is granted. -/
def stamp (x : RegionEnd monitor) (inputs : List ℤ) : List ℤ :=
  if grants x then inputs.getLast?.toList else []

def recorded {ι : Type*} (s : State monitor ι) : ι × Choice monitor → List ℤ
  | (t, .region inputs) =>
    match (s.pc t).next.bind fun p => region inputs p s.data with
    | some (x, _) => stamp x inputs
    | none => []
  | _ => []

lemma recorded_region {ι : Type*} {s : State monitor ι} {t : ι}
    (hpc : (s.pc t).next = some p) (hregion : region inputs p s.data = some (x, d)) :
    recorded s (t, .region inputs) = stamp x inputs := by
  have hbind : ((s.pc t).next.bind fun p => region inputs p s.data) = some (x, d) := by
    rw [hpc]
    exact hregion
  simp only [recorded]
  rw [hbind]

def history (ι : Type*) : History (State monitor ι) (ι × Choice monitor) Log where
  start _ := ⟨⊥, []⟩
  note s a log := ⟨latest log.clock (readings a.2), log.grants ++ recorded s a⟩

def ClockForward {ι : Type*} (x : State monitor ι × Log) (a : ι × Choice monitor) : Prop :=
  (readings a.2).Pairwise (· ≤ ·) ∧ ∀ now ∈ readings a.2, x.2.clock ≤ (now : WithBot ℤ)

instance {ι : Type*} (x : State monitor ι × Log) (a : ι × Choice monitor) :
    Decidable (ClockForward x a) :=
  inferInstanceAs (Decidable ((readings a.2).Pairwise (· ≤ ·) ∧
    ∀ now ∈ readings a.2, x.2.clock ≤ (now : WithBot ℤ)))

def logged (ι : Type*) [DecidableEq ι] :
    TransitionSystem (State monitor ι × Log) (ι × Choice monitor) :=
  (Regions.system monitor ι).withHistory (history ι)

/-! ### The window -/

/-- The limiter's timestamps are the recent ones among the grants. -/
def Window (d : Data) (log : Log) : Prop :=
  Windowed d.config_.windowDuration d.config_.maxRequests log.grants d.timestamps_ log.clock

variable {log : Log}

lemma Window.region (h : Window d log) (hsorted : inputs.Pairwise (· ≤ ·))
    (hclock : ∀ now ∈ inputs, log.clock ≤ (now : WithBot ℤ)) (hout : Outcome d inputs x d') :
    Window d' ⟨latest log.clock inputs,
      log.grants ++ stamp x inputs⟩ := by
  cases hout with
  | @recorded now now' _ hroom hx =>
    have hlater : now ≤ now' := by simpa using hsorted
    have hpruned := Windowed.prune h (hclock now (by simp))
    simp only [stamp, hx, if_true]
    exact hpruned.record (WithBot.coe_le_coe.mpr hlater) hroom
  | @full now now' _ hroom hx hwaits =>
    have hlater : now ≤ now' := by simpa using hsorted
    have hpruned := Windowed.prune h (hclock now (by simp))
    simp only [stamp, hx, Bool.false_eq_true, if_false, List.append_nil]
    exact hpruned.tick (WithBot.coe_le_coe.mpr hlater)
  | looked hx =>
    simp only [stamp, hx, Bool.false_eq_true, if_false, List.append_nil]
    exact Windowed.tick h (hclock _ (by simp))

lemma Window.add_nil {clock : WithBot ℤ} {grants : List ℤ} (h : Window d ⟨clock, grants⟩) :
    Window d ⟨clock, grants ++ []⟩ := by
  rw [List.append_nil]
  exact h

lemma Window.outer (h : Window d log) (p : Outer) (now : ℤ) :
    Window (SlidingWindowRateLimiter.outer p now d).2 log := by
  cases p <;> exact h

lemma window_create {config : Config} (h : create config = .ok d) : Window d ⟨⊥, []⟩ := by
  unfold create at h
  split_ifs at h
  obtain rfl := Except.ok.inj h
  exact Windowed.start

/-- **`tryAcquire` succeeds exactly when there are requests remaining**, as long as the timestamps
are in order.

**Proof sketch.** The one prunes the timestamps and compares the length of the rest, the other
counts the timestamps in the window. -/
lemma tryAcquire_iff_remaining (hsorted : d.timestamps_.Pairwise (· ≤ ·)) (now now' : ℤ) :
    ∃ success d' remaining,
      region [now, now'] (.cleanup .tryAcquire) d = some (.leaves (.granted success), d') ∧
      region [now] .remainingRequests d = some (.leaves (.requests remaining), d) ∧
      (success = true ↔ 0 < remaining) := by
  have hcount : (d.cleanup now).timestamps_.length =
      d.timestamps_.countP (now - d.config_.windowDuration ≤ ·) :=
    length_dropWhile _ hsorted
  by_cases hroom : d.hasRoom now
  · refine ⟨true, _, _, region_of_hasRoom hroom _ _, rfl, ?_⟩
    rw [Data.hasRoom, hcount] at hroom
    simpa using hroom
  · refine ⟨false, _, _, region_of_not_hasRoom hroom _ _, rfl, ?_⟩
    rw [Data.hasRoom, hcount] at hroom
    simpa using hroom

section Runs

variable {ι : Type*} [DecidableEq ι]

lemma begins {s : State monitor ι} (h : (Regions.system monitor ι).Reachable s) {t : ι}
    (hp : (s.pc t).next = some p) : p.Begins := by
  refine (Regions.within_of_reachable (O := fun _ => True) (E := Inner.Begins) h ?_ ?_ ?_ t).next hp
  · exact fun _ _ _ _ => trivial
  · intro p input d _
    cases p <;> trivial
  · intro inputs p d x d' hp hregion
    have hout := outcome_of_region hp hregion
    cases x with
    | leaves => trivial
    | waits cv duration q =>
      cases hout with
      | recorded _ hx => cases hx
      | full _ _ hwaits => exact hwaits cv duration q rfl

lemma window_step {x x' : State monitor ι × Log} {a : ι × Choice monitor}
    (hreach : (Regions.system monitor ι).Reachable x.1) (h : Window x.1.data x.2)
    (hclock : ClockForward x a) (hst : (logged ι).step x a = some x') :
    Window x'.1.data x'.2 := by
  obtain ⟨hst, hnote⟩ := TransitionSystem.withHistory_step.mp hst
  obtain ⟨s', log'⟩ := x'
  obtain ⟨t, c⟩ := a
  obtain rfl : log' = _ := hnote
  cases Regions.effect_of_step hst with
  | idle hk hregion hrun =>
    cases c with
    | start p | throw => exact h.add_nil
    | run input => exact absurd rfl (hrun input)
    | region inputs => exact absurd rfl (hregion inputs)
  | @outer input p hpc =>
    have hlater : Window x.1.data ⟨WithBot.some input, x.2.grants⟩ :=
      Windowed.tick h (hclock.2 _ (List.mem_singleton.mpr rfl))
    exact (hlater.outer p input).add_nil
  | @region inputs p y d hpc hregion =>
    have hout := outcome_of_region (begins hreach hpc) hregion
    change Window d ⟨latest x.2.clock inputs, x.2.grants ++ recorded x.1 (t, .region inputs)⟩
    rw [recorded_region hpc hregion]
    exact h.region hclock.1 hclock.2 hout

/-- In every run in which the clock does not go back, the timestamps are the recent grants. -/
theorem window_of_reachable {x : State monitor ι × Log}
    (h : (logged ι).ReachableWithin ClockForward x) : Window x.1.data x.2 := by
  refine h.invariant_of (J := fun x => (Regions.system monitor ι).Reachable x.1)
    (I := fun x => Window x.1.data x.2) (fun _ hx => hx.of_withHistory) ?_
    fun _ _ _ hreach hI hok hst => window_step hreach hI hok hst
  rintro ⟨s, log⟩ ⟨⟨⟨config, hcreate⟩, -⟩, hlog⟩
  obtain rfl : log = ⟨⊥, []⟩ := hlog
  exact window_create hcreate

/-- **The window bound**: in every run in which the clock does not go back, a closed interval of
the window's length has the timestamps of at most `maxRequests` granted requests; and at every
reading `tryAcquire` succeeds if and only if `remainingRequests` is positive. -/
theorem window_bound {x : State monitor ι × Log}
    (h : (logged ι).ReachableWithin ClockForward x) :
    (∀ s : ℤ, (x.2.grants.filter fun t =>
        s ≤ t ∧ t ≤ s + x.1.data.config_.windowDuration).length ≤
      x.1.data.config_.maxRequests) ∧
    ∀ now now' : ℤ, ∃ success d remaining,
      region [now, now'] (.cleanup .tryAcquire) x.1.data =
        some (.leaves (.granted success), d) ∧
      region [now] .remainingRequests x.1.data =
        some (.leaves (.requests remaining), x.1.data) ∧
      (success = true ↔ 0 < remaining) :=
  ⟨(window_of_reachable h).bound, fun now now' =>
    tryAcquire_iff_remaining (window_of_reachable h).sorted_kept now now'⟩

end Runs

/-- One request in ten nanoseconds: after one at `5`, `acquire` waits at `8` and has its turn at
`16`. -/
theorem window_bound_acquire :
    ∃ x : State monitor (Fin 1) × Log, (logged (Fin 1)).ReachableWithin ClockForward x ∧
      x.2.grants = [5, 16] ∧
      (x.2.grants.filter fun t => (5 : ℤ) ≤ t ∧ t ≤ 5 + x.1.data.config_.windowDuration).length ≤
        x.1.data.config_.maxRequests := by
  have hx : (logged (Fin 1)).ReachableWithin ClockForward _ :=
    .final (⟨(⟨⟨1, 10⟩, []⟩ : Data), fun _ => .outside⟩, ⟨⊥, []⟩)
      [(0, .start Outer.tryAcquire), (0, .run (4 : ℤ)), (0, .region [(5 : ℤ), (5 : ℤ)]),
        (0, .start Outer.acquire), (0, .run (7 : ℤ)), (0, .region [(7 : ℤ), (8 : ℤ)]),
        (0, .region [(16 : ℤ), (16 : ℤ)])] ⟨⟨⟨⟨1, 10⟩, rfl⟩, fun _ => rfl⟩, rfl⟩ (by decide +kernel)
  exact ⟨_, hx, by decide +kernel, (window_bound hx).1 5⟩

end SlidingWindowRateLimiter

end Pman
