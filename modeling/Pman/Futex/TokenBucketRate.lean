import Mathlib.Data.Int.ConditionallyCompleteOrder
import Mathlib.Tactic.Ring
import Pman.Futex.RateLimiter
import Pman.Lib.History
import Pman.Lib.TokenBucket

set_option autoImplicit false

/-!
# The rate of the token bucket

Beside the runs of `TokenBucketRateLimiter` a history keeps the last reading of the clock and every
amount that was granted, with the reading at which it was. As long as the clock does not go back, no
more is granted in an interval of time than the burst and what the rate fills in during the
interval, whatever the level at the start: `refill` cuts it off at the burst before the first amount
is taken.

## Main results

* `granted_le_burst_add_rate`: grants are within the burst and the rate.
-/

namespace Pman

namespace TokenBucketRateLimiter

open FutexCondVar (State Choice)
open TokenBucket (Metered between)

/-- What is written down about a run: the last reading of the clock, and the amounts granted,
with the readings at which they were. -/
structure Log where
  clock : ℤ
  grants : List (ℤ × ℚ)

def Inner.amount : Inner → ℚ
  | .tryAcquire tokens | .acquire tokens | .tryAcquireFor tokens _
  | .checkDeadline tokens _ | .timeUntilAvailable tokens => tokens
  | .availableTokens => 0

def grants : InnerStep Unit Inner Result → Bool
  | .leave .acquired | .leave (.granted true) => true
  | _ => false

def granted (p : Inner) (now : ℤ) (d : Data) : List (ℤ × ℚ) :=
  if grants (inner p now d).1 then [(now, p.amount)] else []

def history (ι : Type*) : History (State monitor ι) (ι × Choice monitor ι) Log where
  start s := ⟨s.data.lastRefill_, []⟩
  note s a log :=
    match a.2 with
    | .run now =>
      match s.pc a.1 with
      | .inner p => ⟨now, log.grants ++ granted p now s.data⟩
      | _ => ⟨now, log.grants⟩
    | _ => log

def reading {ι : Type*} : Choice monitor ι → Option ℤ
  | .run now => some now
  | _ => none

def ClockForward {ι : Type*} (x : State monitor ι × Log) (a : ι × Choice monitor ι) : Prop :=
  ∀ now ∈ reading a.2, x.2.clock ≤ now

instance {ι : Type*} (x : State monitor ι × Log) (a : ι × Choice monitor ι) :
    Decidable (ClockForward x a) :=
  inferInstanceAs (Decidable (∀ now ∈ reading a.2, x.2.clock ≤ now))

def logged (ι : Type*) [DecidableEq ι] [Fintype ι] :
    TransitionSystem (State monitor ι × Log) (ι × Choice monitor ι) :=
  (FutexCondVar.system monitor ι).withHistory (history ι)

def filled (d : Data) (t : ℤ) : ℚ := d.config_.tokensPerSecond * seconds t

lemma filled_sub (d : Data) (s t : ℤ) :
    filled d t - filled d s = d.config_.tokensPerSecond * seconds (t - s) := by
  unfold filled seconds
  push_cast
  ring

variable {d : Data} {now : ℤ} {log : Log}

lemma filled_mono (h : 0 < d.config_.tokensPerSecond) : Monotone (filled d) := by
  intro s t hst
  have hcast : (s : ℚ) ≤ t := by exact_mod_cast hst
  unfold filled seconds
  gcongr

lemma level_eq (d : Data) (now : ℤ) :
    d.level now =
      min (d.tokens_ + (filled d now - filled d d.lastRefill_)) d.config_.burstSize := by
  rw [filled_sub, Data.level, mul_comm]

/-- The limiter's fields are those of a bucket with these grants, and the clock is not behind. -/
structure Bucket (d : Data) (log : Log) : Prop where
  rate : 0 < d.config_.tokensPerSecond
  burst : 0 < d.config_.burstSize
  metered : Metered (filled d) d.config_.burstSize log.grants d.lastRefill_ d.tokens_
  clock : d.lastRefill_ ≤ log.clock

lemma bucket_create {config : Config} (h : create config now = .ok d) :
    Bucket d ⟨d.lastRefill_, []⟩ := by
  unfold create at h
  split_ifs at h with hrate hburst
  all_goals
    obtain rfl := Except.ok.inj h
    rw [not_le] at hrate hburst
    refine ⟨hrate, hburst, Metered.start (filled_mono hrate) hburst.le ?_, le_rfl⟩
  · assumption
  · exact hburst.le

section

variable (h : Bucket d log)

include h

section

variable (hnow : log.clock ≤ now)

include hnow

lemma Bucket.tick : Bucket d ⟨now, log.grants⟩ :=
  { h with clock := h.clock.trans hnow }

lemma Bucket.refill : Bucket (d.refill now) ⟨now, log.grants⟩ := by
  have hmetered := h.metered.refill (filled_mono h.rate) h.burst.le (h.clock.trans hnow)
  rw [← level_eq] at hmetered
  exact ⟨h.rate, h.burst, hmetered, le_rfl⟩

lemma Bucket.take (tokens : ℚ) {r : Result}
    {missing : Data → InnerStep Unit Inner Result} (hr : grants (.leave r) = true)
    (hmissing : ∀ d, grants (missing d) = false) :
    Bucket (d.take now tokens r missing).2
      ⟨now, log.grants ++ if grants (d.take now tokens r missing).1 then [(now, tokens)] else []⟩ := by
  have hfull := h.refill hnow
  simp only [Data.take]
  by_cases henough : tokens ≤ (d.refill now).tokens_
  · simp only [henough, if_true, hr]
    exact ⟨h.rate, h.burst, hfull.metered.take (filled_mono h.rate) (min_le_right _ _) henough,
      le_rfl⟩
  · simp only [henough, if_false, hmissing, Bool.false_eq_true, List.append_nil]
    exact hfull

lemma Bucket.outer (p : Outer) :
    Bucket (TokenBucketRateLimiter.outer p now d).2 ⟨now, log.grants⟩ := by
  rw [data_outer]
  exact h.tick hnow

lemma Bucket.inner (p : Inner) :
    Bucket (TokenBucketRateLimiter.inner p now d).2 ⟨now, log.grants ++ granted p now d⟩ := by
  cases p with
  | tryAcquire tokens | acquire tokens | tryAcquireFor tokens deadline =>
    exact h.take hnow tokens rfl fun _ => rfl
  | checkDeadline tokens deadline =>
    have hgrants : granted (.checkDeadline tokens deadline) now d = [] := by
      simp only [granted, TokenBucketRateLimiter.inner]
      split_ifs <;> simp_all [grants]
    have hdata : (TokenBucketRateLimiter.inner (.checkDeadline tokens deadline) now d).2 = d := by
      simp only [TokenBucketRateLimiter.inner]
      split_ifs <;> rfl
    rw [hgrants, hdata, List.append_nil]
    exact h.tick hnow
  | availableTokens | timeUntilAvailable =>
    simp only [granted, TokenBucketRateLimiter.inner, grants, Bool.false_eq_true, if_false,
      List.append_nil]
    exact h.tick hnow

end

lemma Bucket.between_le {s t : ℤ} (hst : s ≤ t) :
    between log.grants s t ≤
      d.config_.burstSize + d.config_.tokensPerSecond * seconds (t - s) := by
  rw [← filled_sub]
  exact h.metered.bound s t hst

end

section Runs

variable {ι : Type*} [DecidableEq ι] [Fintype ι]

lemma bucket_step {x x' : State monitor ι × Log} {a : ι × Choice monitor ι}
    (h : Bucket x.1.data x.2) (hclock : ClockForward x a) (hst : (logged ι).step x a = some x') :
    Bucket x'.1.data x'.2 := by
  obtain ⟨hst, hnote⟩ := TransitionSystem.withHistory_step.mp hst
  rw [hnote, FutexCondVar.data_of_step hst]
  obtain ⟨t, c⟩ := a
  cases c with
  | run now =>
    simp only [FutexCondVar.State.dataAfter, history]
    cases x.1.pc t with
    | inner p => exact h.inner (hclock _ rfl) p
    | outer p => exact h.outer (hclock _ rfl) p
    | _ => exact h.tick (hclock _ rfl)
  | _ => exact h

/-- In every run in which the clock does not go back, the limiter is such a bucket. -/
theorem bucket_of_reachable {x : State monitor ι × Log}
    (h : (logged ι).ReachableWithin ClockForward x) : Bucket x.1.data x.2 := by
  refine h.invariant (I := fun x => Bucket x.1.data x.2) ?_ fun _ _ _ hI hok hst =>
    bucket_step hI hok hst
  rintro ⟨s, log⟩ ⟨⟨d, ⟨config, now, hcreate⟩, hs⟩, hlog⟩
  obtain rfl : s = _ := hs
  obtain rfl : log = ⟨Data.lastRefill_ d, []⟩ := hlog
  exact bucket_create hcreate

/-- **The rate bound**: in every run in which the clock does not go back, the amounts granted at
readings in a closed interval add up to at most the burst and what the rate brings in during the
interval. -/
theorem granted_le_burst_add_rate {x : State monitor ι × Log}
    (h : (logged ι).ReachableWithin ClockForward x) {s t : ℤ} (hst : s ≤ t) :
    between x.2.grants s t ≤
      x.1.data.config_.burstSize + x.1.data.config_.tokensPerSecond * seconds (t - s) :=
  (bucket_of_reachable h).between_le hst

end Runs

/-- A call of `tryAcquire` for one token at a reading of the clock, by the only thread. -/
def tryAcquireAt (now : ℤ) : List (Fin 1 × Choice monitor (Fin 1)) :=
  [(0, .start (.tryAcquire 1 : Outer)), (0, .run now), (0, .mutex .go), (0, .run now),
    (0, .mutex .go)]

/-- The bound is reached: with a burst of one token and one token a second, the closed interval of
one second has two. -/
theorem granted_le_burst_add_rate_tight :
    ∃ x : State monitor (Fin 1) × Log, (logged (Fin 1)).ReachableWithin ClockForward x ∧
      between x.2.grants 0 1000000000 = 2 ∧
      between x.2.grants 0 1000000000 ≤
        x.1.data.config_.burstSize +
          x.1.data.config_.tokensPerSecond * seconds (1000000000 - 0) := by
  have hone : ¬ (1 : ℚ) ≤ 0 := by decide
  have hx : (logged (Fin 1)).ReachableWithin ClockForward _ :=
    .final (⟨⟨.unlocked, fun _ => .idle, fun _ => false⟩, fun _ => 0,
        (⟨⟨1, 1, -1⟩, 1, 0⟩ : Data), fun _ => .outside⟩, ⟨0, []⟩)
      (tryAcquireAt 0 ++ tryAcquireAt 1000000000)
      ⟨⟨_, ⟨⟨1, 1, -1⟩, 0, by simp [create, hone]⟩, rfl⟩, rfl⟩ (by decide +kernel)
  exact ⟨_, hx, by decide +kernel, granted_le_burst_add_rate hx (by decide)⟩

end TokenBucketRateLimiter

end Pman
