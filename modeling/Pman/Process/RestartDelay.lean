import Mathlib.Data.Rat.Floor
import Pman.Lib.Signed64
import Pman.Process.Supervisor

set_option autoImplicit false

/-!
# The restart delay in 64 bits

`calculateRestartDelay` forms a product or a sum and then limits it to the interval from
`minRestartDelay` to `maxRestartDelay`. A number beyond 64 bits has no defined value before it can
be limited.

## Main definitions

* `calculateRestartDelay64`: the delay, where the numbers on the way to it fit into 64 bits.
* `Bounded`: the delays up to a count are defined, within their bounds, and grow.
* `BelowLimit`: the configurations and counts for which they are.

## Main results

* `restartDelay_bounded_iff`: `Bounded` holds exactly under `BelowLimit`.
-/

namespace Pman.ProcessSupervisor

open Signed64

/-- `minRestartDelay` times the power of the multiplier, as a `double`. -/
def product (rc : RestartConfig) (restartCount : ℤ) : ℚ :=
  rc.minRestartDelay * (fun q : ℚ => q * rc.backoffMultiplier)^[min restartCount.toNat 32] 1

/-- The delay before it is limited. -/
def unlimitedDelay (rc : RestartConfig) (restartCount : ℤ) : ℤ :=
  match rc.backoffStrategy with
  | .exponential => (product rc restartCount).num.tdiv (product rc restartCount).den
  | .linear => rc.minRestartDelay + rc.linearIncrement * restartCount
  | .custom =>
    match rc.customBackoff with
    | some customBackoff => customBackoff restartCount
    | none => rc.minRestartDelay

/-- What `calculateRestartDelay` returns, if its numbers fit: the sum and its second term, and what
the `double` is converted to. -/
def calculateRestartDelay64 (rc : RestartConfig) (restartCount : ℤ) : Option ℤ :=
  if Fits (unlimitedDelay rc restartCount) ∧
      (rc.backoffStrategy = .linear → Fits (rc.linearIncrement * restartCount)) then
    some (calculateRestartDelay rc restartCount)
  else none

/-- A configuration with a strategy of the library and parameters that make sense for it. -/
structure Sensible (rc : RestartConfig) : Prop where
  min_pos : 0 < rc.minRestartDelay
  min_le_max : rc.minRestartDelay ≤ rc.maxRestartDelay
  multiplier : 1 ≤ rc.backoffMultiplier
  increment : 0 ≤ rc.linearIncrement
  strategy : rc.backoffStrategy ≠ .custom

/-- For every count up to `k` the delay is defined, within its bounds, and at most that for `k`. -/
def Bounded (rc : RestartConfig) (k : ℤ) : Prop :=
  ∀ j, 0 ≤ j → j ≤ k → ∃ dj dk, calculateRestartDelay64 rc j = some dj ∧
    calculateRestartDelay64 rc k = some dk ∧
    rc.minRestartDelay ≤ dj ∧ dj ≤ dk ∧ dk ≤ rc.maxRestartDelay

/-- The least delay, scaled by at most 32 factors or raised by the increments, stays below `2 ^ 63`
nanoseconds. -/
def BelowLimit (rc : RestartConfig) (k : ℤ) : Prop :=
  if rc.backoffStrategy = .linear then
    rc.linearIncrement * k < 2 ^ 63 - rc.minRestartDelay
  else rc.minRestartDelay * rc.backoffMultiplier ^ min k.toNat 32 < (2 : ℚ) ^ 63

section Delays

variable {rc : RestartConfig} {j k : ℤ}

/-- The loop computes a power. -/
lemma product_eq (rc : RestartConfig) (k : ℤ) :
    product rc k = rc.minRestartDelay * rc.backoffMultiplier ^ min k.toNat 32 := by
  rw [product, mul_right_iterate_apply_one]

/-- The conversion to an integer rounds a nonnegative number down. -/
lemma tdiv_eq_floor {q : ℚ} (h : 0 ≤ q) : q.num.tdiv q.den = ⌊q⌋ := by
  rw [Rat.floor_def', Int.tdiv_eq_ediv_of_nonneg (Rat.num_nonneg.mpr h)]

/-- The delay of the exponential strategy before it is limited. -/
lemma Sensible.unlimitedDelay_eq (h : Sensible rc) (hs : rc.backoffStrategy = .exponential)
    (k : ℤ) :
    unlimitedDelay rc k = ⌊rc.minRestartDelay * rc.backoffMultiplier ^ min k.toNat 32⌋ := by
  have hmin : (0 : ℚ) < rc.minRestartDelay := by exact_mod_cast h.min_pos
  have hpow : 0 ≤ rc.backoffMultiplier ^ min k.toNat 32 :=
    pow_nonneg (zero_le_one.trans h.multiplier) _
  simp only [unlimitedDelay, hs, product_eq]
  exact tdiv_eq_floor (mul_nonneg hmin.le hpow)

/-- Before it is limited the delay starts at the least one and grows. -/
lemma Sensible.unlimitedDelay_mono (h : Sensible rc) (hj : 0 ≤ j) (hjk : j ≤ k) :
    rc.minRestartDelay ≤ unlimitedDelay rc j ∧ unlimitedDelay rc j ≤ unlimitedDelay rc k := by
  have hq : (0 : ℚ) < rc.minRestartDelay := by exact_mod_cast h.min_pos
  cases hs : rc.backoffStrategy with
  | custom => exact absurd hs h.strategy
  | exponential =>
    rw [h.unlimitedDelay_eq hs, h.unlimitedDelay_eq hs]
    constructor
    · rw [Int.le_floor]
      exact le_mul_of_one_le_right hq.le (one_le_pow₀ h.multiplier)
    · refine Int.floor_le_floor (mul_le_mul_of_nonneg_left (pow_le_pow_right₀ h.multiplier ?_) hq.le)
      omega
  | linear =>
    have hterm : rc.linearIncrement * j ≤ rc.linearIncrement * k :=
      mul_le_mul_of_nonneg_left hjk h.increment
    have hnonneg : 0 ≤ rc.linearIncrement * j := mul_nonneg h.increment hj
    simp only [unlimitedDelay, hs]
    omega

/-- The condition on the configuration and the count says that the unlimited delay fits. -/
lemma Sensible.belowLimit_iff (h : Sensible rc) (k : ℤ) :
    BelowLimit rc k ↔ unlimitedDelay rc k < 2 ^ 63 := by
  cases hs : rc.backoffStrategy with
  | custom => exact absurd hs h.strategy
  | exponential =>
    rw [h.unlimitedDelay_eq hs, Int.floor_lt, BelowLimit, if_neg (by simp [hs])]
    norm_num
  | linear =>
    simp only [BelowLimit, unlimitedDelay, hs, if_true]
    omega

/-- The delay is defined exactly where the unlimited one fits. -/
lemma Sensible.calculateRestartDelay64_eq (h : Sensible rc) (hk : 0 ≤ k) :
    calculateRestartDelay64 rc k =
      if unlimitedDelay rc k < 2 ^ 63 then some (calculateRestartDelay rc k) else none := by
  have hmin := h.min_pos
  have hlow := (h.unlimitedDelay_mono hk le_rfl).1
  refine if_congr ⟨fun hfits => hfits.1.2, fun hlt => ⟨⟨by omega, hlt⟩, fun hs => ?_⟩⟩ rfl rfl
  have hterm : 0 ≤ rc.linearIncrement * k := mul_nonneg h.increment hk
  simp only [unlimitedDelay, hs] at hlt
  exact ⟨by omega, by omega⟩

/-- **The delay is bounded and grows**, with every number on the way to it in 64 bits, for exactly
the configurations and counts below the limit. -/
theorem restartDelay_bounded_iff (h : Sensible rc) (hk : 0 ≤ k) :
    Bounded rc k ↔ BelowLimit rc k := by
  rw [h.belowLimit_iff]
  constructor
  · intro hbounded
    obtain ⟨-, dk, -, hdk, -⟩ := hbounded k hk le_rfl
    rw [h.calculateRestartDelay64_eq hk] at hdk
    exact (Option.ite_none_right_eq_some.mp hdk).1
  · intro hlt j hj hjk
    have hmono := h.unlimitedDelay_mono hj hjk
    have hclamp : ∀ i, calculateRestartDelay rc i =
        let delay := if rc.maxRestartDelay < unlimitedDelay rc i then rc.maxRestartDelay
          else unlimitedDelay rc i
        if delay < rc.minRestartDelay then rc.minRestartDelay else delay := fun i => rfl
    have hmax := h.min_le_max
    rw [h.calculateRestartDelay64_eq hj, h.calculateRestartDelay64_eq hk, if_pos hlt,
      if_pos (by omega), hclamp, hclamp]
    refine ⟨_, _, rfl, rfl, ?_⟩
    dsimp only
    split_ifs <;> omega

end Delays

/-- The default configuration after a thousand restarts. -/
theorem restartDelay_bounded_doubling : Sensible {} ∧ Bounded {} 1000 := by
  have hrc : Sensible {} := ⟨by decide, by decide, by norm_num, by decide, by decide⟩
  exact ⟨hrc, (restartDelay_bounded_iff hrc (by decide)).mpr
    ((hrc.belowLimit_iff 1000).mpr (by decide +kernel))⟩

/-- **The delay overflows before it is limited**: after 32 restarts with the multiplier three. -/
theorem restartDelay_overflows :
    calculateRestartDelay64 { backoffMultiplier := 3 } 32 = none := by
  decide +kernel

end Pman.ProcessSupervisor
