import Mathlib.Algebra.BigOperators.Group.List.Basic
import Mathlib.Algebra.Order.Field.Basic
import Mathlib.Tactic.Linarith

set_option autoImplicit false

/-!
# Token buckets

A bucket holds at most `burst`. From `s` to `t` it gains `fill t - fill s`, and what does not fit is
lost. Amounts are granted out of it, never more than it holds. Then what is granted in any closed
interval of time is at most the burst and what the interval has filled in. The level may begin above
the burst, as the first filling cuts it off before anything is granted.
-/

namespace TokenBucket

variable {T K : Type*} [LinearOrder T] [Field K] [LinearOrder K] [IsStrictOrderedRing K]

/-- The sum of the amounts granted at times in the closed interval from `s` to `t`. -/
def between (grants : List (T × K)) (s t : T) : K :=
  ((grants.filter fun g => s ≤ g.1 ∧ g.1 ≤ t).map Prod.snd).sum

variable {grants : List (T × K)} {s t now now' : T} {fill : T → K} {burst level amount : K}

omit [LinearOrder K] [IsStrictOrderedRing K] in
lemma between_eq_of_past (hpast : ∀ g ∈ grants, g.1 ≤ now) (ht : now ≤ t) :
    between grants s t = between grants s now := by
  unfold between
  congr 2
  apply List.filter_congr
  intro g hg
  have hle := hpast g hg
  simp [hle, hle.trans ht]

omit [LinearOrder K] [IsStrictOrderedRing K] in
lemma between_eq_zero (hpast : ∀ g ∈ grants, g.1 ≤ now) (hs : now < s) :
    between grants s t = 0 := by
  have hnone : (grants.filter fun g => s ≤ g.1 ∧ g.1 ≤ t) = [] := by
    rw [List.filter_eq_nil_iff]
    intro g hg
    simp [not_le.mpr ((hpast g hg).trans_lt hs)]
  unfold between
  rw [hnone]
  rfl

omit [LinearOrder K] [IsStrictOrderedRing K] in
lemma between_append :
    between (grants ++ [(now, amount)]) s t =
      between grants s t + if s ≤ now ∧ now ≤ t then amount else 0 := by
  unfold between
  rw [List.filter_append, List.map_append, List.sum_append]
  by_cases hin : s ≤ now ∧ now ≤ t <;> simp [hin]

/-- A bucket of size `burst` that has made these grants and holds `level` at `now`. What it has
granted since `s` and what it still holds is covered by the burst and by what was filled in since
`s`. -/
structure Metered (fill : T → K) (burst : K) (grants : List (T × K)) (now : T) (level : K) :
    Prop where
  nonneg : 0 ≤ level
  past : ∀ g ∈ grants, g.1 ≤ now
  reserve : ∀ s ≤ now, between grants s now + min level burst ≤ burst + (fill now - fill s)
  bound : ∀ s t, s ≤ t → between grants s t ≤ burst + (fill t - fill s)

namespace Metered

lemma start (hfill : Monotone fill) (hburst : 0 ≤ burst) (hlevel : 0 ≤ level) :
    Metered fill burst [] now level := by
  refine ⟨hlevel, by simp, fun s hs => ?_, fun s t hst => ?_⟩
  · have hgain := hfill hs
    have hmin := min_le_right level burst
    simp only [between, List.filter_nil, List.map_nil, List.sum_nil]
    linarith
  · have hgain := hfill hst
    simp only [between, List.filter_nil, List.map_nil, List.sum_nil]
    linarith

lemma refill (h : Metered fill burst grants now level) (hfill : Monotone fill)
    (hburst : 0 ≤ burst) (hnow : now ≤ now') :
    Metered fill burst grants now' (min (level + (fill now' - fill now)) burst) := by
  have hgain := hfill hnow
  refine ⟨?_, fun g hg => (h.past g hg).trans hnow, fun s hs => ?_, h.bound⟩
  · exact le_min (by linarith [h.nonneg]) hburst
  rw [between_eq_of_past h.past hnow, min_eq_left (min_le_right _ _)]
  rcases le_or_gt s now with hbefore | hafter
  · have hlevel : min (level + (fill now' - fill now)) burst ≤
        min level burst + (fill now' - fill now) := by
      rw [← min_add_add_right]
      exact min_le_min_left _ (by linarith)
    have hreserve := h.reserve s hbefore
    linarith
  · -- nothing was granted since `s`
    rw [between_eq_zero h.past hafter, zero_add]
    have hrest := hfill hs
    have hlevel := min_le_right (level + (fill now' - fill now)) burst
    linarith

lemma take (h : Metered fill burst grants now level) (hfill : Monotone fill)
    (hlevel : level ≤ burst) (hamount : amount ≤ level) :
    Metered fill burst (grants ++ [(now, amount)]) now (level - amount) := by
  have hreserve : ∀ s ≤ now, between grants s now + level ≤ burst + (fill now - fill s) := by
    intro s hs
    have := h.reserve s hs
    rwa [min_eq_left hlevel] at this
  refine ⟨sub_nonneg.mpr hamount, ?_, fun s hs => ?_, fun s t hst => ?_⟩
  · intro g hg
    rcases List.mem_append.mp hg with hold | hnew
    · exact h.past g hold
    · rw [List.mem_singleton.mp hnew]
  · rw [between_append, if_pos ⟨hs, le_refl now⟩]
    have hmin := min_le_left (level - amount) burst
    have := hreserve s hs
    linarith
  · rw [between_append]
    split_ifs with hin
    · rw [between_eq_of_past h.past hin.2]
      have hgain := hfill hin.2
      have := hreserve s hin.1
      linarith
    · rw [add_zero]
      exact h.bound s t hst

end Metered

end TokenBucket
