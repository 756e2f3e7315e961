import Mathlib.Algebra.Order.Group.Defs
import Mathlib.Algebra.Order.Group.Basic
import Mathlib.Algebra.Order.Monoid.WithTop
import Mathlib.Data.List.TakeWhile

set_option autoImplicit false

/-!
# Sliding windows

Requests are recorded with the time at which they are granted. Those that have left the window, as
seen from now, are dropped from the front of the list, and a request is granted only while the list
is shorter than a maximum. Then no closed interval as long as the window has more grants than the
maximum. Pruning and recording may read different times, as long as these do not go back.

Times are of any linearly ordered group. The latest time that was seen is `⊥` at the start.
-/

namespace SlidingWindow

open List

variable {T : Type*} [LinearOrder T] {kept : List T}

lemma dropWhile_eq_filter (cutoff : T) (hsorted : kept.Pairwise (· ≤ ·)) :
    kept.dropWhile (· < cutoff) = kept.filter (cutoff ≤ ·) := by
  induction kept with
  | nil => rfl
  | cons t kept ih =>
    obtain ⟨hfirst, hsorted⟩ := pairwise_cons.mp hsorted
    by_cases ht : t < cutoff
    · rw [dropWhile_cons_of_pos (by simpa using ht),
        filter_cons_of_neg (by simpa using ht), ih hsorted]
    · -- the first entry that stays keeps all the others
      rw [dropWhile_cons_of_neg (by simpa using ht), filter_eq_self.mpr]
      intro u hu
      rw [not_lt] at ht
      rcases mem_cons.mp hu with rfl | hrest
      · simpa using ht
      · simpa using ht.trans (hfirst u hrest)

lemma length_dropWhile (cutoff : T) (hsorted : kept.Pairwise (· ≤ ·)) :
    (kept.dropWhile (· < cutoff)).length = kept.countP (cutoff ≤ ·) := by
  rw [dropWhile_eq_filter cutoff hsorted, countP_eq_length_filter]

variable [AddCommGroup T]

/-- The grants of a window of this width for `max` requests, the recent ones that are kept, and
the latest time that was seen. What is not kept had left the window by then. -/
structure Windowed (width : T) (max : ℕ) (grants kept : List T) (now : WithBot T) : Prop where
  sorted : grants.Pairwise (· ≤ ·)
  past : ∀ t ∈ grants, (t : WithBot T) ≤ now
  kept : ∃ dropped, grants = dropped ++ kept ∧
    ∀ t ∈ dropped, ((t + width : T) : WithBot T) < now
  bound : ∀ s, (grants.filter fun t => s ≤ t ∧ t ≤ s + width).length ≤ max

namespace Windowed

variable {width : T} {max : ℕ} {grants kept : List T} {clock : WithBot T} {now : T}

lemma start : Windowed width max [] [] ⊥ := by
  refine ⟨List.Pairwise.nil, ?_, ⟨[], rfl, ?_⟩, ?_⟩ <;> simp

variable (h : Windowed width max grants kept clock)

include h

lemma sorted_kept : kept.Pairwise (· ≤ ·) := by
  obtain ⟨dropped, rfl, -⟩ := h.kept
  exact (pairwise_append.mp h.sorted).2.1

lemma tick {clock' : WithBot T}
    (hnow : clock ≤ clock') : Windowed width max grants kept clock' := by
  obtain ⟨dropped, hgrants, hdropped⟩ := h.kept
  exact ⟨h.sorted, fun t ht => (h.past t ht).trans hnow,
    ⟨dropped, hgrants, fun t ht => (hdropped t ht).trans_le hnow⟩, h.bound⟩

variable [IsOrderedAddMonoid T]

lemma prune (hnow : clock ≤ now) :
    Windowed width max grants (kept.dropWhile (· < now - width)) now := by
  have hlater := h.tick hnow
  obtain ⟨dropped, hgrants, hdropped⟩ := hlater.kept
  refine { hlater with kept := ⟨dropped ++ kept.takeWhile (· < now - width), ?_, fun t ht => ?_⟩ }
  · rw [append_assoc, takeWhile_append_dropWhile, hgrants]
  · rcases mem_append.mp ht with hold | hnew
    · exact hdropped t hold
    · have hlt : t < now - width := by simpa using mem_takeWhile_imp hnew
      exact WithBot.coe_lt_coe.mpr (lt_sub_iff_add_lt.mp hlt)

/-- **A request is recorded** while there is room for it.

**Proof sketch.** Nothing is later than the new time, so an interval that contains it ends there
or later and begins after everything that was dropped. What it contains besides is kept. -/
lemma record (hnow : clock ≤ now)
    (hroom : kept.length < max) :
    Windowed width max (grants ++ [now]) (kept ++ [now]) now := by
  obtain ⟨dropped, hgrants, hdropped⟩ := h.kept
  have hpast : ∀ t ∈ grants, t ≤ now := fun t ht => WithBot.coe_le_coe.mp ((h.past t ht).trans hnow)
  refine ⟨?_, ?_, ⟨dropped, ?_, fun t ht => (hdropped t ht).trans_le hnow⟩, fun s => ?_⟩
  · rw [pairwise_append]
    exact ⟨h.sorted, pairwise_singleton _ _,
      fun t ht u hu => by rw [mem_singleton.mp hu]; exact hpast t ht⟩
  · intro t ht
    rcases mem_append.mp ht with hold | hnew
    · exact WithBot.coe_le_coe.mpr (hpast t hold)
    · rw [mem_singleton.mp hnew]
  · rw [hgrants, append_assoc]
  · rw [filter_append, length_append]
    by_cases hin : s ≤ now ∧ now ≤ s + width
    · have hnone : (dropped.filter fun t => s ≤ t ∧ t ≤ s + width) = [] := by
        rw [filter_eq_nil_iff]
        intro t ht hwindow
        have hbefore : t + width < now := WithBot.coe_lt_coe.mp ((hdropped t ht).trans_le hnow)
        have hs : s ≤ t := (of_decide_eq_true hwindow).1
        exact absurd (hbefore.trans_le hin.2) (not_lt.mpr (add_le_add_left hs width))
      have hkept := length_filter_le (fun t => decide (s ≤ t ∧ t ≤ s + width)) kept
      rw [hgrants, filter_append, hnone, nil_append]
      rw [filter_cons_of_pos (by simpa using hin)]
      simp only [filter_nil, length_singleton]
      omega
    · rw [filter_cons_of_neg (by simpa using hin)]
      exact h.bound s

end Windowed

end SlidingWindow
