import Mathlib.Algebra.Order.BigOperators.Group.Finset
import Mathlib.Data.Fintype.BigOperators

set_option autoImplicit false

/-!
# Counting over the threads of a machine

A machine with finitely many threads is often described by sums over the threads of a number that
depends on the thread's program point: how many are asleep, how many wake-ups are owed.
-/

namespace Census

open Finset

variable {ι P : Type*} [Fintype ι]

/-- The sum over the threads of what their program points count. -/
def total (f : P → ℕ) (pc : ι → P) : ℕ := ∑ t, f (pc t)

lemma total_add_sum (f : P → ℕ) {pc pc' : ι → P} (W : Finset ι) (h : ∀ u, u ∉ W → pc' u = pc u) :
    total f pc' + ∑ u ∈ W, f (pc u) = total f pc + ∑ u ∈ W, f (pc' u) := by
  classical
  have hrest : ∑ u ∈ Wᶜ, f (pc' u) = ∑ u ∈ Wᶜ, f (pc u) :=
    sum_congr rfl fun u hu => by rw [h u (mem_compl.mp hu)]
  rw [total, total, ← sum_add_sum_compl W, ← sum_add_sum_compl W, hrest]
  omega

lemma total_update [DecidableEq ι] (f : P → ℕ) (pc : ι → P) (t : ι) (p : P) :
    total f (Function.update pc t p) + f (pc t) = total f pc + f p := by
  have hrest : ∀ u, u ∉ ({t} : Finset ι) → Function.update pc t p u = pc u := fun u hu =>
    Function.update_of_ne (by simpa using hu) _ _
  simpa using total_add_sum f {t} hrest

lemma le_total (f : P → ℕ) (pc : ι → P) (t : ι) : f (pc t) ≤ total f pc :=
  single_le_sum (f := fun t => f (pc t)) (fun _ _ => Nat.zero_le _) (mem_univ t)

lemma total_le_total {f g : P → ℕ} (h : ∀ p, f p ≤ g p) (pc : ι → P) : total f pc ≤ total g pc :=
  sum_le_sum fun t _ => h (pc t)

lemma total_eq_zero {f : P → ℕ} {pc : ι → P} (h : ∀ t, f (pc t) = 0) : total f pc = 0 :=
  sum_eq_zero fun t _ => h t

end Census
