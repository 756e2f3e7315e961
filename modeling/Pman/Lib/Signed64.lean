import Mathlib.Algebra.Order.Ring.Int

set_option autoImplicit false

/-!
# Sums in 64 bits

Signed 64-bit sums of times and durations, read as integers: a sum that leaves the range comes
back at its other end.

## Main definitions

* `Signed64.Fits`, `Signed64.wrap`: the range, and the value that 64 bits keep of an integer.
-/

namespace Signed64

/-- The number fits into 64 bits. -/
def Fits (x : ℤ) : Prop := -2 ^ 63 ≤ x ∧ x < 2 ^ 63
  deriving Decidable

/-- What 64 bits keep of a number. -/
def wrap (x : ℤ) : ℤ := x.bmod (2 ^ 64)

/-- A number that fits is kept. -/
lemma wrap_of_fits {x : ℤ} (h : Fits x) : wrap x = x :=
  Int.bmod_eq_of_le (by have := h.1; omega) (by have := h.2; omega)

/-- What is kept is in the range. -/
lemma wrap_lt (x : ℤ) : wrap x < 2 ^ 63 := by
  have := Int.bmod_lt (x := x) (m := 2 ^ 64) (by decide)
  unfold wrap
  omega

end Signed64
