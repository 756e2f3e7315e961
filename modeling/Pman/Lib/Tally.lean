import Mathlib.Algebra.BigOperators.Group.List.Basic
import Mathlib.Tactic.Abel

set_option autoImplicit false

/-!
# Totals over lists that change at one place

The total of a quantity over a list: the number of elements of some kind, or the multiset of all
that the elements contain. When one element is replaced, removed or looked at, the total of the
others is the same, so the effect on the total can be read off the one element.
-/

namespace Tally

variable {α M : Type*} [AddCommMonoid M]

def total (g : α → M) (l : List α) : M := (l.map g).sum

@[simp] lemma total_nil (g : α → M) : total g [] = 0 := rfl

@[simp] lemma total_cons (g : α → M) (a : α) (l : List α) :
    total g (a :: l) = g a + total g l := by
  simp [total]

@[simp] lemma total_append (g : α → M) (l l' : List α) :
    total g (l ++ l') = total g l + total g l' := by
  simp [total]

/-- **One element apart**: what the others add up to does not depend on the element, whether it is
kept, replaced, changed or removed. -/
theorem exists_rest (g : α → M) {l : List α} {i : ℕ} {a : α} (h : l[i]? = some a) :
    ∃ rest, total g l = g a + rest ∧ (∀ b, total g (l.set i b) = g b + rest) ∧
      (∀ f, total g (l.modify i f) = g (f a) + rest) ∧ total g (l.eraseIdx i) = rest := by
  induction l generalizing i with
  | nil => simp at h
  | cons b l ih =>
    cases i with
    | zero =>
      obtain rfl : b = a := by simpa using h
      exact ⟨total g l, by simp⟩
    | succ i =>
      obtain ⟨rest, hl, hset, hmodify, herase⟩ := ih (by simpa using h)
      refine ⟨g b + rest, ?_, fun c => ?_, fun f => ?_, ?_⟩
      · rw [total_cons, hl]
        abel
      · rw [List.set_cons_succ, total_cons, hset]
        abel
      · rw [List.modify_succ_cons, total_cons, hmodify]
        abel
      · rw [List.eraseIdx_cons_succ, total_cons, herase]

end Tally
