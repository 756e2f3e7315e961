import Mathlib.Order.Bounds.Defs
import Mathlib.Order.Lattice

set_option autoImplicit false

/-!
# Searching by skipping

A search for the first position with a property looks at one position at a time. Where the property
fails it skips to a later position, and it never skips over a position with the property. The rounds
of the search are limited; they suffice when some measure of the positions decreases with every
skip.
-/

namespace SkipSearch

variable {α : Type*}

def search (skip : α → Option α) : ℕ → α → Option α
  | 0, _ => none
  | rounds + 1, k =>
    match skip k with
    | none => some k
    | some k' => search skip rounds k'

lemma search_succ (skip : α → Option α) (rounds : ℕ) (k : α) :
    search skip (rounds + 1) k = (skip k).elim (some k) (search skip rounds) := by
  rw [search]
  cases skip k <;> rfl

variable [LinearOrder α]

/-- The search stops at positions with the property, and skips over none of them. -/
structure Skips (skip : α → Option α) (P : α → Prop) : Prop where
  found : ∀ k, skip k = none → P k
  lt : ∀ k k', skip k = some k' → k < k'
  clear : ∀ k k', skip k = some k' → ∀ j, k ≤ j → j < k' → ¬ P j

namespace Skips

variable {skip : α → Option α} {P : α → Prop} {k m : α} {rounds : ℕ}

lemma isLeast_of_search (h : Skips skip P) (hsearch : search skip rounds k = some m) :
    IsLeast {j | k ≤ j ∧ P j} m := by
  induction rounds generalizing k with
  | zero => cases hsearch
  | succ rounds ih =>
    unfold search at hsearch
    split at hsearch
    · rename_i hskip
      cases hsearch
      exact ⟨⟨le_rfl, h.found m hskip⟩, fun j hj => hj.1⟩
    · rename_i k' hskip
      obtain ⟨⟨hle, hm⟩, hleast⟩ := ih hsearch
      refine ⟨⟨(h.lt k k' hskip).le.trans hle, hm⟩, ?_⟩
      rintro j ⟨hkj, hj⟩
      refine hleast ⟨?_, hj⟩
      by_contra hlt
      exact h.clear k k' hskip j hkj (not_le.mp hlt) hj

/-- **The first position is found** if there are more rounds than a measure says that decreases
with every skip before it. -/
lemma search_eq_some (h : Skips skip P) (hm : IsLeast {j | k ≤ j ∧ P j} m) (bound : α → ℕ)
    (hbound : ∀ j j', k ≤ j → j < m → skip j = some j' → bound j' < bound j)
    (hrounds : bound k < rounds) : search skip rounds k = some m := by
  induction rounds generalizing k with
  | zero => cases hrounds
  | succ rounds ih =>
    unfold search
    obtain ⟨⟨hle, hP⟩, hleast⟩ := hm
    split
    · rename_i hskip
      exact congrArg some (le_antisymm hle (hleast ⟨le_rfl, h.found k hskip⟩) ▸ rfl)
    · rename_i k' hskip
      have hlt := h.lt k k' hskip
      -- The first position is not skipped.
      have hle' : k' ≤ m := by
        by_contra hgt
        exact h.clear k k' hskip m hle (not_le.mp hgt) hP
      refine ih ⟨⟨hle', hP⟩, fun j hj => hleast ⟨hlt.le.trans hj.1, hj.2⟩⟩
        (fun j j' hj => hbound j j' (hlt.le.trans hj)) ?_
      have hdec := hbound k k' le_rfl (hlt.trans_le hle') hskip
      exact lt_of_lt_of_le hdec (Nat.lt_succ_iff.mp hrounds)

end Skips

end SkipSearch
