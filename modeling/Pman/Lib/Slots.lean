import Mathlib.Algebra.GroupWithZero.Nat
import Mathlib.Data.List.Perm.Basic

set_option autoImplicit false

/-!
# Lists of slots

Models keep their threads, calls and guards in lists: each has its slot, a step of one of them
replaces what is in its slot, and new ones are appended. The lemmas here say what replacing the
content of a slot does to counts, to a function of the slots and to the existence of a slot with a
property. Counts are compared by addition, so that no natural number is subtracted.
-/

namespace Slots

open List

variable {α : Type*} {l : List α} {i : ℕ} {a : α}

lemma countP_set (p : α → Bool) (h : l[i]? = some a) (b : α) :
    (l.set i b).countP p + (p a).toNat = l.countP p + (p b).toNat := by
  induction l generalizing i with
  | nil => simp at h
  | cons x l ih =>
    cases i with
    | zero =>
      obtain rfl : x = a := by simpa using h
      rw [set_cons_zero, countP_cons, countP_cons]
      cases p x <;> cases p b <;> simp
    | succ i =>
      have := ih (by simpa using h)
      rw [set_cons_succ, countP_cons, countP_cons]
      omega

lemma countP_eraseIdx (p : α → Bool) (h : l[i]? = some a) :
    (l.eraseIdx i).countP p + (p a).toNat = l.countP p := by
  obtain ⟨hi, rfl⟩ := List.getElem?_eq_some_iff.mp h
  have hperm := (List.getElem_cons_eraseIdx_perm hi).countP_eq p
  rw [List.countP_cons] at hperm
  cases hp : p l[i] <;> simp_all

lemma count_concat [BEq α] (l : List α) (a b : α) :
    (l ++ [a]).count b = l.count b + (a == b).toNat := by
  rw [count_append, count_singleton]
  cases a == b <;> rfl

lemma sum_map_toNat (p : α → Bool) (l : List α) :
    (l.map fun a => (p a).toNat).sum = l.countP p := by
  induction l with
  | nil => rfl
  | cons x l ih =>
    rw [map_cons, sum_cons, countP_cons, ih]
    cases p x <;> simp [add_comm]

lemma sum_set {l : List ℕ} {a : ℕ} (h : l[i]? = some a) (b : ℕ) :
    (l.set i b).sum + a = l.sum + b := by
  induction l generalizing i with
  | nil => simp at h
  | cons x l ih =>
    cases i with
    | zero =>
      obtain rfl : x = a := by simpa using h
      simp only [set_cons_zero, sum_cons]
      omega
    | succ i =>
      have := ih (by simpa using h)
      simp only [set_cons_succ, sum_cons]
      omega

lemma sum_mapIdx_set {f g : ℕ → α → ℕ} (h : l[i]? = some a) (hfg : ∀ j ≠ i, g j = f j) (b : α) :
    ((l.set i b).mapIdx g).sum + f i a = (l.mapIdx f).sum + g i b := by
  have hset : (l.set i b).mapIdx g = (l.mapIdx f).set i (g i b) := by
    rw [List.mapIdx_set]
    refine List.ext_getElem? fun j => ?_
    by_cases hj : j = i
    · subst hj
      have hlt := (List.getElem?_eq_some_iff.mp h).1
      rw [List.getElem?_set_self (by simpa using hlt), List.getElem?_set_self (by simpa using hlt)]
    · rw [List.getElem?_set_ne (Ne.symm hj), List.getElem?_set_ne (Ne.symm hj),
        List.getElem?_mapIdx, List.getElem?_mapIdx, hfg j hj]
  rw [hset]
  exact sum_set (by rw [List.getElem?_mapIdx, h]; rfl) _

lemma map_set_of_eq {β : Type*} (f : α → β) (h : l[i]? = some a) {b : α} (heq : f b = f a) :
    (l.set i b).map f = l.map f := by
  obtain ⟨hi, rfl⟩ := List.getElem?_eq_some_iff.mp h
  rw [List.map_set, heq, ← List.map_set, List.set_getElem_self]

lemma mem_set_of_getElem?_ne {j : ℕ} (hij : i ≠ j) (h : l[j]? = some a) (b : α) :
    a ∈ l.set i b :=
  mem_iff_getElem?.mpr ⟨j, by rw [getElem?_set_ne hij, h]⟩

lemma exists_mem_set {p : α → Prop} (h : l[i]? = some a) {b : α} (hp : p a → p b)
    (hex : ∃ x ∈ l, p x) : ∃ x ∈ l.set i b, p x := by
  obtain ⟨x, hx, hpx⟩ := hex
  obtain ⟨j, hj⟩ := List.mem_iff_getElem?.mp hx
  by_cases hij : i = j
  · subst hij
    obtain rfl : a = x := Option.some.inj (h.symm.trans hj)
    exact ⟨b, List.mem_set (List.getElem?_eq_some_iff.mp hj).1 b, hp hpx⟩
  · exact ⟨x, mem_set_of_getElem?_ne hij hj b, hpx⟩

lemma exists_mem_set_of_eraseIdx {p : α → Prop} (b : α) (hex : ∃ x ∈ l.eraseIdx i, p x) :
    ∃ x ∈ l.set i b, p x := by
  obtain ⟨x, hx, hpx⟩ := hex
  obtain ⟨j, hij, hj⟩ := mem_eraseIdx_iff_getElem?.mp hx
  exact ⟨x, mem_set_of_getElem?_ne (Ne.symm hij) hj b, hpx⟩

end Slots
