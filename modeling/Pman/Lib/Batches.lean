import Mathlib.Data.List.Perm.Basic
import Pman.Lib.TransitionSystem

set_option autoImplicit false

/-!
# Work that is moved into batches

Whoever processes the work of a queue moves everything that waits into a batch of its own and goes
through the batch item by item. Handling an item may give more work and may start another batch, so
batches nest. A batch that is left before its end is abandoned, with what is left of it.

Nothing is lost as long as only batches that are through are abandoned, and work is handled in the
order in which it was given as long as no batch is started while something is left in another.

## Main results

* `conserved_of_reachable`: when nothing is lost.
* `orderly_of_reachable`: when the order is kept.
-/

universe u v

namespace Batches

structure History (α : Type u) where
  given : List α := []
  /-- How much had been given when each batch was started. -/
  starts : List ℕ := []
  handled : List (α × ℕ) := []
  closed : List ℕ := []

end Batches

/-- The queue and the open batches, innermost first, each with its number. -/
structure Batches (α : Type u) extends Batches.History α where
  waiting : List α := []
  opened : List (ℕ × List α) := []

namespace Batches

variable {α : Type u}

inductive Act (α : Type u)
  | give (x : α)
  | start (extra : List α)
  | take
  | close
  | abandon

def step (s : Batches α) : Act α → Option (Batches α)
  | .give x => some { s with given := s.given ++ [x], waiting := s.waiting ++ [x] }
  | .start extra =>
    some { s with
      given := s.given ++ extra
      waiting := []
      opened := (s.starts.length, s.waiting ++ extra) :: s.opened
      starts := s.starts ++ [(s.given ++ extra).length] }
  | .take =>
    match s.opened with
    | (d, x :: batch) :: rest =>
      some { s with opened := (d, batch) :: rest, handled := s.handled ++ [(x, d)] }
    | _ => none
  | .close =>
    match s.opened with
    | (d, []) :: rest => some { s with opened := rest, closed := s.closed ++ [d] }
    | _ => none
  | .abandon =>
    match s.opened with
    | _ :: rest => some { s with opened := rest }
    | [] => none

def system (α : Type u) : TransitionSystem (Batches α) (Act α) where
  init s := s = {}
  step := step

def left (s : Batches α) : List α := s.opened.flatMap Prod.snd

def NothingLeft (s : Batches α) : Act α → Prop
  | .abandon => ∀ p, s.opened.head? = some p → p.2 = []
  | _ => True

def InTurn (s : Batches α) : Act α → Prop
  | .start _ => ∀ p ∈ s.opened, p.2 = []
  | _ => True

/-- Everything given was handled, or is left in a batch, or waits. -/
def Conserved (s : Batches α) : Prop :=
  s.given.Perm (s.handled.map Prod.fst ++ s.left ++ s.waiting)

/-- Work is handled in the order in which it was given, in a batch that was started after it was
given, and a batch that was gone through has everything handled that was given before. -/
structure Orderly (s : Batches α) : Prop where
  order : s.handled.map Prod.fst ++ s.left ++ s.waiting = s.given
  later : ∀ (k : ℕ) x d, s.handled[k]? = some (x, d) → ∃ m, s.starts[d]? = some m ∧ k < m
  closed : ∀ d ∈ s.closed, ∃ m, s.starts[d]? = some m ∧ m ≤ s.handled.length

variable {s s' : Batches α} {d : ℕ} {rest : List (ℕ × List α)}

variable {a : Act α} {ok : Batches α → Act α → Prop}

lemma Conserved.step (h : Conserved s) (hok : NothingLeft s a) (hst : step s a = some s') :
    Conserved s' := by
  unfold Conserved at h ⊢
  cases a with
  | give x =>
    cases hst
    show (s.given ++ [x]).Perm (s.handled.map Prod.fst ++ s.left ++ (s.waiting ++ [x]))
    rw [← List.append_assoc]
    exact h.append_right [x]
  | start extra =>
    cases hst
    show (s.given ++ extra).Perm
      (s.handled.map Prod.fst ++ ((s.waiting ++ extra) ++ s.left) ++ [])
    rw [List.append_nil]
    refine (h.append_right extra).trans ?_
    rw [List.append_assoc, List.append_assoc]
    exact (List.perm_append_comm).append_left _
  | take =>
    simp only [Batches.step] at hst
    split at hst <;> cases hst
    rename_i d x batch rest hopened
    have hleft : s.left = x :: (batch ++ rest.flatMap Prod.snd) := by
      rw [left, hopened]
      rfl
    show s.given.Perm ((s.handled ++ [(x, d)]).map Prod.fst ++
      (batch ++ rest.flatMap Prod.snd) ++ s.waiting)
    rw [hleft] at h
    simpa using h
  | close =>
    simp only [Batches.step] at hst
    split at hst <;> cases hst
    rename_i d rest hopened
    have hleft : s.left = rest.flatMap Prod.snd := by
      rw [left, hopened]
      rfl
    rwa [hleft] at h
  | abandon =>
    simp only [Batches.step] at hst
    split at hst <;> cases hst
    rename_i p rest hopened
    have hleft : s.left = rest.flatMap Prod.snd := by
      rw [left, hopened, List.flatMap_cons, hok p (by rw [hopened]; rfl), List.nil_append]
    rwa [hleft] at h

/-- **Nothing is lost** in a run in which only batches that are through are abandoned. -/
theorem conserved_of_reachable (hle : ∀ s a, ok s a → NothingLeft s a)
    (h : (system α).ReachableWithin ok s) : Conserved s := by
  refine h.invariant ?_ fun s a s' hs hok hst => hs.step (hle s a hok) hst
  rintro _ rfl
  exact .refl _

/-- Abandoning a batch keeps the work exactly if nothing is left in it. -/
theorem abandon_conserved_iff (h : Conserved s) (hst : step s .abandon = some s') :
    Conserved s' ↔ NothingLeft s .abandon := by
  refine ⟨fun hs' p hp => ?_, fun hok => h.step hok hst⟩
  simp only [step] at hst
  split at hst <;> cases hst
  · next q rest hopened =>
    rw [hopened] at hp
    obtain rfl := Option.some.inj hp
    have hleft : s.left = q.2 ++ rest.flatMap Prod.snd := by
      rw [left, hopened]
      rfl
    -- The two descriptions of `given` differ in length by what was left.
    have hlen := h.length_eq
    have hlen' : s.given.length =
        (s.handled.map Prod.fst ++ rest.flatMap Prod.snd ++ s.waiting).length := hs'.length_eq
    rw [hleft] at hlen
    simp only [List.length_append] at hlen hlen'
    exact List.eq_nil_of_length_eq_zero (by omega)

/-- What is known of the open batches: only the innermost may have something left, and it is what
comes next. -/
structure Nested (s : Batches α) : Prop extends Orderly s where
  outer : ∀ p ∈ s.opened.tail, p.2 = []
  started : ∀ p ∈ s.opened, ∃ m, s.starts[p.1]? = some m ∧ m ≤ s.handled.length + p.2.length ∧
    (p.2 ≠ [] → s.handled.length + p.2.length ≤ m)

lemma getElem?_concat {l : List ℕ} {m x : ℕ} (h : l[d]? = some m) : (l ++ [x])[d]? = some m := by
  rw [List.getElem?_append_left (List.getElem?_eq_some_iff.mp h).1]
  exact h

lemma Nested.give (h : Nested s) (x : α) :
    Nested { s with given := s.given ++ [x], waiting := s.waiting ++ [x] } := by
  refine ⟨⟨?_, h.later, h.closed⟩, h.outer, h.started⟩
  show s.handled.map Prod.fst ++ s.left ++ (s.waiting ++ [x]) = s.given ++ [x]
  rw [← h.order]
  simp

lemma Nested.start (h : Nested s) (extra : List α) (hturn : ∀ p ∈ s.opened, p.2 = []) :
    Nested { s with
      given := s.given ++ extra
      waiting := []
      opened := (s.starts.length, s.waiting ++ extra) :: s.opened
      starts := s.starts ++ [(s.given ++ extra).length] } := by
  have hleft : s.left = [] := List.flatMap_eq_nil_iff.mpr hturn
  have horder : s.handled.map Prod.fst ++ s.waiting = s.given := by
    rw [← h.order, hleft, List.append_nil]
  have hlen : (s.given ++ extra).length = s.handled.length + (s.waiting ++ extra).length := by
    rw [← horder]
    simp
  refine ⟨⟨?_, fun k x d hk => ?_, fun d hd => ?_⟩, hturn, fun p hp => ?_⟩
  · show s.handled.map Prod.fst ++ ((s.waiting ++ extra) ++ s.left) ++ [] = s.given ++ extra
    rw [hleft, ← horder]
    simp
  · obtain ⟨m, hm, hlt⟩ := h.later k x d hk
    exact ⟨m, getElem?_concat hm, hlt⟩
  · obtain ⟨m, hm, hle⟩ := h.closed d hd
    exact ⟨m, getElem?_concat hm, hle⟩
  · rcases List.mem_cons.mp hp with rfl | hp
    · exact ⟨_, List.getElem?_concat_length, Nat.le_of_eq hlen, fun _ => Nat.le_of_eq hlen.symm⟩
    · obtain ⟨m, hm, hle, hne⟩ := h.started p hp
      exact ⟨m, getElem?_concat hm, hle, hne⟩

lemma Nested.take (h : Nested s) {x : α} {batch : List α}
    (hopened : s.opened = (d, x :: batch) :: rest) :
    Nested { s with opened := (d, batch) :: rest, handled := s.handled ++ [(x, d)] } := by
  have hleft : s.left = x :: (batch ++ rest.flatMap Prod.snd) := by
    rw [left, hopened]
    rfl
  obtain ⟨m, hm, hle, hnext⟩ :=
    h.started (d, x :: batch) (by rw [hopened]; exact List.mem_cons_self)
  have hnext := hnext (List.cons_ne_nil _ _)
  have houter : ∀ p ∈ rest, p.2 = [] := fun p hp => h.outer p (by rw [hopened]; exact hp)
  rw [List.length_cons] at hle hnext
  refine ⟨⟨?_, fun k y e hk => ?_, fun e he => ?_⟩, houter, fun p hp => ?_⟩
  · show (s.handled ++ [(x, d)]).map Prod.fst ++ (batch ++ rest.flatMap Prod.snd) ++ s.waiting =
      s.given
    rw [← h.order, hleft]
    simp
  · have hk : (s.handled ++ [(x, d)])[k]? = some (y, e) := hk
    by_cases hlt : k < s.handled.length
    · rw [List.getElem?_append_left hlt] at hk
      exact h.later k y e hk
    · have hlast : k = s.handled.length := by
        have := (List.getElem?_eq_some_iff.mp hk).1
        rw [List.length_append, List.length_singleton] at this
        omega
      rw [hlast, List.getElem?_concat_length, Option.some.injEq, Prod.mk.injEq] at hk
      exact ⟨m, hk.2 ▸ hm, by omega⟩
  · obtain ⟨m', hm', hle'⟩ := h.closed e he
    exact ⟨m', hm', by rw [List.length_append]; omega⟩
  · rcases List.mem_cons.mp hp with rfl | hp
    · refine ⟨m, hm, ?_, fun _ => ?_⟩ <;> rw [List.length_append, List.length_singleton]
      · show m ≤ s.handled.length + 1 + batch.length
        omega
      · show s.handled.length + 1 + batch.length ≤ m
        omega
    · obtain ⟨m', hm', hle', -⟩ := h.started p (by rw [hopened]; exact List.mem_cons_of_mem _ hp)
      refine ⟨m', hm', ?_, fun hne => absurd (houter p hp) hne⟩
      rw [List.length_append]
      omega

lemma Nested.leave (h : Nested s) (hopened : s.opened = (d, []) :: rest) :
    Nested { s with opened := rest } := by
  have hleft : s.left = rest.flatMap Prod.snd := by
    rw [left, hopened]
    rfl
  refine ⟨⟨?_, h.later, h.closed⟩, fun p hp => ?_, fun p hp => ?_⟩
  · show s.handled.map Prod.fst ++ rest.flatMap Prod.snd ++ s.waiting = s.given
    rw [← hleft]
    exact h.order
  · exact h.outer p (by rw [hopened]; exact List.mem_of_mem_tail hp)
  · exact h.started p (by rw [hopened]; exact List.mem_cons_of_mem _ hp)

lemma Nested.close (h : Nested s) (hopened : s.opened = (d, []) :: rest) :
    Nested { s with opened := rest, closed := s.closed ++ [d] } := by
  have hleave := h.leave hopened
  obtain ⟨m, hm, hle, -⟩ := h.started (d, []) (by rw [hopened]; exact List.mem_cons_self)
  refine ⟨⟨hleave.order, hleave.later, fun e he => ?_⟩, hleave.outer, hleave.started⟩
  rcases List.mem_concat.mp he with he | rfl
  · exact h.closed e he
  · exact ⟨m, hm, hle⟩

lemma Nested.step (h : Nested s) (hleft : NothingLeft s a) (hturn : InTurn s a)
    (hst : step s a = some s') : Nested s' := by
  cases a with
  | give x =>
    cases hst
    exact h.give x
  | start extra =>
    cases hst
    exact h.start extra hturn
  | take =>
    simp only [Batches.step] at hst
    split at hst <;> cases hst
    exact h.take ‹_›
  | close =>
    simp only [Batches.step] at hst
    split at hst <;> cases hst
    exact h.close ‹_›
  | abandon =>
    simp only [Batches.step] at hst
    split at hst <;> cases hst
    rename_i p rest hopened
    have hp : p = (p.1, []) := Prod.ext rfl (hleft p (by rw [hopened]; rfl))
    exact h.leave (hopened.trans (by rw [← hp]))

/-- **Work is handled in order** in a run in which only batches that are through are abandoned and
no batch is started while something is left in another. -/
theorem orderly_of_reachable (hle : ∀ s a, ok s a → NothingLeft s a ∧ InTurn s a)
    (h : (system α).ReachableWithin ok s) : Orderly s := by
  refine Nested.toOrderly (h.invariant ?_ fun s a s' hs hok hst =>
    hs.step (hle s a hok).1 (hle s a hok).2 hst)
  rintro _ rfl
  exact ⟨⟨rfl, by simp, by simp⟩, by simp, by simp⟩

end Batches
