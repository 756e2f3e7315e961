import Pman.Lib.TransitionSystem

set_option autoImplicit false

/-!
# Runs with a history

A history is written beside the states of a transition system. It begins with the initial state, and
every step adds to it what can be seen from the state before the step and the label. It does not
change the steps, but conditions on the steps may use it, for example that a clock does not go back.
-/

universe u v w

/-- What is written down about a run: at its start, and at every step from the state before it. -/
structure History (σ : Type u) (α : Type v) (η : Type w) where
  start : σ → η
  note : σ → α → η → η

namespace TransitionSystem

variable {σ : Type u} {α : Type v} {η : Type w} {M : TransitionSystem σ α} {H : History σ α η}

def withHistory (M : TransitionSystem σ α) (H : History σ α η) : TransitionSystem (σ × η) α where
  init x := M.init x.1 ∧ x.2 = H.start x.1
  step x a := (M.step x.1 a).map fun s => (s, H.note x.1 a x.2)

lemma withHistory_step {x x' : σ × η} {a : α} :
    (M.withHistory H).step x a = some x' ↔
      M.step x.1 a = some x'.1 ∧ x'.2 = H.note x.1 a x.2 := by
  simp only [withHistory, Option.map_eq_some_iff]
  constructor
  · rintro ⟨s, hst, rfl⟩
    exact ⟨hst, rfl⟩
  · rintro ⟨hst, hnote⟩
    exact ⟨x'.1, hst, by rw [← hnote]⟩

/-- A run with a history is a run. -/
theorem ReachableWithin.of_withHistory {ok : σ × η → α → Prop} {x : σ × η}
    (h : (M.withHistory H).ReachableWithin ok x) : M.Reachable x.1 := by
  induction h with
  | init hi => exact .init hi.1
  | step _ _ hst ih => exact ih.step trivial (withHistory_step.mp hst).1

end TransitionSystem
