import Mathlib.Data.Nat.Notation
import Mathlib.Logic.Function.Basic

set_option autoImplicit false

/-!
# Transition systems, runs under a step condition, simulations

A transition system has initial states and labelled steps. A label resolves every choice a step
leaves open (which thread moves, which sleeper a wake-up picks, what a system call answers), so a
step is a partial function of the state and the label and runs can be evaluated.

`ReachableWithin ok` collects the states of the runs in which every step meets a condition: a
contract of the callers, or the absence of one bad branch.

## Main results

* `ReachableWithin.invariant`: invariants by induction over runs.
* `Simulation.reachableWithin`: simulations carry runs over.
-/

universe u v w x

/-- The states keep histories, to which a step adds at the end. -/
lemma List.mem_concat {α : Type u} {a b : α} {l : List α} : a ∈ l ++ [b] ↔ a ∈ l ∨ a = b := by
  simp

/-- A labelled transition system: `step s a` is the state after the step `a`, and `none` when
`a` is not enabled in `s`. -/
structure TransitionSystem (σ : Type u) (α : Type v) where
  init : σ → Prop
  step : σ → α → Option σ

namespace TransitionSystem

variable {σ : Type u} {α : Type v} (M : TransitionSystem σ α)

/-- The states reached by runs in which every step `a` is taken from a state `s` with
`ok s a`. -/
inductive ReachableWithin (ok : σ → α → Prop) : σ → Prop
  | init {s : σ} (h : M.init s) : ReachableWithin ok s
  | step {s s' : σ} {a : α} (hr : ReachableWithin ok s) (hok : ok s a)
      (hst : M.step s a = some s') : ReachableWithin ok s'

def Reachable : σ → Prop := M.ReachableWithin fun _ _ => True

/-- The run from `s` with labels `as` is enabled, every step of it meets `ok`, and its last
state has the property `P`. -/
def RunsTo (ok : σ → α → Prop) (P : σ → Prop) : σ → List α → Prop
  | s, [] => P s
  | s, a :: as => ok s a ∧
    match M.step s a with
    | none => False
    | some s' => RunsTo ok P s' as

/-- The last state of a run; labels that are not enabled are left out. -/
def final (s : σ) (as : List α) : σ := as.foldl (fun s a => (M.step s a).getD s) s

/-- Runs can be checked by evaluation. -/
instance decidableRunsTo (ok : σ → α → Prop) (P : σ → Prop) [∀ s a, Decidable (ok s a)]
    [DecidablePred P] : ∀ (s : σ) (as : List α), Decidable (M.RunsTo ok P s as)
  | s, [] => inferInstanceAs (Decidable (P s))
  | s, a :: as =>
    have : Decidable (match M.step s a with
        | none => False
        | some s' => M.RunsTo ok P s' as) :=
      match M.step s a with
      | none => inferInstanceAs (Decidable False)
      | some s' => decidableRunsTo ok P s' as
    inferInstanceAs (Decidable (ok s a ∧ _))

variable {M}

namespace ReachableWithin

variable {ok : σ → α → Prop} {s : σ}

variable {I J : σ → Prop}

/-- **The invariant rule**: a property of the initial states that every step under the
condition preserves holds of every state reached. -/
theorem invariant (h : M.ReachableWithin ok s) (h0 : ∀ s, M.init s → I s)
    (hstep : ∀ s a s', I s → ok s a → M.step s a = some s' → I s') : I s := by
  induction h with
  | init hi => exact h0 _ hi
  | step _ hok hst ih => exact hstep _ _ _ ih hok hst

/-- The invariant rule relative to a property `J` that is known to hold of every state
reached. -/
theorem invariant_of (hJ : ∀ s, M.ReachableWithin ok s → J s) (h : M.ReachableWithin ok s)
    (h0 : ∀ s, M.init s → I s)
    (hstep : ∀ s a s', J s → I s → ok s a → M.step s a = some s' → I s') : I s := by
  induction h with
  | init hi => exact h0 _ hi
  | step hr hok hst ih => exact hstep _ _ _ (hJ _ hr) ih hok hst

/-- What holds of every state reached may be added to the condition on the steps. -/
theorem and_of (hJ : ∀ s, M.ReachableWithin ok s → J s) (h : M.ReachableWithin ok s) :
    M.ReachableWithin (fun s a => ok s a ∧ J s) s := by
  induction h with
  | init hi => exact .init hi
  | step hr hok hst ih => exact ih.step ⟨hok, hJ _ hr⟩ hst

/-- A weaker condition allows the same runs. -/
theorem mono {ok' : σ → α → Prop} (h : M.ReachableWithin ok s) (hle : ∀ s a, ok s a → ok' s a) :
    M.ReachableWithin ok' s := by
  induction h with
  | init hi => exact .init hi
  | step _ hok hst ih => exact ih.step (hle _ _ hok) hst

end ReachableWithin

variable {ok : σ → α → Prop} {P : σ → Prop} {s : σ} {as : List α}

/-- What every step preserves holds at the end of a run, next to the run's final property.

**Proof sketch.** Induction on the labels. -/
theorem RunsTo.invariant {I : σ → Prop} (hrun : M.RunsTo ok P s as) (h : I s)
    (hstep : ∀ s a s', I s → ok s a → M.step s a = some s' → I s') :
    I (M.final s as) ∧ P (M.final s as) := by
  induction as generalizing s with
  | nil => exact ⟨h, hrun⟩
  | cons a as ih =>
    obtain ⟨hok, hrest⟩ := hrun
    rw [final, List.foldl_cons]
    cases hst : M.step s a with
    | none => simp [hst] at hrest
    | some t =>
      simp only [hst] at hrest
      exact ih hrest (hstep _ _ _ h hok hst)

lemma runsTo_cons {s' : σ} {a : α} (hst : M.step s a = some s') (hok : ok s a) :
    M.RunsTo ok P s (a :: as) ↔ M.RunsTo ok P s' as := by
  simp [RunsTo, hst, hok]

/-- A run ends with whatever its end implies. -/
theorem RunsTo.mono {Q : σ → Prop} (hrun : M.RunsTo ok P s as) (hle : ∀ s, P s → Q s) :
    M.RunsTo ok Q s as := by
  induction as generalizing s with
  | nil => exact hle s hrun
  | cons a as ih =>
    obtain ⟨hok, hrest⟩ := hrun
    refine ⟨hok, ?_⟩
    cases hst : M.step s a with
    | none => simp [hst] at hrest
    | some t =>
      simp only [hst] at hrest
      exact ih hrest

/-- Going on from a reached state along a run reaches a state with the run's final property. -/
theorem ReachableWithin.runsTo (h : M.ReachableWithin ok s) (hrun : M.RunsTo ok P s as) :
    ∃ s', M.ReachableWithin ok s' ∧ P s' :=
  ⟨_, hrun.invariant h fun _ _ _ hr hok hst => hr.step hok hst⟩

/-- The end of a run from an initial state, to be evaluated. -/
theorem ReachableWithin.final (s : σ) (as : List α) (h : M.init s)
    (hrun : M.RunsTo ok (fun _ => True) s as) : M.ReachableWithin ok (M.final s as) :=
  (hrun.invariant (.init h) fun _ _ _ hr hok hst => hr.step hok hst).1

/-- A run from an initial state reaches a state with the run's final property. -/
theorem RunsTo.reachableWithin (hrun : M.RunsTo ok P s as) (h : M.init s) :
    ∃ s', M.ReachableWithin ok s' ∧ P s' :=
  ReachableWithin.runsTo (.init h) hrun

/-- A given run from a given initial state reaches a state with the property in question: the goal
that is left is to evaluate the run. -/
theorem reached_by (s : σ) (as : List α) (h : M.init s) (hrun : M.RunsTo ok P s as) :
    ∃ s', M.ReachableWithin ok s' ∧ P s' :=
  hrun.reachableWithin h

/-- **The rule for progress**: where every state with `I` either has `G` or takes a step to a state
with `I` and a smaller measure, a run leads to `G`.

**Proof sketch.** Strong induction on the measure. -/
theorem exists_runsTo_of_measure {I G : σ → Prop} (measure : σ → ℕ)
    (hprogress : ∀ s, I s → ¬ G s →
      ∃ a s', ok s a ∧ M.step s a = some s' ∧ I s' ∧ measure s' < measure s) (h : I s) :
    ∃ as, M.RunsTo ok (fun s' => I s' ∧ G s') s as := by
  classical
  obtain ⟨n, hn⟩ : ∃ n, measure s = n := ⟨_, rfl⟩
  induction n using Nat.strongRecOn generalizing s with
  | _ n ih =>
    by_cases hG : G s
    · exact ⟨[], h, hG⟩
    · obtain ⟨a, s', hok, hst, hI, hlt⟩ := hprogress s h hG
      obtain ⟨as, has⟩ := ih _ (hn ▸ hlt) hI rfl
      exact ⟨a :: as, (runsTo_cons hst hok).mpr has⟩

end TransitionSystem

/-- A simulation of `M`, restricted to steps that meet `okM`, by `N`, restricted to `okN`: the
map `f` sends initial states to initial states and every step to a step or to a stutter. -/
structure Simulation {σ : Type u} {α : Type v} {τ : Type w} {β : Type x}
    (M : TransitionSystem σ α) (okM : σ → α → Prop) (N : TransitionSystem τ β)
    (okN : τ → β → Prop) (f : σ → τ) : Prop where
  init : ∀ s, M.init s → N.init (f s)
  step : ∀ s a s', okM s a → M.step s a = some s' →
    f s' = f s ∨ ∃ b, okN (f s) b ∧ N.step (f s) b = some (f s')

namespace Simulation

variable {σ : Type u} {α : Type v} {τ : Type w} {β : Type x} {M : TransitionSystem σ α}
  {okM : σ → α → Prop} {N : TransitionSystem τ β} {okN : τ → β → Prop} {f : σ → τ}

/-- A simulation maps the states `M` reaches to states `N` reaches. -/
theorem reachableWithin (h : Simulation M okM N okN f) {s : σ} (hs : M.ReachableWithin okM s) :
    N.ReachableWithin okN (f s) := by
  induction hs with
  | init hi => exact .init (h.init _ hi)
  | step _ hok hst ih =>
    rcases h.step _ _ _ hok hst with heq | ⟨b, hb, hN⟩
    · rw [heq]; exact ih
    · exact ih.step hb hN

end Simulation
