import Pman.Futex.CondVar

set_option autoImplicit false

/-!
# Monitors whose mutex regions are atomic

The functions of a monitor at the granularity of their mutex regions. A region is the code from
where the guard has the mutex, at its construction or at the end of a wait, to the next wait or to
the destruction of the guard. One step runs a whole region, with a list of inputs; between the
regions any number of threads interleave. A wait ends at any time, and then the next region follows
or the wait throws.

The code is that of `Monitor.outer` and `Monitor.inner`, as in the machine of `Pman.Futex.CondVar`,
without the mutex and the system calls.

## Main results

* `within_of_reachable`: the points at which the threads can be.
-/

namespace Pman

open Function

inductive RegionEnd (M : Monitor)
  | waits (cv : M.Cv) (duration : Option ℤ) (p : M.Inner)
  | leaves (r : M.Result)

/-- The region that begins at a point, with the inputs that it reads; `none` if it reads more or
fewer. Waits end at any time, so a notification says nothing here. -/
def Monitor.region (M : Monitor) : List M.Input → M.Inner → M.Data → Option (RegionEnd M × M.Data)
  | [], _, _ => none
  | input :: inputs, p, d =>
    match M.inner p input d with
    | (.goto q, d) | (.notifyAll _ q, d) => M.region inputs q d
    | (.wait cv duration q, d) => if inputs.isEmpty then some (.waits cv duration q, d) else none
    | (.leave r, d) => if inputs.isEmpty then some (.leaves r, d) else none

def RegionEnd.ofStep {M : Monitor} : InnerStep M.Cv M.Inner M.Result → Option (RegionEnd M)
  | .goto _ | .notifyAll _ _ => none
  | .wait cv duration p => some (.waits cv duration p)
  | .leave r => some (.leaves r)

lemma Monitor.region_of_ofStep {M : Monitor} {input : M.Input} {inputs : List M.Input}
    {p : M.Inner} {d d' : M.Data} {x y : RegionEnd M}
    (hend : RegionEnd.ofStep (M.inner p input d).1 = some x)
    (h : M.region (input :: inputs) p d = some (y, d')) :
    inputs = [] ∧ y = x ∧ d' = (M.inner p input d).2 := by
  rw [Monitor.region] at h
  split at h
  case h_1 hstep | h_2 hstep =>
    rw [hstep] at hend
    cases hend
  case h_3 hstep | h_4 hstep =>
    rw [hstep] at hend ⊢
    split_ifs at h with hempty
    cases hend
    obtain ⟨rfl, rfl⟩ := Prod.mk.inj (Option.some.inj h)
    exact ⟨List.isEmpty_iff.mp hempty, rfl, rfl⟩

namespace Regions

inductive Pc (M : Monitor)
  | outside
  | outer (p : M.Outer)
  | entering (p : M.Inner)
  | waiting (p : M.Inner)

structure State (M : Monitor) (ι : Type*) where
  data : M.Data
  pc : ι → Pc M

inductive Choice (M : Monitor)
  | start (p : M.Outer)
  | run (input : M.Input)
  /-- Run a region, at the construction of the guard or at the end of a wait. -/
  | region (inputs : List M.Input)
  | throw

variable {M : Monitor} {ι : Type*}

def Pc.next : Pc M → Option M.Inner
  | .entering p | .waiting p => some p
  | .outside | .outer _ => none

def afterOuter : OuterStep M.Outer M.Inner M.Result → Pc M
  | .goto p => .outer p
  | .guard p => .entering p
  | .leave _ => .outside

def afterRegion : RegionEnd M → Pc M
  | .waits _ _ p => .waiting p
  | .leaves _ => .outside

variable [DecidableEq ι]

def step (s : State M ι) : ι × Choice M → Option (State M ι)
  | (t, .start p) =>
    match s.pc t with
    | .outside => some { s with pc := update s.pc t (.outer p) }
    | _ => none
  | (t, .run input) =>
    match s.pc t with
    | .outer p =>
      let r := M.outer p input s.data
      some ⟨r.2, update s.pc t (afterOuter r.1)⟩
    | _ => none
  | (t, .region inputs) =>
    match (s.pc t).next with
    | some p =>
      (M.region inputs p s.data).map fun r => ⟨r.2, update s.pc t (afterRegion r.1)⟩
    | none => none
  | (t, .throw) =>
    match s.pc t with
    | .waiting _ => some { s with pc := update s.pc t .outside }
    | _ => none

/-- The monitor, started with fresh data and every thread outside. -/
def system (M : Monitor) (ι : Type*) [DecidableEq ι] :
    TransitionSystem (State M ι) (ι × Choice M) where
  init s := M.fresh s.data ∧ ∀ t, s.pc t = .outside
  step := step

/-- What a step does: nothing to the data, or code before a guard, or a region. -/
inductive Effect (s : State M ι) (t : ι) : Choice M → State M ι → Prop
  | idle {c : Choice M} {k : Pc M} (hk : k.next = none) (hc : ∀ inputs, c ≠ .region inputs)
      (hrun : ∀ input, c ≠ .run input) : Effect s t c ⟨s.data, update s.pc t k⟩
  | outer {input : M.Input} {p : M.Outer} (hpc : s.pc t = .outer p) :
      Effect s t (.run input) ⟨(M.outer p input s.data).2,
        update s.pc t (afterOuter (M.outer p input s.data).1)⟩
  | region {inputs : List M.Input} {p : M.Inner} {x : RegionEnd M} {d : M.Data}
      (hpc : (s.pc t).next = some p) (hregion : M.region inputs p s.data = some (x, d)) :
      Effect s t (.region inputs) ⟨d, update s.pc t (afterRegion x)⟩

lemma effect_of_step {s s' : State M ι} {t : ι} {c : Choice M}
    (hst : step s (t, c) = some s') : Effect s t c s' := by
  revert hst
  generalize ha : (t, c) = a
  fun_cases step s a <;> intro hst <;> try cases hst
  all_goals obtain ⟨rfl, rfl⟩ := Prod.mk.inj ha
  case case1 | case7 => exact .idle rfl (by simp) (by simp)
  case case3 => exact .outer (by assumption)
  case case5 hpc =>
    obtain ⟨⟨x, d⟩, hregion, rfl⟩ := Option.map_eq_some_iff.mp hst
    exact .region hpc hregion

/-- A property of the points before the guard and of those where regions begin. -/
def Pc.Within (O : M.Outer → Prop) (E : M.Inner → Prop) : Pc M → Prop
  | .outside => True
  | .outer p => O p
  | .entering p | .waiting p => E p

section Runs

variable {O : M.Outer → Prop} {E : M.Inner → Prop} {ok : State M ι → ι × Choice M → Prop}
  {s s' : State M ι} {a : ι × Choice M}

omit [DecidableEq ι] in
lemma Pc.Within.next {k : Pc M} {p : M.Inner} (h : k.Within O E) (hp : k.next = some p) : E p := by
  cases k <;> cases hp <;> exact h

lemma Pc.Within.step (hs : ∀ t, (s.pc t).Within O E) (hstart : ∀ t p, a = (t, .start p) → O p)
    (houter : ∀ p input d, O p → (afterOuter (M.outer p input d).1).Within O E)
    (hregion : ∀ inputs p d x d', E p → M.region inputs p d = some (x, d') →
      (afterRegion x).Within O E) (hst : Regions.step s a = some s') :
    ∀ t, (s'.pc t).Within O E := by
  have hmoved {t : ι} {k : Pc M} (hk : k.Within O E) : ∀ u, (update s.pc t k u).Within O E :=
    (forall_update_iff s.pc fun _ k => k.Within O E).mpr ⟨hk, fun u _ => hs u⟩
  revert hst
  fun_cases Regions.step s a <;> intro hst <;> try cases hst
  case case1 => exact hmoved (hstart _ _ rfl)
  case case3 t _ p hpc _ =>
    have hp := hs t
    rw [hpc] at hp
    exact hmoved (houter _ _ _ hp)
  case case5 t _ p hpc =>
    obtain ⟨⟨x, d⟩, hr, rfl⟩ := Option.map_eq_some_iff.mp hst
    exact hmoved (hregion _ _ _ _ _ ((hs t).next hpc) hr)
  case case7 => exact hmoved trivial

/-- **The points of the threads**: where calls start, where the code before the guard leads, and
where the regions that begin at such points wait. -/
theorem within_of_reachable (h : (system M ι).ReachableWithin ok s)
    (hstart : ∀ s t p, ok s (t, .start p) → O p)
    (houter : ∀ p input d, O p → (afterOuter (M.outer p input d).1).Within O E)
    (hregion : ∀ inputs p d x d', E p → M.region inputs p d = some (x, d') →
      (afterRegion x).Within O E) : ∀ t, (s.pc t).Within O E := by
  refine h.invariant (I := fun s => ∀ t, (s.pc t).Within O E) (fun s hs t => ?_)
    fun s a s' hI hok hst => Pc.Within.step hI ?_ houter hregion hst
  · rw [hs.2 t]
    trivial
  · rintro t p rfl
    exact hstart s t p hok

end Runs

end Regions

end Pman
