import Pman.Lib.TransitionSystem

set_option autoImplicit false

/-!
# A gate that opens for good

The protocol behind one-shot synchronisation: threads fall asleep in front of a gate while it is
closed; a thread that opens the gate has a wake-up to issue, which wakes every sleeper. The gate is
never closed again. Whoever sleeps in front of an open gate is owed a wake-up.

## Main results

* `served_of_view`: who sleeps at an open gate is owed a wake-up.
-/

namespace Gate

open Function

inductive Role
  | out
  | parked
  /-- It has opened the gate and has yet to wake the sleepers. -/
  | waking
  deriving DecidableEq, Repr

def Role.wakeUp : Role → Role
  | .parked => .out
  | r => r

@[simp] lemma Role.wakeUp_ne_parked (r : Role) : r.wakeUp ≠ .parked := by
  cases r <;> simp [Role.wakeUp]

structure State (ι : Type*) where
  opened : Bool
  role : ι → Role

inductive Act (ι : Type*)
  | park (t : ι)
  | unpark (t : ι)
  | raise (t : ι)
  | wakeAll (t : ι)

variable {ι : Type*} [DecidableEq ι]

def step (s : State ι) : Act ι → Option (State ι)
  | .park t =>
    if s.role t = .out ∧ s.opened = false then some ⟨s.opened, update s.role t .parked⟩
    else none
  | .unpark t =>
    if s.role t = .parked then some ⟨s.opened, update s.role t .out⟩ else none
  | .raise t =>
    if s.role t = .out then some ⟨true, update s.role t .waking⟩ else none
  | .wakeAll t =>
    if s.role t = .waking then some ⟨s.opened, update (Role.wakeUp ∘ s.role) t .out⟩
    else none

def system (ι : Type*) [DecidableEq ι] : TransitionSystem (State ι) (Act ι) where
  init s := ∀ t, s.role t = .out
  step := step

omit [DecidableEq ι] in
/-- **The promise to sleepers**: in front of an open gate, whoever sleeps is owed a wake-up. -/
def Served (s : State ι) : Prop :=
  s.opened = true → (∃ t, s.role t = .parked) → ∃ t, s.role t = .waking

variable {s : State ι}

/-- **Step lemma**: every step keeps the promise.

**Proof sketch.** A thread parks only while the gate is closed. A thread that opens the gate is
about to wake the others. The wake-up that uses up the promise leaves nobody asleep. -/
lemma served_step {s' : State ι} {a : Act ι} (h : Served s) (hst : step s a = some s') :
    Served s' := by
  cases a with
  | park t =>
    obtain ⟨hclosed, ⟨⟩⟩ := Option.ite_none_right_eq_some.mp hst
    intro hopened
    simp [hclosed.2] at hopened
  | unpark t =>
    obtain ⟨ht, ⟨⟩⟩ := Option.ite_none_right_eq_some.mp hst
    intro hopened _
    obtain ⟨u, hu⟩ := h hopened ⟨t, ht⟩
    have hne : u ≠ t := by
      rintro rfl
      simp [ht] at hu
    exact ⟨u, by simpa [update_of_ne hne] using hu⟩
  | raise t =>
    obtain ⟨-, ⟨⟩⟩ := Option.ite_none_right_eq_some.mp hst
    exact fun _ _ => ⟨t, by simp⟩
  | wakeAll t =>
    obtain ⟨-, ⟨⟩⟩ := Option.ite_none_right_eq_some.mp hst
    rintro _ ⟨u, hu⟩
    by_cases hut : u = t
    · simp [hut] at hu
    · simp [update_of_ne hut] at hu

variable {ok : State ι → Act ι → Prop}

/-- Who sleeps at an open gate is owed a wake-up. -/
theorem served_of_reachable (h : (system ι).ReachableWithin ok s) : Served s := by
  refine h.invariant ?_ fun s a s' hI _ hst => served_step hI hst
  rintro s hinit _ ⟨t, ht⟩
  simp [hinit t] at ht

section View

def Moves (s s' : State ι) : Prop := s' = s ∨ ∃ b, (system ι).step s b = some s'

variable {P : Type*} (role : P → Role)

omit [DecidableEq ι] in
/-- The protocol state of a gate and the threads' program points. -/
def view (opened : Bool) (pc : ι → P) : State ι := ⟨opened, role ∘ pc⟩

variable {role} {o : Bool} {pc : ι → P} {t : ι} {p q : P}

section Moves

variable (hpc : pc t = q)

include hpc

lemma moves_stutter (h : role p = role q) :
    Moves (view role o pc) (view role o (update pc t p)) := by
  left
  simp only [view, comp_update, h, ← hpc]
  congr 1
  exact update_eq_self t (role ∘ pc)

lemma moves_park (h : role q = .out) (hp : role p = .parked) :
    Moves (view role false pc) (view role false (update pc t p)) :=
  Or.inr ⟨.park t, by simp [system, step, view, comp_update, hpc, h, hp]⟩

lemma moves_unpark (h : role q = .parked) (hp : role p = .out) :
    Moves (view role o pc) (view role o (update pc t p)) :=
  Or.inr ⟨.unpark t, by simp [system, step, view, comp_update, hpc, h, hp]⟩

lemma moves_raise (h : role q = .out) (hp : role p = .waking) :
    Moves (view role o pc) (view role true (update pc t p)) :=
  Or.inr ⟨.raise t, by simp [system, step, view, comp_update, hpc, h, hp]⟩

lemma moves_wakeAll {wake : P → P} (hwake : ∀ r, role (wake r) = (role r).wakeUp)
    (h : role q = .waking) (hp : role p = .out) :
    Moves (view role o pc) (view role o (update (wake ∘ pc) t p)) := by
  have hcomp : role ∘ wake ∘ pc = Role.wakeUp ∘ role ∘ pc := funext fun u => hwake (pc u)
  exact .inr ⟨.wakeAll t, by simp [system, step, view, comp_update, hpc, h, hp, hcomp]⟩

end Moves

/-- The same, read off the program points. -/
theorem served_of_view (h : (system ι).ReachableWithin ok (view role true pc))
    (ht : role (pc t) = .parked) : ∃ u, role (pc u) = .waking :=
  served_of_reachable h rfl ⟨t, ht⟩

end View

end Gate
