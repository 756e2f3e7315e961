import Pman.Lib.TransitionSystem

set_option autoImplicit false

/-!
# The three-word sleeping lock

The protocol behind sleeping locks whose word is *unlocked*, *locked* or *contended*. A thread that
cannot take the lock marks the word contended and parks; a release that finds the mark wakes one
parked thread. The mark is a promise: while threads are parked, either the word is contended, or a
thread is awake on the slow path (and will leave the mark), or a wake-up is still to be issued.

A thread may also take the lock by a plain compare-and-exchange, which leaves the word not
contended. Done by the last awake thread of the slow path this breaks the promise; `GrabOk` excludes
exactly that step.

## Main results

* `not_stuck_of_view`: what refines the lock has no stuck waiter.
-/

inductive LockWord
  | unlocked
  | locked
  | contended
  deriving DecidableEq, Repr

namespace ContendedLock

open Function

inductive Role
  /-- Outside the slow path: not using the lock, holding it, or about to try once. -/
  | out
  | slow
  | parked
  /-- It has released a contended lock and has yet to wake a sleeper. -/
  | waking
  deriving DecidableEq, Repr

variable {ι : Type*} [DecidableEq ι]

structure State (ι : Type*) where
  word : LockWord
  role : ι → Role

/-- The atomic steps of the protocol, each performed by the first thread named. -/
inductive Act (ι : Type*)
  | enter (t : ι)
  /-- Take an unlocked lock by compare-and-exchange, leaving it locked. -/
  | grab (t : ι)
  /-- Exchange the word for contended; this takes the lock if it was unlocked. -/
  | mark (t : ι)
  | park (t : ι)
  /-- Leave the sleep without having been chosen by a wake-up. -/
  | unpark (t : ι)
  | free (t : ι)
  /-- Issue the wake-up: it releases a parked thread, or nobody if nobody is parked. -/
  | wakeOne (t : ι) (u : Option ι)

open scoped Classical in
noncomputable def step (s : State ι) : Act ι → Option (State ι)
  | .enter t =>
    if s.role t = .out then some ⟨s.word, update s.role t .slow⟩ else none
  | .grab t =>
    if (s.role t = .out ∨ s.role t = .slow) ∧ s.word = .unlocked then
      some ⟨.locked, update s.role t .out⟩
    else none
  | .mark t =>
    if s.role t = .slow then
      some ⟨.contended,
        update s.role t (if s.word = .unlocked then .out else .slow)⟩
    else none
  | .park t =>
    if s.role t = .slow ∧ s.word = .contended then
      some ⟨s.word, update s.role t .parked⟩
    else none
  | .unpark t =>
    if s.role t = .parked then some ⟨s.word, update s.role t .slow⟩ else none
  | .free t =>
    if s.role t = .out then
      some ⟨.unlocked,
        update s.role t (if s.word = .contended then .waking else .out)⟩
    else none
  | .wakeOne t none =>
    if s.role t = .waking ∧ ∀ u, s.role u ≠ .parked then
      some ⟨s.word, update s.role t .out⟩
    else none
  | .wakeOne t (some u) =>
    if s.role t = .waking ∧ s.role u = .parked then
      some ⟨s.word, update (update s.role t .out) u .slow⟩
    else none

/-- The protocol, started with an unlocked word and nobody inside. -/
noncomputable def system (ι : Type*) [DecidableEq ι] : TransitionSystem (State ι) (Act ι) where
  init s := s = ⟨.unlocked, fun _ => .out⟩
  step := step

/-- A thread other than `t` is awake on the slow path or about to wake a sleeper. -/
def OtherAwake (s : State ι) (t : ι) : Prop :=
  ∃ u, u ≠ t ∧ (s.role u = .slow ∨ s.role u = .waking)

/-- The condition on acquisitions by compare-and-exchange: a thread of the slow path does not
take the lock this way while somebody is parked, unless another thread is awake there or about
to wake a sleeper. -/
def GrabOk (s : State ι) : Act ι → Prop
  | .grab t => s.role t = .slow → (∃ u, s.role u = .parked) → OtherAwake s t
  | _ => True

/-- **The promise to parked threads**: if somebody is parked, the word is contended, or a
thread is awake on the slow path, or a wake-up is pending. -/
def Served (s : State ι) : Prop :=
  (∃ u, s.role u = .parked) →
    s.word = .contended ∨ ∃ u, s.role u = .slow ∨ s.role u = .waking

/-- Nobody will ever wake the parked threads: the word is unlocked, every thread is outside or
parked, and somebody is parked. -/
def Stuck (s : State ι) : Prop :=
  s.word = .unlocked ∧ (∀ t, s.role t = .out ∨ s.role t = .parked) ∧ ∃ t, s.role t = .parked

variable {t : ι} {s : State ι}

lemma served_of_awake {w : LockWord} {r : ι → Role} {x : Role} (hx : x = .slow ∨ x = .waking) :
    Served ⟨w, update r t x⟩ := by
  intro _
  exact .inr ⟨t, by simpa using hx⟩

lemma served_of_otherAwake (h : OtherAwake s t) (w : LockWord) (x : Role) :
    Served ⟨w, update s.role t x⟩ := by
  obtain ⟨u, hne, hu⟩ := h
  intro _
  exact .inr ⟨u, by simpa [update_of_ne hne] using hu⟩

lemma parked_of_update {x : Role} (hx : x ≠ .parked)
    (h : ∃ u, update s.role t x u = .parked) : ∃ u, s.role u = .parked := by
  obtain hu | ⟨u, -, hu⟩ := (exists_update_iff s.role fun _ x => x = .parked).mp h
  · exact absurd hu hx
  · exact ⟨u, hu⟩

omit [DecidableEq ι] in
lemma Served.otherAwake (h : Served s) (hw : s.word ≠ .contended) (ht : s.role t = .out)
    (hp : ∃ u, s.role u = .parked) : OtherAwake s t := by
  rcases h hp with hc | ⟨u, hu⟩
  · exact absurd hc hw
  · refine ⟨u, ?_, hu⟩
    rintro rfl
    rw [ht] at hu
    simp at hu

/-- **Step lemma**: a step that meets `GrabOk` keeps the promise.

**Proof sketch.** Only three steps can hurt it. A `grab` leaves the word locked: a thread from
outside was not the awake one, and a thread of the slow path is covered by `GrabOk`. A `free`
takes the mark away, but then the releasing thread is about to wake a sleeper. A `wakeOne` uses
up the pending wake-up, but it puts a sleeper on the slow path, or nobody is parked. -/
lemma served_step {s' : State ι} {a : Act ι} (h : Served s) (hok : GrabOk s a)
    (hst : step s a = some s') : Served s' := by
  cases a with
  | enter t | unpark t =>
    obtain ⟨-, ⟨⟩⟩ := Option.ite_none_right_eq_some.mp hst
    exact served_of_awake (.inl rfl)
  | grab t =>
    obtain ⟨hgrab, ⟨⟩⟩ := Option.ite_none_right_eq_some.mp hst
    intro hp
    have hp' := parked_of_update (by simp) hp
    have haw : OtherAwake s t := by
      rcases hgrab.1 with hr | hr
      · exact h.otherAwake (by rw [hgrab.2]; simp) hr hp'
      · exact hok hr hp'
    exact served_of_otherAwake haw _ _ hp
  | mark t =>
    obtain ⟨-, ⟨⟩⟩ := Option.ite_none_right_eq_some.mp hst
    exact fun _ => .inl rfl
  | park t =>
    obtain ⟨hw, ⟨⟩⟩ := Option.ite_none_right_eq_some.mp hst
    exact fun _ => .inl hw.2
  | free t =>
    obtain ⟨hr, ⟨⟩⟩ := Option.ite_none_right_eq_some.mp hst
    by_cases hw : s.word = .contended
    · rw [if_pos hw]
      exact served_of_awake (.inr rfl)
    · rw [if_neg hw]
      intro hp
      exact served_of_otherAwake (h.otherAwake hw hr (parked_of_update (by simp) hp)) _ _ hp
  | wakeOne t u =>
    cases u with
    | none =>
      obtain ⟨hnone, ⟨⟩⟩ := Option.ite_none_right_eq_some.mp hst
      intro hp
      obtain ⟨v, hv⟩ := parked_of_update (by simp) hp
      exact absurd hv (hnone.2 v)
    | some u =>
      obtain ⟨-, ⟨⟩⟩ := Option.ite_none_right_eq_some.mp hst
      exact served_of_awake (.inl rfl)

/-- The promise is kept in every run under `GrabOk`. -/
theorem served_of_reachable (h : (system ι).ReachableWithin GrabOk s) : Served s := by
  refine h.invariant ?_ fun s a s' hI hok hst => served_step hI hok hst
  rintro s rfl ⟨u, hu⟩
  simp at hu

/-- **No stuck sleeper**: no run under `GrabOk` ends with an unlocked word, every thread outside
or parked, and some thread parked. -/
theorem not_stuck_of_reachable (h : (system ι).ReachableWithin GrabOk s) : ¬ Stuck s := by
  rintro ⟨hw, hall, hp⟩
  rcases served_of_reachable h hp with hc | ⟨u, hu⟩
  · rw [hw] at hc
    simp at hc
  · rcases hall u with ho | ho <;> rw [ho] at hu <;> simp at hu

/-! ## Seeing a machine as the protocol

A machine whose threads have program points `P` is seen as the protocol through a role for each
program point. The lemmas below say which of its steps are steps of the protocol. -/

section View

/-- A stutter, or a step of the protocol that meets `GrabOk`. -/
def Moves (s s' : State ι) : Prop :=
  s' = s ∨ ∃ b, GrabOk s b ∧ (system ι).step s b = some s'

variable {P : Type*} (role : P → Role)

omit [DecidableEq ι] in
/-- The protocol state of a lock word and the threads' program points. -/
def view (w : LockWord) (pc : ι → P) : State ι := ⟨w, role ∘ pc⟩

variable {role} {w : LockWord} {pc : ι → P} {t u : ι} {p q r : P}

section Moves

variable (hpc : pc t = q)

include hpc

lemma moves_stutter (h : role p = role q) :
    Moves (view role w pc) (view role w (update pc t p)) := by
  left
  simp only [view, comp_update, h, ← hpc]
  congr 1
  exact update_eq_self t (role ∘ pc)

lemma moves_enter (h : role q = .out) (hp : role p = .slow) :
    Moves (view role w pc) (view role w (update pc t p)) :=
  Or.inr ⟨.enter t, trivial, by simp [system, step, view, comp_update, hpc, h, hp]⟩

lemma moves_grab_out (hw : w = .unlocked) (h : role q = .out) (hp : role p = .out) :
    Moves (view role w pc) (view role .locked (update pc t p)) := by
  refine .inr ⟨.grab t, fun hslow => ?_, ?_⟩
  · simp [view, hpc, h] at hslow
  · simp [system, step, view, comp_update, hpc, h, hp, hw]

lemma moves_grab_slow (hw : w = .unlocked) (h : role q = .slow) (hp : role p = .out)
    (hok : (∃ u, role (pc u) = .parked) →
      ∃ u, u ≠ t ∧ (role (pc u) = .slow ∨ role (pc u) = .waking)) :
    Moves (view role w pc) (view role .locked (update pc t p)) :=
  Or.inr ⟨.grab t, fun _ => hok, by simp [system, step, view, comp_update, hpc, h, hp, hw]⟩

lemma moves_mark_unlocked (hw : w = .unlocked) (h : role q = .slow) (hp : role p = .out) :
    Moves (view role w pc) (view role .contended (update pc t p)) :=
  Or.inr ⟨.mark t, trivial, by simp [system, step, view, comp_update, hpc, h, hp, hw]⟩

lemma moves_mark_taken (hw : w ≠ .unlocked) (h : role q = .slow) (hp : role p = .slow) :
    Moves (view role w pc) (view role .contended (update pc t p)) :=
  Or.inr ⟨.mark t, trivial, by simp [system, step, view, comp_update, hpc, h, hp, hw]⟩

lemma moves_park (hw : w = .contended) (h : role q = .slow) (hp : role p = .parked) :
    Moves (view role w pc) (view role w (update pc t p)) :=
  Or.inr ⟨.park t, trivial, by simp [system, step, view, comp_update, hpc, h, hp, hw]⟩

lemma moves_unpark (h : role q = .parked) (hp : role p = .slow) :
    Moves (view role w pc) (view role w (update pc t p)) :=
  Or.inr ⟨.unpark t, trivial, by simp [system, step, view, comp_update, hpc, h, hp]⟩

lemma moves_free_contended (hw : w = .contended) (h : role q = .out) (hp : role p = .waking) :
    Moves (view role w pc) (view role .unlocked (update pc t p)) :=
  Or.inr ⟨.free t, trivial, by simp [system, step, view, comp_update, hpc, h, hp, hw]⟩

lemma moves_free_quiet (hw : w ≠ .contended) (h : role q = .out) (hp : role p = .out) :
    Moves (view role w pc) (view role .unlocked (update pc t p)) :=
  Or.inr ⟨.free t, trivial, by simp [system, step, view, comp_update, hpc, h, hp, hw]⟩

lemma moves_wakeOne_none (h : role q = .waking) (hp : role p = .out)
    (hnone : ∀ u, role (pc u) ≠ .parked) :
    Moves (view role w pc) (view role w (update pc t p)) :=
  Or.inr ⟨.wakeOne t none, trivial, by
    simp [system, step, view, comp_update, hpc, h, hp, hnone]⟩

lemma moves_wakeOne_some (h : role q = .waking) (hp : role p = .out)
    (hu : role (pc u) = .parked) (hr : role r = .slow) :
    Moves (view role w pc) (view role w (update (update pc t p) u r)) :=
  Or.inr ⟨.wakeOne t (some u), trivial, by
    simp [system, step, view, comp_update, hpc, h, hp, hu, hr]⟩

end Moves

/-- No stuck sleeper, read off the program points `p` outside and `q` parked. -/
theorem not_stuck_of_view (hp : role p = .out) (hq : role q = .parked)
    (h : (system ι).ReachableWithin GrabOk (view role w pc)) :
    ¬ (w = .unlocked ∧ (∀ t, pc t = p ∨ pc t = q) ∧ ∃ t, pc t = q) := by
  rintro ⟨hw, hall, t, ht⟩
  refine not_stuck_of_reachable h ⟨hw, fun u => ?_, t, (congrArg role ht).trans hq⟩
  rcases hall u with hu | hu
  · exact .inl ((congrArg role hu).trans hp)
  · exact .inr ((congrArg role hu).trans hq)

end View

end ContendedLock
