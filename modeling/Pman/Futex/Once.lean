import Pman.Lib.Gate
import Pman.Futex.Syscall
import Mathlib.Data.Fintype.Basic

set_option autoImplicit false

/-!
# `FutexOnceFlag`

`call_once` of `once.hpp`: the first caller runs its function while the others wait on the state
word. A function that completes is followed by the store of `Done` and a wake-up of all waiters; a
function that throws is followed by the store of `NotStarted`, and by no wake-up.

Any set of callers is interleaved. Every access to the state word and every futex call is one step;
the end of a function is part of the store that follows it. A function that calls `call_once` on the
same flag is a caller of its own.

## Main results

* `functions_exclusive`: one function at a time, one completes.
* `sound_of_throwOk`: nobody waits for an abandoned flag.
-/

namespace Pman.FutexOnceFlag

open Function

inductive Word
  | notStarted
  | running
  | done
  deriving DecidableEq, Repr

/-- The program points of a caller, named after the access it performs next. -/
inductive Pc
  | idle
  /-- The compare-and-exchange of `NotStarted` for `Running`. -/
  | compareExchange
  /-- In the function, or about to store `Done` or `NotStarted` after it. -/
  | function
  /-- `mark_done_and_wake`: the call of `futex_wake_all`. -/
  | futexWakeAll
  | load
  /-- `wait_for_completion`: the call of `futex_wait`. -/
  | futexWait
  | parked
  deriving DecidableEq, Repr

def Pc.waits : Pc → Bool
  | .load | .futexWait | .parked => true
  | _ => false

inductive Choice
  | call
  | go
  | completes
  | throws
  /-- The futex wait of a sleeping caller ends with this answer. -/
  | result (r : WaitResult)
  deriving DecidableEq, Repr

structure State (ι : Type*) where
  state_ : Word
  pc : ι → Pc
  /-- How many functions have completed (a history variable). -/
  completed : ℕ
  /-- How many functions had completed at each return of `call_once` that was not an exception (a
  history variable). -/
  returned : List ℕ

section Machine

variable {ι : Type*} [DecidableEq ι]

def State.goto (s : State ι) (t : ι) (p : Pc) : State ι :=
  { s with pc := update s.pc t p }

@[simp] lemma State.goto_pc_self (s : State ι) (t : ι) (p : Pc) : (s.goto t p).pc t = p :=
  update_self ..

@[simp] lemma State.goto_pc_of_ne (s : State ι) {t u : ι} (h : u ≠ t) (p : Pc) :
    (s.goto t p).pc u = s.pc u :=
  update_of_ne h ..

def State.ret (s : State ι) (t : ι) : State ι :=
  { s.goto t .idle with returned := s.completed :: s.returned }

/-- Where `wait_for_completion` goes on after an answer of the futex wait. -/
def afterWait (r : WaitResult) : Pc :=
  match Pman.futexWait r with
  | .returns => .load
  | .retries => .futexWait
  | .throws _ => .idle

def Pc.wakeUp : Pc → Pc
  | .parked => afterWait .woken
  | p => p

def step (s : State ι) : ι × Choice → Option (State ι)
  | (t, c) =>
    match s.pc t, c with
    | .idle, .call => some (s.goto t .compareExchange)
    | .compareExchange, .go =>
      some (match s.state_ with
        | .notStarted => { s.goto t .function with state_ := .running }
        | .running => s.goto t .load
        | .done => s.ret t)
    | .function, .completes =>
      some { s.goto t .futexWakeAll with state_ := .done, completed := s.completed + 1 }
    | .function, .throws => some { s.goto t .idle with state_ := .notStarted }
    | .futexWakeAll, .go => some ({ s with pc := Pc.wakeUp ∘ s.pc }.ret t)
    | .load, .go =>
      some (match s.state_ with
        | .done | .notStarted => s.ret t
        | .running => s.goto t .futexWait)
    | .futexWait, .go =>
      some (s.goto t (if s.state_ = .running then .parked else afterWait (.error .EAGAIN)))
    | .parked, .result r => if r.possible false then some (s.goto t (afterWait r)) else none
    | _, _ => none

/-- The machine, started with a fresh flag and every caller outside. -/
def system (ι : Type*) [DecidableEq ι] : TransitionSystem (State ι) (ι × Choice) where
  init s := s = ⟨.notStarted, fun _ => .idle, 0, []⟩
  step := step

end Machine

variable {ι : Type*}

/-- A caller sleeps, no caller runs a function, and no wake-up is still to be issued. -/
def Abandoned (s : State ι) : Prop :=
  (∃ t, s.pc t = .parked) ∧ ∀ t, s.pc t ≠ .function ∧ s.pc t ≠ .futexWakeAll

/-- **What callers rely on**: at most one function completes, `call_once` returns only after that,
and no sleeping caller is abandoned. -/
def Sound (s : State ι) : Prop :=
  s.completed ≤ 1 ∧ (∀ n ∈ s.returned, 0 < n) ∧ ¬ Abandoned s

/-- The condition on functions that throw: no other call waits for the function. -/
def ThrowOk (s : State ι) (a : ι × Choice) : Prop :=
  s.pc a.1 = .function → a.2 = .throws → ∀ u, (s.pc u).waits = false

instance [Fintype ι] (s : State ι) : Decidable (Abandoned s) := inferInstanceAs (Decidable (_ ∧ _))

instance [Fintype ι] (s : State ι) : Decidable (Sound s) := inferInstanceAs (Decidable (_ ∧ _ ∧ _))

instance [Fintype ι] (s : State ι) (a : ι × Choice) : Decidable (ThrowOk s a) :=
  inferInstanceAs (Decidable (_ → _ → _))

def Pc.serves : Pc → Bool
  | .function | .futexWakeAll => true
  | _ => false

variable [DecidableEq ι]

/-- What a step of caller `t` can do to the flag and to its callers. -/
inductive Does (s : State ι) (t : ι) : Choice → State ι → Prop
  | goes {c : Choice} {p : Pc} (hfrom : (s.pc t).serves = false) (hto : p.serves = false)
      (hwaits : p.waits = true → (s.pc t).waits = true ∨ s.state_ = .running)
      (hparks : p = .parked → s.pc t = .futexWait ∧ s.state_ = .running) : Does s t c (s.goto t p)
  | starts {c : Choice} (hpc : s.pc t = .compareExchange) (hword : s.state_ = .notStarted) :
      Does s t c { s.goto t .function with state_ := .running }
  | completes (hpc : s.pc t = .function) : Does s t .completes
      { s.goto t .futexWakeAll with state_ := .done, completed := s.completed + 1 }
  | throws (hpc : s.pc t = .function) :
      Does s t .throws { s.goto t .idle with state_ := .notStarted }
  | wakes {c : Choice} (hpc : s.pc t = .futexWakeAll) :
      Does s t c ({ s with pc := Pc.wakeUp ∘ s.pc }.ret t)
  /-- `call_once` returns without having run the function. -/
  | returns {c : Choice} (hpc : s.pc t = .compareExchange ∨ s.pc t = .load)
      (hword : s.state_ = .done ∨ (s.pc t).waits = true ∧ s.state_ = .notStarted) :
      Does s t c (s.ret t)

lemma waits_afterWait {r : WaitResult} (h : r.possible false = true) :
    (afterWait r).waits = true ∧ (afterWait r).serves = false ∧ afterWait r ≠ .parked := by
  cases r with
  | woken => decide
  | error e => cases e <;> first | decide | simp [WaitResult.possible] at h

variable {s s' : State ι} {t u : ι} {c : Choice} {p : Pc}

lemma does_of_step (hst : step s (t, c) = some s') : Does s t c s' := by
  simp only [step] at hst
  split at hst <;> try cases hst
  case h_1 hpc =>
    exact .goes (by rw [hpc]; rfl) rfl (by simp [Pc.waits]) (by simp)
  case h_2 hpc =>
    cases hword : s.state_ with
    | notStarted => exact .starts hpc hword
    | running => exact .goes (by rw [hpc]; rfl) rfl (fun _ => .inr hword) (by simp)
    | done => exact .returns (.inl hpc) (.inl hword)
  case h_3 hpc =>
    exact .completes hpc
  case h_4 hpc =>
    exact .throws hpc
  case h_5 hpc =>
    exact .wakes hpc
  case h_6 hpc =>
    have hwaits : (s.pc t).waits = true := by rw [hpc]; rfl
    cases hword : s.state_ with
    | notStarted => exact .returns (.inr hpc) (.inr ⟨hwaits, hword⟩)
    | running => exact .goes (by rw [hpc]; rfl) rfl (fun _ => .inr hword) (by simp)
    | done => exact .returns (.inr hpc) (.inl hword)
  case h_7 hpc =>
    have hwaits : (s.pc t).waits = true := by rw [hpc]; rfl
    split_ifs with hword
    · exact .goes (by rw [hpc]; rfl) rfl (fun _ => .inr hword) fun _ => ⟨hpc, hword⟩
    · exact .goes (by rw [hpc]; rfl) rfl (fun _ => .inl hwaits)
        (by simp [afterWait, Pman.futexWait, futexWaitInternal])
  case h_8 r hpc =>
    split_ifs at hst with hr
    cases hst
    obtain ⟨-, hserves, hne⟩ := waits_afterWait hr
    exact .goes (by rw [hpc]; rfl) hserves (fun _ => .inl (by rw [hpc]; rfl))
      fun h => absurd h hne

/-! ## Functions -/

inductive Tracks (s : State ι) : Prop
  | notStarted (hword : s.state_ = .notStarted) (hcompleted : s.completed = 0)
      (hpc : ∀ u, (s.pc u).serves = false)
  | running (hword : s.state_ = .running) (hcompleted : s.completed = 0) (t : ι)
      (ht : s.pc t = .function) (hpc : ∀ u, u ≠ t → (s.pc u).serves = false)
  | done (hword : s.state_ = .done) (hcompleted : s.completed = 1) (hpc : ∀ u, s.pc u ≠ .function)

lemma serves_update {pc : ι → Pc} (hto : p.serves = false) (h : u ≠ t → (pc u).serves = false) :
    (update pc t p u).serves = false := by
  by_cases hut : u = t
  · rw [hut, update_self]
    exact hto
  · rw [update_of_ne hut]
    exact h hut

omit [DecidableEq ι] in
lemma Tracks.of_function (h : Tracks s) (ht : s.pc t = .function) :
    s.state_ = .running ∧ s.completed = 0 ∧ ∀ u, u ≠ t → (s.pc u).serves = false := by
  have hserves : (s.pc t).serves = true := by rw [ht]; rfl
  cases h with
  | notStarted hword hcompleted hpc => simp [hpc t] at hserves
  | running hword hcompleted v hv hpc =>
    have htv : t = v := by
      by_contra hne
      simp [hpc t hne] at hserves
    subst htv
    exact ⟨hword, hcompleted, hpc⟩
  | done hword hcompleted hpc => exact absurd ht (hpc t)

omit [DecidableEq ι] in
lemma Tracks.of_futexWakeAll (h : Tracks s) (ht : s.pc t = .futexWakeAll) :
    s.state_ = .done ∧ s.completed = 1 ∧ ∀ u, s.pc u ≠ .function := by
  have hserves : (s.pc t).serves = true := by rw [ht]; rfl
  cases h with
  | notStarted hword hcompleted hpc => simp [hpc t] at hserves
  | running hword hcompleted v hv hpc =>
    have hne : t ≠ v := by
      rintro rfl
      simp [ht] at hv
    simp [hpc t hne] at hserves
  | done hword hcompleted hpc => exact ⟨hword, hcompleted, hpc⟩

lemma Tracks.goto (h : Tracks s) (hfrom : (s.pc t).serves = false) (hto : p.serves = false) :
    Tracks (s.goto t p) := by
  cases h with
  | notStarted hword hcompleted hpc =>
    exact .notStarted hword hcompleted fun u => serves_update hto fun _ => hpc u
  | running hword hcompleted v hv hpc =>
    have hne : v ≠ t := by
      rintro rfl
      simp [hv, Pc.serves] at hfrom
    refine .running hword hcompleted v ?_ fun u hu => serves_update hto fun _ => hpc u hu
    rw [State.goto_pc_of_ne s hne, hv]
  | done hword hcompleted hpc =>
    refine .done hword hcompleted fun u => ?_
    by_cases hut : u = t
    · rw [hut, State.goto_pc_self]
      rintro rfl
      simp [Pc.serves] at hto
    · rw [State.goto_pc_of_ne s hut]
      exact hpc u

lemma Tracks.step (h : Tracks s) (hdoes : Does s t c s') : Tracks s' := by
  cases hdoes with
  | goes hfrom hto _ _ => exact h.goto hfrom hto
  | starts hpc hword =>
    cases h with
    | notStarted _ hcompleted hserves =>
      refine .running rfl hcompleted t (s.goto_pc_self ..) fun u hu => ?_
      simpa [hu] using hserves u
    | running hrunning => simp [hword] at hrunning
    | done hdone => simp [hword] at hdone
  | completes hpc =>
    obtain ⟨-, hcompleted, hserves⟩ := h.of_function hpc
    refine .done rfl (by simp [hcompleted]) fun u => ?_
    by_cases hut : u = t
    · simp [hut]
    · intro hu
      have hout := hserves u hut
      rw [State.goto_pc_of_ne s hut] at hu
      simp [hu, Pc.serves] at hout
  | throws hpc =>
    obtain ⟨-, hcompleted, hserves⟩ := h.of_function hpc
    exact .notStarted rfl hcompleted fun u => serves_update rfl (hserves u)
  | wakes hpc =>
    obtain ⟨hword, hcompleted, hfunction⟩ := h.of_futexWakeAll hpc
    refine .done hword hcompleted fun u => ?_
    by_cases hut : u = t
    · simp [State.ret, State.goto, hut]
    · simp only [State.ret, State.goto, update_of_ne hut, comp_apply]
      cases hu : s.pc u <;> simp_all [Pc.wakeUp, afterWait, Pman.futexWait, futexWaitInternal]
  | returns hpc _ =>
    have hgoto : Tracks (s.goto t .idle) := by
      rcases hpc with hpc | hpc <;> exact h.goto (by rw [hpc]; rfl) rfl
    cases hgoto with
    | notStarted hword hcompleted hserves => exact .notStarted hword hcompleted hserves
    | running hword hcompleted v hv hserves => exact .running hword hcompleted v hv hserves
    | done hword hcompleted hfunction => exact .done hword hcompleted hfunction

variable {ok : State ι → ι × Choice → Prop}

lemma tracks_of_reachable (h : (system ι).ReachableWithin ok s) : Tracks s := by
  refine h.invariant ?_ fun s a s' hI _ hst => hI.step (does_of_step hst)
  rintro s rfl
  exact .notStarted rfl rfl fun _ => rfl

/-- At most one function completes. -/
theorem completed_le_one (h : (system ι).ReachableWithin ok s) : s.completed ≤ 1 := by
  cases tracks_of_reachable h <;> omega

/-- **Functions do not overlap**, and none runs once one has completed, however many throw. -/
theorem functions_exclusive (h : (system ι).Reachable s) :
    (∀ t u, s.pc t = .function → s.pc u = .function → t = u) ∧
      (0 < s.completed → ∀ t, s.pc t ≠ .function) := by
  have htracks := tracks_of_reachable h
  refine ⟨fun t u ht hu => ?_, fun hcompleted t ht => ?_⟩
  · by_contra hne
    have hserves := (htracks.of_function hu).2.2 t hne
    simp [ht, Pc.serves] at hserves
  · have hzero := (htracks.of_function ht).2.1
    omega

/-- The first function has thrown, and the second runs. -/
theorem functions_exclusive_again : ∃ s : State (Fin 2), (system (Fin 2)).Reachable s ∧
    s.pc 1 = .function ∧ ∀ u, s.pc u = .function → u = 1 := by
  have hs : (system (Fin 2)).Reachable _ := .final ⟨.notStarted, fun _ => .idle, 0, []⟩
      [(0, .call), (0, .go), (0, .throws), (1, .call), (1, .go)] (by rfl) (by decide +kernel)
  exact ⟨_, hs, by decide, fun u hu => (functions_exclusive hs).1 u 1 hu (by decide)⟩

/-! ## Waiters -/

/-- The role of a program point: the gate is opened by the store of `Done`. -/
def Pc.role : Pc → Gate.Role
  | .parked => .parked
  | .futexWakeAll => .waking
  | _ => .out

def project (s : State ι) : Gate.State ι := Gate.view Pc.role (s.state_ == .done) s.pc

lemma role_of_serves (hp : p.serves = false) (hne : p ≠ .parked) : p.role = .out := by
  cases p <;> simp_all [Pc.role, Pc.serves]

lemma role_wakeUp (p : Pc) : p.wakeUp.role = p.role.wakeUp := by
  cases p <;> rfl

lemma moves_of_does (h : Tracks s) (hdoes : Does s t c s') :
    Gate.Moves (project s) (project s') := by
  cases hdoes with
  | @goes _ p hfrom hto _ hparks =>
    by_cases hp : p = .parked
    · obtain ⟨hpc, hword⟩ := hparks hp
      simp only [project, State.goto, hword]
      exact Gate.moves_park hpc rfl (congrArg Pc.role hp)
    · by_cases hpc : s.pc t = .parked
      · exact Gate.moves_unpark hpc rfl (role_of_serves hto hp)
      · exact Gate.moves_stutter rfl
          ((role_of_serves hto hp).trans (role_of_serves hfrom hpc).symm)
  | starts hpc hword =>
    simp only [project, State.goto, hword]
    exact Gate.moves_stutter hpc rfl
  | completes hpc => exact Gate.moves_raise hpc rfl rfl
  | throws hpc =>
    simp only [project, State.goto, (h.of_function hpc).1]
    exact Gate.moves_stutter hpc rfl
  | wakes hpc => exact Gate.moves_wakeAll hpc role_wakeUp rfl rfl
  | returns hpc _ =>
    rcases hpc with hpc | hpc <;> exact Gate.moves_stutter hpc rfl

/-- **The machine refines the gate.** -/
theorem simulation : Simulation (system ι) (fun s _ => Tracks s) (Gate.system ι)
    (fun _ _ => True) project where
  init := by
    rintro s rfl t
    rfl
  step _ _ _ h hst :=
    (moves_of_does h (does_of_step hst)).imp_right fun ⟨b, hb⟩ => ⟨b, trivial, hb⟩

lemma futexWakeAll_of_parked (h : (system ι).ReachableWithin ok s) (hdone : s.state_ = .done)
    (ht : s.pc t = .parked) : ∃ u, s.pc u = .futexWakeAll := by
  have hwithin : (system ι).ReachableWithin (fun s _ => Tracks s) s :=
    (h.and_of fun s => tracks_of_reachable).mono fun _ _ hok => hok.2
  have hview := simulation.reachableWithin hwithin
  rw [project, hdone] at hview
  obtain ⟨u, hu⟩ := Gate.served_of_view hview (congrArg Pc.role ht)
  refine ⟨u, ?_⟩
  cases hpc : s.pc u <;> simp [hpc, Pc.role] at hu ⊢

/-- What a run under `ThrowOk` keeps: while a call waits, the word is not `NotStarted`, and
whoever has returned did so after a function had completed. -/
structure Attended (s : State ι) : Prop where
  waits : ∀ u, (s.pc u).waits = true → s.state_ ≠ .notStarted
  returned : ∀ n ∈ s.returned, 0 < n

lemma waits_update {pc : ι → Pc} (h : (update pc t p u).waits = true) :
    p.waits = true ∨ (pc u).waits = true := by
  by_cases hut : u = t
  · rw [hut, update_self] at h
    exact .inl h
  · rw [update_of_ne hut] at h
    exact .inr h

lemma Attended.ret (h : Attended s) (t : ι) (hcompleted : 0 < s.completed) :
    Attended (s.ret t) := by
  refine ⟨fun u hu => ?_, fun n hn => ?_⟩
  · rcases waits_update hu with hp | hu
    · cases hp
    · exact h.waits u hu
  · rcases List.mem_cons.mp hn with rfl | hn
    · exact hcompleted
    · exact h.returned n hn

lemma Attended.step (h : Attended s) (htracks : Tracks s) (hok : ThrowOk s (t, c))
    (hdoes : Does s t c s') : Attended s' := by
  have hone : s.state_ = .done → 0 < s.completed := by
    intro hdone
    cases htracks <;> simp_all
  cases hdoes with
  | goes hfrom hto hwaits _ =>
    refine ⟨fun u hu => ?_, h.returned⟩
    rcases waits_update hu with hp | hu
    · rcases hwaits hp with ht | hrunning
      · exact h.waits t ht
      · rw [State.goto, hrunning]
        decide
    · exact h.waits u hu
  | starts hpc hword | completes hpc => exact ⟨fun u _ => by simp, h.returned⟩
  | throws hpc =>
    refine ⟨fun u hu => ?_, h.returned⟩
    rcases waits_update hu with hp | hu
    · cases hp
    · simp [hok hpc rfl u] at hu
  | wakes hpc =>
    have hdone := (htracks.of_futexWakeAll hpc).1
    have hwoken : Attended { s with pc := Pc.wakeUp ∘ s.pc } :=
      ⟨fun u _ => by simp [hdone], h.returned⟩
    exact hwoken.ret t (hone hdone)
  | returns hpc hword =>
    refine h.ret t (hone ?_)
    rcases hword with hdone | ⟨hwaits, hnot⟩
    · exact hdone
    · exact absurd hnot (h.waits t hwaits)

lemma attended_of_reachable (h : (system ι).ReachableWithin ThrowOk s) : Attended s := by
  refine h.invariant_of (fun s => tracks_of_reachable) ?_
    fun s a s' htracks hI hok hst => hI.step htracks hok (does_of_step hst)
  rintro s rfl
  exact ⟨by simp [Pc.waits], by simp⟩

/-- **`call_once` is sound** in every run in which a function throws only while no other call waits
for it.

**Proof sketch.** A sleeping caller waits, so the word is not `NotStarted`. If it is `Running`, the
account of the functions names the caller that runs one; if it is `Done`, the gate is open and
somebody has the wake-up to issue. -/
theorem sound_of_throwOk {s : State ι} (h : (system ι).ReachableWithin ThrowOk s) : Sound s := by
  have hattended := attended_of_reachable h
  refine ⟨completed_le_one h, hattended.returned, ?_⟩
  rintro ⟨⟨t, ht⟩, hnobody⟩
  cases tracks_of_reachable h with
  | notStarted hword _ _ => exact hattended.waits t (by rw [ht]; rfl) hword
  | running _ _ u hu _ => exact (hnobody u).1 hu
  | done hword _ _ =>
    obtain ⟨u, hu⟩ := futexWakeAll_of_parked h hword ht
    exact (hnobody u).2 hu

/-- The theorem in a run with a function that throws, a function that completes, and a caller that
sleeps while it runs. -/
theorem sound_of_throwOk_retry :
    ∃ s : State (Fin 2), (system (Fin 2)).ReachableWithin ThrowOk s ∧
      s.returned = [1, 1] ∧ s.completed = 1 ∧ Sound s := by
  have hs : (system (Fin 2)).ReachableWithin ThrowOk _ :=
    .final ⟨.notStarted, fun _ => .idle, 0, []⟩
      [(0, .call), (0, .go), (0, .throws), (0, .call), (0, .go), (1, .call), (1, .go), (1, .go),
        (1, .go), (0, .completes), (0, .go), (1, .go)] (by rfl) (by decide +kernel)
  exact ⟨_, hs, by decide +kernel, by decide +kernel, sound_of_throwOk hs⟩

lemma exists_not_sound_of_load (h : (system ι).Reachable s) (hword : s.state_ = .notStarted)
    (hcompleted : s.completed = 0) (hu : s.pc u = .load) :
    ∃ s', (system ι).Reachable s' ∧ ¬ Sound s' := by
  have hst : (system ι).step s (u, .go) = some (s.ret u) := by simp [system, step, hu, hword]
  refine ⟨s.ret u, h.step trivial hst, fun hsound => ?_⟩
  have hpos := hsound.2.1 s.completed List.mem_cons_self
  omega

/-- **The condition cannot be dropped**: wherever a function throws while another call waits for it,
the run can go on to a state that is not sound. -/
theorem exists_not_sound_of_throw (h : (system ι).Reachable s) (ht : s.pc t = .function)
    (hu : (s.pc u).waits = true) : ∃ s', (system ι).Reachable s' ∧ ¬ Sound s' := by
  obtain ⟨-, hcompleted, hserves⟩ := (tracks_of_reachable h).of_function ht
  have hne : u ≠ t := by
    rintro rfl
    simp [ht, Pc.waits] at hu
  have hthrow : (system ι).Reachable { s.goto t .idle with state_ := .notStarted } :=
    h.step (a := (t, .throws)) trivial (by simp [system, step, ht])
  have hsame : (s.goto t .idle).pc u = s.pc u := State.goto_pc_of_ne s hne _
  cases hpc : s.pc u with
  | load => exact exists_not_sound_of_load hthrow rfl hcompleted (hsame.trans hpc)
  | futexWait =>
    have hload := hthrow.step (a := (u, .go)) trivial (by simp [system, step, hsame, hpc]; rfl)
    exact exists_not_sound_of_load hload rfl hcompleted (State.goto_pc_self ..)
  | parked =>
    refine ⟨_, hthrow, fun hsound => hsound.2.2 ⟨⟨u, hsame.trans hpc⟩, fun v => ?_⟩⟩
    have hout : ((s.goto t .idle).pc v).serves = false := serves_update rfl (hserves v)
    constructor
    · intro hv
      simp [show (s.goto t .idle).pc v = .function from hv, Pc.serves] at hout
    · intro hv
      simp [show (s.goto t .idle).pc v = .futexWakeAll from hv, Pc.serves] at hout
  | _ => simp [hpc, Pc.waits] at hu

/-- **`call_once` is not sound.** In the first run a caller finds `Running`, the function throws,
the caller loads `NotStarted` and returns although no function has completed. In the second run the
caller sleeps when the function throws; nobody runs a function and no wake-up is still to be
issued. -/
theorem not_sound :
    (∃ s : State (Fin 2), (system (Fin 2)).Reachable s ∧ s.completed = 0 ∧ s.returned = [0]) ∧
    ∃ s : State (Fin 2), (system (Fin 2)).Reachable s ∧ Abandoned s := by
  constructor
  · exact TransitionSystem.reached_by ⟨.notStarted, fun _ => .idle, 0, []⟩
      [(0, .call), (0, .go), (1, .call), (1, .go), (0, .throws), (1, .go)] rfl (by decide +kernel)
  · exact TransitionSystem.reached_by ⟨.notStarted, fun _ => .idle, 0, []⟩
      [(0, .call), (0, .go), (1, .call), (1, .go), (1, .go), (1, .go), (0, .throws)]
      rfl (by decide +kernel)

end Pman.FutexOnceFlag
