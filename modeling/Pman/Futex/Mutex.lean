import Mathlib.Data.Fintype.Basic
import Pman.Lib.ContendedLock
import Pman.Futex.Syscall

set_option autoImplicit false

/-!
# `FutexMutex`

The mutex of `futex.cpp`: a lock word, a fast path by compare-and-exchange, a slow path that
spins, marks the word contended and sleeps on it. The model interleaves any finite set of
threads; every atomic access and every futex call is one step. The spin loop may give up after
any number of rounds.

The word has the values `Unlocked`, `Locked` and `Contended` of the source's enumeration
(`LockWord`).

## Main results

* `simulation`: the machine refines the sleeping lock.
* `not_stuck`: no stuck waiter under `SpinOk`.
-/

namespace Pman

open ContendedLock Function

/-- What resolves the choices of a step of one thread in the machines of the three mutexes. -/
inductive MutexChoice (ι : Type*)
  | lock
  | tryLock
  | unlock
  | go
  | giveUp
  /-- A weak compare-and-exchange fails although the word has the expected value. -/
  | failWeak
  | wake (u : Option ι)
  /-- The futex wait of a sleeping thread ends with this answer. -/
  | result (r : WaitResult)
  deriving DecidableEq

namespace FutexMutex

/-- The program points of a thread, named after the access it performs next. -/
inductive Pc
  | idle
  | lockCas
  | spinLoad
  /-- `lock`: the compare-and-exchange of the spin loop. -/
  | spinCas
  | exchange
  | futexWait
  | parked
  | tryCas
  | unlockExchange
  | futexWake
  deriving DecidableEq, Repr

structure State (ι : Type*) where
  state_ : LockWord
  pc : ι → Pc
  /-- The thread's last `lock` or `try_lock` succeeded and it has not released since (a history
  variable: the code does not record it). -/
  held : ι → Bool

section Machine

variable {ι : Type*} [DecidableEq ι]

def State.goto (s : State ι) (t : ι) (p : Pc) : State ι :=
  { s with pc := update s.pc t p }

/-- Thread `t` returns from `lock` or `try_lock` with the lock, having written `w`. -/
def State.acquire (s : State ι) (t : ι) (w : LockWord) : State ι :=
  ⟨w, update s.pc t .idle, update s.held t true⟩

/-- Where `lock` goes on after an answer of the futex wait: back to the spin loop with fresh
spins, or once more to the wait. -/
def afterWait (r : WaitResult) : Pc :=
  match futexWaitInternal false r with
  | .returns => .spinLoad
  | .retries => .futexWait
  | .throws _ => .idle

variable [Fintype ι]

def step (s : State ι) : ι × MutexChoice ι → Option (State ι)
  | (t, c) =>
    match s.pc t, c with
    | .idle, .lock => some (s.goto t .lockCas)
    | .idle, .tryLock => some (s.goto t .tryCas)
    | .idle, .unlock => some (s.goto t .unlockExchange)
    | .lockCas, .go =>
      some (if s.state_ = .unlocked then s.acquire t .locked else s.goto t .spinLoad)
    | .spinLoad, .go =>
      some (s.goto t (if s.state_ = .unlocked then .spinCas else .spinLoad))
    | .spinLoad, .giveUp => some (s.goto t .exchange)
    | .spinCas, .go =>
      some (if s.state_ = .unlocked then s.acquire t .locked else s.goto t .spinLoad)
    | .exchange, .go =>
      some (if s.state_ = .unlocked then s.acquire t .contended
        else { s.goto t .futexWait with state_ := .contended })
    | .futexWait, .go =>
      some (s.goto t (if s.state_ = .contended then .parked else afterWait (.error .EAGAIN)))
    | .parked, .result r =>
      if r.possible false then some (s.goto t (afterWait r)) else none
    | .tryCas, .go =>
      some (if s.state_ = .unlocked then s.acquire t .locked else s.goto t .idle)
    | .unlockExchange, .go =>
      some ⟨.unlocked,
        update s.pc t (if s.state_ = .contended then .futexWake else .idle),
        update s.held t false⟩
    | .futexWake, .wake none =>
      if ∀ u, s.pc u ≠ .parked then some (s.goto t .idle) else none
    | .futexWake, .wake (some u) =>
      if s.pc u = .parked then some ((s.goto t .idle).goto u (afterWait .woken)) else none
    | _, _ => none

/-- The machine, started with a fresh mutex and every thread outside. -/
def system (ι : Type*) [DecidableEq ι] [Fintype ι] :
    TransitionSystem (State ι) (ι × MutexChoice ι) where
  init s := s = ⟨.unlocked, fun _ => .idle, fun _ => false⟩
  step := step

end Machine

variable {ι : Type*}

/-- A thread is in the slow path of `lock` and awake, or about to issue the wake-up of
`unlock`. -/
def Pc.awake : Pc → Bool
  | .spinLoad | .spinCas | .exchange | .futexWait | .futexWake => true
  | _ => false

/-- **A stuck waiter**: the mutex is unlocked, every thread is outside the operations or parked,
and some thread is parked. -/
def Stuck (s : State ι) : Prop :=
  s.state_ = .unlocked ∧ (∀ t, s.pc t = .idle ∨ s.pc t = .parked) ∧ ∃ t, s.pc t = .parked

/-- The condition on the compare-and-exchange of the spin loop: it does not take the lock while
a thread is parked, unless another thread is awake in the slow path or about to issue a
wake-up. -/
def SpinOk (s : State ι) (a : ι × MutexChoice ι) : Prop :=
  s.pc a.1 = .spinCas → s.state_ = .unlocked → (∃ u, s.pc u = .parked) →
    ∃ u, u ≠ a.1 ∧ (s.pc u).awake = true

instance [Fintype ι] (s : State ι) : Decidable (Stuck s) :=
  inferInstanceAs (Decidable (_ ∧ _ ∧ _))

instance [Fintype ι] [DecidableEq ι] (s : State ι) (a : ι × MutexChoice ι) :
    Decidable (SpinOk s a) :=
  inferInstanceAs (Decidable (_ → _ → _ → _))

/-! ## Refinement of the three-word sleeping lock -/

def Pc.role : Pc → ContendedLock.Role
  | .idle | .lockCas | .tryCas | .unlockExchange => .out
  | .spinLoad | .spinCas | .exchange | .futexWait => .slow
  | .parked => .parked
  | .futexWake => .waking

def project (s : State ι) : ContendedLock.State ι := ContendedLock.view Pc.role s.state_ s.pc

@[simp] lemma role_eq_parked {p : Pc} : p.role = .parked ↔ p = .parked := by
  cases p <;> simp [Pc.role]

variable {p q : Pc} {s s' : State ι} {t : ι} {a : ι × MutexChoice ι}

lemma awake_iff_role : p.awake = true ↔ p.role = .slow ∨ p.role = .waking := by
  cases p <;> simp [Pc.role, Pc.awake]

variable {r : WaitResult}

lemma role_afterWait (h : r.possible false = true) : (afterWait r).role = .slow := by
  cases r with
  | woken => rfl
  | error e => cases e <;> first | rfl | simp [WaitResult.possible] at h

variable [DecidableEq ι] [Fintype ι]

open ContendedLock (Moves) in
/-- Every step under `SpinOk` is a step of the protocol or a stutter.

**Proof sketch.** By cases on the program point. The compare-and-exchanges grab the lock, the
exchange of the slow path marks the word, the futex wait parks, the exchange of `unlock` frees
the lock and the futex wake wakes one thread; a failed first attempt enters the slow path, the
end of a sleep without a wake-up leaves it, and everything else is a stutter. -/
lemma moves_of_step (hok : SpinOk s a) (hst : step s a = some s') :
    Moves (project s) (project s') := by
  revert hst
  fun_cases step s a <;> rintro ⟨⟩
  -- the calls
  case case1 hpc | case2 hpc | case3 hpc | case6 hpc => exact moves_stutter hpc rfl
  -- `lock`: the first compare-and-exchange
  case case4 hpc =>
    split_ifs with hw
    · exact moves_grab_out hpc hw rfl rfl
    · exact moves_enter hpc rfl rfl
  -- `lock`: the spin loop
  case case5 hpc => split_ifs <;> exact moves_stutter hpc rfl
  case case7 hpc =>
    split_ifs with hw
    · refine moves_grab_slow hpc hw rfl rfl fun hparked => ?_
      obtain ⟨u, hu⟩ := hparked
      obtain ⟨v, hne, hv⟩ := hok hpc hw ⟨u, role_eq_parked.mp hu⟩
      exact ⟨v, hne, awake_iff_role.mp hv⟩
    · exact moves_stutter hpc rfl
  -- `lock`: the exchange with `Contended`
  case case8 hpc =>
    split_ifs with hw
    · exact moves_mark_unlocked hpc hw rfl rfl
    · exact moves_mark_taken hpc hw rfl rfl
  -- `lock`: the futex wait
  case case9 hpc =>
    split_ifs with hw
    · exact moves_park hpc hw rfl rfl
    · exact moves_stutter hpc rfl
  case case10 r hpc hr => exact moves_unpark hpc rfl (role_afterWait hr)
  -- `try_lock`
  case case12 hpc =>
    split_ifs with hw
    · exact moves_grab_out hpc hw rfl rfl
    · exact moves_stutter hpc rfl
  -- `unlock`
  case case13 hpc =>
    split_ifs with hw
    · exact moves_free_contended hpc hw rfl rfl
    · exact moves_free_quiet hpc hw rfl rfl
  case case14 hpc hnone =>
    exact moves_wakeOne_none hpc rfl rfl fun u hu => hnone u (role_eq_parked.mp hu)
  case case16 u hpc hu => exact moves_wakeOne_some hpc rfl rfl (role_eq_parked.mpr hu) rfl

/-- **The machine refines the three-word sleeping lock** along every run under `SpinOk`. -/
theorem simulation : Simulation (system ι) SpinOk (ContendedLock.system ι)
    ContendedLock.GrabOk project where
  init := by
    rintro s rfl
    rfl
  step _ _ _ hok hst := moves_of_step hok hst

/-- **No stuck waiter in runs under `SpinOk`**: if the spin loop never takes the lock as the
last awake thread of the slow path with somebody parked, no state reached is stuck. -/
theorem not_stuck (h : (system ι).ReachableWithin SpinOk s) : ¬ Stuck s :=
  not_stuck_of_view rfl rfl (simulation.reachableWithin h)

/-! ## Mutual exclusion -/

inductive Phase
  | outside
  | locking
  | trying
  | releasing
  | waking
  deriving DecidableEq, Repr

/-- The operation a program point belongs to; `unlock` has a part before its exchange and one
after it. -/
def Pc.phase : Pc → Phase
  | .idle => .outside
  | .lockCas | .spinLoad | .spinCas | .exchange | .futexWait | .parked => .locking
  | .tryCas => .trying
  | .unlockExchange => .releasing
  | .futexWake => .waking

/-- What a step can do to the phase of the thread that takes it and to its hold on the mutex. -/
inductive PhaseStep : Phase → Bool → Phase → Bool → Prop
  | call {b : Bool} {p : Phase} (hp : p = .locking ∨ p = .trying ∨ p = .releasing) :
      PhaseStep .outside b p b
  | stay {b : Bool} : PhaseStep .locking b .locking b
  | locked {b : Bool} : PhaseStep .locking b .outside true
  | tried {b : Bool} : PhaseStep .trying b .outside true
  | failed {b : Bool} : PhaseStep .trying b .outside b
  | released {b : Bool} {p : Phase} (hp : p = .waking ∨ p = .outside) :
      PhaseStep .releasing b p false
  | woke {b : Bool} : PhaseStep .waking b .outside b

omit [DecidableEq ι] [Fintype ι] in
lemma phase_afterWait (h : r.possible false = true) : (afterWait r).phase = .locking := by
  cases r with
  | woken => rfl
  | error e => cases e <;> first | rfl | simp [WaitResult.possible] at h

/-- The step from `s` to `s'` changes the phase and the hold of thread `t` as `PhaseStep` says,
and nobody else's. -/
def PhaseChange (s s' : State ι) (t : ι) : Prop :=
  PhaseStep (s.pc t).phase (s.held t) (s'.pc t).phase (s'.held t) ∧
    ∀ u, u ≠ t → (s'.pc u).phase = (s.pc u).phase ∧ s'.held u = s.held u

omit [Fintype ι] in
lemma phaseChange_update {b : Bool} {w : LockWord} (hpc : s.pc t = q)
    (h : PhaseStep q.phase (s.held t) p.phase b) :
    PhaseChange s ⟨w, update s.pc t p, update s.held t b⟩ t := by
  subst hpc
  refine ⟨by simpa using h, fun u hu => ?_⟩
  simp [hu]

omit [Fintype ι] in
lemma phaseChange_goto {w : LockWord} (hpc : s.pc t = q)
    (h : PhaseStep q.phase (s.held t) p.phase (s.held t)) :
    PhaseChange s ⟨w, update s.pc t p, s.held⟩ t := by
  have := phaseChange_update (w := w) hpc h
  rwa [update_eq_self] at this

lemma phaseChange_of_step (hst : step s a = some s') : PhaseChange s s' a.1 := by
  revert hst
  fun_cases step s a <;> rintro ⟨⟩
  case case1 hpc | case2 hpc | case3 hpc => exact phaseChange_goto hpc (.call (by simp [Pc.phase]))
  case case4 hpc | case7 hpc | case8 hpc =>
    split_ifs with hw
    · exact phaseChange_update hpc .locked
    · exact phaseChange_goto hpc .stay
  case case5 hpc | case9 hpc => split_ifs <;> exact phaseChange_goto hpc .stay
  case case6 hpc => exact phaseChange_goto hpc .stay
  case case10 r hpc hr => exact phaseChange_goto hpc (by rw [phase_afterWait hr]; exact .stay)
  case case12 hpc =>
    split_ifs with hw
    · exact phaseChange_update hpc .tried
    · exact phaseChange_goto hpc .failed
  case case13 hpc =>
    split_ifs with hw
    · exact phaseChange_update hpc (.released (.inl rfl))
    · exact phaseChange_update hpc (.released (.inr rfl))
  case case14 hpc hnone => exact phaseChange_goto hpc .woke
  case case16 t u hpc hu =>
    have hut : u ≠ t := by
      rintro rfl
      simp [hpc] at hu
    have hgo : PhaseChange s (s.goto t .idle) t := phaseChange_goto hpc .woke
    -- the thread that is woken stays in `lock`
    have hsame : ∀ v, (((s.goto t .idle).goto u (afterWait .woken)).pc v).phase =
        ((s.goto t .idle).pc v).phase := by
      intro v
      by_cases hv : v = u
      · subst hv
        simp [State.goto, hut, hu, afterWait, futexWaitInternal, Pc.phase]
      · simp [State.goto, hv]
    refine ⟨?_, fun v hv => ?_⟩
    · rw [hsame]
      exact hgo.1
    · rw [hsame]
      exact hgo.2 v hv

/-- At most one thread holds the mutex, and the word says whether one does. -/
structure Exclusive (s : State ι) : Prop where
  unique : ∀ t u, s.held t = true → s.held u = true → t = u
  word : s.state_ = .unlocked ↔ ∀ t, s.held t = false

omit [DecidableEq ι] [Fintype ι] in
lemma Exclusive.congr (h : Exclusive s) (hw : s'.state_ = s.state_) (hh : s'.held = s.held) :
    Exclusive s' :=
  ⟨by rw [hh]; exact h.unique, by rw [hw, hh]; exact h.word⟩

omit [Fintype ι] in
lemma Exclusive.acquire (h : Exclusive s) (hw : s.state_ = .unlocked) (t : ι) {w : LockWord}
    (hne : w ≠ .unlocked) : Exclusive (s.acquire t w) := by
  have hnone := h.word.mp hw
  have hiff : ∀ u, (s.acquire t w).held u = true ↔ u = t := by
    intro u
    by_cases hu : u = t
    · subst hu; simp [State.acquire]
    · simp [State.acquire, hu, hnone u]
  refine ⟨fun a b ha hb => ?_, ?_⟩
  · rw [(hiff a).mp ha, (hiff b).mp hb]
  · constructor
    · intro heq
      exact absurd heq hne
    · intro hall
      have := (hiff t).mpr rfl
      simp [hall t] at this

/-- **Mutual exclusion, one step**: if only a holder performs the exchange of `unlock`, the step
keeps the mutex exclusive.

**Proof sketch.** The lock is taken only when the word is unlocked, that is when nobody holds it.
The exchange of `unlock` clears the only hold there is. No other step changes a hold or takes
the word to or from unlocked. -/
lemma Exclusive.step (h : Exclusive s) (hrel : (s.pc a.1).phase = .releasing → s.held a.1 = true)
    (hst : FutexMutex.step s a = some s') : Exclusive s' := by
  revert hst
  fun_cases FutexMutex.step s a <;> rintro ⟨⟩
  case case4 | case7 | case12 =>
    split_ifs with hw
    · exact h.acquire hw _ (by simp)
    · exact h.congr rfl rfl
  case case8 =>
    split_ifs with hw
    · exact h.acquire hw _ (by simp)
    · -- the word goes from locked or contended to contended
      refine ⟨h.unique, ?_⟩
      have := h.word
      simp only [hw, false_iff] at this
      simpa [State.goto] using this
  case case13 t hpc =>
    have ht : s.held t = true := hrel (by rw [hpc]; rfl)
    have hnone : ∀ u, update s.held t false u = false :=
      (forall_update_iff s.held fun _ held => held = false).mpr ⟨rfl, fun u hu =>
        Bool.eq_false_iff.mpr fun hne => hu (h.unique u t hne ht)⟩
    exact ⟨fun a b ha _ => by simp [hnone a] at ha, by simpa using hnone⟩
  all_goals exact h.congr rfl rfl

end FutexMutex

end Pman
