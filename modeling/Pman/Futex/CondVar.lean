import Pman.Futex.Mutex

set_option autoImplicit false

/-!
# `FutexCondVar` and the functions that wait under a `FutexLockGuard`

The condition variable of `futex.cpp` on top of the machine of `FutexMutex`: `wait` and `wait_for`
read the sequence word, release the mutex, sleep on the word and take the mutex again; `notify_one`
and `notify_all` increment the word and wake sleepers. Threads use a mutex and any number of
condition variables, directly or through functions that hold a `FutexLockGuard` (`Monitor`).

`futex_wait_internal` passes a timeout on as an exception, between the release of the mutex and the
`mutex.lock()` that follows it.

## Main results

* `consistent_of_reachable`: every program point is right about the mutex.
* `throws_of_timeout`: a timeout throws without the mutex.
-/

namespace Pman

inductive OuterStep (π l ρ : Type)
  | goto (p : π)
  | guard (p : l)
  | leave (r : ρ)

inductive InnerStep (κ l ρ : Type)
  | goto (p : l)
  /-- `wait`, or `wait_for` with a duration in nanoseconds. -/
  | wait (cv : κ) (duration : Option ℤ) (p : l)
  | notifyAll (cv : κ) (p : l)
  | leave (r : ρ)

/-- Functions of a class with one `FutexMutex`, some condition variables and shared data. Every
step reads an input, such as the clock. -/
structure Monitor where
  Cv : Type
  Data : Type
  Input : Type
  /-- The program points before the guard is constructed. -/
  Outer : Type
  Inner : Type
  Result : Type
  fresh : Data → Prop
  outer : Outer → Input → Data → OuterStep Outer Inner Result × Data
  inner : Inner → Input → Data → InnerStep Cv Inner Result × Data

namespace FutexCondVar

inductive Exit
  | returned (notified : Bool)
  | threw (e : Errno)
  deriving DecidableEq, Repr

/-- The program points of a thread. The calls of `wait` and `notify` carry the point under the
guard where their caller goes on, if they were called under one. -/
inductive Pc (M : Monitor)
  | outside
  /-- In a call of `lock`, `try_lock` or `unlock` of its own. -/
  | direct
  | outer (p : M.Outer)
  | guardLocking (p : M.Inner)
  | inner (p : M.Inner)
  | guardUnlocking (r : Except Errno M.Result)
  | waitLoad (cv : M.Cv) (timeout : Option Timespec) (caller : Option M.Inner)
  | unlocking (cv : M.Cv) (timeout : Option Timespec) (seq : BitVec 32) (caller : Option M.Inner)
  | futexWait (cv : M.Cv) (timeout : Option Timespec) (seq : BitVec 32) (caller : Option M.Inner)
  | parked (cv : M.Cv) (timeout : Option Timespec) (seq : BitVec 32) (caller : Option M.Inner)
  /-- `futex_wait_internal`: the system call has returned. -/
  | answered (cv : M.Cv) (timeout : Option Timespec) (seq : BitVec 32) (caller : Option M.Inner)
      (r : WaitResult)
  | relocking (cv : M.Cv) (seq : BitVec 32) (caller : Option M.Inner)
  | reload (cv : M.Cv) (seq : BitVec 32) (caller : Option M.Inner)
  | exited (x : Exit) (caller : Option M.Inner)
  /-- `notify_one` or `notify_all`: the increment of `seq_`. -/
  | notifyAdd (cv : M.Cv) (all : Bool) (caller : Option M.Inner)
  /-- `notify_one` or `notify_all`: the call of `futex_wake_internal`. -/
  | notifyWake (cv : M.Cv) (all : Bool) (caller : Option M.Inner)

/-- The mutex, the condition variables, the data and the threads. -/
structure State (M : Monitor) (ι : Type*) where
  mutex : FutexMutex.State ι
  seq_ : M.Cv → BitVec 32
  data : M.Data
  pc : ι → Pc M

inductive Choice (M : Monitor) (ι : Type*)
  | mutex (c : MutexChoice ι)
  | wait (cv : M.Cv) (duration : Option ℤ)
  | notify (cv : M.Cv) (all : Bool)
  | start (p : M.Outer)
  | run (input : M.Input)
  | go
  | wake (u : Option ι)
  | result (r : WaitResult)

section Machine

variable {M : Monitor} {ι : Type*} [DecidableEq ι]

/-- Where a thread goes on when its call of the mutex returns. -/
def Pc.afterMutex : Pc M → Option (Pc M)
  | .direct | .guardUnlocking _ => some .outside
  | .guardLocking p => some (.inner p)
  | .unlocking cv timeout seq caller => some (.futexWait cv timeout seq caller)
  | .relocking cv seq caller => some (.reload cv seq caller)
  | _ => none

def Pc.back : Option M.Inner → Pc M
  | none => .outside
  | some p => .inner p

/-- `FUTEX_WAKE` on the word of `cv` ends the sleep of a thread. -/
def Pc.wakeUp [DecidableEq M.Cv] (cv : M.Cv) : Pc M → Pc M
  | .parked cv' timeout seq caller =>
    if cv' = cv then .answered cv' timeout seq caller .woken else .parked cv' timeout seq caller
  | p => p

def Pc.parkedOn [DecidableEq M.Cv] (cv : M.Cv) : Pc M → Bool
  | .parked cv' _ _ _ => cv' = cv
  | _ => false

/-- A thread calls the mutex only as a mutex may be called: it does not lock what it holds and
does not release what it does not hold. -/
def mayCall (held : Bool) : MutexChoice ι → Bool
  | .lock | .tryLock => !held
  | .unlock => held
  | _ => false

def State.goto (s : State M ι) (t : ι) (p : Pc M) : State M ι :=
  { s with pc := Function.update s.pc t p }

variable [Fintype ι]

def State.call (s : State M ι) (t : ι) (c : MutexChoice ι) (p : Pc M) : Option (State M ι) :=
  (FutexMutex.step s.mutex (t, c)).map fun m => { s.goto t p with mutex := m }

/-- Thread `t` takes a step in its call of the mutex; `q` is where it goes on once the call has
returned. -/
def State.mutexStep (s : State M ι) (t : ι) (c : MutexChoice ι) (q : Pc M) :
    Option (State M ι) :=
  (FutexMutex.step s.mutex (t, c)).map fun m =>
    { s.goto t (if m.pc t = .idle then q else s.pc t) with mutex := m }

def State.runOuter (s : State M ι) (t : ι) (p : M.Outer) (input : M.Input) : Option (State M ι) :=
  let r := M.outer p input s.data
  let s := { s with data := r.2 }
  match r.1 with
  | .goto p => some (s.goto t (.outer p))
  | .guard p => s.call t .lock (.guardLocking p)
  | .leave _ => some (s.goto t .outside)

def State.runInner (s : State M ι) (t : ι) (p : M.Inner) (input : M.Input) : Option (State M ι) :=
  let r := M.inner p input s.data
  let s := { s with data := r.2 }
  match r.1 with
  | .goto p => some (s.goto t (.inner p))
  | .wait cv duration p =>
    some (s.goto t (.waitLoad cv (duration.map Timespec.ofNanoseconds) (some p)))
  | .notifyAll cv p => some (s.goto t (.notifyAdd cv true (some p)))
  | .leave r => s.call t .unlock (.guardUnlocking (.ok r))

/-- What `wait_impl` does with the answer of the system call. -/
def State.classify (s : State M ι) (t : ι) (cv : M.Cv) (timeout : Option Timespec)
    (seq : BitVec 32) (caller : Option M.Inner) (r : WaitResult) : Option (State M ι) :=
  match futexWaitInternal timeout.isSome r with
  | .returns => s.call t .lock (.relocking cv seq caller)
  | .retries => some (s.goto t (.futexWait cv timeout seq caller))
  | .throws e => some (s.goto t (.exited (.threw e) caller))

variable [DecidableEq M.Cv]

def step (s : State M ι) : ι × Choice M ι → Option (State M ι)
  | (t, c) =>
    match s.pc t, c with
    -- calls
    | .outside, .mutex c => if mayCall (s.mutex.held t) c then s.call t c .direct else none
    | .outside, .wait cv duration =>
      if s.mutex.held t then
        some (s.goto t (.waitLoad cv (duration.map Timespec.ofNanoseconds) none))
      else none
    | .outside, .notify cv all => some (s.goto t (.notifyAdd cv all none))
    | .outside, .start p => if s.mutex.held t then none else some (s.goto t (.outer p))
    -- functions of the monitor
    | .outer p, .run input => s.runOuter t p input
    | .inner p, .run input => s.runInner t p input
    -- `wait_impl`
    | .waitLoad cv timeout caller, .go =>
      s.call t .unlock (.unlocking cv timeout (s.seq_ cv) caller)
    | .futexWait cv timeout seq caller, .go =>
      some (s.goto t (if s.seq_ cv = seq then .parked cv timeout seq caller
        else .answered cv timeout seq caller (.error .EAGAIN)))
    | .parked cv timeout seq caller, .result r =>
      if r.possible timeout.isSome then some (s.goto t (.answered cv timeout seq caller r))
      else none
    | .answered cv timeout seq caller r, .go => s.classify t cv timeout seq caller r
    | .reload cv seq caller, .go =>
      some (s.goto t (.exited (.returned (seq ≠ s.seq_ cv)) caller))
    | .exited (.returned _) caller, .go => some (s.goto t (.back caller))
    | .exited (.threw _) none, .go => some (s.goto t .outside)
    | .exited (.threw e) (some _), .go => s.call t .unlock (.guardUnlocking (.error e))
    -- `notify_one`, `notify_all`
    | .notifyAdd cv all caller, .go =>
      some { s.goto t (.notifyWake cv all caller) with
        seq_ := Function.update s.seq_ cv (s.seq_ cv + 1) }
    | .notifyWake cv true caller, .go =>
      some { s with pc := Function.update (fun u => (s.pc u).wakeUp cv) t (.back caller) }
    | .notifyWake cv false caller, .wake none =>
      if ∀ u, (s.pc u).parkedOn cv = false then some (s.goto t (.back caller)) else none
    | .notifyWake cv false caller, .wake (some u) =>
      if (s.pc u).parkedOn cv then
        some ((s.goto t (.back caller)).goto u ((s.pc u).wakeUp cv))
      else none
    -- inside `lock`, `try_lock` and `unlock`
    | p, .mutex c =>
      match p.afterMutex with
      | some q => s.mutexStep t c q
      | none => none
    | _, _ => none

/-- The machine, started with a fresh mutex, fresh condition variables and every thread
outside. -/
def system (M : Monitor) (ι : Type*) [DecidableEq ι] [Fintype ι] [DecidableEq M.Cv] :
    TransitionSystem (State M ι) (ι × Choice M ι) where
  init s := ∃ data, M.fresh data ∧
    s = ⟨⟨.unlocked, fun _ => .idle, fun _ => false⟩, fun _ => 0, data, fun _ => .outside⟩
  step := step

end Machine

/-! ## Who holds the mutex -/

open FutexMutex (Phase PhaseStep Exclusive)

/-- The condition on answers: no sleep ends with `ETIMEDOUT`. -/
def NoTimeout {M : Monitor} {ι : Type*} (_ : State M ι) (a : ι × Choice M ι) : Prop :=
  match a.2 with
  | .result r => r ≠ .error .ETIMEDOUT
  | _ => True

instance {M : Monitor} {ι : Type*} (s : State M ι) : ∀ a, Decidable (NoTimeout s a) := by
  rintro ⟨_, c⟩
  cases c <;> dsimp only [NoTimeout] <;> infer_instance

variable {M : Monitor} {ι : Type*}

/-- What a program point says about the thread's call of the mutex and its hold on it, as long
as no sleep times out. -/
def Pc.Fits : Pc M → Phase → Bool → Prop
  | .outside, phase, _ => phase = .outside
  | .direct, phase, held =>
    (phase = .locking ∨ phase = .trying) ∧ held = false ∨ phase = .releasing ∧ held = true ∨
      phase = .waking ∧ held = false
  | .outer _, phase, held => phase = .outside ∧ held = false
  | .guardLocking _, phase, held | .relocking _ _ _, phase, held =>
    phase = .locking ∧ held = false
  | .inner _, phase, held | .waitLoad _ _ _, phase, held | .reload _ _ _, phase, held =>
    phase = .outside ∧ held = true
  | .guardUnlocking _, phase, held | .unlocking _ _ _ _, phase, held =>
    phase = .releasing ∧ held = true ∨ phase = .waking ∧ held = false
  | .futexWait _ _ _ _, phase, held | .parked _ _ _ _, phase, held =>
    phase = .outside ∧ held = false
  | .answered _ _ _ _ r, phase, held =>
    phase = .outside ∧ held = false ∧ r ≠ .error .ETIMEDOUT
  | .exited x _, phase, held => phase = .outside ∧ held = true ∧ ∃ b, x = .returned b
  | .notifyAdd _ _ caller, phase, held | .notifyWake _ _ caller, phase, held =>
    phase = .outside ∧ (caller.isSome = true → held = true)

/-- The invariant: the mutex is exclusive and every thread's program point is right about its
hold. -/
structure Consistent (m : FutexMutex.State ι) (pc : ι → Pc M) : Prop where
  exclusive : Exclusive m
  fits : ∀ t, (pc t).Fits (m.pc t).phase (m.held t)

variable {p : Pc M} {held : Bool}

lemma Consistent.fits_of {m : FutexMutex.State ι} {pc : ι → Pc M} (h : Consistent m pc) {t : ι}
    (hpc : pc t = p) : p.Fits (m.pc t).phase (m.held t) :=
  hpc ▸ h.fits t

lemma Pc.Fits.held_of_releasing (h : p.Fits .releasing held) : held = true := by
  cases p <;> simp_all [Pc.Fits]

variable {caller : Option M.Inner}

lemma Pc.fits_back (h : caller.isSome = true → held = true) :
    (Pc.back caller).Fits .outside held := by
  cases caller with
  | none => rfl
  | some p => exact ⟨rfl, h rfl⟩

variable {phase : Phase}

lemma Pc.Fits.wakeUp [DecidableEq M.Cv] (h : p.Fits phase held) (cv : M.Cv) :
    (p.wakeUp cv).Fits phase held := by
  cases p with
  | parked cv' timeout seq caller =>
    simp only [Pc.wakeUp]
    split_ifs
    · exact ⟨h.1, h.2, by simp⟩
    · exact h
  | _ => exact h

variable {q : Pc M}

/-- **A step in a call of the mutex**: as long as the call lasts the program point stays right,
and when the call returns the next one is.

**Proof sketch.** By cases on what the mutex can do to the phase; the phases of the call do not
include `outside`. -/
lemma Pc.Fits.afterMutex {phase' : Phase} {held' : Bool} (hq : p.afterMutex = some q)
    (h : p.Fits phase held) (hstep : PhaseStep phase held phase' held') :
    (if phase' = .outside then q else p).Fits phase' held' := by
  cases p <;> simp only [Pc.afterMutex, Option.some.injEq, reduceCtorEq] at hq <;> subst hq <;>
    cases hstep <;> simp_all [Pc.Fits]
  all_goals
    rename_i hp
    rcases hp with rfl | rfl <;> simp

section Steps

variable [DecidableEq ι]

variable {t : ι} {p : Pc M} {c : MutexChoice ι} {s s' : State M ι}

variable {m : FutexMutex.State ι} {pc : ι → Pc M} {input : M.Input} {a : ι × Choice M ι}

lemma Consistent.update (h : Consistent m pc) (hp : p.Fits (m.pc t).phase (m.held t)) :
    Consistent m (Function.update pc t p) :=
  ⟨h.exclusive, (Function.forall_update_iff pc fun u p => p.Fits (m.pc u).phase (m.held u)).mpr
    ⟨hp, fun u _ => h.fits u⟩⟩

lemma Consistent.back (h : Consistent m pc)
    (hback : (m.pc t).phase = .outside ∧ (caller.isSome = true → m.held t = true)) :
    Consistent m (Function.update pc t (.back caller)) := by
  refine h.update ?_
  rw [hback.1]
  exact Pc.fits_back hback.2

variable [Fintype ι]

lemma Consistent.mutexUpdate {m' : FutexMutex.State ι} (h : Consistent m pc)
    (hst : FutexMutex.step m (t, c) = some m') (hp : p.Fits (m'.pc t).phase (m'.held t)) :
    Consistent m' (Function.update pc t p) := by
  refine ⟨h.exclusive.step (fun hrel => ?_) hst, (Function.forall_update_iff pc fun u p =>
    p.Fits (m'.pc u).phase (m'.held u)).mpr ⟨hp, fun u hu => ?_⟩⟩
  · have := h.fits t
    rw [hrel] at this
    exact this.held_of_releasing
  · obtain ⟨hphase, hheld⟩ := (FutexMutex.phaseChange_of_step hst).2 u hu
    rw [hphase, hheld]
    exact h.fits u

def calledPhase : MutexChoice ι → Phase
  | .lock => .locking
  | .tryLock => .trying
  | .unlock => .releasing
  | _ => .outside

omit [DecidableEq ι] [Fintype ι] in
lemma Pc.fits_direct (hc : mayCall held c = true) :
    (Pc.direct : Pc M).Fits (calledPhase c) held := by
  cases c <;> simp_all [mayCall, Pc.Fits, calledPhase]

section

variable (h : Consistent s.mutex s.pc)

include h

lemma Consistent.call (hst : s.call t c p = some s')
    (hc : mayCall (s.mutex.held t) c = true) (hidle : (s.mutex.pc t).phase = .outside)
    (hp : p.Fits (calledPhase c) (s.mutex.held t)) : Consistent s'.mutex s'.pc := by
  obtain ⟨m, hm, rfl⟩ := Option.map_eq_some_iff.mp hst
  have hpc : s.mutex.pc t = .idle := by
    cases hpc : s.mutex.pc t <;> simp [hpc, FutexMutex.Pc.phase] at hidle ⊢
  refine h.mutexUpdate hm ?_
  cases c <;> simp only [FutexMutex.step, hpc, Option.some.injEq] at hm <;>
    first | (subst hm; simpa [FutexMutex.State.goto, FutexMutex.Pc.phase, calledPhase] using hp)
          | simp [mayCall] at hc

lemma Consistent.mutexStep (hq : (s.pc t).afterMutex = some q)
    (hst : s.mutexStep t c q = some s') : Consistent s'.mutex s'.pc := by
  obtain ⟨m, hm, rfl⟩ := Option.map_eq_some_iff.mp hst
  refine h.mutexUpdate hm ?_
  have hidle : m.pc t = .idle ↔ (m.pc t).phase = .outside := by
    cases m.pc t <;> simp [FutexMutex.Pc.phase]
  simp only [hidle]
  exact (h.fits t).afterMutex hq (FutexMutex.phaseChange_of_step hm).1

lemma Consistent.runOuter {p : M.Outer} (hpc : s.pc t = .outer p)
    (hst : s.runOuter t p input = some s') : Consistent s'.mutex s'.pc := by
  have hfits := h.fits_of hpc
  simp only [State.runOuter] at hst
  split at hst <;> try cases hst
  · exact h.update hfits
  · exact Consistent.call (s := { s with data := (M.outer p input s.data).2 }) h hst
      (by simp [mayCall, hfits.2]) hfits.1 ⟨rfl, hfits.2⟩
  · exact h.update hfits.1

lemma Consistent.runInner {p : M.Inner} (hpc : s.pc t = .inner p)
    (hst : s.runInner t p input = some s') : Consistent s'.mutex s'.pc := by
  have hfits := h.fits_of hpc
  simp only [State.runInner] at hst
  split at hst <;> try cases hst
  · exact h.update hfits
  · exact h.update hfits
  · exact h.update ⟨hfits.1, fun _ => hfits.2⟩
  · exact Consistent.call (s := { s with data := (M.inner p input s.data).2 }) h hst
      (by simp [mayCall, hfits.2]) hfits.1 (.inl ⟨rfl, hfits.2⟩)

end

variable {cv : M.Cv} {seq : BitVec 32} {caller : Option M.Inner}

lemma Consistent.classify (h : Consistent s.mutex s.pc) {timeout : Option Timespec} {r : WaitResult}
    (hpc : s.pc t = .answered cv timeout seq caller r)
    (hst : s.classify t cv timeout seq caller r = some s') : Consistent s'.mutex s'.pc := by
  obtain ⟨hphase, hheld, hr⟩ := h.fits_of hpc
  unfold State.classify at hst
  split at hst
  · exact h.call hst (by simp [mayCall, hheld]) hphase ⟨rfl, hheld⟩
  · cases hst
    exact h.update ⟨hphase, hheld⟩
  case h_3 hthrows =>
    -- only a timeout throws
    cases r with
    | woken => simp [futexWaitInternal] at hthrows
    | error e =>
      cases e <;> simp [futexWaitInternal] at hthrows hr
      split_ifs at hthrows

variable [DecidableEq M.Cv]

lemma Consistent.step (h : Consistent s.mutex s.pc) (hok : NoTimeout s a)
    (hst : FutexCondVar.step s a = some s') : Consistent s'.mutex s'.pc := by
  revert hst
  fun_cases FutexCondVar.step s a <;> intro hst <;> try cases hst
  case case1 hpc hmay => exact h.call hst hmay (h.fits_of hpc) (Pc.fits_direct hmay)
  case case3 hpc hheld => exact h.update ⟨h.fits_of hpc, hheld⟩
  case case5 hpc => exact h.update ⟨h.fits_of hpc, by simp⟩
  case case7 hpc hheld => exact h.update ⟨h.fits_of hpc, by simpa using hheld⟩
  case case8 hpc => exact h.runOuter hpc hst
  case case9 hpc => exact h.runInner hpc hst
  case case10 hpc =>
    obtain ⟨hphase, hheld⟩ := h.fits_of hpc
    exact h.call hst (by simp [mayCall, hheld]) hphase (.inl ⟨rfl, hheld⟩)
  case case11 hpc =>
    obtain ⟨hphase, hheld⟩ := h.fits_of hpc
    refine h.update ?_
    split_ifs
    · exact ⟨hphase, hheld⟩
    · exact ⟨hphase, hheld, by simp⟩
  case case12 hpc _ =>
    obtain ⟨hphase, hheld⟩ := h.fits_of hpc
    exact h.update ⟨hphase, hheld, hok⟩
  case case14 hpc => exact h.classify hpc hst
  case case15 hpc =>
    obtain ⟨hphase, hheld⟩ := h.fits_of hpc
    exact h.update ⟨hphase, hheld, _, rfl⟩
  case case16 hpc =>
    obtain ⟨hphase, hheld, -⟩ := h.fits_of hpc
    exact h.back ⟨hphase, fun _ => hheld⟩
  case case17 hpc | case18 hpc =>
    -- no wait has thrown
    obtain ⟨_, _, b, hb⟩ := h.fits_of hpc
    cases hb
  case case19 hpc =>
    have hfits := h.fits_of hpc
    exact h.update hfits
  case case20 cv _ hpc =>
    have hwake : Consistent s.mutex fun u => (s.pc u).wakeUp cv :=
      ⟨h.exclusive, fun u => (h.fits u).wakeUp cv⟩
    exact hwake.back (h.fits_of hpc)
  case case21 hpc _ => exact h.back (h.fits_of hpc)
  case case23 hpc _ => exact (h.back (h.fits_of hpc)).update ((h.fits _).wakeUp _)
  case case25 hq => exact h.mutexStep hq hst

/-- **In runs without timeouts every program point is right about the mutex.** -/
theorem consistent_of_reachable (h : (system M ι).ReachableWithin NoTimeout s) :
    Consistent s.mutex s.pc := by
  refine h.invariant (I := fun s => Consistent s.mutex s.pc) ?_
    fun _ _ _ hs hok hst => hs.step hok hst
  rintro s ⟨data, -, rfl⟩
  exact ⟨⟨by simp, by simp⟩, fun _ => rfl⟩

/-- **The condition is exact**: wherever a thread sleeps with a timeout, the answer `ETIMEDOUT`
makes its wait exit by an exception, without the mutex. -/
theorem throws_of_timeout (h : (system M ι).ReachableWithin NoTimeout s) {timeout : Timespec}
    (hpc : s.pc t = .parked cv (some timeout) seq caller) :
    (system M ι).RunsTo (fun _ _ => True)
      (fun s' => s'.pc t = .exited (.threw .ETIMEDOUT) caller ∧ s'.mutex.held t = false) s
      [(t, .result (.error .ETIMEDOUT)), (t, .go)] := by
  have hfits := (consistent_of_reachable h).fits t
  rw [hpc] at hfits
  simp [TransitionSystem.RunsTo, system, FutexCondVar.step, hpc, WaitResult.possible, State.goto,
    State.classify, futexWaitInternal, hfits.2]

/-! ## The data of the monitor -/

omit [DecidableEq M.Cv] in
lemma State.data_of_call (hst : s.call t c p = some s') : s'.data = s.data := by
  obtain ⟨m, -, rfl⟩ := Option.map_eq_some_iff.mp hst
  rfl

/-- The data after a step: the code of the monitor changes it, and nothing else does. -/
def State.dataAfter (s : State M ι) : ι × Choice M ι → M.Data
  | (t, .run input) =>
    match s.pc t with
    | .outer p => (M.outer p input s.data).2
    | .inner p => (M.inner p input s.data).2
    | _ => s.data
  | _ => s.data

lemma data_of_step (hst : FutexCondVar.step s a = some s') : s'.data = s.dataAfter a := by
  revert hst
  fun_cases FutexCondVar.step s a <;> intro hst <;> try cases hst
  case case1 | case10 | case18 => exact State.data_of_call hst
  case case8 hpc =>
    simp only [State.dataAfter, hpc]
    simp only [State.runOuter] at hst
    split at hst <;> try cases hst
    · rfl
    · exact State.data_of_call hst
    · rfl
  case case9 hpc =>
    simp only [State.dataAfter, hpc]
    simp only [State.runInner] at hst
    split at hst <;> try cases hst
    · rfl
    · rfl
    · rfl
    · exact State.data_of_call hst
  case case14 =>
    unfold State.classify at hst
    split at hst <;> try cases hst
    · exact State.data_of_call hst
    · rfl
    · rfl
  case case25 =>
    obtain ⟨m, -, rfl⟩ := Option.map_eq_some_iff.mp hst
    rfl
  all_goals rfl

end Steps

end FutexCondVar

end Pman
