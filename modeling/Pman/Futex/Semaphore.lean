import Pman.Lib.PermitPool
import Pman.Futex.Syscall

set_option autoImplicit false

/-!
# `FutexSemaphore`

The counting semaphore of `semaphore.cpp`. `acquire`, `try_acquire` and `try_acquire_for` take a
permit by compare-and-exchange; the first and the last sleep on the count while there is none, and
are counted in `waiters_` around their sleep. `release` adds permits and wakes at most as many
threads as `waiters_` counts, among them threads that do not sleep yet or no longer.

## Main results

* `simulation`: the machine refines the pool of permits.
* `conserves_permits`: conservation, and no stuck sleeper.
-/

namespace Pman.FutexSemaphore

open PermitPool

/-- How the system call that a thread sleeps in ends: with an answer, or with `EINVAL` for a timeout
that is not valid. -/
inductive Answer
  | result (r : WaitResult)
  | invalid
  deriving DecidableEq, Repr

inductive Exit
  /-- `acquire`, `try_acquire` or `try_acquire_for` returns; `acquire` drops the answer. -/
  | returned (b : Bool)
  | released
  | threw (message : String)
  deriving DecidableEq, Repr

/-- The two loops that take a permit: `try_acquire`, and `try_acquire_impl` with its timeout. -/
inductive Mode
  | tryAcquire
  | impl (timeout : Option Timespec)
  deriving DecidableEq, Repr

/-- The program points of a thread, named after the access it performs next. -/
inductive Pc
  | idle
  | load (m : Mode)
  | compareExchange (m : Mode) (current : Int32)
  /-- `try_acquire_impl`: the increment of `waiters_`. -/
  | addWaiter (timeout : Option Timespec)
  | reload (timeout : Option Timespec)
  /-- `try_acquire_impl`: the decrement of `waiters_` before the next round. -/
  | again (timeout : Option Timespec)
  | futexWait (timeout : Option Timespec) (current : Int32)
  | parked (timeout : Option Timespec)
  /-- `try_acquire_impl`: the decrement of `waiters_` after `futex_wait`. -/
  | subWaiter (timeout : Option Timespec) (answer : Answer)
  | fetchAdd (count : Int32)
  | loadWaiters (count : Int32)
  | futexWake (count : ℤ)
  | exits (x : Exit)
  deriving DecidableEq, Repr

inductive Choice (ι : Type*)
  | acquire
  | tryAcquire
  /-- Call `try_acquire_for` with a duration in nanoseconds. -/
  | tryAcquireFor (ns : ℤ)
  | release (count : Int32)
  | go
  /-- A weak compare-and-exchange fails although the count has the expected value. -/
  | failWeak
  /-- The futex wait of a sleeping thread ends with this answer. -/
  | result (r : WaitResult)
  | wake (W : Finset ι)

/-- The semaphore and its threads. The counter `waiters_` is an integer; for fewer than `2 ^ 31`
threads it stays in the range of an `int` (`waiters_lt`). -/
structure State (ι : Type*) where
  count_ : Int32
  waiters_ : ℤ
  pc : ι → Pc
  /-- The argument of the constructor (a history variable). -/
  initial : ℤ
  /-- How many permits have been acquired and released (history variables). -/
  acquired : ℕ
  released : ℤ

def new {ι : Type*} (initial_count : Int32) : Except String (State ι) :=
  if initial_count.toInt < 0 then .error "FutexSemaphore: initial count cannot be negative"
  else .ok ⟨initial_count, 0, fun _ => .idle, initial_count.toInt, 0, 0⟩

def Mode.after (m : Mode) (current : Int32) : Pc :=
  if 0 < current.toInt then .compareExchange m current
  else
    match m with
    | .tryAcquire => .exits (.returned false)
    | .impl timeout =>
      if timeout = some ⟨0, 0⟩ then .exits (.returned false) else .addWaiter timeout

def valid : Option Timespec → Bool
  | none => true
  | some ts => 0 ≤ ts.tv_sec ∧ 0 ≤ ts.tv_nsec ∧ ts.tv_nsec < 1000000000

def afterWait (timeout : Option Timespec) : Answer → Pc
  | .result (.error .ETIMEDOUT) => .exits (.returned false)
  | .result _ => .load (.impl timeout)
  | .invalid => .exits (.threw "futex_wait")

def Pc.isParked : Pc → Bool
  | .parked _ => true
  | _ => false

def Pc.wakeUp : Pc → Pc
  | .parked timeout => .subWaiter timeout (.result .woken)
  | p => p

def sleepers {ι : Type*} [Fintype ι] (pc : ι → Pc) : ℕ :=
  Census.total (fun p => p.isParked.toNat) pc

section Machine

variable {ι : Type*} [DecidableEq ι] [Fintype ι]

def State.goto (s : State ι) (t : ι) (p : Pc) : State ι :=
  { s with pc := Function.update s.pc t p }

def State.wake (s : State ι) (W : Finset ι) : State ι :=
  { s with pc := fun u => if u ∈ W then (s.pc u).wakeUp else s.pc u }

def step (s : State ι) : ι × Choice ι → Option (State ι)
  | (t, c) =>
    match s.pc t, c with
    | .idle, .acquire => some (s.goto t (.load (.impl none)))
    | .idle, .tryAcquire => some (s.goto t (.load .tryAcquire))
    | .idle, .tryAcquireFor ns =>
      some (s.goto t (.load (.impl (some (Timespec.ofNanoseconds ns)))))
    | .idle, .release count =>
      some (s.goto t (if count.toInt ≤ 0
        then .exits (.threw "FutexSemaphore::release: count must be positive")
        else .fetchAdd count))
    -- `try_acquire` and `try_acquire_impl`
    | .load m, .go => some (s.goto t (m.after s.count_))
    | .compareExchange m current, .go =>
      some (if s.count_ = current then
        { s.goto t (.exits (.returned true)) with
          count_ := current - 1
          acquired := s.acquired + 1 }
      else s.goto t (m.after s.count_))
    | .compareExchange m _, .failWeak => some (s.goto t (m.after s.count_))
    | .addWaiter timeout, .go =>
      some { s.goto t (.reload timeout) with waiters_ := s.waiters_ + 1 }
    | .reload timeout, .go =>
      some (s.goto t (if 0 < s.count_.toInt then .again timeout else .futexWait timeout s.count_))
    | .again timeout, .go =>
      some { s.goto t (.load (.impl timeout)) with waiters_ := s.waiters_ - 1 }
    | .futexWait timeout current, .go =>
      some (s.goto t (if valid timeout = false then .subWaiter timeout .invalid
        else if s.count_ = current then .parked timeout
        else .subWaiter timeout (.result (.error .EAGAIN))))
    | .parked timeout, .result r =>
      if r.possible timeout.isSome then some (s.goto t (.subWaiter timeout (.result r))) else none
    | .subWaiter timeout answer, .go =>
      some { s.goto t (afterWait timeout answer) with waiters_ := s.waiters_ - 1 }
    -- `release`
    | .fetchAdd count, .go =>
      some { s.goto t (if s.count_.toInt < 0
          then .exits (.threw "FutexSemaphore::release: semaphore count underflow")
          else .loadWaiters count) with
        count_ := s.count_ + count
        released := s.released + count.toInt }
    | .loadWaiters count, .go =>
      some (s.goto t (if 0 < s.waiters_ then .futexWake (min count.toInt s.waiters_)
        else .exits .released))
    | .futexWake count, .wake W =>
      if (∀ u ∈ W, (s.pc u).isParked = true) ∧ W.card = min count.toNat (sleepers s.pc) then
        some ((s.wake W).goto t (.exits .released))
      else none
    | .exits _, .go => some (s.goto t .idle)
    | _, _ => none

/-- The machine, started with a fresh semaphore and every thread outside. -/
def system (ι : Type*) [DecidableEq ι] [Fintype ι] :
    TransitionSystem (State ι) (ι × Choice ι) where
  init s := ∃ initial_count, new initial_count = .ok s
  step := step

end Machine

variable {ι : Type*}

/-- **A stuck sleeper**: a permit is there, every thread is outside the operations or asleep, and
some thread sleeps. -/
def Stuck (s : State ι) : Prop :=
  0 < s.count_.toInt ∧ (∀ t, s.pc t = .idle ∨ (s.pc t).isParked = true) ∧
    ∃ t, (s.pc t).isParked = true

/-- The permits a thread is about to add do not take the total to `2 ^ 31`. -/
def Pc.mayAdd (total : ℤ) : Pc → Bool
  | .fetchAdd count => total + count.toInt < 2 ^ 31
  | _ => true

/-- The condition on `release`: the initial count and all permits released stay below `2 ^ 31`. -/
def TotalOk (s : State ι) (a : ι × Choice ι) : Prop :=
  (s.pc a.1).mayAdd (s.initial + s.released) = true
  deriving Decidable

/-! ## The books -/

def Pc.counted : Pc → ℕ
  | .reload _ | .again _ | .futexWait _ _ | .parked _ | .subWaiter _ _ => 1
  | _ => 0

/-- What a thread has read or was called with, at each of its program points. -/
def Pc.Fits : Pc → Prop
  | .compareExchange _ current => 0 < current.toInt
  | .futexWait _ current => current.toInt ≤ 0
  | .fetchAdd count | .loadWaiters count => 0 < count.toInt
  | _ => True

lemma isParked_le_counted (p : Pc) : p.isParked.toNat ≤ p.counted := by
  cases p <;> simp [Pc.isParked, Pc.counted]

lemma after_spec (m : Mode) (current : Int32) :
    (m.after current).counted = 0 ∧ (m.after current).Fits := by
  unfold Mode.after
  split_ifs with hpos
  · exact ⟨rfl, hpos⟩
  · cases m with
    | tryAcquire => exact ⟨rfl, trivial⟩
    | impl timeout =>
      dsimp only
      split_ifs <;> exact ⟨rfl, trivial⟩

lemma afterWait_spec (timeout : Option Timespec) (answer : Answer) :
    (afterWait timeout answer).counted = 0 ∧ (afterWait timeout answer).Fits := by
  unfold afterWait
  split <;> exact ⟨rfl, trivial⟩

lemma counted_wakeUp (p : Pc) : p.wakeUp.counted = p.counted := by
  cases p <;> rfl

variable {p q : Pc} {c : Int32} {s : State ι} {t : ι}

lemma Pc.Fits.wakeUp (h : p.Fits) : p.wakeUp.Fits := by
  cases p <;> exact h

lemma toInt_sub_one (h : 0 < c.toInt) : (c - 1).toInt = c.toInt - 1 := by
  have hlt := c.toInt_lt
  rw [Int32.toInt_sub]
  apply Int.bmod_eq_of_le <;> simp <;> omega

lemma toInt_add {n : Int32} (hc : 0 ≤ c.toInt) (hn : 0 < n.toInt)
    (hlt : c.toInt + n.toInt < 2 ^ 31) : (c + n).toInt = c.toInt + n.toInt := by
  rw [Int32.toInt_add]
  apply Int.bmod_eq_of_le <;> omega

variable [Fintype ι]

/-- The invariant: permits are conserved, and `waiters_` counts. -/
structure Balanced (s : State ι) : Prop where
  nonneg : 0 ≤ s.count_.toInt
  conserved : s.count_.toInt + s.acquired = s.initial + s.released
  counted : s.waiters_ = Census.total Pc.counted s.pc
  fits : ∀ t, (s.pc t).Fits

variable {s' : State ι} {a : ι × Choice ι}

section Steps

variable [DecidableEq ι]

lemma Balanced.move (h : Balanced s) (hpc : s.pc t = q) {w : ℤ} (hp : p.Fits)
    (hw : w + q.counted = s.waiters_ + p.counted) :
    Balanced { s.goto t p with waiters_ := w } := by
  subst hpc
  have hcount := Census.total_update Pc.counted s.pc t p
  have hold := h.counted
  refine ⟨h.nonneg, h.conserved, ?_,
    (Function.forall_update_iff s.pc _).mpr ⟨hp, fun u _ => h.fits u⟩⟩
  simp only [State.goto]
  omega

lemma Balanced.goto (h : Balanced s) (hpc : s.pc t = q) (hp : p.Fits) (hw : p.counted = q.counted) :
    Balanced (s.goto t p) :=
  h.move hpc hp (by rw [hw])

omit [DecidableEq ι] in
lemma Balanced.exchange (h : Balanced s) {c : Int32} {acquired : ℕ} {released : ℤ}
    (hnonneg : 0 ≤ c.toInt) (hconserved : c.toInt + acquired = s.initial + released) :
    Balanced { s with count_ := c, acquired := acquired, released := released } :=
  ⟨hnonneg, hconserved, h.counted, h.fits⟩

omit [DecidableEq ι] in
lemma Balanced.toInt_fetchAdd (h : Balanced s) {c : Choice ι} {count : Int32}
    (hpc : s.pc t = .fetchAdd count) (hok : TotalOk s (t, c)) :
    (s.count_ + count).toInt = s.count_.toInt + count.toInt := by
  have hfits := h.fits t
  have hconserved := h.conserved
  rw [TotalOk, hpc] at hok
  rw [hpc] at hfits
  have hlt : s.initial + s.released + count.toInt < 2 ^ 31 := of_decide_eq_true hok
  exact toInt_add h.nonneg hfits (by omega)

lemma Balanced.wake (h : Balanced s) (W : Finset ι) : Balanced (s.wake W) := by
  have hsame : Census.total Pc.counted (s.wake W).pc = Census.total Pc.counted s.pc := by
    refine Finset.sum_congr rfl fun u _ => ?_
    simp only [State.wake]
    split_ifs
    · exact counted_wakeUp _
    · rfl
  refine ⟨h.nonneg, h.conserved, ?_, fun u => ?_⟩
  · rw [hsame]
    exact h.counted
  · simp only [State.wake]
    split_ifs
    · exact (h.fits u).wakeUp
    · exact h.fits u

lemma Balanced.step (h : Balanced s) (hok : TotalOk s a)
    (hst : step s a = some s') : Balanced s' := by
  have hfits := h.fits a.1
  have hconserved := h.conserved
  revert hst
  fun_cases FutexSemaphore.step s a <;> rintro ⟨⟩ <;> rename s.pc _ = _ => hpc <;>
    rw [hpc] at hfits
  -- the calls
  case case1 | case2 | case3 | case19 => exact h.goto hpc trivial rfl
  case case4 =>
    split_ifs with hcount
    · exact h.goto hpc trivial rfl
    · exact h.goto hpc (not_le.mp hcount) rfl
  -- the loop
  case case5 m | case7 m _ => exact h.goto hpc (after_spec m _).2 (after_spec m _).1
  case case6 m current =>
    split_ifs with heq
    · have hcurrent : 0 < current.toInt := hfits
      have hsub := toInt_sub_one hcurrent
      rw [heq] at hconserved
      refine (h.goto (p := .exits (.returned true)) hpc trivial rfl).exchange (by omega) ?_
      simp only [State.goto]
      omega
    · exact h.goto hpc (after_spec m _).2 (after_spec m _).1
  -- around the sleep
  case case8 | case10 => exact h.move hpc trivial (by simp [Pc.counted])
  case case9 =>
    split_ifs with hpos
    · exact h.goto hpc trivial rfl
    · exact h.goto hpc (not_lt.mp hpos) rfl
  case case11 | case16 => split_ifs <;> exact h.goto hpc trivial rfl
  case case12 => exact h.goto hpc trivial rfl
  case case14 timeout answer =>
    obtain ⟨hcounted, hp⟩ := afterWait_spec timeout answer
    exact h.move hpc hp (by rw [hcounted]; simp [Pc.counted])
  -- `release`
  case case15 count =>
    have hcount : 0 < count.toInt := hfits
    have hadd := h.toInt_fetchAdd hpc hok
    have hnonneg := h.nonneg
    rw [if_neg (not_lt.mpr hnonneg)]
    refine (h.goto (p := .loadWaiters count) hpc hfits rfl).exchange (by omega) ?_
    simp only [State.goto]
    omega
  case case17 W hW =>
    refine (h.wake W).goto rfl trivial ?_
    simp only [State.wake]
    split_ifs <;> simp [hpc, Pc.wakeUp, Pc.counted]

/-- The semaphore is balanced in every run under `TotalOk`. -/
theorem balanced_of_reachable (h : (system ι).ReachableWithin TotalOk s) : Balanced s := by
  refine h.invariant ?_ fun s a s' hI hok hst => hI.step hok hst
  rintro s ⟨initial_count, hnew⟩
  unfold new at hnew
  split_ifs at hnew with hneg
  obtain rfl := Except.ok.inj hnew
  refine ⟨not_lt.mp hneg, by simp, ?_, fun _ => trivial⟩
  have hzero : Census.total Pc.counted (fun _ : ι => Pc.idle) = 0 :=
    Census.total_eq_zero fun _ => rfl
  simp [hzero]

/-- **`waiters_` stays in the range of an `int`** with fewer than `2 ^ 31` threads: it counts no
thread twice. -/
lemma waiters_lt (h : (system ι).ReachableWithin TotalOk s) (hcard : Fintype.card ι < 2 ^ 31) :
    0 ≤ s.waiters_ ∧ s.waiters_ < 2 ^ 31 := by
  have hone : ∀ p : Pc, p.counted ≤ 1 := by
    intro p
    cases p <;> simp [Pc.counted]
  have hle : Census.total Pc.counted s.pc ≤ Fintype.card ι := by
    refine (Census.total_le_total hone s.pc).trans ?_
    simp [Census.total]
  rw [(balanced_of_reachable h).counted]
  omega

end Steps

/-! ## Sleepers -/

def Answer.retries : Answer → Bool
  | .result (.error .ETIMEDOUT) | .invalid => false
  | .result _ => true

def Pc.role : Pc → PermitPool.Role
  | .load _ | .compareExchange _ _ | .again _ => .trying
  | .subWaiter _ answer => if answer.retries then .trying else .out
  | .parked _ => .parked
  | .loadWaiters count => .owing count.toInt.toNat
  | .futexWake count => .owing count.toNat
  | _ => .out

def project (s : State ι) : PermitPool.State ι :=
  PermitPool.view Pc.role s.count_.toInt.toNat s.pc

lemma sleeps_role (p : Pc) : p.role.sleeps = p.isParked.toNat := by
  cases p with
  | subWaiter timeout answer =>
    simp only [Pc.role, Pc.isParked]
    split_ifs <;> rfl
  | _ => rfl

lemma role_eq_parked : p.role = .parked ↔ p.isParked = true := by
  have hsleeps := sleeps_role p
  constructor
  · intro h
    rw [h] at hsleeps
    cases hp : p.isParked <;> simp [hp, PermitPool.Role.sleeps] at hsleeps ⊢
  · intro h
    cases p <;> simp [Pc.isParked] at h ⊢
    rfl

lemma role_afterWait (timeout : Option Timespec) (answer : Answer) :
    (afterWait timeout answer).role = (Pc.subWaiter timeout answer).role := by
  cases answer with
  | invalid => rfl
  | result r =>
    cases r with
    | woken => rfl
    | error e => cases e <;> rfl

lemma total_sleeps (pc : ι → Pc) :
    Census.total (PermitPool.Role.sleeps ∘ Pc.role) pc = sleepers pc :=
  Finset.sum_congr rfl fun t _ => sleeps_role (pc t)

lemma Balanced.sleepers_le (h : Balanced s) : (sleepers s.pc : ℤ) ≤ s.waiters_ := by
  rw [h.counted]
  exact_mod_cast Census.total_le_total isParked_le_counted s.pc

variable [DecidableEq ι]

lemma moves_after (hpc : s.pc t = q) (hq : q.role = .trying) (m : Mode) :
    PermitPool.Moves (project s) (project (s.goto t (m.after s.count_))) := by
  unfold Mode.after
  by_cases hpos : 0 < s.count_.toInt
  · rw [if_pos hpos]
    exact moves_stutter hpc hq.symm
  · rw [if_neg hpos]
    have hzero : s.count_.toInt.toNat = 0 := Int.toNat_eq_zero.mpr (not_lt.mp hpos)
    simp only [project, State.goto, hzero]
    refine moves_quit hpc hq ?_
    cases m with
    | tryAcquire => rfl
    | impl timeout =>
      dsimp only
      split_ifs <;> rfl

lemma moves_of_step (h : Balanced s) (hok : TotalOk s a)
    (hst : step s a = some s') : PermitPool.Moves (project s) (project s') := by
  have hfits := h.fits a.1
  revert hst
  fun_cases step s a <;> rintro ⟨⟩ <;> rename s.pc _ = _ => hpc <;>
    rw [hpc] at hfits
  -- the calls
  case case1 | case2 | case3 => exact moves_enter hpc rfl rfl
  case case4 => split_ifs <;> exact moves_stutter hpc rfl
  -- the loop
  case case5 m | case7 m _ => exact moves_after hpc rfl m
  case case6 m current =>
    split_ifs with heq
    · have hcurrent : 0 < current.toInt := hfits
      have hpermits : s.count_.toInt.toNat = (current - 1).toInt.toNat + 1 := by
        rw [heq, toInt_sub_one hcurrent]
        omega
      simp only [project, State.goto, hpermits]
      exact moves_take hpc rfl rfl
    · exact moves_after hpc rfl m
  -- around the sleep
  case case8 | case10 | case19 => exact moves_stutter hpc rfl
  case case9 =>
    split_ifs
    · exact moves_enter hpc rfl rfl
    · exact moves_stutter hpc rfl
  case case11 current =>
    split_ifs with hvalid heq
    · exact moves_stutter hpc rfl
    · have hzero : s.count_.toInt.toNat = 0 := by
        rw [heq]
        exact Int.toNat_eq_zero.mpr hfits
      simp only [project, State.goto, hzero]
      exact moves_park hpc rfl rfl
    · exact moves_enter hpc rfl rfl
  case case12 =>
    refine moves_unpark hpc rfl ?_
    simp only [Pc.role]
    split_ifs
    · exact .inl rfl
    · exact .inr rfl
  case case14 timeout answer => exact moves_stutter hpc (role_afterWait timeout answer)
  -- `release`
  case case15 count =>
    have hcount : 0 < count.toInt := hfits
    have hadd := h.toInt_fetchAdd hpc hok
    have hnonneg := h.nonneg
    rw [if_neg (not_lt.mpr hnonneg)]
    have hpermits : (s.count_ + count).toInt.toNat = s.count_.toInt.toNat + count.toInt.toNat := by
      omega
    simp only [project, State.goto, hpermits]
    exact moves_add hpc rfl rfl
  case case16 =>
    have hle := h.sleepers_le
    split_ifs with hpos
    · refine moves_settle hpc rfl rfl ?_
      rw [total_sleeps]
      omega
    · refine moves_wake (W := ∅) hpc rfl rfl (by simp) (fun _ _ => rfl) ?_
      rw [total_sleeps, Finset.card_empty]
      omega
  case case17 W hW =>
    refine moves_wake (W := W) hpc rfl rfl (fun u hu => ?_)
      (fun u hu => if_neg hu) ?_
    · have hparked := hW.1 u hu
      refine ⟨role_eq_parked.mpr hparked, ?_⟩
      simp only [State.wake, if_pos hu]
      cases hu' : s.pc u <;> simp [hu', Pc.isParked] at hparked
      rfl
    · rw [total_sleeps]
      exact hW.2

/-- **The machine refines the pool of permits** along every run under `TotalOk`. -/
theorem simulation : Simulation (system ι) (fun s a => TotalOk s a ∧ Balanced s)
    (PermitPool.system ι) (fun _ _ => True) project where
  init := by
    rintro s ⟨initial_count, hnew⟩ t
    unfold new at hnew
    split_ifs at hnew
    obtain rfl := Except.ok.inj hnew
    rfl
  step _ _ _ h hst := (moves_of_step h.2 h.1 hst).imp_right fun ⟨b, hb⟩ => ⟨b, trivial, hb⟩

/-- **The semaphore conserves permits and leaves nobody stuck**: while the initial count and the
released permits stay below `2 ^ 31`, the count is never negative, no more permits are acquired than
there were, and no thread sleeps in front of a permit that only sleepers are left to take. -/
theorem conserves_permits {s : State ι} (h : (system ι).ReachableWithin TotalOk s) :
    0 ≤ s.count_.toInt ∧ (s.acquired : ℤ) ≤ s.initial + s.released ∧ ¬ Stuck s := by
  have hbalanced := balanced_of_reachable h
  have hnonneg := hbalanced.nonneg
  have hconserved := hbalanced.conserved
  refine ⟨hnonneg, by omega, ?_⟩
  rintro ⟨hpos, hall, t, ht⟩
  have hview := simulation.reachableWithin (h.and_of fun s => balanced_of_reachable)
  refine not_stuck_of_view hview ⟨by omega, fun u => ?_, t, role_eq_parked.mpr ht⟩
  rcases hall u with hu | hu
  · exact .inl (congrArg Pc.role hu)
  · exact .inr (role_eq_parked.mpr hu)

theorem conserves_permits_handOver :
    ∃ s : State (Fin 2), (system (Fin 2)).ReachableWithin TotalOk s ∧
      s.acquired = 1 ∧ s.released = 1 ∧
      0 ≤ s.count_.toInt ∧ (s.acquired : ℤ) ≤ s.initial + s.released ∧ ¬ Stuck s := by
  have hs : (system (Fin 2)).ReachableWithin TotalOk _ := .final ⟨0, 0, fun _ => .idle, 0, 0, 0⟩
      [(1, .acquire), (1, .go), (1, .go), (1, .go), (1, .go), (0, .release 1), (0, .go), (0, .go),
        (0, .wake {1}), (1, .go), (1, .go), (1, .go)] ⟨0, rfl⟩ (by decide +kernel)
  exact ⟨_, hs, by decide +kernel, by decide +kernel, conserves_permits hs⟩

end Pman.FutexSemaphore
