import Mathlib.Data.Fintype.Basic
import Pman.Lib.Gate
import Pman.Futex.Syscall

set_option autoImplicit false

/-!
# `FutexLatch`

The countdown latch of `latch.cpp`. `count_down(n)` subtracts `n` from the counter; if that takes
the counter to zero, it increments the sequence word and wakes all waiters. `wait` reads the
sequence word between two loads of the counter and sleeps on the word.

The subtraction comes before the check for underflow: a `count_down` that throws has changed the
counter already, and a counter that jumps past zero wakes nobody.

## Main results

* `simulation`: the latch is a gate.
* `sound_of_countOk`: nobody passes early or is left behind.
-/

namespace Pman.FutexLatch

open Function

/-- The arithmetic of `count_down`: the new counter, and whether it has come to zero. -/
def countDown (old n : Int64) : Int64 × Except String Bool :=
  if n.toInt < 0 then (old, .error "FutexLatch::count_down: n cannot be negative")
  else (old - n,
    if old = n then .ok true
    else if old.toInt < n.toInt then .error "FutexLatch::count_down: count underflow"
    else .ok false)

def tryWait (counter : Int64) : Bool := counter.toInt ≤ 0

inductive Exit
  | counted
  | waited
  | answer (b : Bool)
  | threw (message : String)
  deriving DecidableEq, Repr

/-- The program points of a thread, named after the access it performs next. `waits` says that the
call is one of `arrive_and_wait`. -/
inductive Pc
  | idle
  | fetchSub (n : Int64) (waits : Bool)
  /-- `count_down`: the increment of the sequence word. -/
  | fetchAdd (waits : Bool)
  | futexWakeAll (waits : Bool)
  | tryLoad
  | load
  | loadSeq
  | reload (seq : BitVec 32)
  | futexWait (seq : BitVec 32)
  | parked (seq : BitVec 32)
  | exits (x : Exit)

inductive Choice
  | countDown (n : Int64) (waits : Bool)
  | wait
  | tryWait
  | go
  /-- The futex wait of a sleeping thread ends with this answer. -/
  | result (r : WaitResult)

structure State (ι : Type*) where
  counter_ : Int64
  futex_ : BitVec 32
  pc : ι → Pc
  /-- The counter at each return of `wait` or `arrive_and_wait` (a history variable). -/
  returned : List (Int64)
  /-- The counter before and after each `count_down` that threw (a history variable). -/
  rejected : List (Int64 × Int64)

def new {ι : Type*} (expected : Int64) : Except String (State ι) :=
  if expected.toInt < 0 then .error "FutexLatch: expected count cannot be negative"
  else .ok ⟨expected, 0, fun _ => .idle, [], []⟩

def afterCount (waits : Bool) : Pc := if waits then .load else .exits .counted

/-- Where `wait` goes on after an answer of the futex wait. -/
def afterWait (seq : BitVec 32) (r : WaitResult) : Pc :=
  match Pman.futexWait r with
  | .returns => .load
  | .retries => .futexWait seq
  | .throws _ => .exits (.threw "futex_wait")

def Pc.wakeUp : Pc → Pc
  | .parked seq => afterWait seq .woken
  | p => p

section Machine

variable {ι : Type*} [DecidableEq ι]

def State.goto (s : State ι) (t : ι) (p : Pc) : State ι :=
  { s with pc := update s.pc t p }

/-- The subtraction of `count_down` and the branches after it. -/
def State.count (s : State ι) (t : ι) (n : Int64) (waits : Bool) : State ι :=
  match countDown s.counter_ n with
  | (counter, .ok true) => { s.goto t (.fetchAdd waits) with counter_ := counter }
  | (counter, .ok false) => { s.goto t (afterCount waits) with counter_ := counter }
  | (counter, .error message) =>
    { s.goto t (.exits (.threw message)) with
      counter_ := counter
      rejected := (s.counter_, counter) :: s.rejected }

def State.ret (s : State ι) (t : ι) (x : Exit) : State ι :=
  { s.goto t .idle with
    returned := if x = .waited then s.counter_ :: s.returned else s.returned }

def step (s : State ι) : ι × Choice → Option (State ι)
  | (t, c) =>
    match s.pc t, c with
    | .idle, .countDown n waits => some (s.goto t (.fetchSub n waits))
    | .idle, .wait => some (s.goto t .load)
    | .idle, .tryWait => some (s.goto t .tryLoad)
    | .fetchSub n waits, .go => some (s.count t n waits)
    | .fetchAdd waits, .go => some { s.goto t (.futexWakeAll waits) with futex_ := s.futex_ + 1 }
    | .futexWakeAll waits, .go => some ({ s with pc := Pc.wakeUp ∘ s.pc }.goto t (afterCount waits))
    | .tryLoad, .go => some (s.goto t (.exits (.answer (tryWait s.counter_))))
    | .load, .go => some (s.goto t (if s.counter_.toInt ≤ 0 then .exits .waited else .loadSeq))
    | .loadSeq, .go => some (s.goto t (.reload s.futex_))
    | .reload seq, .go =>
      some (s.goto t (if s.counter_.toInt ≤ 0 then .exits .waited else .futexWait seq))
    | .futexWait seq, .go =>
      some (s.goto t (if s.futex_ = seq then .parked seq else afterWait seq (.error .EAGAIN)))
    | .parked seq, .result r =>
      if r.possible false then some (s.goto t (afterWait seq r)) else none
    | .exits x, .go => some (s.ret t x)
    | _, _ => none

/-- The machine, started with a fresh latch and every thread outside. -/
def system (ι : Type*) [DecidableEq ι] : TransitionSystem (State ι) (ι × Choice) where
  init s := ∃ expected, new expected = .ok s
  step := step

end Machine

variable {ι : Type*}

def Pc.isParked : Pc → Bool
  | .parked _ => true
  | _ => false

def Pc.wakes : Pc → Bool
  | .fetchAdd _ | .futexWakeAll _ => true
  | _ => false

/-- A thread sleeps although the counter is not positive, and no wake-up is still to be issued. -/
def Stranded (s : State ι) : Prop :=
  (∃ t, (s.pc t).isParked = true) ∧ s.counter_.toInt ≤ 0 ∧ ∀ t, (s.pc t).wakes = false

/-- **What the users of a latch rely on**: a `count_down` that throws leaves the counter as it found
it, `wait` returns only while the counter is not positive, and no sleeping thread is stranded. -/
def Sound (s : State ι) : Prop :=
  (∀ r ∈ s.rejected, r.2 = r.1) ∧ (∀ c ∈ s.returned, c.toInt ≤ 0) ∧ ¬ Stranded s

/-- `count_down` does not subtract more than the counter has, and its increment does not take the
sequence word back to its first value. -/
def Pc.mayCount (counter : Int64) (futex : BitVec 32) : Pc → Bool
  | .fetchSub n _ => n.toInt ≤ counter.toInt
  | .fetchAdd _ => futex + 1 ≠ 0
  | _ => true

def CountOk (s : State ι) (a : ι × Choice) : Prop :=
  (s.pc a.1).mayCount s.counter_ s.futex_ = true
  deriving Decidable

instance [Fintype ι] (s : State ι) : Decidable (Stranded s) :=
  inferInstanceAs (Decidable (_ ∧ _ ∧ _))

/-! ## The counter and the program points -/

/-- A thread has seen a positive counter and is on its way to sleep. -/
def Pc.sleepy : Pc → Bool
  | .futexWait _ | .parked _ => true
  | _ => false

/-- A thread has taken the counter to zero and has yet to increment the sequence word. -/
def Pc.adds : Pc → Bool
  | .fetchAdd _ => true
  | _ => false

/-- What a program point says about the counter and the sequence number its thread has read. -/
def Pc.Fits (counter : Int64) : Pc → Prop
  | .fetchAdd _ | .exits .waited => counter.toInt ≤ 0
  | .reload seq => 0 < counter.toInt → seq = 0
  | .futexWait seq | .parked seq => seq = 0
  | _ => True

variable {p : Pc} {s s' : State ι} {t : ι}

lemma Pc.Fits.mono {counter counter' : Int64} (h : p.Fits counter)
    (hle : counter'.toInt ≤ counter.toInt) : p.Fits counter' := by
  cases p with
  | fetchAdd _ => exact hle.trans h
  | reload _ => exact fun hpos => h (hpos.trans_le hle)
  | exits x =>
    cases x with
    | waited => exact hle.trans h
    | _ => trivial
  | _ => exact h

/-- The invariant of the counter. -/
structure Level (s : State ι) : Prop where
  nonneg : 0 ≤ s.counter_.toInt
  /-- The sequence word is incremented after the counter has come to zero. -/
  closed : 0 < s.counter_.toInt → s.futex_ = 0
  fits : ∀ t, (s.pc t).Fits s.counter_
  pending : s.futex_ = 0 → s.counter_.toInt ≤ 0 → (∃ t, (s.pc t).sleepy = true) →
    ∃ t, (s.pc t).adds = true
  returned : ∀ c ∈ s.returned, c.toInt ≤ 0
  rejected : ∀ r ∈ s.rejected, r.2 = r.1

lemma afterWait_cases (seq : BitVec 32) {r : WaitResult} (h : r.possible false = true) :
    afterWait seq r = .load ∨ afterWait seq r = .futexWait seq := by
  cases r with
  | woken => exact .inl rfl
  | error e => cases e <;> first | exact .inr rfl | simp [WaitResult.possible] at h

lemma afterCount_cases (waits : Bool) :
    afterCount waits = .load ∨ afterCount waits = .exits .counted := by
  cases waits
  · exact .inr rfl
  · exact .inl rfl

variable {c : Choice} {q : Pc}

section Steps

variable [DecidableEq ι]

variable {t : ι} {p : Pc} {s : State ι}

lemma exists_update {pc : ι → Pc} {f : Pc → Bool} (ht : f (pc t) = false)
    (h : ∃ u, f (pc u) = true) : ∃ u, f (update pc t p u) = true := by
  obtain ⟨u, hu⟩ := h
  have hne : u ≠ t := by
    rintro rfl
    simp [ht] at hu
  exact (exists_update_iff pc fun _ q => f q = true).mpr (.inr ⟨u, hne, hu⟩)

lemma Level.goto (h : Level s) (hpc : s.pc t = q) (hp : p.Fits s.counter_) (hadds : q.adds = false)
    (hsleepy : p.sleepy = false ∨ q.sleepy = true ∨ 0 < s.counter_.toInt) : Level (s.goto t p) := by
  subst hpc
  refine { h with fits := (forall_update_iff s.pc _).mpr ⟨hp, fun u _ => h.fits u⟩, pending := ?_ }
  intro hfutex hzero hsome
  refine exists_update hadds (h.pending hfutex hzero ?_)
  rcases (exists_update_iff s.pc fun _ q => q.sleepy = true).mp hsome with hp | ⟨u, _, hu⟩
  · rcases hsleepy with hno | ht | hpos
    · simp [hno] at hp
    · exact ⟨t, ht⟩
    · exact absurd hzero (not_le.mpr hpos)
  · exact ⟨u, hu⟩

lemma Level.lower (h : Level s) {c : Int64} (hnonneg : 0 ≤ c.toInt)
    (hle : c.toInt ≤ s.counter_.toInt) (hp : p.Fits c) (hadds : c.toInt ≤ 0 → p.adds = true) :
    Level { s.goto t p with counter_ := c } := by
  refine ⟨hnonneg, fun hpos => h.closed (hpos.trans_le hle),
    (forall_update_iff s.pc _).mpr ⟨hp, fun u _ => (h.fits u).mono hle⟩, ?_, h.returned, h.rejected⟩
  intro _ hzero _
  exact ⟨t, by simpa [State.goto] using hadds hzero⟩

variable {n : Int64}

lemma toInt_sub {old : Int64} (hn : 0 ≤ n.toInt) (hle : n.toInt ≤ old.toInt) :
    (old - n).toInt = old.toInt - n.toInt := by
  have hlt := old.toInt_lt
  rw [Int64.toInt_sub]
  apply Int.bmod_eq_of_le <;> omega

variable {waits : Bool}

lemma Level.count (h : Level s) (hpc : s.pc t = .fetchSub n waits)
    (hle : n.toInt ≤ s.counter_.toInt) : Level (s.count t n waits) := by
  unfold State.count countDown
  by_cases hneg : n.toInt < 0
  · rw [if_pos hneg]
    have hgoto :
        Level (s.goto t (.exits (.threw "FutexLatch::count_down: n cannot be negative"))) :=
      h.goto hpc trivial rfl (.inl rfl)
    refine { hgoto with rejected := fun r hr => ?_ }
    rcases List.mem_cons.mp hr with rfl | hr
    · rfl
    · exact h.rejected r hr
  · rw [if_neg hneg]
    have hsub := toInt_sub (not_lt.mp hneg) hle
    by_cases heq : s.counter_ = n
    · rw [if_pos heq]
      have hzero : (s.counter_ - n).toInt = 0 := by rw [hsub, heq, Int.sub_self]
      exact h.lower hzero.ge (by rw [hzero]; exact h.nonneg) hzero.le fun _ => rfl
    · rw [if_neg heq, if_neg (not_lt.mpr hle)]
      have hlt : n.toInt < s.counter_.toInt :=
        lt_of_le_of_ne hle fun hsame => heq (Int64.toInt_inj.mp hsame.symm)
      refine h.lower (by omega) (by omega) ?_ fun hzero => by omega
      rcases afterCount_cases waits with hcase | hcase <;> rw [hcase] <;> trivial

lemma Level.fetchAdd (h : Level s) (hpc : s.pc t = .fetchAdd waits) (hfutex : s.futex_ + 1 ≠ 0) :
    Level { s.goto t (.futexWakeAll waits) with futex_ := s.futex_ + 1 } := by
  have hzero : s.counter_.toInt ≤ 0 := by
    have hfits := h.fits t
    rwa [hpc] at hfits
  exact ⟨h.nonneg, fun hpos => absurd hzero (not_le.mpr hpos),
    (forall_update_iff s.pc _).mpr ⟨trivial, fun u _ => h.fits u⟩,
    fun hsame => absurd hsame hfutex, h.returned, h.rejected⟩

omit [DecidableEq ι] in
lemma Level.wakeAll (h : Level s) : Level { s with pc := Pc.wakeUp ∘ s.pc } := by
  refine { h with fits := fun u => ?_, pending := fun hfutex hzero hsome => ?_ }
  · have hfits := h.fits u
    cases hu : s.pc u <;> simp only [comp_apply, hu, Pc.wakeUp] <;>
      first | trivial | rwa [hu] at hfits
  · obtain ⟨u, hu⟩ := hsome
    have hsleepy : (s.pc u).sleepy = true := by
      cases hpc : s.pc u <;> simp_all [Pc.wakeUp, Pc.sleepy]
    obtain ⟨v, hv⟩ := h.pending hfutex hzero ⟨u, hsleepy⟩
    refine ⟨v, ?_⟩
    cases hpc : s.pc v <;> simp_all [Pc.wakeUp, Pc.adds]

lemma Level.ret (h : Level s) {x : Exit} (hpc : s.pc t = .exits x) : Level (s.ret t x) := by
  have hgoto : Level (s.goto t .idle) := h.goto hpc trivial rfl (.inl rfl)
  refine { hgoto with returned := fun c hc => ?_ }
  unfold State.ret at hc
  split_ifs at hc with hx
  · rcases List.mem_cons.mp hc with rfl | hc
    · have hfits := h.fits t
      rwa [hpc, hx] at hfits
    · exact h.returned c hc
  · exact h.returned c hc

lemma Level.step {s' : State ι} (h : Level s) (hok : CountOk s (t, c))
    (hst : step s (t, c) = some s') : Level s' := by
  have hfits := h.fits t
  simp only [CountOk, FutexLatch.step] at hok hst
  generalize hpc : s.pc t = q at hok hst hfits
  split at hst <;> try cases hst
  -- the calls
  case h_1 | h_2 | h_3 | h_7 =>
    exact h.goto hpc trivial rfl (.inl rfl)
  -- `count_down`
  case h_4 n waits =>
    exact h.count hpc (of_decide_eq_true hok)
  case h_5 waits =>
    exact h.fetchAdd hpc (of_decide_eq_true hok)
  case h_6 waits =>
    rcases afterCount_cases waits with hcase | hcase <;> rw [hcase] <;>
      exact h.wakeAll.goto (congrArg Pc.wakeUp hpc) trivial rfl (.inl rfl)
  -- `try_wait`
  -- `wait`
  case h_8 =>
    split_ifs with hzero
    · exact h.goto hpc hzero rfl (.inl rfl)
    · exact h.goto hpc trivial rfl (.inl rfl)
  case h_9 =>
    exact h.goto hpc h.closed rfl (.inl rfl)
  case h_10 seq =>
    split_ifs with hzero
    · exact h.goto hpc hzero rfl (.inl rfl)
    · exact h.goto hpc (hfits (not_le.mp hzero)) rfl (.inr (.inr (not_le.mp hzero)))
  case h_11 seq =>
    split_ifs
    · exact h.goto hpc hfits rfl (.inr (.inl rfl))
    · exact h.goto hpc trivial rfl (.inr (.inl rfl))
  case h_12 seq r =>
    split_ifs at hst with hr
    cases hst
    rcases afterWait_cases seq hr with hcase | hcase <;> rw [hcase]
    · exact h.goto hpc trivial rfl (.inl rfl)
    · exact h.goto hpc hfits rfl (.inr (.inl rfl))
  case h_13 x =>
    exact h.ret hpc

end Steps

variable [DecidableEq ι]

/-- The counter and the program points agree in every run under `CountOk`. -/
theorem level_of_reachable (h : (system ι).ReachableWithin CountOk s) : Level s := by
  refine h.invariant ?_ fun s a s' hI hok hst => hI.step hok hst
  rintro s ⟨expected, hnew⟩
  unfold new at hnew
  split_ifs at hnew with hneg
  obtain rfl := Except.ok.inj hnew
  refine ⟨not_lt.mp hneg, fun _ => rfl, fun _ => trivial, ?_, by simp, by simp⟩
  rintro _ _ ⟨t, ht⟩
  simp [Pc.sleepy] at ht

/-! ## Sleepers -/

/-- The role of a program point: the gate is opened by the increment of the sequence word. -/
def Pc.role : Pc → Gate.Role
  | .parked _ => .parked
  | .futexWakeAll _ => .waking
  | _ => .out

def project (s : State ι) : Gate.State ι := Gate.view Pc.role (s.futex_ != 0) s.pc

lemma role_wakeUp (p : Pc) : p.wakeUp.role = p.role.wakeUp := by
  cases p <;> rfl

lemma role_afterCount (waits : Bool) : (afterCount waits).role = .out := by
  rcases afterCount_cases waits with hcase | hcase <;> rw [hcase] <;> rfl

lemma moves_out (hpc : s.pc t = q) (hq : q.role = .out) (hp : p.role = .out)
    (hfutex : s'.futex_ = s.futex_) (hs' : s'.pc = update s.pc t p) :
    Gate.Moves (project s) (project s') := by
  rw [project, project, hfutex, hs']
  exact Gate.moves_stutter hpc (hp.trans hq.symm)

lemma moves_of_step (h : Level s) (hok : CountOk s (t, c))
    (hst : step s (t, c) = some s') : Gate.Moves (project s) (project s') := by
  simp only [CountOk] at hok
  simp only [step] at hst
  split at hst <;> try cases hst
  case h_1 hpc | h_2 hpc | h_3 hpc | h_7 hpc | h_9 hpc | h_13 hpc =>
    exact moves_out hpc rfl rfl rfl rfl
  case h_4 n waits hpc =>
    unfold State.count
    split
    · exact moves_out hpc rfl rfl rfl rfl
    · exact moves_out hpc rfl (role_afterCount waits) rfl rfl
    · exact moves_out hpc rfl rfl rfl rfl
  case h_5 waits hpc =>
    rw [hpc] at hok
    have hopened : (s.futex_ + 1 != 0) = true := by simpa [Pc.mayCount] using hok
    simp only [project, State.goto, hopened]
    exact Gate.moves_raise hpc rfl rfl
  case h_6 waits hpc =>
    exact Gate.moves_wakeAll hpc role_wakeUp rfl (role_afterCount waits)
  case h_8 hpc | h_10 hpc =>
    split_ifs <;> exact moves_out hpc rfl rfl rfl rfl
  case h_11 seq hpc =>
    split_ifs with hseq
    · have hfits := h.fits t
      rw [hpc] at hfits
      have hclosed : (s.futex_ != 0) = false := by
        rw [hseq, show seq = 0 from hfits]
        rfl
      simp only [project, State.goto, hclosed]
      exact Gate.moves_park hpc rfl rfl
    · exact moves_out hpc rfl rfl rfl rfl
  case h_12 seq r hpc =>
    split_ifs at hst with hr
    cases hst
    refine Gate.moves_unpark hpc rfl ?_
    rcases afterWait_cases seq hr with hcase | hcase <;> rw [hcase] <;> rfl

/-- **The machine refines the gate** along every run under `CountOk`. -/
theorem simulation : Simulation (system ι) (fun s a => CountOk s a ∧ Level s) (Gate.system ι)
    (fun _ _ => True) project where
  init := by
    rintro s ⟨expected, hnew⟩ t
    unfold new at hnew
    split_ifs at hnew
    obtain rfl := Except.ok.inj hnew
    rfl
  step _ _ _ h hst := (moves_of_step h.2 h.1 hst).imp_right fun ⟨b, hb⟩ => ⟨b, trivial, hb⟩

/-- **The latch is sound** in every run in which `count_down` never subtracts more than the counter
has and the sequence word does not come back to its first value.

**Proof sketch.** Let a thread sleep while the counter is zero. Before the increment of the sequence
word somebody has it yet to do. After it the gate is open, and somebody has the wake-up to issue. -/
theorem sound_of_countOk {s : State ι} (h : (system ι).ReachableWithin CountOk s) : Sound s := by
  have hlevel := level_of_reachable h
  refine ⟨hlevel.rejected, hlevel.returned, ?_⟩
  rintro ⟨⟨t, ht⟩, hzero, hnobody⟩
  have hrole : (s.pc t).role = .parked := by
    cases hpc : s.pc t <;> simp [hpc, Pc.isParked, Pc.role] at ht ⊢
  by_cases hfutex : s.futex_ = 0
  · have hsleepy : (s.pc t).sleepy = true := by
      cases hpc : s.pc t <;> simp [hpc, Pc.isParked, Pc.sleepy] at ht ⊢
    obtain ⟨u, hu⟩ := hlevel.pending hfutex hzero ⟨t, hsleepy⟩
    have hout := hnobody u
    cases hpc : s.pc u <;> simp [hpc, Pc.adds, Pc.wakes] at hu hout
  · have hview := simulation.reachableWithin (h.and_of fun s => level_of_reachable)
    rw [project, bne_iff_ne.mpr hfutex] at hview
    obtain ⟨u, hu⟩ := Gate.served_of_view hview hrole
    have hout := hnobody u
    cases hpc : s.pc u <;> simp [hpc, Pc.role, Pc.wakes] at hu hout

/-- A thread waits until another one has counted down twice. -/
theorem sound_of_countOk_two :
    ∃ s : State (Fin 2), (system (Fin 2)).ReachableWithin CountOk s ∧
      s.counter_ = 0 ∧ s.returned = [0] ∧ Sound s := by
  have hs : (system (Fin 2)).ReachableWithin CountOk _ := .final ⟨2, 0, fun _ => .idle, [], []⟩
      [(1, .wait), (1, .go), (1, .go), (1, .go), (1, .go), (0, .countDown 1 false), (0, .go),
        (0, .go), (0, .countDown 1 false), (0, .go), (0, .go), (0, .go), (1, .go), (1, .go)]
      ⟨2, rfl⟩ (by decide +kernel)
  exact ⟨_, hs, by decide +kernel, by decide +kernel, sound_of_countOk hs⟩

/-- **The latch breaks.** In the first run a thread sleeps on a latch of one; `count_down(2)`
throws, leaves the counter at `-1` and wakes nobody. In the second run a thread has found the
counter zero; two calls that throw take it around to `2` before the thread returns from `wait`. -/
theorem latch_breaks :
    (∃ s : State (Fin 2), (system (Fin 2)).Reachable s ∧ s.rejected = [(1, -1)] ∧ Stranded s) ∧
    ∃ s : State (Fin 2), (system (Fin 2)).Reachable s ∧ s.returned = [2] := by
  constructor
  · exact TransitionSystem.reached_by ⟨1, 0, fun _ => .idle, [], []⟩
      [(1, .wait), (1, .go), (1, .go), (1, .go), (1, .go), (0, .countDown 2 false), (0, .go)]
      ⟨1, rfl⟩ (by decide +kernel)
  · exact TransitionSystem.reached_by ⟨0, 0, fun _ => .idle, [], []⟩
      [(1, .wait), (1, .go), (0, .countDown Int64.maxValue false), (0, .go), (0, .go),
        (0, .countDown Int64.maxValue false), (0, .go), (0, .go), (1, .go)]
      ⟨0, rfl⟩ (by decide +kernel)

end Pman.FutexLatch
