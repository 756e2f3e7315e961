import Mathlib.Data.Nat.Bitwise
import Pman.Futex.Syscall
import Pman.Lib.ReadersWriter

set_option autoImplicit false

/-!
# `FutexRwMutex`

The readers–writer mutex of `rw_mutex.cpp`. Its word packs the number of readers, a bit for a writer
that holds the mutex and a bit for a writer that waits. Waiting readers and writers sleep on two
more words, which count releases without bound here; the code sees the count modulo `2 ^ 32`. Every
atomic access and every futex call is one step, and any finite set of threads is interleaved.
Callers release, upgrade and downgrade only what they hold, and a thread stands for one read hold.

## Main results

* `rwMutex_excludes`: writers are alone, and the word counts the readers.
-/

namespace Pman.FutexRwMutex

open Function

open ReadersWriter (Hold Word Agrees Change count)

/-! ## The word -/

def kWriterHolding : BitVec 32 := 1 <<< 30
def kWriterWaiting : BitVec 32 := 1 <<< 29
def kReaderMask : BitVec 32 := (1 <<< 29) - 1

def decode (state : BitVec 32) : Word where
  readers := (state &&& kReaderMask).toNat
  waiting := state &&& kWriterWaiting ≠ 0
  holding := state &&& kWriterHolding ≠ 0

def isOpen (state : BitVec 32) : Bool := state &&& (kWriterHolding ||| kWriterWaiting) = 0

lemma and_bit_ne_zero (x : BitVec 32) {m : BitVec 32} {k : ℕ} (hm : m.toNat = 2 ^ k) :
    x &&& m ≠ 0 ↔ x.toNat / 2 ^ k % 2 = 1 := by
  rw [Ne, ← BitVec.toNat_inj, BitVec.toNat_and, hm, Nat.and_two_pow,
    Nat.testBit_eq_decide_div_mod_eq]
  by_cases h : x.toNat / 2 ^ k % 2 = 1 <;> simp [h]

lemma decode_eq (x : BitVec 32) :
    decode x = ⟨x.toNat % 2 ^ 29, x.toNat / 2 ^ 29 % 2 = 1, x.toNat / 2 ^ 30 % 2 = 1⟩ := by
  have hmask : kReaderMask.toNat = 2 ^ 29 - 1 := by decide
  have hreaders : (x &&& kReaderMask).toNat = x.toNat % 2 ^ 29 := by
    rw [BitVec.toNat_and, hmask, Nat.and_two_pow_sub_one_eq_mod]
  unfold decode
  simp only [hreaders, and_bit_ne_zero x (k := 29) (m := kWriterWaiting) (by decide),
    and_bit_ne_zero x (k := 30) (m := kWriterHolding) (by decide)]

lemma decode_add_one {x : BitVec 32} (h : (decode x).readers + 1 < 2 ^ 29) :
    decode (x + 1) = { decode x with readers := (decode x).readers + 1 } := by
  have hone : (1 : BitVec 32).toNat = 1 := rfl
  rw [decode_eq] at h ⊢
  rw [decode_eq]
  simp only [BitVec.toNat_add, hone] at h ⊢
  congr 1
  · omega
  · rw [decide_eq_decide]
    omega
  · rw [decide_eq_decide]
    omega

lemma decode_sub_one {x : BitVec 32} (h : 0 < (decode x).readers) :
    decode (x - 1) = { decode x with readers := (decode x).readers - 1 } := by
  have hone : (1 : BitVec 32).toNat = 1 := rfl
  rw [decode_eq] at h ⊢
  rw [decode_eq]
  simp only [BitVec.toNat_sub, hone] at h ⊢
  congr 1
  · omega
  · rw [decide_eq_decide]
    omega
  · rw [decide_eq_decide]
    omega

lemma decode_or (x : BitVec 32) :
    decode (x ||| kWriterWaiting) = { decode x with waiting := true } := by
  have hr : kWriterWaiting &&& kReaderMask = 0 := by decide
  have hw : kWriterWaiting &&& kWriterWaiting ≠ 0 := by decide
  have hh : kWriterWaiting &&& kWriterHolding = 0 := by decide
  simp only [decode, BitVec.and_or_distrib_right, hr, hh, Word.mk.injEq]
  refine ⟨by simp, ?_, by simp⟩
  exact decide_eq_true fun h => hw (BitVec.or_eq_zero_iff.mp h).2

lemma isOpen_iff (x : BitVec 32) : isOpen x = true ↔ (decode x).closed = false := by
  unfold isOpen decode Word.closed
  rw [BitVec.and_or_distrib_left]
  simp [BitVec.or_eq_zero_iff]

lemma decode_zero : decode 0 = ⟨0, false, false⟩ := by decide

lemma decode_one : decode 1 = ⟨1, false, false⟩ := by decide

lemma decode_kWriterHolding : decode kWriterHolding = ⟨0, false, true⟩ := by decide

lemma decode_kWriterWaiting : decode kWriterWaiting = ⟨0, true, false⟩ := by decide

/-! ## The machine -/

inductive Op
  | lockShared
  | tryLockShared
  | unlockShared
  | lock
  | tryLock
  | unlock
  | tryUpgrade
  | downgrade
  deriving DecidableEq, Repr

/-- The program points of a thread, named after the access it performs next. A loaded value of
a sequence word is kept as the count it had. -/
inductive Pc
  | idle
  | lsLoad
  /-- `lock_shared`: the compare-and-exchange of the loaded value. -/
  | lsCas (state : BitVec 32)
  | lsSeq
  | lsReload (seq : ℕ)
  | lsWait (seq : ℕ)
  | lsParked (seq : ℕ)
  | tlsLoad
  | tlsCas (state : BitVec 32)
  | usSub
  /-- `unlock_shared`: the increment of `writer_futex_`. -/
  | usBump
  | usWake
  | lkLoad
  | lkCasZero
  | lkOr
  | lkSeq
  | lkReload (seq : ℕ)
  | lkWait (seq : ℕ)
  | lkParked (seq : ℕ)
  /-- `lock`: the compare-and-exchange of `kWriterWaiting`. -/
  | lkCasWaiting
  | tlCas
  /-- `unlock`: the store, then for readers and for writers the increment and the wake-up. -/
  | ulStore
  | ulBumpReaders
  | ulWakeReaders
  | ulBumpWriters
  | ulWakeWriter
  | tuCas
  /-- `downgrade`: the store, the increment and the wake-up. -/
  | dgStore
  | dgBumpReaders
  | dgWakeReaders
  deriving DecidableEq, Repr

structure State (ι : Type*) where
  state_ : BitVec 32
  writer_futex_ : ℕ
  reader_futex_ : ℕ
  pc : ι → Pc
  /-- How the thread holds the mutex (a history variable: the code does not record it). -/
  hold : ι → Hold

inductive Choice (ι : Type*)
  | call (op : Op)
  | go
  /-- A weak compare-and-exchange fails although the word has the expected value. -/
  | failWeak
  /-- `futex_wake_one` releases this thread, or nobody. -/
  | wake (u : Option ι)
  /-- The futex wait of a sleeping thread ends with this answer. -/
  | result (r : WaitResult)

/-- Callers release, upgrade and downgrade only what they hold, and do not take a second read
hold. -/
def Op.allowed : Op → Hold → Bool
  | .lockShared, h | .tryLockShared, h => h ≠ .read
  | .unlockShared, h | .tryUpgrade, h => h = .read
  | .unlock, h | .downgrade, h => h = .write
  | .lock, _ | .tryLock, _ => true

def Op.entry : Op → Pc
  | .lockShared => .lsLoad
  | .tryLockShared => .tlsLoad
  | .unlockShared => .usSub
  | .lock => .lkLoad
  | .tryLock => .tlCas
  | .unlock => .ulStore
  | .tryUpgrade => .tuCas
  | .downgrade => .dgStore

def tlsTest (state : BitVec 32) : Pc := if isOpen state then .tlsCas state else .idle

/-- Where `lock_shared` goes on after an answer of the futex wait. -/
def lsAfterWait (seq : ℕ) (r : WaitResult) : Pc :=
  match futexWait r with
  | .returns => .lsLoad
  | .retries => .lsWait seq
  | .throws _ => .idle

/-- Where `lock` goes on after an answer of the futex wait. -/
def lkAfterWait (seq : ℕ) (r : WaitResult) : Pc :=
  match futexWait r with
  | .returns => .lkLoad
  | .retries => .lkWait seq
  | .throws _ => .idle

def seqWord (n : ℕ) : BitVec 32 := BitVec.ofNat 32 n

/-- `futex_wake_all` on `reader_futex_` ends the sleep of a reader. -/
def Pc.wakeReader : Pc → Pc
  | .lsParked seq => lsAfterWait seq .woken
  | p => p

/-- `futex_wake_one` on `writer_futex_` ends the sleep of a writer. -/
def Pc.wakeWriter : Pc → Pc
  | .lkParked seq => lkAfterWait seq .woken
  | p => p

def Pc.writerParked : Pc → Bool
  | .lkParked _ => true
  | _ => false

section Machine

variable {ι : Type*} [DecidableEq ι]

def State.goto (s : State ι) (t : ι) (p : Pc) : State ι :=
  { s with pc := update s.pc t p }

/-- Thread `t` writes the word, which changes its hold, and goes on at `p`. -/
def State.write (s : State ι) (t : ι) (state : BitVec 32) (h : Hold) (p : Pc) : State ι :=
  { s.goto t p with state_ := state, hold := update s.hold t h }

/-- `futex_wake_all` on `reader_futex_`; the caller goes on at `p`. -/
def State.wakeReaders (s : State ι) (t : ι) (p : Pc) : State ι :=
  { s with pc := update (fun u => (s.pc u).wakeReader) t p }

variable [Fintype ι]

/-- `futex_wake_one` on `writer_futex_`; the caller returns. -/
def State.wakeWriter (s : State ι) (t : ι) : Option ι → Option (State ι)
  | none => if ∀ u, (s.pc u).writerParked = false then some (s.goto t .idle) else none
  | some u =>
    if (s.pc u).writerParked then some ((s.goto u (s.pc u).wakeWriter).goto t .idle) else none

def step (s : State ι) : ι × Choice ι → Option (State ι)
  | (t, c) =>
    match s.pc t, c with
    | .idle, .call op => if op.allowed (s.hold t) then some (s.goto t op.entry) else none
    -- `lock_shared`
    | .lsLoad, .go => some (s.goto t (if isOpen s.state_ then .lsCas s.state_ else .lsSeq))
    | .lsCas state, .go =>
      some (if s.state_ = state then s.write t (state + 1) .read .idle else s.goto t .lsLoad)
    | .lsCas _, .failWeak => some (s.goto t .lsLoad)
    | .lsSeq, .go => some (s.goto t (.lsReload s.reader_futex_))
    | .lsReload seq, .go => some (s.goto t (if isOpen s.state_ then .lsLoad else .lsWait seq))
    | .lsWait seq, .go =>
      some (s.goto t (if seqWord s.reader_futex_ = seqWord seq then .lsParked seq
        else lsAfterWait seq (.error .EAGAIN)))
    | .lsParked seq, .result r =>
      if r.possible false then some (s.goto t (lsAfterWait seq r)) else none
    -- `try_lock_shared`
    | .tlsLoad, .go => some (s.goto t (tlsTest s.state_))
    | .tlsCas state, .go =>
      some (if s.state_ = state then s.write t (state + 1) .read .idle
        else s.goto t (tlsTest s.state_))
    | .tlsCas _, .failWeak => some (s.goto t (tlsTest s.state_))
    -- `unlock_shared`
    | .usSub, .go =>
      let readers := (s.state_ &&& kReaderMask) - 1
      some (s.write t (s.state_ - 1) .free
        (if readers = 0 ∧ s.state_ &&& kWriterWaiting ≠ 0 then .usBump else .idle))
    | .usBump, .go => some { s.goto t .usWake with writer_futex_ := s.writer_futex_ + 1 }
    | .usWake, .wake u => s.wakeWriter t u
    -- `lock`
    | .lkLoad, .go =>
      some (s.goto t (if s.state_ = 0 then .lkCasZero
        else if s.state_ &&& kWriterWaiting = 0 then .lkOr else .lkSeq))
    | .lkCasZero, .go =>
      some (if s.state_ = 0 then s.write t kWriterHolding .write .idle else s.goto t .lkLoad)
    | .lkCasZero, .failWeak => some (s.goto t .lkLoad)
    | .lkOr, .go => some { s.goto t .lkSeq with state_ := s.state_ ||| kWriterWaiting }
    | .lkSeq, .go => some (s.goto t (.lkReload s.writer_futex_))
    | .lkReload seq, .go =>
      some (s.goto t
        (if s.state_ &&& kReaderMask ≠ 0 ∨ s.state_ &&& kWriterHolding ≠ 0 then .lkWait seq
          else .lkCasWaiting))
    | .lkWait seq, .go =>
      some (s.goto t (if seqWord s.writer_futex_ = seqWord seq then .lkParked seq
        else lkAfterWait seq (.error .EAGAIN)))
    | .lkParked seq, .result r =>
      if r.possible false then some (s.goto t (lkAfterWait seq r)) else none
    | .lkCasWaiting, .go =>
      some (if s.state_ = kWriterWaiting then s.write t kWriterHolding .write .idle
        else s.goto t .lkLoad)
    -- `try_lock`
    | .tlCas, .go =>
      some (if s.state_ = 0 then s.write t kWriterHolding .write .idle else s.goto t .idle)
    -- `unlock`
    | .ulStore, .go => some (s.write t 0 .free .ulBumpReaders)
    | .ulBumpReaders, .go =>
      some { s.goto t .ulWakeReaders with reader_futex_ := s.reader_futex_ + 1 }
    | .ulWakeReaders, .go => some (s.wakeReaders t .ulBumpWriters)
    | .ulBumpWriters, .go =>
      some { s.goto t .ulWakeWriter with writer_futex_ := s.writer_futex_ + 1 }
    | .ulWakeWriter, .wake u => s.wakeWriter t u
    -- `try_upgrade`
    | .tuCas, .go =>
      some (if s.state_ = 1 then s.write t kWriterHolding .write .idle else s.goto t .idle)
    -- `downgrade`
    | .dgStore, .go => some (s.write t 1 .read .dgBumpReaders)
    | .dgBumpReaders, .go =>
      some { s.goto t .dgWakeReaders with reader_futex_ := s.reader_futex_ + 1 }
    | .dgWakeReaders, .go => some (s.wakeReaders t .idle)
    | _, _ => none

/-- The machine, started with a fresh mutex and every thread outside. -/
def system (ι : Type*) [DecidableEq ι] [Fintype ι] :
    TransitionSystem (State ι) (ι × Choice ι) where
  init s := s = ⟨0, 0, 0, fun _ => .idle, fun _ => .free⟩
  step := step

end Machine

/-! ## Exclusion -/

def Pc.Fits (p : Pc) (h : Hold) : Prop :=
  match p with
  | .lsLoad | .lsSeq | .lsReload _ | .lsWait _ | .lsParked _ | .tlsLoad => h ≠ .read
  | .lsCas state | .tlsCas state => isOpen state = true ∧ h ≠ .read
  | .usSub | .tuCas => h = .read
  | .ulStore | .dgStore => h = .write
  | _ => True

section Exclusion

variable {ι : Type*} [Fintype ι]

/-- The word agrees with the holds, and every thread is in an operation its hold allows. -/
structure Sound (s : State ι) : Prop where
  agrees : Agrees (decode s.state_) s.hold
  fits : ∀ t, (s.pc t).Fits (s.hold t)

omit [Fintype ι] in
/-- The condition that the number of readers does not overflow into the bits above it. -/
def Room (s : State ι) (a : ι × Choice ι) : Prop :=
  match s.pc a.1 with
  | .lsCas _ | .tlsCas _ => (decode s.state_).readers + 1 < 2 ^ 29
  | _ => True

variable {h : Hold} {p : Pc} {s : State ι} {t : ι}

lemma Op.fits_entry {op : Op} (hallowed : op.allowed h = true) : op.entry.Fits h := by
  cases op with
  | lockShared | tryLockShared => exact (of_decide_eq_true hallowed : h ≠ .read)
  | unlockShared | tryUpgrade => exact (of_decide_eq_true hallowed : h = .read)
  | unlock | downgrade => exact (of_decide_eq_true hallowed : h = .write)
  | lock | tryLock => trivial

variable {state : BitVec 32}

lemma fits_tlsTest (hh : h ≠ .read) : (tlsTest state).Fits h := by
  unfold tlsTest
  split_ifs with hopen
  · exact ⟨hopen, hh⟩
  · trivial

variable {seq : ℕ} {r : WaitResult} {s' : State ι}

lemma fits_lsAfterWait (hh : h ≠ .read) : (lsAfterWait seq r).Fits h := by
  unfold lsAfterWait
  cases futexWait r <;> first | exact hh | trivial

lemma fits_lkAfterWait : (lkAfterWait seq r).Fits h := by
  unfold lkAfterWait
  cases futexWait r <;> trivial

lemma Pc.Fits.wakeReader (hp : p.Fits h) : p.wakeReader.Fits h := by
  cases p with
  | lsParked seq =>
    show (lsAfterWait seq .woken).Fits h
    exact fits_lsAfterWait hp
  | _ => exact hp

lemma Sound.room (h : Sound s) (hcard : Fintype.card ι < 2 ^ 29) (a : ι × Choice ι) : Room s a := by
  have hfits := h.fits a.1
  have hlt : s.hold a.1 ≠ .read → (decode s.state_).readers + 1 < 2 ^ 29 := by
    intro hne
    rw [h.agrees.readers]
    have := ReadersWriter.count_lt_card hne
    omega
  unfold Room
  generalize s.pc a.1 = q at hfits
  split
  · exact hlt hfits.2
  · exact hlt hfits.2
  · trivial

lemma Sound.excludes (h : Sound s) :
    (∀ t u, s.hold t = .write → s.hold u = .write → t = u) ∧
    (∀ t u, s.hold t = .write → s.hold u ≠ .read) ∧
    (s.state_ &&& kReaderMask).toNat = count s.hold .read ∧
    (s.state_ &&& kWriterHolding ≠ 0 ↔ ∃ t, s.hold t = .write) := by
  have hone : count s.hold .write ≤ 1 := by
    rw [h.agrees.writers]
    split_ifs <;> omega
  have hholding : (decode s.state_).holding = true ↔ s.state_ &&& kWriterHolding ≠ 0 :=
    decide_eq_true_iff
  refine ⟨fun t u ht hu => ReadersWriter.eq_of_count_le_one hone ht hu, fun t u ht hu => ?_,
    h.agrees.readers, ?_⟩
  · have hwriter := (h.agrees.of_write ht).2
    have hreader := (h.agrees.of_read hu).2
    omega
  · rw [← hholding]
    constructor
    · intro hh
      have hcount := h.agrees.writers
      rw [if_pos hh] at hcount
      by_contra hnone
      have hzero : count s.hold .write = 0 := by
        simp only [count, Finset.card_eq_zero, Finset.filter_eq_empty_iff]
        intro t _ ht
        exact hnone ⟨t, ht⟩
      omega
    · rintro ⟨t, ht⟩
      exact (h.agrees.of_write ht).1

lemma Sound.sole_reader (h : Sound s) (hone : s.state_ = 1) (ht : s.hold t = .read) (u : ι)
    (hu : s.hold u ≠ .free) : u = t := by
  have hcount : count s.hold .read = 1 := by
    rw [← h.agrees.readers, hone, decode_one]
  cases hread : s.hold u with
  | free => exact absurd hread hu
  | read => exact ReadersWriter.eq_of_count_le_one (Nat.le_of_eq hcount) hread ht
  | write => exact absurd ht (h.excludes.2.1 u t hread)

variable [DecidableEq ι]

lemma Sound.fits_goto (h : Sound s) (hp : p.Fits (s.hold t)) :
    ∀ u, (update s.pc t p u).Fits (s.hold u) :=
  (forall_update_iff s.pc fun u p => p.Fits (s.hold u)).mpr ⟨hp, fun u _ => h.fits u⟩

lemma Sound.goto (h : Sound s) (hp : p.Fits (s.hold t)) : Sound (s.goto t p) :=
  ⟨h.agrees, h.fits_goto hp⟩

lemma Sound.write (h : Sound s) {x : Hold}
    (hc : Change t (decode s.state_) s.hold (decode state) (update s.hold t x))
    (hp : p.Fits x) : Sound (s.write t state x p) := by
  refine ⟨h.agrees.change hc, fun u => ?_⟩
  show (update s.pc t p u).Fits (update s.hold t x u)
  by_cases hu : u = t
  · subst hu
    rwa [update_self, update_self]
  · rw [update_of_ne hu, update_of_ne hu]
    exact h.fits u

lemma Sound.wakeReaders (h : Sound s) (hp : p.Fits (s.hold t)) : Sound (s.wakeReaders t p) := by
  have hwake : Sound { s with pc := fun u => (s.pc u).wakeReader } :=
    ⟨h.agrees, fun u => (h.fits u).wakeReader⟩
  exact hwake.goto hp

lemma Sound.wakeWriter (h : Sound s) {u : Option ι} (hst : s.wakeWriter t u = some s') :
    Sound s' := by
  revert hst
  fun_cases State.wakeWriter s t u <;> rintro ⟨⟩
  case case1 => exact h.goto trivial
  case case3 u hu =>
    refine Sound.goto (h.goto ?_) trivial
    cases hpc : s.pc u with
    | lkParked seq =>
      show (lkAfterWait seq .woken).Fits (s.hold u)
      exact fits_lkAfterWait
    | _ => simp [hpc, Pc.writerParked] at hu

lemma Sound.acquireRead (h : Sound s) (hstate : s.state_ = state) (hopen : isOpen state = true)
    (ht : s.hold t ≠ .read) (hroom : (decode s.state_).readers + 1 < 2 ^ 29) :
    Sound (s.write t (state + 1) .read .idle) := by
  subst hstate
  have hclosed := (isOpen_iff _).mp hopen
  simp only [Word.closed, Bool.or_eq_false_iff] at hclosed
  refine h.write ?_ trivial
  rw [decode_add_one hroom]
  exact .acquireRead hclosed.2 hclosed.1 ht

lemma Sound.acquireWrite (h : Sound s)
    (hfree : (decode s.state_).readers = 0 ∧ (decode s.state_).holding = false) :
    Sound (s.write t kWriterHolding .write .idle) := by
  refine h.write ?_ trivial
  exact .acquireWrite hfree.1 hfree.2

/-- **One step**: as long as the number of readers does not overflow, a step keeps the word
sound.

**Proof sketch.** By cases on the program point. The plain stores of `unlock` and `downgrade`
are right because their caller holds the mutex for writing, so that nobody else is counted in
the word; the compare-and-exchanges expect a word without a writer, and without readers unless
they are a reader's own. -/
lemma Sound.step {a : ι × Choice ι} (h : Sound s) (hroom : Room s a)
    (hst : FutexRwMutex.step s a = some s') : Sound s' := by
  have hfits := h.fits a.1
  revert hst
  fun_cases FutexRwMutex.step s a <;> intro hst <;> (try cases hst) <;>
    rename s.pc _ = _ => hpc <;> simp only [Room, hpc] at hfits hroom
  case case1 hallowed => exact h.goto (Op.fits_entry hallowed)
  -- `lock_shared`
  case case3 =>
    refine h.goto ?_
    split_ifs with hopen
    · exact ⟨hopen, hfits⟩
    · exact hfits
  case case4 | case12 =>
    split_ifs with hstate
    · exact h.acquireRead hstate hfits.1 hfits.2 hroom
    · exact h.goto (by first | exact hfits.2 | exact fits_tlsTest hfits.2)
  case case5 => exact h.goto hfits.2
  case case6 => exact h.goto hfits
  case case7 =>
    refine h.goto ?_
    split_ifs <;> exact hfits
  case case8 =>
    refine h.goto ?_
    split_ifs
    · exact hfits
    · exact fits_lsAfterWait hfits
  case case9 => exact h.goto (fits_lsAfterWait hfits)
  -- `try_lock_shared`
  case case11 => exact h.goto (fits_tlsTest hfits)
  case case13 => exact h.goto (fits_tlsTest hfits.2)
  -- `unlock_shared`
  case case14 =>
    refine h.write ?_ (by split_ifs <;> trivial)
    rw [decode_sub_one (h.agrees.of_read hfits).2]
    exact .releaseRead hfits
  -- the increments, and the accesses of `lock` that do not write the word
  case case15 | case19 | case21 | case29 | case31 | case35 => exact ⟨h.agrees, h.fits_goto trivial⟩
  case case16 | case32 => exact h.wakeWriter hst
  case case17 | case22 =>
    refine h.goto ?_
    split_ifs <;> trivial
  case case23 =>
    refine h.goto ?_
    split_ifs
    · trivial
    · exact fits_lkAfterWait
  case case24 => exact h.goto fits_lkAfterWait
  -- the accesses that write it
  case case20 t =>
    refine ⟨?_, h.fits_goto trivial⟩
    rw [decode_or]
    exact h.agrees.change (t := t) .mark
  case case18 | case27 =>
    split_ifs with hzero
    · exact h.acquireWrite (by rw [hzero, decode_zero]; exact ⟨rfl, rfl⟩)
    · exact h.goto trivial
  case case26 =>
    split_ifs with hwaiting
    · exact h.acquireWrite (by rw [hwaiting, decode_kWriterWaiting]; exact ⟨rfl, rfl⟩)
    · exact h.goto trivial
  case case28 =>
    refine h.write ?_ trivial
    exact .releaseWrite hfits
  case case30 | case36 => exact h.wakeReaders trivial
  case case33 =>
    split_ifs with hone
    · refine h.write ?_ trivial
      exact .upgrade (by rw [hone, decode_one]) hfits
    · exact h.goto trivial
  case case34 =>
    refine h.write ?_ trivial
    exact .downgrade hfits

lemma sound_init (h : (system ι).init s) : Sound s := by
  obtain rfl := h
  refine ⟨⟨?_, ?_, ?_⟩, fun _ => trivial⟩ <;> rw [decode_zero]
  · simp [count]
  · simp [count]
  · simp

lemma sound_of_reachable (hcard : Fintype.card ι < 2 ^ 29) (h : (system ι).Reachable s) : Sound s :=
  h.invariant (fun _ => sound_init) fun _ a _ hs _ hst => hs.step (hs.room hcard a) hst

/-- **`FutexRwMutex` excludes**, for fewer than `2 ^ 29` threads and any interleaving: at most one
thread holds the write lock, nobody then holds a read lock, the word counts the readers and its
bit says whether there is a writer, and `try_upgrade` succeeds only for a thread that is the sole
reader. -/
theorem rwMutex_excludes (hcard : Fintype.card ι < 2 ^ 29) {s : State ι}
    (h : (system ι).Reachable s) :
    ((∀ t u, s.hold t = .write → s.hold u = .write → t = u) ∧
      (∀ t u, s.hold t = .write → s.hold u ≠ .read) ∧
      (s.state_ &&& kReaderMask).toNat = count s.hold .read ∧
      (s.state_ &&& kWriterHolding ≠ 0 ↔ ∃ t, s.hold t = .write)) ∧
    ∀ t s', s.pc t = .tuCas → step s (t, .go) = some s' → s'.hold t = .write →
      s.hold t = .read ∧ ∀ u, s.hold u ≠ .free → u = t := by
  have hs := sound_of_reachable hcard h
  refine ⟨hs.excludes, fun t s' hpc hst hwrite => ?_⟩
  have hread : s.hold t = .read := by
    have hfits := hs.fits t
    rwa [hpc] at hfits
  simp only [step, hpc, Option.some.injEq] at hst
  by_cases hone : s.state_ = 1
  · exact ⟨hread, hs.sole_reader hone hread⟩
  · rw [if_neg hone] at hst
    subst hst
    exact absurd (hread.symm.trans hwrite) (by simp)

/-- Two threads read, the first one cannot upgrade until the second one has left, and then it
can. -/
theorem rwMutex_excludes_upgrade :
    Fintype.card (Fin 2) < 2 ^ 29 ∧ ∃ s : State (Fin 2), (system (Fin 2)).Reachable s ∧
      (s.pc 0 = .tuCas ∧ s.state_ = 1) ∧
      ∀ s', step s (0, .go) = some s' → s'.hold 0 = .write → ∀ u, s.hold u ≠ .free → u = 0 := by
  have hcard : Fintype.card (Fin 2) < 2 ^ 29 := by decide
  have hs : (system (Fin 2)).Reachable _ := .final ⟨0, 0, 0, fun _ => .idle, fun _ => .free⟩
      [(0, .call .lockShared), (0, .go), (0, .go), (1, .call .tryLockShared), (1, .go), (1, .go),
        (0, .call .tryUpgrade), (0, .go), (1, .call .unlockShared), (1, .go),
        (0, .call .tryUpgrade)] (by rfl) (by decide)
  exact ⟨hcard, _, hs, by decide,
    fun s' hst hwrite => ((rwMutex_excludes hcard hs).2 0 s' rfl hst hwrite).2⟩

end Exclusion

end Pman.FutexRwMutex
