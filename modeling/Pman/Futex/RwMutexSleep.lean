import Pman.Futex.RwMutex

set_option autoImplicit false

/-!
# Stuck waiters of `FutexRwMutex`

A waiting writer marks the word with `kWriterWaiting`, loads `writer_futex_`, looks at the word once
more and sleeps while readers or a writer are there. The last reader to leave a marked word
increments `writer_futex_` and wakes a writer. Two windows lose the wake-up.

* `downgrade` stores `1`: it takes the mark off and wakes readers only. When that reader leaves it
  finds no mark.
* The second look in `lock` may show readers and no mark: `unlock` has taken the mark off, and the
  readers came in before the writer looked. The writer sleeps, and the readers leave without a
  wake-up.

Apart from them, a sleeper can be lost only if a sequence word comes round between a load and the
sleep, or if the number of readers overflows.

## Main results

* `rwMutex_not_stuck`: when no waiter sleeps beside an open lock.
-/

namespace Pman.FutexRwMutex

open Function

open ReadersWriter (Role Move Turn Promise Word)

/-! ## The machine as a sleeping protocol -/

def Pc.role : Pc → Role
  | .idle | .lsLoad | .lsCas _ | .lsSeq | .tlsLoad | .tlsCas _ | .usSub | .tlCas | .ulStore
  | .tuCas | .dgStore => .out
  | .lsReload seq => .readerLoaded seq
  | .lsWait seq => .readerWait seq
  | .lsParked seq => .readerParked seq
  | .lkLoad | .lkCasZero | .lkOr | .lkSeq | .lkCasWaiting => .writer
  | .lkReload seq => .writerLoaded seq
  | .lkWait seq => .writerWait seq
  | .lkParked seq => .writerParked seq
  | .ulBumpReaders => .releasing
  | .ulWakeReaders => .releasingAwake
  | .usBump | .ulBumpWriters => .bumping
  | .usWake | .ulWakeWriter => .waking
  | .dgBumpReaders => .lending
  | .dgWakeReaders => .lendingAwake

section View

variable {ι : Type*}

def view (s : State ι) : ReadersWriter.State ι where
  word := decode s.state_
  readerSeq := s.reader_futex_
  writerSeq := s.writer_futex_
  role := fun t => (s.pc t).role

/-- Some thread will still increment `writer_futex_` and then wake a writer. -/
def WritersMoved (s : State ι) : Prop := ∃ u, (s.pc u).role.movesWriters = true

/-- Some thread will still wake a writer, or is in `lock` and awake. -/
def WritersServed (s : State ι) : Prop := ∃ u, (s.pc u).role.servesWriters = true

def AccessOk (s : State ι) : Pc → Prop
  -- the number of readers does not overflow
  | .lsCas _ | .tlsCas _ => (decode s.state_).readers + 1 < 2 ^ 29
  -- a sequence word that has its old value has not moved
  | .lsWait seq => seqWord s.reader_futex_ = seqWord seq → seq = s.reader_futex_
  | .lkWait seq => seqWord s.writer_futex_ = seqWord seq → seq = s.writer_futex_
  -- the second look of a writer shows no readers on an unmarked word, unless the sequence word
  -- has moved or will
  | .lkReload seq => s.state_ &&& kReaderMask ≠ 0 → isOpen s.state_ = true →
      seq = s.writer_futex_ → WritersMoved s
  -- no writer relies on the mark that `downgrade` takes off
  | .dgStore =>
    ((∃ u, (s.pc u).role.writerCommitted = some s.writer_futex_) → WritersMoved s) ∧
      ((∃ u, (s.pc u).role.isWriterParked = true) → WritersServed s)
  | _ => True

def SleepOk (s : State ι) (a : ι × Choice ι) : Prop := AccessOk s (s.pc a.1)

/-- The thread sleeps on `reader_futex_` or `writer_futex_`. -/
def Pc.isParked : Pc → Bool
  | .lsParked _ | .lkParked _ => true
  | _ => false

/-- **A stuck waiter**: the word has no holders, every thread is outside the operations or
parked, and some thread is parked. -/
def Stuck (s : State ι) : Prop :=
  s.state_ &&& kReaderMask = 0 ∧ s.state_ &&& kWriterHolding = 0 ∧
    (∀ t, s.pc t = .idle ∨ (s.pc t).isParked = true) ∧ ∃ t, (s.pc t).isParked = true

instance [Fintype ι] (s : State ι) : Decidable (Stuck s) :=
  inferInstanceAs (Decidable (_ ∧ _ ∧ _ ∧ _))

instance [Fintype ι] (s : State ι) : Decidable (WritersMoved s) :=
  inferInstanceAs (Decidable (∃ u, (s.pc u).role.movesWriters = true))

instance [Fintype ι] (s : State ι) : Decidable (WritersServed s) :=
  inferInstanceAs (Decidable (∃ u, (s.pc u).role.servesWriters = true))

instance [Fintype ι] (s : State ι) (p : Pc) : Decidable (AccessOk s p) := by
  cases p <;> dsimp only [AccessOk] <;> infer_instance

instance [Fintype ι] (s : State ι) (a : ι × Choice ι) : Decidable (SleepOk s a) :=
  inferInstanceAs (Decidable (AccessOk s _))

lemma SleepOk.room {s : State ι} {a : ι × Choice ι} (h : SleepOk s a) : Room s a := by
  unfold SleepOk at h
  unfold Room
  generalize s.pc a.1 = q at h
  split
  · exact h
  · exact h
  · trivial

section Moves

variable [DecidableEq ι]

lemma role_update (pc : ι → Pc) (t : ι) (p : Pc) :
    (fun u => (update pc t p u).role) =
      update (fun u => (pc u).role) t p.role := by
  funext u
  exact apply_update (fun _ => Pc.role) pc t p u

lemma view_goto (s : State ι) (t : ι) (p : Pc) :
    view (s.goto t p) = { view s with role := update (view s).role t p.role } := by
  simp only [view, State.goto, role_update]

lemma view_write (s : State ι) (t : ι) (state : BitVec 32) (h : ReadersWriter.Hold) (p : Pc) :
    view (s.write t state h p) =
      { view s with word := decode state, role := update (view s).role t p.role } := by
  simp only [view, State.write, State.goto, role_update]

variable {s s' : State ι} {t : ι} {p q : Pc}

lemma role_same (h : p.role = (s.pc t).role) : update (view s).role t p.role = (view s).role := by
  rw [h]
  exact update_eq_self t (view s).role

section At

variable (hpc : s.pc t = q)

include hpc

lemma move_turn (h : Turn (view s) q.role p.role) : Move (view s) (view (s.goto t p)) := by
  subst hpc
  rw [view_goto]
  exact .turn h

lemma move_same (h : p.role = q.role) : Move (view s) (view (s.goto t p)) := by
  rw [view_goto, role_same (hpc ▸ h)]
  exact .stay

lemma move_acquireRead {state : BitVec 32} (hstate : s.state_ = state)
    (hopen : isOpen state = true) (hroom : (decode s.state_).readers + 1 < 2 ^ 29)
    (hrole : q.role = .out) : Move (view s) (view (s.write t (state + 1) .read .idle)) := by
  subst hstate hpc
  rw [view_write, decode_add_one hroom, role_same (p := .idle) hrole.symm]
  exact .acquireRead ((isOpen_iff _).mp hopen)

lemma move_acquireWrite (hrole : q.role = .out ∨ q.role = .writer) :
    Move (view s) (view (s.write t kWriterHolding .write .idle)) := by
  subst hpc
  rw [view_write, decode_kWriterHolding]
  exact .acquireWrite hrole

lemma move_wakeReaders (h : q.role = .releasingAwake ∧ p.role = .bumping ∨
    q.role = .lendingAwake ∧ p.role = .out) : Move (view s) (view (s.wakeReaders t p)) := by
  subst hpc
  have hwake : ∀ q : Pc, q.wakeReader.role = q.role.wakeReader := by
    intro q
    cases q <;> rfl
  have hmove := Move.wakeReaders (s := view s) h
  simpa only [view, State.wakeReaders, role_update, hwake] using hmove

lemma move_wakeWriter [Fintype ι] (hrole : q.role = .waking) {u : Option ι}
    (hst : s.wakeWriter t u = some s') : Move (view s) (view s') := by
  subst hpc
  revert hst
  fun_cases State.wakeWriter s t u <;> rintro ⟨⟩
  case case1 hnone =>
    rw [view_goto]
    refine .wakeNobody hrole fun u => ?_
    have hu := hnone u
    show (s.pc u).role.isWriterParked = false
    cases hpc : s.pc u <;> first | rfl | simp [hpc, Pc.writerParked] at hu
  case case3 u hu =>
    rw [view_goto, view_goto]
    cases hpc : s.pc u with
    | lkParked seq => exact .wakeWriter hrole (congrArg Pc.role hpc)
    | _ => simp [hpc, Pc.writerParked] at hu

lemma move_mark (hrole : q.role = .writer) (hp : p.role = .writer) :
    Move (view s) (view { s.goto t p with state_ := s.state_ ||| kWriterWaiting }) := by
  subst hpc
  have hmove := Move.mark (s := view s) hrole
  rw [← role_same (hp.trans hrole.symm)] at hmove
  simpa only [view, State.goto, role_update, decode_or] using hmove

lemma move_moveWriters (hrole : q.role = .bumping) (hp : p.role = .waking) :
    Move (view s) (view { s.goto t p with writer_futex_ := s.writer_futex_ + 1 }) := by
  subst hpc
  have hmove := Move.moveWriters (s := view s) hrole
  simpa only [view, State.goto, role_update, hp] using hmove

lemma move_moveReaders (h : q.role = .releasing ∧ p.role = .releasingAwake ∨
    q.role = .lending ∧ p.role = .lendingAwake) :
    Move (view s) (view { s.goto t p with reader_futex_ := s.reader_futex_ + 1 }) := by
  subst hpc
  have hmove := Move.moveReaders (s := view s) h
  simpa only [view, State.goto, role_update] using hmove

end At

lemma blocked_or_open {x : BitVec 32}
    (hbusy : x &&& kReaderMask ≠ 0 ∨ x &&& kWriterHolding ≠ 0) :
    (decode x).blocked = true ∨ x &&& kReaderMask ≠ 0 ∧ isOpen x = true := by
  by_cases hh : x &&& kWriterHolding = 0
  · have hreaders : x &&& kReaderMask ≠ 0 := hbusy.resolve_right fun hne => hne hh
    have hpos : 0 < (x &&& kReaderMask).toNat := by
      refine Nat.pos_of_ne_zero fun hzero => hreaders ?_
      rw [← BitVec.toNat_inj]
      exact hzero
    by_cases hw : x &&& kWriterWaiting = 0
    · refine .inr ⟨hreaders, ?_⟩
      rw [isOpen_iff]
      simp [Word.closed, decode, hh, hw]
    · exact .inl (Word.blocked_iff.mpr (.inr ⟨hpos, decide_eq_true hw⟩))
  · exact .inl (Word.blocked_iff.mpr (.inl (decide_eq_true hh)))

lemma last_reader_iff (x : BitVec 32) :
    ((x &&& kReaderMask) - 1 = 0 ∧ x &&& kWriterWaiting ≠ 0) ↔
      (decode x).readers = 1 ∧ (decode x).waiting = true := by
  have hone : (x &&& kReaderMask) - 1 = 0 ↔ (decode x).readers = 1 := by
    rw [BitVec.sub_eq_iff_eq_add, show (0 : BitVec 32) + 1 = 1 from rfl, ← BitVec.toNat_inj]
    rfl
  rw [hone]
  simp [decode]

variable [Fintype ι]

/-- **Every step under `SleepOk` is a step of the sleeping protocol.**

**Proof sketch.** By cases on the program point; most accesses stay within a role or are the
turns of a waiting thread. The conditions are used where a thread goes to sleep, at the second
look of a writer and at the store of `downgrade`. -/
lemma move_of_step {a : ι × Choice ι} (h : Sound s) (hok : SleepOk s a)
    (hst : step s a = some s') : Move (view s) (view s') := by
  have hfits := h.fits a.1
  unfold SleepOk at hok
  revert hst
  fun_cases step s a <;> intro hst <;> try cases hst
  case case1 op hpc _ =>
    cases op with
    | lock => exact move_turn hpc .writerEnters
    | _ => exact move_same hpc rfl
  -- `lock_shared`
  case case3 hpc | case17 hpc => exact move_same hpc (by split_ifs <;> rfl)
  case case4 hpc | case12 hpc =>
    rw [hpc] at hok hfits
    split_ifs with hstate
    · exact move_acquireRead hpc hstate hfits.1 hok rfl
    · exact move_same hpc (by first | rfl | (unfold tlsTest; split_ifs <;> rfl))
  case case5 hpc | case19 hpc => exact move_same hpc rfl
  case case6 hpc => exact move_turn hpc .readerLoads
  case case7 hpc =>
    split_ifs with hopen
    · exact move_turn hpc .readerPasses
    · rw [isOpen_iff, Bool.not_eq_false] at hopen
      exact move_turn hpc (.readerCommits hopen)
  case case8 hpc =>
    rw [hpc] at hok
    split_ifs with hword
    · exact move_turn hpc (.readerParks (hok hword))
    · exact move_turn hpc .readerMisses
  case case9 r hpc hr =>
    refine move_turn hpc ?_
    cases r with
    | woken => exact .readerWakes
    | error e =>
      cases e with
      | EINTR => exact .readerRetries
      | _ => simp [WaitResult.possible] at hr
  -- `try_lock_shared`
  case case11 hpc | case13 hpc => exact move_same hpc (by unfold tlsTest; split_ifs <;> rfl)
  -- `unlock_shared`
  case case14 hpc _ =>
    rw [hpc] at hfits
    rw [view_write, decode_sub_one (h.agrees.of_read hfits).2]
    have hrole : (if (s.state_ &&& kReaderMask) - 1 = 0 ∧ s.state_ &&& kWriterWaiting ≠ 0
        then Pc.usBump else Pc.idle).role =
        if (view s).word.readers = 1 ∧ (view s).word.waiting = true then .bumping else .out := by
      simp only [view, ← last_reader_iff s.state_]
      split_ifs <;> rfl
    rw [hrole]
    exact .releaseRead (congrArg Pc.role hpc)
  case case15 hpc | case31 hpc => exact move_moveWriters hpc rfl rfl
  case case16 hpc | case32 hpc => exact move_wakeWriter hpc rfl hst
  -- `lock`
  case case18 hpc | case26 hpc =>
    split_ifs
    · exact move_acquireWrite hpc (.inr rfl)
    · exact move_same hpc rfl
  case case20 hpc => exact move_mark hpc rfl rfl
  case case21 hpc => exact move_turn hpc .writerLoads
  case case22 seq hpc =>
    rw [hpc] at hok
    split_ifs with hbusy
    · refine move_turn hpc (.writerCommits fun hseq => ?_)
      exact (blocked_or_open hbusy).imp_right fun hopen => hok hopen.1 hopen.2 hseq
    · exact move_turn hpc .writerPasses
  case case23 hpc =>
    rw [hpc] at hok
    split_ifs with hword
    · exact move_turn hpc (.writerParks (hok hword))
    · exact move_turn hpc .writerMisses
  case case24 r hpc hr =>
    refine move_turn hpc ?_
    cases r with
    | woken => exact .writerWakes
    | error e =>
      cases e with
      | EINTR => exact .writerRetries
      | _ => simp [WaitResult.possible] at hr
  -- `try_lock`, `try_upgrade`
  case case27 hpc | case33 hpc =>
    split_ifs
    · exact move_acquireWrite hpc (.inl rfl)
    · exact move_same hpc rfl
  -- `unlock`
  case case28 hpc =>
    rw [view_write, decode_zero]
    exact .releaseWrite (congrArg Pc.role hpc)
  case case29 hpc => exact move_moveReaders hpc (.inl ⟨rfl, rfl⟩)
  case case30 hpc => exact move_wakeReaders hpc (.inl ⟨rfl, rfl⟩)
  -- `downgrade`
  case case34 hpc =>
    rw [hpc] at hok
    rw [view_write, decode_one]
    exact .downgrade (congrArg Pc.role hpc) hok.1 hok.2
  case case35 hpc => exact move_moveReaders hpc (.inr ⟨rfl, rfl⟩)
  case case36 hpc => exact move_wakeReaders hpc (.inr ⟨rfl, rfl⟩)

lemma promise_init (h : (system ι).init s) : Promise (view s) := by
  obtain rfl := h
  refine ⟨?_, ?_, ?_, ?_, ?_, ?_, ?_⟩
  case refine_3 =>
    intro hw
    have hw : (decode 0).waiting = true := hw
    cases hw
  all_goals
    intro t
    simp [view, Pc.role]

lemma promise_of_reachable (h : (system ι).ReachableWithin SleepOk s) :
    Sound s ∧ Promise (view s) := by
  refine h.invariant (I := fun s => Sound s ∧ Promise (view s)) ?_ ?_
  · intro s hinit
    exact ⟨sound_init hinit, promise_init hinit⟩
  · intro s a s' hs hok hst
    exact ⟨hs.1.step hok.room hst, hs.2.move (move_of_step hs.1 hok hst)⟩

/-- **No stuck waiter in `FutexRwMutex`**, for any number of threads and any interleaving, in the
runs in which no writer relies on the mark that a `downgrade` takes off, the second look of
`lock` shows no readers on an unmarked word (unless the sequence word has moved or will), no
thread sleeps on a sequence word that came round, and the number of readers does not overflow. -/
theorem rwMutex_not_stuck {s : State ι} (h : (system ι).ReachableWithin SleepOk s) :
    ¬ Stuck s := by
  rintro ⟨hreaders, hholding, hall, t, ht⟩
  have hrole : (s.pc t).role = .out := by
    refine (promise_of_reachable h).2.not_stuck ?_ ?_ (fun u => ?_) t
    · show (s.state_ &&& kReaderMask).toNat = 0
      rw [hreaders]
      rfl
    · show decide (s.state_ &&& kWriterHolding ≠ 0) = false
      rw [hholding]
      rfl
    · show (s.pc u).role = .out ∨ _
      rcases hall u with hidle | hparked
      · exact .inl (by rw [hidle]; rfl)
      · right
        show (s.pc u).role.isReaderParked = true ∨ (s.pc u).role.isWriterParked = true
        cases hpc : s.pc u <;> simp [hpc, Pc.isParked, Pc.role] at hparked ⊢
  cases hpc : s.pc t <;> simp [hpc, Pc.isParked, Pc.role] at ht hrole

end Moves

end View

/-! ## Runs of two threads -/

def start : State (Fin 2) := ⟨0, 0, 0, fun _ => .idle, fun _ => .free⟩

/-- Thread `1` sleeps in `lock` and is woken when thread `0` unlocks; it takes the lock. -/
theorem rwMutex_not_stuck_unlock :
    ∃ s : State (Fin 2), (system (Fin 2)).ReachableWithin SleepOk s ∧ s.hold 1 = .write ∧
      ¬ Stuck s := by
  have hs : (system (Fin 2)).ReachableWithin SleepOk _ := .final start
      [(0, .call .tryLock), (0, .go), (1, .call .lock), (1, .go), (1, .go), (1, .go), (1, .go),
        (1, .go), (0, .call .unlock), (0, .go), (0, .go), (0, .go), (0, .go),
        (0, .wake (some 1)), (1, .go), (1, .go)] rfl (by decide)
  exact ⟨_, hs, by decide, rwMutex_not_stuck hs⟩

/-- **Both windows get stuck.** Thread `1` sleeps in `lock`, thread `0` downgrades and leaves. Or
thread `1` marks the word, thread `0` unlocks and comes back as a reader before the second look
of thread `1`, which then sleeps, and thread `0` leaves. -/
theorem rwMutex_gets_stuck :
    (system (Fin 2)).init start ∧
    (system (Fin 2)).RunsTo (fun _ _ => True) Stuck start
      [(0, .call .tryLock), (0, .go), (1, .call .lock), (1, .go), (1, .go), (1, .go), (1, .go),
        (1, .go), (0, .call .downgrade), (0, .go), (0, .go), (0, .go),
        (0, .call .unlockShared), (0, .go)] ∧
    (system (Fin 2)).RunsTo (fun _ _ => True) Stuck start
      [(0, .call .tryLock), (0, .go), (1, .call .lock), (1, .go), (1, .go),
        (0, .call .unlock), (0, .go), (0, .go), (0, .go), (0, .go), (0, .wake none),
        (1, .go), (0, .call .lockShared), (0, .go), (0, .go), (1, .go), (1, .go),
        (0, .call .unlockShared), (0, .go)] :=
  ⟨rfl, by decide, by decide⟩

end Pman.FutexRwMutex
