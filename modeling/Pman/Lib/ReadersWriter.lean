import Mathlib.Data.Fintype.Card
import Pman.Lib.TransitionSystem

set_option autoImplicit false

/-!
# Readers–writer locks on one word

A readers–writer lock keeps in one word the number of readers, whether a writer holds the lock and
whether a writer waits for it. The first part is about exclusion: the word keeps agreeing with the
holds of the threads.

The second part is about sleeping. Readers and writers sleep on two sequence words. A thread that
has to wait loads its sequence word, looks at the lock again and sleeps only if the sequence word
has not moved since; a release moves the word before it wakes the sleepers. So a thread about to
sleep needs somebody who will still move the word, and a sleeper needs somebody who will still wake
it or, for writers, who is awake in the same queue. Every step keeps this promise except two, and
the moves carry the conditions under which these do: a writer that turns into a reader takes the
writers' mark off without a wake-up, and a writer may go to sleep on account of readers that have
not seen its mark.

## Main results

* `Agrees.change`: the word keeps agreeing with the holds.
* `Promise.not_stuck`: no sleeper beside an open lock.
-/

namespace ReadersWriter

open Finset Function

/-! ## Exclusion -/

inductive Hold
  | free
  | read
  | write
  deriving DecidableEq, Repr

structure Word where
  readers : ℕ
  waiting : Bool
  holding : Bool
  deriving DecidableEq, Repr

section Exclusion

variable {ι : Type*} [Fintype ι]

def count (hold : ι → Hold) (h : Hold) : ℕ := (Finset.univ.filter fun t => hold t = h).card

/-- The word tells how many readers there are and whether a writer holds the lock. -/
structure Agrees (w : Word) (hold : ι → Hold) : Prop where
  readers : w.readers = count hold .read
  writers : count hold .write = if w.holding then 1 else 0
  excluded : w.holding = true → w.readers = 0

variable {hold : ι → Hold} {t : ι} {w : Word}

variable {h : Hold} {w' : Word}

lemma count_pos (ht : hold t = h) : 0 < count hold h :=
  card_pos.mpr ⟨t, by simpa using ht⟩

lemma eq_of_count_le_one (h1 : count hold h ≤ 1) {u : ι} (ht : hold t = h) (hu : hold u = h) :
    t = u :=
  card_le_one.mp h1 t (by simpa using ht) u (by simpa using hu)

lemma count_lt_card (ht : hold t ≠ h) : count hold h < Fintype.card ι :=
  card_lt_univ_of_notMem (x := t) (by simpa using ht)

lemma Agrees.of_write (h : Agrees w hold) (ht : hold t = .write) :
    w.holding = true ∧ w.readers = 0 := by
  have hpos := count_pos ht
  have hh : w.holding = true := by
    by_contra hne
    rw [h.writers, if_neg hne] at hpos
    omega
  exact ⟨hh, h.excluded hh⟩

lemma Agrees.of_read (h : Agrees w hold) (ht : hold t = .read) :
    w.holding = false ∧ 0 < w.readers := by
  have hpos := count_pos ht
  rw [← h.readers] at hpos
  refine ⟨?_, hpos⟩
  by_contra hne
  have := h.excluded (by simpa using hne)
  omega

lemma Agrees.free (h : Agrees w hold) (hr : w.readers = 0) (hh : w.holding = false) (t : ι) :
    hold t = .free := by
  cases ht : hold t with
  | free => rfl
  | read =>
    have := (h.of_read ht).2
    omega
  | write =>
    have := (h.of_write ht).1
    simp [hh] at this

variable [DecidableEq ι]

lemma count_eq (hold : ι → Hold) (h : Hold) (t : ι) :
    count hold h =
      (if hold t = h then 1 else 0) + ((Finset.univ.erase t).filter fun u => hold u = h).card := by
  unfold count
  rw [← insert_erase (mem_univ t), filter_insert]
  split_ifs
  · rw [card_insert_of_notMem (by simp), erase_insert (by simp), Nat.add_comm]
  · rw [erase_insert (by simp), Nat.zero_add]

lemma count_update (hold : ι → Hold) (t : ι) (x h : Hold) :
    count (update hold t x) h + (if hold t = h then 1 else 0) =
      count hold h + (if x = h then 1 else 0) := by
  have hrest : ((univ.erase t).filter fun u => update hold t x u = h) =
      (univ.erase t).filter fun u => hold u = h := by
    apply filter_congr
    intro u hu
    rw [update_of_ne (ne_of_mem_erase hu)]
  rw [count_eq _ h t, count_eq hold h t, hrest, update_self]
  omega

inductive Change (t : ι) (w : Word) (hold : ι → Hold) : Word → (ι → Hold) → Prop
  | same : Change t w hold w hold
  | mark : Change t w hold { w with waiting := true } hold
  | acquireRead (hw : w.waiting = false) (hh : w.holding = false) (ht : hold t ≠ .read) :
      Change t w hold { w with readers := w.readers + 1 } (update hold t .read)
  | releaseRead (ht : hold t = .read) :
      Change t w hold { w with readers := w.readers - 1 } (update hold t .free)
  | acquireWrite (hr : w.readers = 0) (hh : w.holding = false) :
      Change t w hold ⟨0, false, true⟩ (update hold t .write)
  | releaseWrite (ht : hold t = .write) :
      Change t w hold ⟨0, false, false⟩ (update hold t .free)
  | upgrade (hw : w = ⟨1, false, false⟩) (ht : hold t = .read) :
      Change t w hold ⟨0, false, true⟩ (update hold t .write)
  | downgrade (ht : hold t = .write) :
      Change t w hold ⟨1, false, false⟩ (update hold t .read)

lemma Agrees.set {x : Hold} (h : Agrees w hold)
    (hr : w'.readers + (if hold t = .read then 1 else 0) =
      w.readers + (if x = .read then 1 else 0))
    (hw : (if w'.holding then 1 else 0) + (if hold t = .write then 1 else 0) =
      (if w.holding then 1 else 0) + (if x = .write then 1 else 0))
    (hex : w'.holding = true → w'.readers = 0) : Agrees w' (update hold t x) := by
  have hreaders := count_update hold t x .read
  have hwriters := count_update hold t x .write
  refine ⟨?_, ?_, hex⟩
  · rw [← h.readers] at hreaders
    omega
  · rw [h.writers] at hwriters
    omega

/-- **The word keeps agreeing with the holds.**

**Proof sketch.** Before each change the word determines the hold of the thread that makes it. -/
theorem Agrees.change {hold' : ι → Hold} (h : Agrees w hold) (hc : Change t w hold w' hold') :
    Agrees w' hold' := by
  cases hc with
  | same => exact h
  | mark => exact ⟨h.readers, h.writers, h.excluded⟩
  | acquireRead hw hh ht =>
    have hne : hold t ≠ .write := fun hwrite => by simp [(h.of_write hwrite).1] at hh
    exact h.set (by simp [ht]) (by simp [hne]) (by simp [hh])
  | releaseRead ht =>
    obtain ⟨hh, hpos⟩ := h.of_read ht
    refine h.set ?_ (by simp [ht]) (by simp [hh])
    simp only [ht, if_true, reduceCtorEq, if_false]
    omega
  | acquireWrite hr hh =>
    have ht := h.free hr hh t
    exact h.set (by simp [ht, hr]) (by simp [ht, hh]) (by simp)
  | releaseWrite ht | downgrade ht =>
    obtain ⟨hh, hr⟩ := h.of_write ht
    exact h.set (by simp [ht, hr]) (by simp [ht, hh]) (by simp)
  | upgrade hw ht =>
    subst hw
    exact h.set (by simp [ht]) (by simp [ht]) (by simp)

end Exclusion

/-! ## Sleeping -/

def Word.closed (w : Word) : Bool := w.holding || w.waiting

def Word.blocked (w : Word) : Bool := w.holding || (0 < w.readers && w.waiting)

lemma Word.blocked_iff {w : Word} :
    w.blocked = true ↔ w.holding = true ∨ 0 < w.readers ∧ w.waiting = true := by
  simp [Word.blocked]

/-- Where a thread stands in the protocol. The numbers are the values of the sequence words it
has loaded. -/
inductive Role
  | out
  | readerLoaded (n : ℕ)
  | readerWait (n : ℕ)
  | readerParked (n : ℕ)
  | writer
  | writerLoaded (n : ℕ)
  | writerWait (n : ℕ)
  | writerParked (n : ℕ)
  /-- A writer has freed the lock: it will move the readers' word, wake the readers, move the
  writers' word and wake a writer. -/
  | releasing
  /-- It will wake the readers, move the writers' word and wake a writer. -/
  | releasingAwake
  | bumping
  | waking
  /-- A writer has become a reader: it will move the readers' word and wake the readers. -/
  | lending
  | lendingAwake
  deriving DecidableEq, Repr

namespace Role

@[simp] def readerSeq : Role → Option ℕ
  | .readerLoaded n | .readerWait n | .readerParked n => some n
  | _ => none

@[simp] def readerCommitted : Role → Option ℕ
  | .readerWait n | .readerParked n => some n
  | _ => none

@[simp] def isReaderParked : Role → Bool
  | .readerParked _ => true
  | _ => false

@[simp] def writerSeq : Role → Option ℕ
  | .writerLoaded n | .writerWait n | .writerParked n => some n
  | _ => none

@[simp] def writerCommitted : Role → Option ℕ
  | .writerWait n | .writerParked n => some n
  | _ => none

@[simp] def isWriterParked : Role → Bool
  | .writerParked _ => true
  | _ => false

@[simp] def queued : Role → Bool
  | .writer | .writerLoaded _ | .writerWait _ | .writerParked _ => true
  | _ => false

@[simp] def movesReaders : Role → Bool
  | .releasing | .lending => true
  | _ => false

@[simp] def wakesReaders : Role → Bool
  | .releasing | .lending | .releasingAwake | .lendingAwake => true
  | _ => false

@[simp] def movesWriters : Role → Bool
  | .releasing | .releasingAwake | .bumping => true
  | _ => false

@[simp] def servesWriters : Role → Bool
  | .releasing | .releasingAwake | .bumping | .waking => true
  | .writer | .writerLoaded _ | .writerWait _ => true
  | _ => false

@[simp] def wakeReader : Role → Role
  | .readerParked _ => .out
  | r => r

variable {r : Role}

lemma eq_of_isReaderParked (h : r.isReaderParked = true) : ∃ n, r = .readerParked n := by
  cases r with
  | readerParked n => exact ⟨n, rfl⟩
  | _ => cases h

lemma eq_of_isWriterParked (h : r.isWriterParked = true) : ∃ n, r = .writerParked n := by
  cases r with
  | writerParked n => exact ⟨n, rfl⟩
  | _ => cases h

end Role

/-- The lock word, the two sequence words, counted without bound, and the threads. -/
structure State (ι : Type*) where
  word : Word
  readerSeq : ℕ
  writerSeq : ℕ
  role : ι → Role

variable {ι : Type*}

def State.WritersMoved (s : State ι) : Prop := ∃ u, (s.role u).movesWriters = true

def State.WritersServed (s : State ι) : Prop := ∃ u, (s.role u).servesWriters = true

inductive Turn (s : State ι) : Role → Role → Prop
  | readerLoads : Turn s .out (.readerLoaded s.readerSeq)
  | readerCommits {n : ℕ} (h : s.word.closed = true) : Turn s (.readerLoaded n) (.readerWait n)
  | readerParks {n : ℕ} (h : n = s.readerSeq) : Turn s (.readerWait n) (.readerParked n)
  | readerRetries {n : ℕ} : Turn s (.readerParked n) (.readerWait n)
  /-- The lock is open after all, the sequence word has moved, or the sleep is over. -/
  | readerPasses {n : ℕ} : Turn s (.readerLoaded n) .out
  | readerMisses {n : ℕ} : Turn s (.readerWait n) .out
  | readerWakes {n : ℕ} : Turn s (.readerParked n) .out
  | writerEnters : Turn s .out .writer
  | writerLoads : Turn s .writer (.writerLoaded s.writerSeq)
  /-- Those the writer waits for have seen its mark, or the sequence word has moved, or somebody
  will still move it. -/
  | writerCommits {n : ℕ} (h : n = s.writerSeq → s.word.blocked = true ∨ s.WritersMoved) :
      Turn s (.writerLoaded n) (.writerWait n)
  | writerParks {n : ℕ} (h : n = s.writerSeq) : Turn s (.writerWait n) (.writerParked n)
  | writerRetries {n : ℕ} : Turn s (.writerParked n) (.writerWait n)
  | writerPasses {n : ℕ} : Turn s (.writerLoaded n) .writer
  | writerMisses {n : ℕ} : Turn s (.writerWait n) .writer
  | writerWakes {n : ℕ} : Turn s (.writerParked n) .writer

/-- Whoever makes the demand `D` is served: by the word, or by a thread in a role that serves. -/
def Kept (D : Role → Prop) (b : Bool) (g : Role → Bool) (role : ι → Role) : Prop :=
  ∀ v, D (role v) → b = true ∨ ∃ u, g (role u) = true

/-- **The promise.** Readers are served by a word that is closed, for its writer will come to
wake them, and writers by a word that is blocked. Who is about to sleep on the present value of
a sequence word needs it moved; who sleeps needs a wake-up. A mark on the word is a queued
writer's. -/
structure Promise (s : State ι) : Prop where
  readerSeq_le : ∀ t n, (s.role t).readerSeq = some n → n ≤ s.readerSeq
  writerSeq_le : ∀ t n, (s.role t).writerSeq = some n → n ≤ s.writerSeq
  queued : s.word.waiting = true → ∃ t, (s.role t).queued = true
  readerCommitted : Kept (fun r => r.readerCommitted = some s.readerSeq) s.word.closed
    Role.movesReaders s.role
  readerParked : Kept (fun r => r.isReaderParked = true) s.word.closed Role.wakesReaders s.role
  writerCommitted : Kept (fun r => r.writerCommitted = some s.writerSeq) s.word.blocked
    Role.movesWriters s.role
  writerParked : Kept (fun r => r.isWriterParked = true) s.word.blocked Role.servesWriters s.role

def OtherServes (g : Role → Bool) (role : ι → Role) (t : ι) : Prop :=
  ∃ u, u ≠ t ∧ g (role u) = true

variable {g : Role → Bool} {role : ι → Role} {t : ι} {D : Role → Prop} {b : Bool} {r : Role}
  {s : State ι}

lemma otherServes (h : ∃ u, g (role u) = true) (ht : g (role t) = false) :
    OtherServes g role t := by
  obtain ⟨u, hu⟩ := h
  refine ⟨u, ?_, hu⟩
  rintro rfl
  simp [ht] at hu

lemma OtherServes.mono {g' : Role → Bool} (h : OtherServes g role t)
    (hle : ∀ r, g r = true → g' r = true) : OtherServes g' role t := by
  obtain ⟨u, hne, hu⟩ := h
  exact ⟨u, hne, hle _ hu⟩

lemma Kept.others (h : Kept D b g role) (hD : D (role t)) (hg : g (role t) = false) :
    b = true ∨ OtherServes g role t :=
  (h t hD).imp_right fun hu => otherServes hu hg

lemma kept_true : Kept D true g role :=
  fun _ _ => .inl rfl

variable {f : Role → Option ℕ} {m : ℕ}

lemma kept_of_moved {c : Role → Option ℕ} (hfc : ∀ r n, c r = some n → f r = some n)
    (h : ∀ u n, f (role u) = some n → n ≤ m) : Kept (fun r => c r = some (m + 1)) b g role := by
  intro v hv
  have := h v _ (hfc _ _ hv)
  omega

variable {b' : Bool}

lemma Kept.mono (h : Kept D b g role) (hb : b = true → b' = true) : Kept D b' g role :=
  fun v hv => (h v hv).imp_left hb

lemma Kept.map {f : Role → Role} (h : Kept D b g role) (hD : ∀ r, D (f r) → D r)
    (hg : ∀ r, g r = true → g (f r) = true) : Kept D b g fun u => f (role u) := by
  intro v hv
  refine (h v (hD _ hv)).imp_right fun hu => ?_
  obtain ⟨u, hu⟩ := hu
  exact ⟨u, hg _ hu⟩

lemma Promise.wakesReaders (h : Promise s) (hc : (s.role t).readerCommitted = some s.readerSeq) :
    s.word.closed = true ∨ OtherServes Role.wakesReaders s.role t := by
  have hmoves : (s.role t).movesReaders = false := by
    cases hr : s.role t <;> simp_all
  refine (h.readerCommitted.others hc hmoves).imp_right fun ho => ho.mono fun r hr => ?_
  cases r <;> simp_all

lemma Promise.servesWriters (h : Promise s) (hc : (s.role t).writerCommitted = some s.writerSeq) :
    s.word.blocked = true ∨ OtherServes Role.servesWriters s.role t := by
  have hmoves : (s.role t).movesWriters = false := by
    cases hr : s.role t <;> simp_all
  refine (h.writerCommitted.others hc hmoves).imp_right fun ho => ho.mono fun r hr => ?_
  cases r <;> simp_all

lemma Promise.wakeAll (h : Promise s) :
    Promise { s with role := fun u => (s.role u).wakeReader } := by
  refine ⟨fun t n => ?_, fun t n => ?_, fun hw => ?_,
    h.readerCommitted.map (f := Role.wakeReader) ?_ ?_,
    h.readerParked.map (f := Role.wakeReader) ?_ ?_,
    h.writerCommitted.map (f := Role.wakeReader) ?_ ?_,
    h.writerParked.map (f := Role.wakeReader) ?_ ?_⟩
  case refine_1 =>
    have := h.readerSeq_le t n
    cases hr : s.role t <;> simp_all
  case refine_2 =>
    have := h.writerSeq_le t n
    cases hr : s.role t <;> simp_all
  case refine_3 =>
    obtain ⟨t, ht⟩ := h.queued hw
    exact ⟨t, by cases hr : s.role t <;> simp_all⟩
  all_goals
    intro r
    cases r <;> simp

/-- **With the promise nobody sleeps on a free lock**: if nobody reads or writes and every thread
is out or asleep, every thread is out.

**Proof sketch.** A sleeping writer needs a blocked word or a thread that is neither out nor
asleep. A sleeping reader needs such a thread or a mark on the word, and the mark is that of a
writer, which is then asleep. -/
theorem Promise.not_stuck (h : Promise s) (hr : s.word.readers = 0) (hh : s.word.holding = false)
    (hall : ∀ t, s.role t = .out ∨ (s.role t).isReaderParked = true ∨
      (s.role t).isWriterParked = true) (t : ι) : s.role t = .out := by
  have hrole := fun u =>
    (hall u).imp_right (Or.imp Role.eq_of_isReaderParked Role.eq_of_isWriterParked)
  have hnobody : ∀ g : Role → Bool, g .out = false → (∀ n, g (.readerParked n) = false) →
      (∀ n, g (.writerParked n) = false) → ¬ ∃ u, g (s.role u) = true := by
    rintro g hout hreader hwriter ⟨u, hu⟩
    rcases hrole u with hu' | ⟨n, hu'⟩ | ⟨n, hu'⟩ <;> simp [hu', hout, hreader, hwriter] at hu
  have hwriter : ∀ u, (s.role u).isWriterParked = false := by
    refine fun u => Bool.eq_false_iff.mpr fun hu => ?_
    rcases h.writerParked u hu with hb | hserved
    · simp [Word.blocked_iff, hr, hh] at hb
    · exact hnobody _ rfl (fun _ => rfl) (fun _ => rfl) hserved
  have hwaiting : s.word.waiting = false := by
    refine Bool.eq_false_iff.mpr fun hw => ?_
    obtain ⟨u, hu⟩ := h.queued hw
    rcases hrole u with hu' | ⟨n, hu'⟩ | ⟨n, hu'⟩
    · simp [hu'] at hu
    · simp [hu'] at hu
    · simpa [hu'] using hwriter u
  refine (hall t).resolve_right ?_
  rintro (ht | ht)
  · rcases h.readerParked t ht with hc | hserved
    · simp [Word.closed, hh, hwaiting] at hc
    · exact hnobody _ rfl (fun _ => rfl) (fun _ => rfl) hserved
  · rw [hwriter t] at ht
    cases ht

variable [DecidableEq ι]

/-- **The sleeping protocol**, one step of some thread `t`. -/
inductive Move (s : State ι) : State ι → Prop
  | stay : Move s s
  | turn {t : ι} {r : Role} (h : Turn s (s.role t) r) :
      Move s { s with role := update s.role t r }
  | mark {t : ι} (ht : s.role t = .writer) :
      Move s { s with word := { s.word with waiting := true } }
  | acquireRead (hc : s.word.closed = false) :
      Move s { s with word := { s.word with readers := s.word.readers + 1 } }
  | releaseRead {t : ι} (ht : s.role t = .out) :
      Move s { s with
        word := { s.word with readers := s.word.readers - 1 }
        role := update s.role t
          (if s.word.readers = 1 ∧ s.word.waiting = true then .bumping else .out) }
  | acquireWrite {t : ι} (ht : s.role t = .out ∨ s.role t = .writer) :
      Move s { s with word := ⟨0, false, true⟩, role := update s.role t .out }
  | releaseWrite {t : ι} (ht : s.role t = .out) :
      Move s { s with word := ⟨0, false, false⟩, role := update s.role t .releasing }
  /-- The mark goes without a wake-up: nobody may rely on it. -/
  | downgrade {t : ι} (ht : s.role t = .out)
      (hcommitted : (∃ u, (s.role u).writerCommitted = some s.writerSeq) → s.WritersMoved)
      (hparked : (∃ u, (s.role u).isWriterParked = true) → s.WritersServed) :
      Move s { s with word := ⟨1, false, false⟩, role := update s.role t .lending }
  | moveReaders {t : ι} {r : Role}
      (h : s.role t = .releasing ∧ r = .releasingAwake ∨ s.role t = .lending ∧ r = .lendingAwake) :
      Move s { s with readerSeq := s.readerSeq + 1, role := update s.role t r }
  | wakeReaders {t : ι} {r : Role}
      (h : s.role t = .releasingAwake ∧ r = .bumping ∨ s.role t = .lendingAwake ∧ r = .out) :
      Move s { s with role := update (fun u => (s.role u).wakeReader) t r }
  | moveWriters {t : ι} (ht : s.role t = .bumping) :
      Move s { s with writerSeq := s.writerSeq + 1, role := update s.role t .waking }
  | wakeNobody {t : ι} (ht : s.role t = .waking) (h : ∀ u, (s.role u).isWriterParked = false) :
      Move s { s with role := update s.role t .out }
  | wakeWriter {t u : ι} {n : ℕ} (ht : s.role t = .waking) (hu : s.role u = .writerParked n) :
      Move s { s with role := update (update s.role u .writer) t .out }

lemma served_update (h : g r = true ∨ OtherServes g role t) :
    ∃ u, g (update role t r u) = true :=
  (exists_update_iff role fun _ r => g r = true).mpr h

/-- **One thread changes its role**, the word may change too: those who demand stay served if
the new demand of the thread is served, and if what the word and the thread did for the others
is still done. -/
lemma Kept.set (h : Kept D b g role)
    (hown : D r → D (role t) ∨ b' = true ∨ g r = true ∨ OtherServes g role t)
    (hserve : (∃ v, D (role v)) → b = true ∨ g (role t) = true →
      b' = true ∨ g r = true ∨ OtherServes g role t) : Kept D b' g (update role t r) := by
  -- a demand there was before the update
  have hold : ∀ v, D (role v) →
      b' = true ∨ ∃ u, g (update role t r u) = true := by
    intro v hv
    rcases h v hv with hb | ⟨u, hu⟩
    · exact (hserve ⟨v, hv⟩ (.inl hb)).imp_right served_update
    · by_cases hut : u = t
      · subst hut
        exact (hserve ⟨v, hv⟩ (.inr hu)).imp_right served_update
      · exact .inr (served_update (.inr ⟨u, hut, hu⟩))
  intro v hv
  by_cases hvt : v = t
  · subst hvt
    rw [update_self] at hv
    rcases hown hv with hD | hserved
    · exact hold v hD
    · exact hserved.imp_right served_update
  · rw [update_of_ne hvt] at hv
    exact hold v hv

lemma Kept.turn (h : Kept D b g role) (hown : D r → D (role t) ∨ b = true ∨ OtherServes g role t)
    (hserve : g (role t) = true → g r = true ∨ b = true ∨ OtherServes g role t) :
    Kept D b g (update role t r) := by
  refine h.set (fun hD => (hown hD).imp_right fun hs => hs.imp_right .inr) fun _ hs => ?_
  rcases hs with hb | hg
  · exact .inl hb
  · rcases hserve hg with hr | hb | ho
    · exact .inr (.inl hr)
    · exact .inl hb
    · exact .inr (.inr ho)

lemma kept_of_serves (hr : g r = true) : Kept D b g (update role t r) :=
  fun _ _ => .inr (served_update (.inl hr))

lemma seq_le_update (h : ∀ u n, f (role u) = some n → n ≤ m) (hr : ∀ n, f r = some n → n ≤ m) :
    ∀ u n, f (update role t r u) = some n → n ≤ m :=
  (forall_update_iff role fun _ r => ∀ n, f r = some n → n ≤ m).mpr ⟨hr, fun u _ => h u⟩

lemma queued_update (h : ∃ u, (role u).queued = true)
    (hr : (role t).queued = true → r.queued = true) :
    ∃ u, (update role t r u).queued = true := by
  obtain ⟨u, hu⟩ := h
  refine (exists_update_iff role fun _ r => r.queued = true).mpr ?_
  by_cases hut : u = t
  · exact .inl (hr (hut ▸ hu))
  · exact .inr ⟨u, hut, hu⟩

/-- **A step of a waiting thread keeps the promise.**

**Proof sketch.** A thread that is about to sleep has just seen a word that serves it, or there
is somebody who moves the sequence word; when it falls asleep on a value that has not moved, the
same thread will wake it. A writer that wakes up serves the others. -/
lemma Promise.turn (h : Promise s) (ht : Turn s (s.role t) r) :
    Promise { s with role := update s.role t r } := by
  have hrle := h.readerSeq_le t
  have hwle := h.writerSeq_le t
  have hreader := h.wakesReaders (t := t)
  have hwriter := h.servesWriters (t := t)
  have hmoved : s.WritersMoved → (s.role t).movesWriters = false →
      OtherServes Role.movesWriters s.role t := otherServes
  generalize hr : s.role t = r₀ at *
  refine ⟨seq_le_update h.readerSeq_le ?_, seq_le_update h.writerSeq_le ?_,
    fun hw => queued_update (h.queued hw) ?_, h.readerCommitted.turn ?_ ?_,
    h.readerParked.turn ?_ ?_, h.writerCommitted.turn ?_ ?_, h.writerParked.turn ?_ ?_⟩
  all_goals
    try rw [hr]
    cases ht <;> first | (simp; done) | simp_all
  case refine_8.writerCommits hcommits =>
    intro hn
    exact (hcommits hn).imp_right hmoved

lemma Promise.advance (h : Promise s) (hrs : r.readerSeq = none) (hws : r.writerSeq = none)
    (hq : (s.role t).queued = false) (hmr : (s.role t).movesReaders = false)
    (hmw : (s.role t).movesWriters = true → r.movesWriters = true)
    (hrp : Kept (fun r => r.isReaderParked = true) s.word.closed Role.wakesReaders
      (update s.role t r))
    (hwp : Kept (fun r => r.isWriterParked = true) s.word.blocked Role.servesWriters
      (update s.role t r)) : Promise { s with role := update s.role t r } := by
  have hrc : r.readerCommitted ≠ some s.readerSeq := by cases r <;> simp_all
  have hwc : r.writerCommitted ≠ some s.writerSeq := by cases r <;> simp_all
  exact ⟨seq_le_update h.readerSeq_le (by rw [hrs]; simp),
    seq_le_update h.writerSeq_le (by rw [hws]; simp),
    fun hw => queued_update (h.queued hw) (by rw [hq]; simp),
    h.readerCommitted.turn (fun hc => absurd hc hrc) (by rw [hmr]; simp), hrp,
    h.writerCommitted.turn (fun hc => absurd hc hwc) fun hm => .inl (hmw hm), hwp⟩

/-- **Every step keeps the promise.**

**Proof sketch.** A writer that takes the lock closes and blocks the word. One that frees it will
serve everybody, the last reader that sees a mark will serve the writers. A sequence word that
moves leaves nobody about to sleep on its value. The wake-up of all readers leaves no reader
asleep; that of one writer leaves a writer awake in the queue, or nobody was asleep. -/
theorem Promise.move {s' : State ι} (h : Promise s) (hm : Move s s') : Promise s' := by
  cases hm with
  | stay => exact h
  | turn ht => exact h.turn ht
  | @mark t ht =>
    refine ⟨h.readerSeq_le, h.writerSeq_le, fun _ => ⟨t, by simp [ht]⟩,
      h.readerCommitted.mono ?_, h.readerParked.mono ?_, h.writerCommitted.mono ?_,
      h.writerParked.mono ?_⟩ <;> simp [Word.closed, Word.blocked]
    all_goals
      rintro (hh | ⟨hr, -⟩)
      · exact .inl hh
      · exact .inr hr
  | acquireRead hc =>
    have hb : s.word.blocked = false := by
      simp_all [Word.closed, Word.blocked]
    exact { h with
      writerCommitted := h.writerCommitted.mono (by simp [hb])
      writerParked := h.writerParked.mono (by simp [hb]) }
  | @releaseRead t ht =>
    split_ifs with hlast
    · have hreader := h.readerCommitted.turn (t := t) (r := .bumping) (by simp) (by simp [ht])
      have hparked := h.readerParked.turn (t := t) (r := .bumping) (by simp) (by simp [ht])
      exact ⟨seq_le_update h.readerSeq_le (by simp), seq_le_update h.writerSeq_le (by simp),
        fun hw => queued_update (h.queued hw) (by simp [ht]), hreader, hparked,
        kept_of_serves rfl, kept_of_serves rfl⟩
    · -- the mark is not there, or other readers are left to see it
      have hb : s.word.blocked = true →
          ({ s.word with readers := s.word.readers - 1 } : Word).blocked = true := by
        simp only [Word.blocked_iff]
        rintro (hh | ⟨hr, hw⟩)
        · exact .inl hh
        · exact .inr ⟨by simp only [hw, and_true] at hlast; omega, hw⟩
      rw [← ht, update_eq_self]
      exact { h with
        writerCommitted := h.writerCommitted.mono hb
        writerParked := h.writerParked.mono hb }
  | acquireWrite ht =>
    exact ⟨seq_le_update h.readerSeq_le (by simp), seq_le_update h.writerSeq_le (by simp), by simp,
      kept_true, kept_true, kept_true, kept_true⟩
  | releaseWrite ht =>
    exact ⟨seq_le_update h.readerSeq_le (by simp), seq_le_update h.writerSeq_le (by simp), by simp,
      kept_of_serves rfl, kept_of_serves rfl, kept_of_serves rfl, kept_of_serves rfl⟩
  | downgrade ht hcommitted hparked =>
    refine ⟨seq_le_update h.readerSeq_le (by simp), seq_le_update h.writerSeq_le (by simp), by simp,
      kept_of_serves rfl, kept_of_serves rfl, h.writerCommitted.set (by simp) fun hv _ => ?_,
      h.writerParked.set (by simp) fun hv _ => ?_⟩
    · exact .inr (.inr (otherServes (hcommitted hv) (by simp [ht])))
    · exact .inr (.inr (otherServes (hparked hv) (by simp [ht])))
  | @moveReaders t r hr =>
    have hseq : ∀ u n, (update s.role t r u).readerSeq = some n → n ≤ s.readerSeq :=
      seq_le_update h.readerSeq_le
        (by rcases hr with ⟨-, rfl⟩ | ⟨-, rfl⟩ <;> simp)
    have hserves : r.wakesReaders = true := by rcases hr with ⟨-, rfl⟩ | ⟨-, rfl⟩ <;> rfl
    refine ⟨fun u n hu => Nat.le_succ_of_le (hseq u n hu), seq_le_update h.writerSeq_le ?_,
      fun hw => queued_update (h.queued hw) ?_,
      kept_of_moved (fun r n => by cases r <;> simp) hseq, kept_of_serves hserves,
      h.writerCommitted.turn ?_ ?_, h.writerParked.turn ?_ ?_⟩
    all_goals
      rcases hr with ⟨ht, rfl⟩ | ⟨ht, rfl⟩ <;> simp [ht]
  | @wakeReaders t r hr =>
    have hnone : ∀ u, (update (fun u => (s.role u).wakeReader) t r u).isReaderParked =
        false := by
      intro u
      by_cases hu : u = t
      · subst hu
        rcases hr with ⟨-, rfl⟩ | ⟨-, rfl⟩ <;> simp
      · rw [update_of_ne hu]
        cases s.role u <;> rfl
    refine h.wakeAll.advance ?_ ?_ ?_ ?_ ?_ (fun u hu => ?_) (h.wakeAll.writerParked.turn ?_ ?_)
    case refine_6 => exact absurd ((hnone u).symm.trans hu) (by simp)
    all_goals
      rcases hr with ⟨ht, rfl⟩ | ⟨ht, rfl⟩ <;> simp [ht]
  | @moveWriters t ht =>
    have hseq : ∀ u n, (update s.role t .waking u).writerSeq = some n →
        n ≤ s.writerSeq := seq_le_update h.writerSeq_le (by simp)
    exact ⟨seq_le_update h.readerSeq_le (by simp),
      fun u n hu => Nat.le_succ_of_le (hseq u n hu),
      fun hw => queued_update (h.queued hw) (by simp [ht]),
      h.readerCommitted.turn (by simp) (by simp [ht]),
      h.readerParked.turn (by simp) (by simp [ht]),
      kept_of_moved (fun r n => by cases r <;> simp) hseq, kept_of_serves rfl⟩
  | @wakeNobody t ht hnone =>
    refine h.advance rfl rfl (by simp [ht]) (by simp [ht]) (by simp [ht])
      (h.readerParked.turn (by simp) (by simp [ht])) (h.writerParked.set (by simp) ?_)
    rintro ⟨v, hv⟩
    exact absurd ((hnone v).symm.trans hv) (by simp)
  | @wakeWriter t u n ht hu =>
    have hne : t ≠ u := by
      rintro rfl
      simp [ht] at hu
    have hwoken : Promise { s with role := update s.role u .writer } :=
      h.turn (by rw [hu]; exact .writerWakes)
    have ht' : update s.role u .writer t = .waking := by
      rw [update_of_ne hne, ht]
    refine hwoken.advance rfl rfl (by simp [ht']) (by simp [ht']) (by simp [ht'])
      (hwoken.readerParked.turn (by simp) (by simp [ht']))
      (hwoken.writerParked.turn (by simp) fun _ => .inr (.inr ⟨u, hne.symm, ?_⟩))
    simp

end ReadersWriter
