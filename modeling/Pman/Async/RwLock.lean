import Pman.Lib.HandOver

set_option autoImplicit false

/-!
# The asynchronous readers-writer lock

`async::RwLock` packs its holders into one signed word of 32 bits: `-1` is a writer, `n ≥ 0` are `n`
readers. A release counts the waiters it wakes as holders at once and resumes them afterwards:
through the event loop if the thread has one, and otherwise inline, so that any operation, and any
further release, nests in the release that is still going on.

A release is the work of a guard. Its move assignment overwrites the guard's pointer only after the
release, so a guard whose release runs inline still looks like an owner to the code that is resumed.
The state keeps the releases under way as a stack of frames, and marks such a guard *stale*.

## Main results

* `rwLock_excludes`: exclusion and the meaning of the word.
-/

namespace Pman.AsyncRwLock

open List

inductive Mode
  | read
  | write
deriving DecidableEq, Repr

/-- A suspended coroutine, by what it waits for and the number of its call. -/
structure Handle where
  mode : Mode
  call : ℕ
deriving DecidableEq, Repr

inductive Pointer
  /-- It is null, or the guard is destroyed or guards another lock. -/
  | null
  | owns
  /-- It points to the lock, but the guard's release has been called already. -/
  | stale
deriving DecidableEq, Repr

structure Guard where
  mode : Mode
  lock_ : Pointer
deriving DecidableEq, Repr

/-- A release whose resumptions run inline: those still to come, and the guards of the move
assignment that called it. -/
structure Frame where
  toWake : List Handle
  assign : Option (ℕ × ℕ)
deriving DecidableEq, Repr

/-- The lock, the posted resumptions, the releases under way (innermost first) and the guards. -/
structure State where
  state_ : ℤ
  readWaiters_ : List ℕ
  writeWaiters_ : List ℕ
  posted : List Handle
  frames : List Frame
  guards : List Guard
  nextCall : ℕ

def wrap (x : ℤ) : ℤ := x.bmod 4294967296

namespace State

def unlockRead (s : State) : State × List Handle :=
  let prev := s.state_
  let s := { s with state_ := wrap (prev - 1) }
  match s.writeWaiters_ with
  | [] => (s, [])
  | call :: rest =>
    if prev = 1 ∧ s.state_ = 0 then
      ({ s with state_ := -1, writeWaiters_ := rest }, [⟨.write, call⟩])
    else (s, [])

/-- The release of a writer, with the coroutines it wakes: the next writer, or all readers. -/
def unlockWrite (s : State) : State × List Handle :=
  let s := { s with state_ := 0 }
  match s.writeWaiters_ with
  | call :: rest =>
    if s.state_ = 0 then
      ({ s with state_ := -1, writeWaiters_ := rest }, [⟨.write, call⟩])
    else (s, [])
  | [] =>
    ({ s with readWaiters_ := [], state_ := wrap (s.state_ + s.readWaiters_.length) },
      s.readWaiters_.map fun call => ⟨.read, call⟩)

def unlock (s : State) : Mode → State × List Handle
  | .read => s.unlockRead
  | .write => s.unlockWrite

/-- The end of a move assignment: guard `i` takes over the pointer of guard `j`. -/
def takeOver (s : State) (i j : ℕ) : State :=
  match s.guards[j]? with
  | none => s
  | some g => { s with guards := (s.guards.set i g).set j { g with lock_ := .null } }

def finish (s : State) : Option (ℕ × ℕ) → State
  | none => s
  | some (i, j) => s.takeOver i j

/-- Resume the coroutines a release has woken: post them, or start to run them inline. -/
def resumeAll (s : State) (loop : Bool) (toWake : List Handle) (assign : Option (ℕ × ℕ)) : State :=
  if loop || toWake.isEmpty then { s with posted := s.posted ++ toWake }.finish assign
  else { s with frames := ⟨toWake, assign⟩ :: s.frames }

def awaitResume (s : State) (mode : Mode) : State :=
  { s with guards := s.guards ++ [⟨mode, .owns⟩] }

/-- `await_ready` and the loop of `tryReadLock`, or `await_ready` and `tryWriteLock`. -/
def exchange (s : State) : Mode → State × Bool
  | .read =>
    if 0 ≤ s.state_ then ({ s with state_ := wrap (s.state_ + 1) }, true) else (s, false)
  | .write => if s.state_ = 0 then ({ s with state_ := -1 }, true) else (s, false)

def awaitSuspend (s : State) (call : ℕ) : Mode → State
  | .read => { s with readWaiters_ := s.readWaiters_ ++ [call] }
  | .write => { s with writeWaiters_ := s.writeWaiters_ ++ [call] }

/-- `co_await readLock()` or `co_await writeLock()`, up to completion or suspension. -/
def lock (s : State) (mode : Mode) (call : ℕ) : State :=
  match s.exchange mode with
  | (s, true) => s.awaitResume mode
  | (s, false) => s.awaitSuspend call mode

def tryLock (s : State) (mode : Mode) : State × Bool :=
  match s.exchange mode with
  | (s, true) => (s.awaitResume mode, true)
  | (s, false) => (s, false)

end State

/-- The operations; a guard operation says whether the thread has an event loop. -/
inductive Act
  | lock (mode : Mode)
  | tryLock (mode : Mode)
  /-- The move constructor, a new guard from guard `i`. -/
  | moveConstruct (i : ℕ)
  | moveAssign (loop : Bool) (i j : ℕ)
  | destroy (loop : Bool) (i : ℕ)
  | resume (i : ℕ)
  | resumeInline
  /-- The innermost release is through and returns to the guard operation. -/
  | return_
deriving DecidableEq, Repr

def step (s : State) : Act → Option State
  | .lock mode => some ({ s with nextCall := s.nextCall + 1 }.lock mode s.nextCall)
  | .tryLock mode => some (s.tryLock mode).1
  | .moveConstruct i =>
    match s.guards[i]? with
    | none => none
    | some g => some { s with guards := s.guards.set i { g with lock_ := .null } ++ [g] }
  | .moveAssign loop i j =>
    match s.guards[i]?, s.guards[j]? with
    | some g, some g' =>
      if g.mode ≠ g'.mode then none
      else if i = j then some s
      else if g.lock_ = .null then some (s.takeOver i j)
      else
        match s.unlock g.mode with
        | (s, toWake) =>
          some ({ s with guards := s.guards.set i { g with lock_ := .stale } }.resumeAll loop toWake
            (some (i, j)))
    | _, _ => none
  | .destroy loop i =>
    match s.guards[i]? with
    | none => none
    | some g =>
      if g.lock_ = .null then some s
      else
        match s.unlock g.mode with
        | (s, toWake) =>
          some ({ s with guards := s.guards.set i { g with lock_ := .null } }.resumeAll loop toWake
            none)
  | .resume i =>
    match s.posted[i]? with
    | none => none
    | some handle => some ({ s with posted := s.posted.eraseIdx i }.awaitResume handle.mode)
  | .resumeInline =>
    match s.frames with
    | ⟨handle :: rest, assign⟩ :: frames =>
      some ({ s with frames := ⟨rest, assign⟩ :: frames }.awaitResume handle.mode)
    | _ => none
  | .return_ =>
    match s.frames with
    | ⟨[], assign⟩ :: frames => some ({ s with frames := frames }.finish assign)
    | _ => none

def new : State where
  state_ := 0
  readWaiters_ := []
  writeWaiters_ := []
  posted := []
  frames := []
  guards := []
  nextCall := 0

/-- The lock, driven from one thread, with and without an event loop. -/
def system : TransitionSystem State Act where
  init s := s = new
  step := step

/-! ### Holders -/

def woken (s : State) : List Handle := s.posted ++ s.frames.flatMap Frame.toWake

def Guard.holds (mode : Mode) (g : Guard) : Bool := decide (g.mode = mode ∧ g.lock_ = .owns)

def Handle.wants (mode : Mode) (handle : Handle) : Bool := decide (handle.mode = mode)

/-- The readers or the writers: the guards that own, and the woken coroutines. -/
def holders (mode : Mode) (s : State) : ℕ :=
  s.guards.countP (Guard.holds mode) + (woken s).countP (Handle.wants mode)

def Act.touches : Act → List ℕ
  | .moveConstruct i | .destroy _ i => [i]
  | .moveAssign _ i j => [i, j]
  | _ => []

/-- No guard operation works on a guard whose own release is under way, and the readers, waiting
ones included, stay below `2 ^ 31`. -/
def GuardOk (s : State) (a : Act) : Prop :=
  (∀ i ∈ a.touches, ∀ g ∈ s.guards[i]?, g.lock_ ≠ .stale) ∧
    (a = .lock .read ∨ a = .tryLock .read →
      holders .read s + s.readWaiters_.length + 1 < 2147483648)
  deriving Decidable

/-! ### The word and the holders -/

lemma wrap_of_range {x : ℤ} (hlo : -2147483648 ≤ x) (hhi : x < 2147483648) : wrap x = x := by
  rw [wrap, Int.bmod_def]
  split <;> omega

/-- The word counts the holders, and nobody waits without need. -/
structure Counts (state : ℤ) (readers writers readWaiting writeWaiting : ℕ) : Prop where
  value : state = readers - writers
  exclusive : writers = 0 ∨ writers = 1 ∧ readers = 0
  reader_waits : readWaiting ≠ 0 → state = -1
  writer_waits : writeWaiting ≠ 0 → state ≠ 0
  room : readers + readWaiting < 2147483648

/-- The word of a state counts, if the release under way has woken `toWake` besides. -/
def CountsWith (s : State) (toWake : List Handle) : Prop :=
  Counts s.state_ (holders .read s + toWake.countP (Handle.wants .read))
    (holders .write s + toWake.countP (Handle.wants .write)) s.readWaiters_.length
    s.writeWaiters_.length

variable {s s' : State} {i : ℕ} {g : Guard}

variable {readers writers j : ℕ} {guards : List Guard} {g' : Guard} {pointer : Pointer}
  {assign : Option (ℕ × ℕ)} {mode : Mode}

lemma Counts.unlockRead
    (h : Counts s.state_ (readers + 1) writers s.readWaiters_.length s.writeWaiters_.length) :
    Counts s.unlockRead.1.state_ (readers + s.unlockRead.2.countP (Handle.wants .read))
      (writers + s.unlockRead.2.countP (Handle.wants .write)) s.unlockRead.1.readWaiters_.length
      s.unlockRead.1.writeWaiters_.length := by
  obtain ⟨hvalue, hexcl, hread, hwrite, hroom⟩ := h
  have hwrap : wrap (s.state_ - 1) = s.state_ - 1 := wrap_of_range (by omega) (by omega)
  simp only [State.unlockRead, hwrap]
  split
  case h_1 hnil =>
    simp only [hnil, length_nil, countP_nil]
    constructor <;> omega
  case h_2 call rest hcons =>
    split_ifs with hlast
    · simp only [countP_singleton, Handle.wants]
      constructor <;> simp <;> omega
    · simp only [hcons, length_cons, countP_nil]
      constructor <;> omega

/-- **The release of a writer** keeps the count: its own share goes to the next writer, or to all
waiting readers. -/
lemma Counts.unlockWrite
    (h : Counts s.state_ readers (writers + 1) s.readWaiters_.length s.writeWaiters_.length) :
    Counts s.unlockWrite.1.state_ (readers + s.unlockWrite.2.countP (Handle.wants .read))
      (writers + s.unlockWrite.2.countP (Handle.wants .write))
      s.unlockWrite.1.readWaiters_.length s.unlockWrite.1.writeWaiters_.length := by
  obtain ⟨hvalue, hexcl, hread, hwrite, hroom⟩ := h
  simp only [State.unlockWrite]
  split
  case h_1 call rest hcons =>
    simp only [if_true, countP_singleton, Handle.wants]
    constructor <;> simp <;> omega
  case h_2 hnil =>
    have hwrap : wrap (0 + s.readWaiters_.length) = s.readWaiters_.length := by
      rw [Int.zero_add]
      exact wrap_of_range (by omega) (by omega)
    have hall : (s.readWaiters_.map fun call => (⟨.read, call⟩ : Handle)).countP
        (Handle.wants .read) = s.readWaiters_.length := by
      simp [Handle.wants]
    have hnone : (s.readWaiters_.map fun call => (⟨.read, call⟩ : Handle)).countP
        (Handle.wants .write) = 0 := by
      simp [Handle.wants]
    have hlen : s.writeWaiters_.length = 0 := length_eq_zero_iff.mpr hnil
    rw [hwrap, hall, hnone]
    show Counts (s.readWaiters_.length : ℤ) _ _ 0 s.writeWaiters_.length
    constructor <;> omega

lemma unlock_fields (s : State) (mode : Mode) :
    (s.unlock mode).1.guards = s.guards ∧ (s.unlock mode).1.posted = s.posted ∧
      (s.unlock mode).1.frames = s.frames ∧ (s.unlock mode).1.nextCall = s.nextCall := by
  cases hw : s.writeWaiters_ <;> cases mode <;>
    simp only [State.unlock, State.unlockRead, State.unlockWrite, hw]
  · simp
  · simp
  · split_ifs <;> simp
  · simp

/-! ### Guards and releases under way -/

def pending (frames : List Frame) : List (ℕ × ℕ) := frames.flatMap fun f => f.assign.toList

/-- Each move assignment under way has marked its guard as stale, has another guard of the same
kind to take over from, and touches no guard an outer one is going to overwrite. -/
structure Pending (guards : List Guard) (moves : List (ℕ × ℕ)) : Prop where
  stale : ∀ p ∈ moves, p.1 ≠ p.2 ∧ ∃ mode, guards[p.1]? = some ⟨mode, .stale⟩ ∧
    (guards[p.2]?).map Guard.mode = some mode
  apart : moves.Pairwise fun p q => p.1 ≠ q.1 ∧ p.2 ≠ q.1

namespace Pending

variable {guards guards' : List Guard} {moves : List (ℕ × ℕ)}

variable (h : Pending guards moves)

include h

lemma not_target (hg : guards[i]? = some g) (hlive : g.lock_ ≠ .stale) : ∀ p ∈ moves, i ≠ p.1 := by
  rintro p hp rfl
  obtain ⟨-, mode, hstale, -⟩ := h.stale p hp
  rw [hg] at hstale
  exact hlive (by rw [Option.some.inj hstale])

lemma congr
    (hmode : ∀ (k : ℕ) mode, (guards[k]?).map Guard.mode = some mode →
      (guards'[k]?).map Guard.mode = some mode)
    (hsame : ∀ p ∈ moves, guards'[p.1]? = guards[p.1]?) : Pending guards' moves := by
  refine ⟨fun p hp => ?_, h.apart⟩
  obtain ⟨hne, mode, hstale, hsource⟩ := h.stale p hp
  exact ⟨hne, mode, by rw [hsame p hp, hstale], hmode _ _ hsource⟩

lemma concat (g : Guard) : Pending (guards ++ [g]) moves := by
  have hkeep : ∀ (k : ℕ) g', guards[k]? = some g' → (guards ++ [g])[k]? = some g' := by
    intro k g' hk
    obtain ⟨hlt, -⟩ := List.getElem?_eq_some_iff.mp hk
    rw [List.getElem?_append_left hlt, hk]
  refine h.congr (fun k mode hk => ?_) fun p hp => ?_
  · obtain ⟨g', hg', rfl⟩ := Option.map_eq_some_iff.mp hk
    rw [hkeep k g' hg', Option.map_some]
  · obtain ⟨-, mode, hstale, -⟩ := h.stale p hp
    rw [hstale, hkeep _ _ hstale]

lemma set {g' : Guard} (hg : guards[i]? = some g) (hmode : g'.mode = g.mode)
    (hfree : ∀ p ∈ moves, i ≠ p.1) : Pending (guards.set i g') moves := by
  obtain ⟨hi, -⟩ := List.getElem?_eq_some_iff.mp hg
  refine h.congr (fun k mode hk => ?_) fun p hp => List.getElem?_set_ne (hfree p hp)
  by_cases hik : i = k
  · subst hik
    rw [hg, Option.map_some] at hk
    rw [List.getElem?_set_self hi, Option.map_some, hmode, hk]
  · rw [List.getElem?_set_ne hik, hk]

lemma push {j : ℕ} {mode : Mode} (hij : i ≠ j)
    (hi : guards[i]? = some ⟨mode, .stale⟩) (hj : (guards[j]?).map Guard.mode = some mode)
    (hfree : ∀ p ∈ moves, i ≠ p.1 ∧ j ≠ p.1) : Pending guards ((i, j) :: moves) := by
  refine ⟨fun p hp => ?_, pairwise_cons.mpr ⟨hfree, h.apart⟩⟩
  rcases mem_cons.mp hp with rfl | hp
  · exact ⟨hij, mode, hi, hj⟩
  · exact h.stale p hp

end Pending

lemma holds_of_ne (h : g.lock_ ≠ .owns) : Guard.holds mode g = false := by simp [Guard.holds, h]

lemma countP_lose (mode : Mode) (hi : guards[i]? = some g) (g' : Guard) (hlost : g'.lock_ ≠ .owns) :
    (guards.set i g').countP (Guard.holds mode) + (Guard.holds mode g).toNat =
      guards.countP (Guard.holds mode) := by
  have hset := Slots.countP_set (Guard.holds mode) hi g'
  rwa [holds_of_ne hlost, Bool.toNat_false] at hset

lemma countP_takeOver (mode : Mode) (hij : i ≠ j) (hi : guards[i]? = some g)
    (hj : guards[j]? = some g') (hlost : g.lock_ ≠ .owns) :
    ((guards.set i g').set j { g' with lock_ := .null }).countP (Guard.holds mode) =
      guards.countP (Guard.holds mode) := by
  have hset := Slots.countP_set (Guard.holds mode) hi g'
  have hj' : (guards.set i g')[j]? = some g' := (getElem?_set_ne hij).trans hj
  have hclear := countP_lose mode hj' { g' with lock_ := .null } (by simp)
  rw [holds_of_ne hlost, Bool.toNat_false] at hset
  omega

/-- The invariant of the lock. -/
structure Sound (s : State) : Prop where
  counts : CountsWith s []
  pending : Pending s.guards (pending s.frames)

lemma Sound.takeOver (h : Sound s) (hij : i ≠ j) (hi : s.guards[i]? = some g)
    (hj : s.guards[j]? = some g') (hmode : g'.mode = g.mode) (hlost : g.lock_ ≠ .owns)
    (hfree : ∀ p ∈ AsyncRwLock.pending s.frames, i ≠ p.1 ∧ j ≠ p.1) : Sound (s.takeOver i j) := by
  have htake : s.takeOver i j =
      { s with guards := (s.guards.set i g').set j { g' with lock_ := .null } } := by
    simp only [State.takeOver, hj]
  rw [htake]
  refine ⟨?_, ?_⟩
  · simp only [CountsWith, holders, countP_takeOver _ hij hi hj hlost]
    exact h.counts
  · have hset : Pending (s.guards.set i g') (AsyncRwLock.pending s.frames) :=
      h.pending.set hi hmode fun p hp => (hfree p hp).1
    exact hset.set ((getElem?_set_ne hij).trans hj) rfl fun p hp => (hfree p hp).2

lemma Sound.finish (hcounts : CountsWith s [])
    (hpending : Pending s.guards (assign.toList ++ AsyncRwLock.pending s.frames)) :
    Sound (s.finish assign) := by
  cases assign with
  | none => exact ⟨hcounts, hpending⟩
  | some p =>
    obtain ⟨i, j⟩ := p
    obtain ⟨hij, mode, hi, hsource⟩ := hpending.stale (i, j) (by simp)
    obtain ⟨g', hj, hmode⟩ := Option.map_eq_some_iff.mp hsource
    obtain ⟨hhead, htail⟩ := pairwise_cons.mp hpending.apart
    have hsound : Sound s := ⟨hcounts, fun p hp => hpending.stale p (by simp [hp]), htail⟩
    exact hsound.takeOver hij hi hj hmode (by simp) hhead

lemma Sound.resumeAll {toWake : List Handle} (loop : Bool) (hcounts : CountsWith s toWake)
    (hpending : Pending s.guards (assign.toList ++ AsyncRwLock.pending s.frames)) :
    Sound (s.resumeAll loop toWake assign) := by
  simp only [State.resumeAll]
  split_ifs
  · refine Sound.finish ?_ hpending
    have hholders : ∀ m, holders m { s with posted := s.posted ++ toWake } =
        holders m s + toWake.countP (Handle.wants m) := by
      intro m
      simp only [holders, woken, countP_append]
      omega
    simpa only [CountsWith, hholders, countP_nil, add_zero] using hcounts
  · have hholders : ∀ m, holders m { s with frames := ⟨toWake, assign⟩ :: s.frames } =
        holders m s + toWake.countP (Handle.wants m) := by
      intro m
      simp only [holders, woken, flatMap_cons, countP_append]
      omega
    refine ⟨?_, hpending⟩
    simpa only [CountsWith, hholders, countP_nil, add_zero] using hcounts

@[simp] lemma holders_awaitResume (s : State) (mode m : Mode) :
    holders m (s.awaitResume mode) = holders m s + (decide (mode = m)).toNat := by
  simp only [holders, State.awaitResume, countP_append, countP_singleton, Guard.holds, woken]
  by_cases h : mode = m
  · simp [h]
    omega
  · simp [h]

/-- A guard that owns calls its release; `pointer` is what it keeps until the release returns. -/
lemma Sound.release (h : Sound s) (hg : s.guards[i]? = some g) (hnull : g.lock_ ≠ .null)
    (hstale : g.lock_ ≠ .stale) (hlost : pointer ≠ .owns) (loop : Bool)
    (hpending : Pending (s.guards.set i { g with lock_ := pointer })
      (assign.toList ++ AsyncRwLock.pending s.frames)) :
    Sound ({ (s.unlock g.mode).1 with
      guards := (s.unlock g.mode).1.guards.set i { g with lock_ := pointer } }.resumeAll loop
        (s.unlock g.mode).2 assign) := by
  obtain ⟨hguards, hposted, hframes, -⟩ := unlock_fields s g.mode
  rw [hguards]
  refine Sound.resumeAll loop ?_ (by rw [hframes]; exact hpending)
  have howns : g.lock_ = .owns := by cases hlock : g.lock_ <;> simp_all
  have hholders : ∀ m, holders m { (s.unlock g.mode).1 with
      guards := s.guards.set i { g with lock_ := pointer } } + (decide (g.mode = m)).toNat =
        holders m s := by
    intro m
    have := countP_lose m hg { g with lock_ := pointer } hlost
    simp only [Guard.holds, howns, and_true] at this
    simp only [holders, woken, hposted, hframes]
    omega
  have hcounts := h.counts
  have hread := hholders .read
  have hwrite := hholders .write
  simp only [CountsWith, countP_nil, add_zero] at hcounts ⊢
  cases hmode : g.mode <;> simp only [hmode, decide_true, Bool.toNat_true, reduceCtorEq,
    decide_false, Bool.toNat_false, add_zero] at hread hwrite <;>
    rw [← hread, ← hwrite] at hcounts
  · exact hcounts.unlockRead
  · exact hcounts.unlockWrite

lemma exchange_false (hex : s.exchange mode = (s', false)) :
    s' = s ∧ (mode = .read → s.state_ < 0) ∧ (mode = .write → s.state_ ≠ 0) := by
  cases mode <;> simp only [State.exchange] at hex <;> split_ifs at hex with hfree
  · simp at hex
  · exact ⟨(Prod.mk.inj hex).1.symm, fun _ => Int.not_le.mp hfree, nofun⟩
  · simp at hex
  · exact ⟨(Prod.mk.inj hex).1.symm, nofun, fun _ => hfree⟩

section Lock

variable (h : Sound s)
  (hroom : mode = .read → holders .read s + s.readWaiters_.length + 1 < 2147483648)

include h hroom

lemma Sound.acquire (hex : s.exchange mode = (s', true)) : Sound (s'.awaitResume mode) := by
  obtain ⟨hvalue, hexcl, hread, hwrite, hmax⟩ := h.counts
  simp only [countP_nil, add_zero] at hvalue hexcl hmax
  cases mode <;> simp only [State.exchange] at hex <;> split_ifs at hex with hfree <;>
    simp only [Prod.mk.injEq, and_true, Bool.false_eq_true, and_false] at hex <;> subst hex <;>
    refine ⟨?_, h.pending.concat _⟩
  · have hroom := hroom rfl
    have hwrap : wrap (s.state_ + 1) = s.state_ + 1 := wrap_of_range (by omega) (by omega)
    simp only [CountsWith, holders_awaitResume, countP_nil, hwrap]
    show Counts (s.state_ + 1) (holders .read s + 1 + 0) (holders .write s + 0 + 0)
      s.readWaiters_.length s.writeWaiters_.length
    constructor <;> omega
  · simp only [CountsWith, holders_awaitResume, countP_nil]
    show Counts (-1) (holders .read s + 0 + 0) (holders .write s + 1 + 0)
      s.readWaiters_.length s.writeWaiters_.length
    constructor <;> omega

lemma Sound.awaitSuspend (hread : mode = .read → s.state_ < 0)
    (hwrite : mode = .write → s.state_ ≠ 0) (call : ℕ) : Sound (s.awaitSuspend call mode) := by
  obtain ⟨hvalue, hexcl, hreader, hwriter, hmax⟩ := h.counts
  simp only [countP_nil, add_zero] at hvalue hexcl hmax
  refine ⟨?_, by cases mode <;> exact h.pending⟩
  cases mode with
  | read =>
    have hroom := hroom rfl
    have hneg := hread rfl
    show Counts s.state_ (holders .read s + 0) (holders .write s + 0)
      (s.readWaiters_ ++ [call]).length s.writeWaiters_.length
    rw [length_append, length_singleton]
    constructor <;> omega
  | write =>
    have hne := hwrite rfl
    show Counts s.state_ (holders .read s + 0) (holders .write s + 0) s.readWaiters_.length
      (s.writeWaiters_ ++ [call]).length
    constructor <;> omega

end Lock

lemma Sound.awaitResume {handle : Handle} {posted : List Handle} {frames : List Frame}
    (h : Sound s) (hwoken : ∀ m, (posted ++ frames.flatMap Frame.toWake).countP (Handle.wants m) +
      (decide (handle.mode = m)).toNat = (woken s).countP (Handle.wants m))
    (hpending : AsyncRwLock.pending frames = AsyncRwLock.pending s.frames) :
    Sound ({ s with posted := posted, frames := frames }.awaitResume handle.mode) := by
  refine ⟨?_, ?_⟩
  · have hholders : ∀ m, holders m ({ s with posted := posted, frames := frames }.awaitResume
        handle.mode) = holders m s := by
      intro m
      rw [holders_awaitResume, holders, holders, ← hwoken m, add_assoc]
      rfl
    rw [CountsWith, hholders, hholders]
    exact h.counts
  · show Pending (s.guards ++ [_]) (AsyncRwLock.pending frames)
    rw [hpending]
    exact h.pending.concat _

lemma Sound.step {a : Act} (h : Sound s) (hok : GuardOk s a)
    (hst : AsyncRwLock.step s a = some s') : Sound s' := by
  obtain ⟨hlive, hroom⟩ := hok
  have hfree : ∀ i ∈ a.touches, ∀ g, s.guards[i]? = some g →
      ∀ p ∈ AsyncRwLock.pending s.frames, i ≠ p.1 := fun i hi g hg =>
    h.pending.not_target hg (hlive i hi g hg)
  revert hst
  fun_cases AsyncRwLock.step s a <;> rintro ⟨⟩
  case case1 mode =>
    have hroom := fun hm : mode = .read => hroom (.inl (hm ▸ rfl))
    have hnext : Sound { s with nextCall := s.nextCall + 1 } := ⟨h.counts, h.pending⟩
    simp only [State.lock]
    split
    case h_1 t hex => exact hnext.acquire hroom hex
    case h_2 t hex =>
      obtain ⟨rfl, hread, hwrite⟩ := exchange_false hex
      exact hnext.awaitSuspend hroom hread hwrite _
  case case2 mode =>
    simp only [State.tryLock]
    split
    case h_1 t hex => exact h.acquire (fun hm => hroom (.inr (hm ▸ rfl))) hex
    case h_2 t hex =>
      obtain ⟨rfl, -, -⟩ := exchange_false hex
      exact h
  case case4 i g hg =>
    have hholders : ∀ m, holders m { s with
        guards := s.guards.set i { g with lock_ := .null } ++ [g] } = holders m s := by
      intro m
      have hcount := countP_lose m hg { g with lock_ := .null } (by simp)
      simp only [holders, List.countP_append, List.countP_singleton]
      cases hg' : Guard.holds m g <;> simp [hg', woken] at hcount ⊢ <;> omega
    refine ⟨?_, (h.pending.set hg (by rfl) (hfree i (by simp [Act.touches]) g hg)).concat g⟩
    rw [CountsWith, hholders, hholders]
    exact h.counts
  case case7 i j g g' hg' hg hmode hij hnull =>
    -- A null guard has nothing to release, and nothing to lose.
    exact h.takeOver hij hg hg' (not_not.mp hmode).symm (by simp [hnull]) fun p hp =>
      ⟨hfree i (by simp [Act.touches]) g hg p hp, hfree j (by simp [Act.touches]) g' hg' p hp⟩
  case case8 loop i j g g' hg' hg hmode hij hnull t toWake hunlock =>
    have hi := hfree i (by simp [Act.touches]) g hg
    have hset : Pending (s.guards.set i { g with lock_ := .stale })
        (AsyncRwLock.pending s.frames) := h.pending.set hg rfl hi
    have hpush := hset.push hij (List.getElem?_set_self (List.getElem?_eq_some_iff.mp hg).1)
      (by rw [List.getElem?_set_ne hij, hg', Option.map_some, not_not.mp hmode])
      fun p hp => ⟨hi p hp, hfree j (by simp [Act.touches]) g' hg' p hp⟩
    simpa [hunlock] using
      h.release hg hnull (hlive i (by simp [Act.touches]) g hg) (by simp) loop hpush
  case case12 loop i g hg hnull t toWake hunlock =>
    have hi : i ∈ (Act.destroy loop i).touches := by simp [Act.touches]
    have hset : Pending (s.guards.set i { g with lock_ := .null }) (AsyncRwLock.pending s.frames) :=
      h.pending.set hg rfl (hfree i hi g hg)
    simpa [hunlock] using h.release hg hnull (hlive i hi g hg) (by simp) loop hset
  case case14 hhandle =>
    refine h.awaitResume (fun m => ?_) rfl
    have := Slots.countP_eraseIdx (Handle.wants m) hhandle
    simp only [woken, List.countP_append]
    simp only [Handle.wants] at this ⊢
    omega
  case case15 handle rest assign frames hframes =>
    refine h.awaitResume (fun m => ?_) (by rw [hframes]; rfl)
    simp only [woken, hframes, List.flatMap_cons, List.countP_append, List.countP_cons,
      Handle.wants]
    by_cases hm : handle.mode = m
    · simp [hm]
      omega
    · simp [hm]
  case case17 assign frames hframes =>
    have hpending := h.pending
    rw [hframes] at hpending
    refine Sound.finish ?_ hpending
    have hholders : ∀ m, holders m { s with frames := frames } = holders m s := by
      intro m
      simp [holders, woken, hframes]
    rw [CountsWith, hholders, hholders]
    exact h.counts
  all_goals exact h

/-- The lock is sound in every run within the conditions. -/
theorem sound_of_reachable (h : system.ReachableWithin GuardOk s) : Sound s := by
  refine h.invariant ?_ fun s a s' hs hok hst => hs.step hok hst
  rintro _ rfl
  refine ⟨?_, by simp [new, AsyncRwLock.pending], List.Pairwise.nil⟩
  show Counts 0 0 0 0 0
  constructor <;> omega

/-- **The lock excludes and strands nobody**, as long as no guard is touched whose own release is
under way and the readers fit the word: `-1` is one writer and no reader, `n ≥ 0` are `n` readers
and no writer, a reader waits only for a writer, and a writer waits only for a holder. -/
theorem rwLock_excludes {s : State} (h : system.ReachableWithin GuardOk s) :
    (s.state_ = -1 ↔ holders .write s = 1 ∧ holders .read s = 0) ∧
      (∀ n : ℕ, s.state_ = n ↔ holders .read s = n ∧ holders .write s = 0) ∧
      (s.readWaiters_ ≠ [] → s.state_ = -1) ∧ (s.writeWaiters_ ≠ [] → s.state_ ≠ 0) := by
  obtain ⟨hvalue, hexcl, hread, hwrite, -⟩ := (sound_of_reachable h).counts
  simp only [countP_nil, add_zero] at hvalue hexcl
  refine ⟨by omega, fun n => by omega, fun hne => hread ?_, fun hne => hwrite ?_⟩
  · exact length_eq_zero_iff.not.mpr hne
  · exact length_eq_zero_iff.not.mpr hne

/-- Two readers wait while the lock passes inline from one writer to the next, whose release then
wakes both; one of them has gone on. -/
theorem rwLock_excludes_readers_woken : ∃ s, system.ReachableWithin GuardOk s ∧
    (s.state_ = 2 ∧ (woken s).length = 1 ∧ s.frames ≠ []) ∧
      (s.state_ = -1 ↔ holders .write s = 1 ∧ holders .read s = 0) ∧
      (∀ n : ℕ, s.state_ = n ↔ holders .read s = n ∧ holders .write s = 0) ∧
      (s.readWaiters_ ≠ [] → s.state_ = -1) ∧ (s.writeWaiters_ ≠ [] → s.state_ ≠ 0) := by
  have hs : system.ReachableWithin GuardOk _ := .final new
      [.lock .write, .lock .read, .lock .write, .lock .read, .destroy false 0, .resumeInline,
        .destroy false 1, .resumeInline] rfl (by decide)
  exact ⟨_, hs, by decide, rwLock_excludes hs⟩

/-- **A writer on an unlocked lock**: a guard is assigned an empty one without an event loop. Its
release runs the next writer inline, which assigns to the same guard once more; the pointer is
still set, and the lock is released a second time, under the new writer. -/
theorem rwLock_broken_inline :
    ∃ s, system.Reachable s ∧ s.state_ = 0 ∧ holders .write s = 1 := by
  exact TransitionSystem.reached_by new
    [.lock .write, .moveConstruct 0, .lock .write, .moveAssign false 1 0, .resumeInline,
      .moveAssign false 1 0] rfl (by decide)

end Pman.AsyncRwLock
