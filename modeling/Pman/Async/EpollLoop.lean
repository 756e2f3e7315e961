import Pman.Async.EpollDescriptors
import Pman.Async.TimerOrder
import Pman.Lib.Batches

set_option autoImplicit false

/-!
# Callbacks of the epoll loop that throw

An iteration of `run` or `runOnce` waits, executes the timers that are due, calls the callbacks of
the descriptors that were reported, and at last the callbacks that were posted. The timers and the
posted callbacks are moved into local vectors first, and an exception of a callback destroys what is
left of them.

Callbacks may use all operations of the loop and may run it again, so iterations nest. The loop
simulates the library of batches in two readings, for the posted callbacks and for the timers.

## Main results

* `posted_simulation`: the posted callbacks are a queue of batches.
* `nothing_lost`: when a throwing callback loses no other work.
-/

namespace Pman

open List

open EventLoop (Event)

namespace EpollLoop

inductive Phase (κ : Type*)
  | wait
  /-- In the timers: the number of the batch, what is left of it, and the events to come. -/
  | timers (call : ℕ) (batch : List (Pending κ)) (events : List (ℤ × BitVec 32))
  | descriptors (events : List (ℤ × BitVec 32))
  /-- In `processPostedCallbacks`: the number of the drain and what is left of its vector. -/
  | posted (drain : ℕ) (callbacks : List (Option κ))

/-- A call of `run`, or else of `runOnce`; `busy` while one of its callbacks executes. -/
structure Frame (κ : Type*) where
  isRun : Bool
  phase : Phase κ
  busy : Bool

def Frame.draining {κ : Type*} (f : Frame κ) : Option (ℕ × List (Option κ)) :=
  match f.phase with
  | .posted drain callbacks => some (drain, callbacks)
  | _ => none

def Frame.batch {κ : Type*} (f : Frame κ) : Option (ℕ × List (Pending κ)) :=
  match f.phase with
  | .timers call batch _ => some (call, batch)
  | _ => none

/-- How many callbacks are left in the local vector of an iteration. -/
def Frame.left {κ : Type*} (f : Frame κ) : ℕ :=
  match f.phase with
  | .timers _ batch _ => batch.length
  | .posted _ callbacks => callbacks.length
  | _ => 0

/-- How many posted callbacks are left in the local vector of an iteration. -/
def Frame.postedLeft {κ : Type*} (f : Frame κ) : ℕ :=
  match f.phase with
  | .posted _ callbacks => callbacks.length
  | _ => 0

/-- What is left of a call at the end of an iteration: `run` goes on, `runOnce` returns. -/
def Frame.iterated {κ : Type*} (f : Frame κ) : List (Frame κ) :=
  if f.isRun then [⟨true, .wait, false⟩] else []

end EpollLoop

/-- The loop, with the last reading of its clock and the calls of `run` and `runOnce` in progress,
innermost first. The last three fields are history. -/
structure EpollLoop (κ : Type*) extends EpollLoop.Descriptors κ, TimerQueue κ where
  running_ : Bool
  postedCallbacks_ : List (Option κ)
  clock : ℤ
  frames : List (EpollLoop.Frame κ)
  posts : Batches.History (Option κ)
  timerRuns : Batches.History (Pending κ)
  /-- The nodes that were taken out of the multimap because they were due. -/
  expired : List (TimerNode κ)

namespace EpollLoop

variable {κ : Type*}

def new (eventFd clock : ℤ) : EpollLoop κ where
  toDescriptors := Descriptors.new eventFd
  toTimerQueue := TimerQueue.new
  running_ := false
  postedCallbacks_ := []
  clock := clock
  frames := []
  posts := {}
  timerRuns := {}
  expired := []

/-- The operations that callbacks and the code around the loop use. -/
inductive Op (κ : Type*)
  | addTimer (now duration : ℤ) (callback : Option κ)
  | addPeriodicTimer (now period : ℤ) (callback : Option κ)
  | cancelTimer (timerId : ℕ)
  | addFd (fd : ℤ) (events : Event) (callback : κ) (fails : Bool)
  | modifyFd (fd : ℤ) (events : Event)
  | removeFd (fd : ℤ)
  | post (callback : Option κ)
  | stop

def post (s : EpollLoop κ) (callback : Option κ) : EpollLoop κ :=
  { s with
    postedCallbacks_ := s.postedCallbacks_ ++ [callback]
    posts := { s.posts with given := s.posts.given ++ [callback] } }

/-- An operation; those that read the clock carry the reading. An `addFd` that throws changes
nothing. -/
def apply (s : EpollLoop κ) : Op κ → Option (EpollLoop κ)
  | .addTimer now duration callback =>
    if s.clock ≤ now then
      some { s with toTimerQueue := (s.addTimer now duration callback).1, clock := now }
    else none
  | .addPeriodicTimer now period callback =>
    if s.clock ≤ now then
      some { s with toTimerQueue := (s.addPeriodicTimer now period callback).1, clock := now }
    else none
  | .cancelTimer timerId => some { s with toTimerQueue := (s.cancelTimer timerId).1 }
  | .addFd fd events callback fails =>
    match s.addFd fd events callback fails with
    | .ok d => some { s with toDescriptors := d }
    | .error _ => some s
  | .modifyFd fd events => some { s with toDescriptors := s.modifyFd fd events }
  | .removeFd fd => some { s with toDescriptors := s.removeFd fd }
  | .post callback => some (s.post callback)
  | .stop => some { s with running_ := false }

/-- `run` calls `processTimers` in every iteration, `runOnce` if the first timer is due at its own
reading of the clock. -/
def callsProcessTimers (q : TimerQueue κ) (isRun : Bool) (first : ℤ) : Bool :=
  isRun || match q.timersByExpiry_ with
    | [] => false
    | n :: _ => decide (n.expiry ≤ first)

/-- The timers of an iteration, up to the execution of the batch. -/
def runTimers (q : TimerQueue κ) (isRun : Bool) (first now : ℤ) :
    TimerQueue κ × List (Pending κ) :=
  if callsProcessTimers q isRun first then q.processTimers now else (q, [])

def taken (q : TimerQueue κ) (isRun : Bool) (first now : ℤ) : List (TimerNode κ) :=
  if callsProcessTimers q isRun first then q.due now else []

/-- After `epoll_wait` with its result, an iteration starts with the timers. -/
def afterWait (s : EpollLoop κ) (isRun : Bool) (rest : List (Frame κ)) (first now : ℤ)
    (waited : Descriptors κ × List (ℤ × BitVec 32)) : EpollLoop κ :=
  match runTimers s.toTimerQueue isRun first now with
  | (q, batch) =>
    { s with
      toDescriptors := waited.1
      toTimerQueue := q
      clock := now
      frames := ⟨isRun, .timers s.timerRuns.starts.length batch waited.2, false⟩ :: rest
      timerRuns := { s.timerRuns with
        given := s.timerRuns.given ++ batch
        starts := s.timerRuns.starts ++ [(s.timerRuns.given ++ batch).length] }
      expired := s.expired ++ taken s.toTimerQueue isRun first now }

/-- `processPostedCallbacks` up to the execution of its vector. -/
def processPostedCallbacks (s : EpollLoop κ) (f : Frame κ) (rest : List (Frame κ)) :
    EpollLoop κ :=
  if s.postedCallbacks_.isEmpty then { s with frames := f.iterated ++ rest }
  else
    { s with
      postedCallbacks_ := []
      frames := ⟨f.isRun, .posted s.posts.starts.length s.postedCallbacks_, false⟩ :: rest
      posts := { s.posts with starts := s.posts.starts ++ [s.posts.given.length] } }

/-- The loop goes on in its innermost call `f`: it calls the next callback of the phase, or comes
to the next phase. -/
def advance (s : EpollLoop κ) (f : Frame κ) (rest : List (Frame κ)) : Option (EpollLoop κ) :=
  match f.phase with
  | .wait => if f.isRun && !s.running_ then some { s with frames := rest } else none
  | .timers call (p :: batch) events =>
    some { s with
      frames := ⟨f.isRun, .timers call batch events, true⟩ :: rest
      timerRuns := { s.timerRuns with handled := s.timerRuns.handled ++ [(p, call)] } }
  | .timers call [] events =>
    some { s with
      frames := ⟨f.isRun, .descriptors events, false⟩ :: rest
      timerRuns := { s.timerRuns with closed := s.timerRuns.closed ++ [call] } }
  | .descriptors (e :: events) =>
    let called := decide (e.1 ≠ s.eventFd_) && (s.fdCallbacks_ e.1).isSome
    some { s with frames := ⟨f.isRun, .descriptors events, called⟩ :: rest }
  | .descriptors [] => some (s.processPostedCallbacks f rest)
  | .posted drain (callback :: callbacks) =>
    some { s with
      frames := ⟨f.isRun, .posted drain callbacks, callback.isSome⟩ :: rest
      posts := { s.posts with handled := s.posts.handled ++ [(callback, drain)] } }
  | .posted drain [] =>
    some { s with
      frames := f.iterated ++ rest
      posts := { s.posts with closed := s.posts.closed ++ [drain] } }

inductive Act (κ : Type*)
  /-- A callback, or the code around the loop, uses an operation. -/
  | op (o : Op κ)
  | enter (isRun : Bool)
  | wake (first now : ℤ) (ready : ℤ → Readiness)
  | interrupted (first now : ℤ)
  /-- `epoll_wait` fails otherwise: `run` throws, `runOnce` returns. -/
  | failed
  | go
  | ret
  /-- The callback that executes throws, and the exception leaves `run` or `runOnce`. -/
  | throw

/-- No call is in progress, or a callback of the innermost one executes. -/
def outside (s : EpollLoop κ) : Bool :=
  match s.frames with
  | [] => true
  | f :: _ => f.busy

/-- The innermost call is in `epoll_wait`; `run` waits only while `running_`. -/
def waits (s : EpollLoop κ) : Option (Bool × List (Frame κ)) :=
  match s.frames with
  | ⟨isRun, .wait, false⟩ :: rest => if isRun && !s.running_ then none else some (isRun, rest)
  | _ => none

def step (s : EpollLoop κ) : Act κ → Option (EpollLoop κ)
  | .op o => if s.outside then s.apply o else none
  | .enter isRun =>
    if s.outside then
      some { s with running_ := isRun || s.running_, frames := ⟨isRun, .wait, false⟩ :: s.frames }
    else none
  | .wake first now ready =>
    match s.waits with
    | some (isRun, rest) =>
      if s.clock ≤ first ∧ first ≤ now then
        some (s.afterWait isRun rest first now (s.toDescriptors.epollWait ready))
      else none
    | none => none
  | .interrupted first now =>
    match s.waits with
    | some (true, _) => some s
    | some (false, rest) =>
      if s.clock ≤ first ∧ first ≤ now then
        some (s.afterWait false rest first now (s.toDescriptors, []))
      else none
    | none => none
  | .failed =>
    match s.waits with
    | some (_, rest) => some { s with frames := rest }
    | none => none
  | .go =>
    match s.frames with
    | f :: rest => if f.busy then none else s.advance f rest
    | [] => none
  | .ret =>
    match s.frames with
    | f :: rest =>
      if f.busy then some { s with frames := { f with busy := false } :: rest } else none
    | [] => none
  | .throw =>
    match s.frames with
    | f :: rest => if f.busy then some { s with frames := rest } else none
    | [] => none

def system (κ : Type*) : TransitionSystem (EpollLoop κ) (Act κ) where
  init s := ∃ eventFd clock, s = new eventFd clock
  step := step

/-! ### Nothing is lost -/

def draining (s : EpollLoop κ) : List (Option κ) :=
  (s.frames.filterMap Frame.draining).flatMap Prod.snd

def batched (s : EpollLoop κ) : List (Pending κ) :=
  (s.frames.filterMap Frame.batch).flatMap Prod.snd

/-- **No work is lost.** An empty function that was posted counts as run when it was passed. -/
structure NothingLost (s : EpollLoop κ) : Prop where
  /-- The callbacks posted so far are those that ran, in this order, then those in a local vector,
  then those that wait. -/
  posted : s.posts.handled.map Prod.fst ++ s.draining ++ s.postedCallbacks_ = s.posts.given
  /-- A callback runs in a drain that was started after it was posted. -/
  later : ∀ (k : ℕ) callback drain, s.posts.handled[k]? = some (callback, drain) →
    ∃ m, s.posts.starts[drain]? = some m ∧ k < m
  /-- A drain that was gone through has run everything that was posted before it. -/
  drained : ∀ drain ∈ s.posts.closed,
    ∃ m, s.posts.starts[drain]? = some m ∧ m ≤ s.posts.handled.length
  /-- The callback of every timer that was due ran once, or is in a local vector. -/
  timers : (s.expired.filterMap TimerNode.pending).Perm
    (s.timerRuns.handled.map Prod.fst ++ s.batched)
  once : ((s.expired.filter fun n => decide (n.entry.period ≤ 0)).map fun n => n.entry.id).Nodup

/-- The next step of the loop moves posted callbacks into a local vector. -/
def startsDrain (s : EpollLoop κ) : Bool :=
  match s.frames with
  | ⟨_, .descriptors [], false⟩ :: _ => !s.postedCallbacks_.isEmpty
  | _ => false

/-- An exception leaves nothing behind in the local vector of the call it leaves, and a drain starts
only when no other has callbacks left. -/
def Careful (s : EpollLoop κ) : Act κ → Prop
  | .throw => ∀ f ∈ s.frames.head?, f.left = 0
  | .go => s.startsDrain = true → ∀ f ∈ s.frames.tail, f.postedLeft = 0
  | _ => True

instance (s : EpollLoop κ) (a : Act κ) : Decidable (Careful s a) := by
  cases a <;> dsimp only [Careful] <;> infer_instance

/-! ### The two readings -/

def postedWork (s : EpollLoop κ) : Batches (Option κ) :=
  { s.posts with
    waiting := s.postedCallbacks_
    opened := s.frames.filterMap Frame.draining }

/-- The timers of the loop as work in batches. Nothing waits: an iteration makes its batch of the
timers that are due. -/
def timerWork (s : EpollLoop κ) : Batches (Pending κ) :=
  { s.timerRuns with
    waiting := []
    opened := s.frames.filterMap Frame.batch }

variable {s s' : EpollLoop κ} {rest : List (Frame κ)} {f : Frame κ}

variable {o : Op κ} {isRun : Bool} {first now : ℤ}

lemma apply_cases (h : s.apply o = some s') :
    s'.frames = s.frames ∧ s'.timerRuns = s.timerRuns ∧ s'.expired = s.expired ∧
      ((s'.posts = s.posts ∧ s'.postedCallbacks_ = s.postedCallbacks_) ∨
        ∃ callback, s' = s.post callback) := by
  revert h
  fun_cases apply s o <;> rintro ⟨⟩
  case case10 callback => exact ⟨rfl, rfl, rfl, .inr ⟨callback, rfl⟩⟩
  all_goals exact ⟨rfl, rfl, rfl, .inl ⟨rfl, rfl⟩⟩

lemma of_waits (h : s.waits = some (isRun, rest)) : s.frames = ⟨isRun, .wait, false⟩ :: rest := by
  unfold waits at h
  split at h
  · next hframes =>
    split_ifs at h
    obtain ⟨rfl, rfl⟩ := Prod.mk.inj (Option.some.inj h)
    exact hframes
  · cases h

lemma iterated_views (f : Frame κ) :
    f.iterated.filterMap Frame.draining = [] ∧ f.iterated.filterMap Frame.batch = [] := by
  unfold Frame.iterated
  split_ifs <;> exact ⟨rfl, rfl⟩

def Orderly (b : Batches (Option κ)) (a : Batches.Act (Option κ)) : Prop :=
  Batches.NothingLeft b a ∧ Batches.InTurn b a

lemma posted_abandon {p : ℕ × List (Option κ)} (hframes : s.frames = f :: rest)
    (hp : f.draining = some p) :
    (postedWork s).opened.head? = some p ∧
      Batches.step (postedWork s) .abandon = some (postedWork { s with frames := rest }) := by
  have hopened : (postedWork s).opened = p :: rest.filterMap Frame.draining := by
    simp [postedWork, hframes, filterMap_cons_some hp]
  refine ⟨by rw [hopened]; rfl, ?_⟩
  simp only [Batches.step, hopened]
  rfl

lemma timer_abandon {p : ℕ × List (Pending κ)} (hframes : s.frames = f :: rest)
    (hp : f.batch = some p) :
    (timerWork s).opened.head? = some p ∧
      Batches.step (timerWork s) .abandon = some (timerWork { s with frames := rest }) := by
  have hopened : (timerWork s).opened = p :: rest.filterMap Frame.batch := by
    simp [timerWork, hframes, filterMap_cons_some hp]
  refine ⟨by rw [hopened]; rfl, ?_⟩
  simp only [Batches.step, hopened]
  rfl

lemma Frame.left_eq_zero_iff : f.left = 0 ↔
    (∀ p, f.draining = some p → p.2 = []) ∧ ∀ p, f.batch = some p → p.2 = [] := by
  obtain ⟨isRun, phase, busy⟩ := f
  cases phase <;> simp [Frame.left, Frame.draining, Frame.batch]

lemma Frame.postedLeft_eq_zero_iff : f.postedLeft = 0 ↔ ∀ p, f.draining = some p → p.2 = [] := by
  obtain ⟨isRun, phase, busy⟩ := f
  cases phase <;> simp [Frame.postedLeft, Frame.draining]

lemma posted_advance (hframes : s.frames = f :: rest) (hbusy : f.busy = false)
    (hok : Careful s .go) (hst : s.advance f rest = some s') :
    postedWork s' = postedWork s ∨
      ∃ b, Orderly (postedWork s) b ∧ Batches.step (postedWork s) b = some (postedWork s') := by
  have hiter := (iterated_views f).1
  revert hst
  fun_cases advance s f rest <;> rintro ⟨⟩
  case case6 hphase =>
    unfold processPostedCallbacks
    split_ifs with hempty
    · exact .inl (by simp [postedWork, hframes, Frame.draining, hphase, filterMap_append, hiter])
    · refine .inr ⟨.start [], ⟨trivial, fun p hp => ?_⟩, ?_⟩
      · have hdrain : s.startsDrain = true := by
          obtain ⟨isRun, phase, busy⟩ := f
          cases hphase
          cases hbusy
          simp [startsDrain, hframes, hempty]
        have hopened : (postedWork s).opened = rest.filterMap Frame.draining := by
          simp [postedWork, hframes, Frame.draining, hphase]
        rw [hopened] at hp
        obtain ⟨g, hg, hgp⟩ := mem_filterMap.mp hp
        have hleft := hok hdrain g (by rw [hframes]; exact hg)
        exact Frame.postedLeft_eq_zero_iff.mp hleft p hgp
      · simp [Batches.step, postedWork, hframes, Frame.draining, hphase]
  case case7 hphase =>
    exact .inr ⟨.take, ⟨trivial, trivial⟩, by
      simp [Batches.step, postedWork, hframes, Frame.draining, hphase]⟩
  case case8 hphase =>
    exact .inr ⟨.close, ⟨trivial, trivial⟩, by
      simp [Batches.step, postedWork, hframes, Frame.draining, hphase, filterMap_append, hiter]⟩
  case case1 hphase _ | case3 hphase | case4 hphase | case5 hphase _ =>
    exact .inl (by simp [postedWork, hframes, Frame.draining, hphase, filterMap_cons])

lemma timer_advance (hframes : s.frames = f :: rest) (hst : s.advance f rest = some s') :
    timerWork s' = timerWork s ∨ ∃ b, Batches.NothingLeft (timerWork s) b ∧
      Batches.step (timerWork s) b = some (timerWork s') := by
  have hiter := (iterated_views f).2
  revert hst
  fun_cases advance s f rest <;> rintro ⟨⟩
  case case3 hphase =>
    exact .inr ⟨.take, trivial, by simp [Batches.step, timerWork, hframes, Frame.batch, hphase]⟩
  case case4 hphase =>
    exact .inr ⟨.close, trivial, by simp [Batches.step, timerWork, hframes, Frame.batch, hphase,
      filterMap_cons]⟩
  case case6 hphase =>
    unfold processPostedCallbacks
    split_ifs
    · exact .inl (by simp [timerWork, hframes, Frame.batch, hphase, filterMap_append, hiter])
    · exact .inl (by simp [timerWork, hframes, Frame.batch, hphase, filterMap_cons])
  case case8 hphase =>
    exact .inl (by simp [timerWork, hframes, Frame.batch, hphase, filterMap_append, hiter])
  case case1 hphase _ | case5 hphase _ | case7 hphase =>
    exact .inl (by simp [timerWork, hframes, Frame.batch, hphase, filterMap_cons])

lemma throw_cases (hst : step s .throw = some s') :
    ∃ f rest, s.frames = f :: rest ∧ s' = { s with frames := rest } := by
  simp only [step] at hst
  split at hst
  · next f rest hframes =>
    split_ifs at hst
    exact ⟨f, rest, hframes, (Option.some.inj hst).symm⟩
  · cases hst

lemma wake_cases {ready : ℤ → Readiness} (hst : step s (.wake first now ready) = some s') :
    ∃ isRun rest, first ≤ now ∧ s.frames = ⟨isRun, .wait, false⟩ :: rest ∧
      s' = s.afterWait isRun rest first now (s.toDescriptors.epollWait ready) := by
  simp only [step] at hst
  split at hst
  · next isRun rest hw =>
    split_ifs at hst with hclock
    exact ⟨isRun, rest, hclock.2, of_waits hw, (Option.some.inj hst).symm⟩
  · cases hst

lemma step_cases {a : Act κ} (hst : step s a = some s') :
    (∃ o, a = .op o ∧ s.apply o = some s') ∨
    (∃ running f, s' = { s with running_ := running, frames := f } ∧
      f.filterMap Frame.draining = s.frames.filterMap Frame.draining ∧
      f.filterMap Frame.batch = s.frames.filterMap Frame.batch) ∨
    (∃ isRun rest first now waited, s.frames = ⟨isRun, .wait, false⟩ :: rest ∧ first ≤ now ∧
      s' = s.afterWait isRun rest first now waited) ∨
    (a = .go ∧ ∃ f rest, s.frames = f :: rest ∧ f.busy = false ∧ s.advance f rest = some s') ∨
    (a = .throw ∧ ∃ f rest, s.frames = f :: rest ∧ s' = { s with frames := rest }) := by
  revert hst
  fun_cases step s a <;> intro hst <;> try cases hst
  case case1 => exact .inl ⟨_, rfl, hst⟩
  case case3 | case8 => exact .inr (.inl ⟨_, _, rfl, rfl, rfl⟩)
  case case5 hw hclock | case9 hw hclock =>
    exact .inr (.inr (.inl ⟨_, _, _, _, _, of_waits hw, hclock.2, rfl⟩))
  case case12 hw => refine .inr (.inl ⟨_, _, rfl, ?_, ?_⟩) <;> rw [of_waits hw] <;> rfl
  case case15 hframes hbusy =>
    exact .inr (.inr (.inr (.inl ⟨rfl, _, _, hframes, Bool.eq_false_iff.mpr hbusy, hst⟩)))
  case case17 hframes _ => refine .inr (.inl ⟨_, _, rfl, ?_, ?_⟩) <;> rw [hframes] <;> rfl
  case case20 hframes _ => exact .inr (.inr (.inr (.inr ⟨rfl, _, _, hframes, rfl⟩)))

/-- **The posted callbacks of a careful loop** are work that is handled in order. -/
theorem posted_simulation :
    Simulation (system κ) Careful (Batches.system (Option κ)) Orderly postedWork where
  init := by
    rintro _ ⟨eventFd, clock, rfl⟩
    rfl
  step := by
    intro s a s' hok hst
    rcases step_cases hst with ⟨o, -, happly⟩ | ⟨running, f, rfl, hdrain, -⟩ |
      ⟨isRun, rest, first, now, waited, hframes, -, rfl⟩ |
      ⟨rfl, f, rest, hframes, hbusy, hadv⟩ | ⟨rfl, f, rest, hframes, rfl⟩
    · obtain ⟨hframes, -, -, ⟨hposts, hqueue⟩ | ⟨callback, rfl⟩⟩ := apply_cases happly
      · exact .inl (by unfold postedWork; rw [hframes, hposts, hqueue])
      · exact .inr ⟨.give callback, ⟨trivial, trivial⟩, rfl⟩
    · exact .inl (by simp only [postedWork, hdrain])
    · exact .inl (by simp [afterWait, postedWork, hframes, Frame.draining, filterMap_cons])
    · exact posted_advance hframes hbusy hok hadv
    · cases hp : f.draining with
      | none => exact .inl (by simp [postedWork, hframes, filterMap_cons_none hp])
      | some p =>
        obtain ⟨hhead, hpop⟩ := posted_abandon hframes hp
        have hleft := hok f (by rw [hframes]; rfl)
        refine .inr ⟨.abandon, ⟨fun q hq => ?_, trivial⟩, hpop⟩
        rw [hhead] at hq
        cases hq
        exact (Frame.left_eq_zero_iff.mp hleft).1 p hp

/-- The timers of a careful loop are work that is handled in order. -/
theorem timer_simulation :
    Simulation (system κ) Careful (Batches.system (Pending κ)) Batches.NothingLeft timerWork where
  init := by
    rintro _ ⟨eventFd, clock, rfl⟩
    rfl
  step := by
    intro s a s' hok hst
    rcases step_cases hst with ⟨o, -, happly⟩ | ⟨running, f, rfl, -, hbatch⟩ |
      ⟨isRun, rest, first, now, waited, hframes, -, rfl⟩ |
      ⟨rfl, f, rest, hframes, -, hadv⟩ | ⟨rfl, f, rest, hframes, rfl⟩
    · obtain ⟨hframes, hruns, -, -⟩ := apply_cases happly
      exact .inl (by unfold timerWork; rw [hframes, hruns])
    · exact .inl (by simp only [timerWork, hbatch])
    · -- The batch of the iteration is given and started at once.
      refine .inr ⟨.start (runTimers s.toTimerQueue isRun first now).2, trivial, ?_⟩
      simp [afterWait, Batches.system, Batches.step, timerWork, hframes, Frame.batch,
        filterMap_cons]
    · exact timer_advance hframes hadv
    · cases hp : f.batch with
      | none => exact .inl (by simp [timerWork, hframes, filterMap_cons_none hp])
      | some p =>
        obtain ⟨hhead, hpop⟩ := timer_abandon hframes hp
        have hleft := hok f (by rw [hframes]; rfl)
        refine .inr ⟨.abandon, fun q hq => ?_, hpop⟩
        rw [hhead] at hq
        cases hq
        exact (Frame.left_eq_zero_iff.mp hleft).2 p hp

/-! ### Timers that are due -/

/-- What is known of the timers: the containers are in order, and a one-shot timer that was due is
not stored any more. -/
structure DueOnce (q : TimerQueue κ) (expired : List (TimerNode κ)) : Prop where
  ordered : q.Ordered
  indexed : q.Indexed
  lt : ∀ n ∈ expired, n.entry.id < q.nextTimerId_
  gone : ∀ n ∈ expired, n.entry.period ≤ 0 → n.entry.id ∉ TimerQueue.ids q.timersByExpiry_
  once : ((expired.filter fun n => decide (n.entry.period ≤ 0)).map fun n => n.entry.id).Nodup

namespace DueOnce

variable {q : TimerQueue κ} {expired : List (TimerNode κ)}

lemma add (h : DueOnce q expired) (now duration : ℤ) (callback : Option κ) (period : ℤ) :
    DueOnce (q.add now duration callback period).1 expired := by
  refine ⟨h.ordered.add .., h.indexed.add .., fun n hn => Nat.lt_succ_of_lt (h.lt n hn),
    fun n hn hshot hmem => ?_, h.once⟩
  rcases (TimerQueue.mem_ids_emplace _ _ _ _).mp hmem with heq | hmem
  · exact absurd heq (Nat.ne_of_lt (h.lt n hn))
  · exact h.gone n hn hshot hmem

lemma cancelTimer (h : DueOnce q expired) (timerId : ℕ) :
    DueOnce (q.cancelTimer timerId).1 expired := by
  refine ⟨h.ordered.cancelTimer timerId, h.indexed.cancelTimer timerId, fun n hn => ?_,
    fun n hn hshot hmem => ?_, h.once⟩
  · rw [TimerQueue.nextTimerId_cancelTimer]
    exact h.lt n hn
  · obtain ⟨m, hm, heq⟩ := mem_map.mp hmem
    have hstored := ((h.indexed.mem_cancelTimer timerId m).mp hm).1
    exact h.gone n hn hshot (heq ▸ mem_map_of_mem hstored)

lemma processTimers (h : DueOnce q expired) (now : ℤ) :
    DueOnce (q.processTimers now).1 (expired ++ q.due now) := by
  have hstored : ∀ n ∈ q.due now, n ∈ q.timersByExpiry_ ∧ n.expiry ≤ now := fun n hn =>
    h.ordered.mem_due.mp hn
  refine ⟨h.ordered.processTimers now, h.indexed.processTimers now, fun n hn => ?_,
    fun n hn hshot hmem => ?_, ?_⟩
  · rw [TimerQueue.nextTimerId_processTimers]
    rcases mem_append.mp hn with hn | hn
    · exact h.lt n hn
    · exact h.indexed.id_lt n (hstored n hn).1
  · rcases mem_append.mp hn with hn | hn
    · exact h.gone n hn hshot (TimerQueue.mem_ids_of_processTimers q now (.inl hmem))
    · exact h.ordered.not_mem_ids_processTimers h.indexed (hstored n hn).1 (hstored n hn).2 hshot
        hmem
  · rw [filter_append, map_append, nodup_append]
    refine ⟨h.once, ?_, fun a ha b hb heq => ?_⟩
    · exact h.indexed.id_nodup.sublist
        ((filter_sublist.trans (TimerQueue.due_sublist q now)).map _)
    · -- A timer that was due before is not stored, and one that is due now is.
      obtain ⟨n, hn, rfl⟩ := mem_map.mp ha
      obtain ⟨m, hm, rfl⟩ := mem_map.mp hb
      obtain ⟨hn, hshot⟩ := mem_filter.mp hn
      refine h.gone n hn (of_decide_eq_true hshot) (heq ▸ ?_)
      exact mem_map_of_mem (hstored m (mem_filter.mp hm).1).1

lemma runTimers (h : DueOnce q expired) (isRun : Bool) (first now : ℤ) :
    DueOnce (EpollLoop.runTimers q isRun first now).1 (expired ++ taken q isRun first now) := by
  unfold EpollLoop.runTimers taken
  split_ifs
  · exact h.processTimers now
  · rw [append_nil]
    exact h

end DueOnce

lemma runTimers_batch (q : TimerQueue κ) (isRun : Bool) (first now : ℤ) :
    (runTimers q isRun first now).2 = (taken q isRun first now).filterMap TimerNode.pending := by
  unfold runTimers taken
  split_ifs
  · exact TimerQueue.processTimers_batch q now
  · rfl

lemma lt_of_mem_runTimers {q : TimerQueue κ} (h : q.Ordered) (hle : first ≤ now) {n : TimerNode κ}
    (hn : n ∈ (runTimers q isRun first now).1.timersByExpiry_) : first < n.expiry := by
  unfold runTimers at hn
  split_ifs at hn with hcalls
  · have := h.lt_of_mem_processTimers hn
    omega
  · unfold callsProcessTimers at hcalls
    cases hq : q.timersByExpiry_ with
    | nil =>
      simp [hq] at hn
    | cons m rest =>
      simp only [hq, Bool.or_eq_true, decide_eq_true_eq, not_or, not_le] at hcalls
      rw [hq] at hn
      have hsorted := h.sorted
      rw [hq] at hsorted
      rcases mem_cons.mp hn with rfl | hn
      · exact hcalls.2
      · rcases (pairwise_cons.mp hsorted).1 n hn with hlt | ⟨heq, -⟩
        · omega
        · omega

lemma DueOnce.apply (h : DueOnce s.toTimerQueue s.expired) (happly : s.apply o = some s') :
    DueOnce s'.toTimerQueue s'.expired := by
  revert happly
  fun_cases EpollLoop.apply s o <;> rintro ⟨⟩
  case case1 | case3 => exact h.add ..
  case case5 => exact h.cancelTimer _
  all_goals exact h

lemma advance_timers (h : s.advance f rest = some s') : s'.toTimerQueue = s.toTimerQueue ∧
      s'.expired = s.expired ∧ s'.timerRuns.given = s.timerRuns.given := by
  revert h
  fun_cases advance s f rest <;> rintro ⟨⟩
  case case6 =>
    unfold processPostedCallbacks
    split_ifs <;> exact ⟨rfl, rfl, rfl⟩
  all_goals exact ⟨rfl, rfl, rfl⟩

/-- **In every run** one-shot timers are due once, and what the history was given are the callbacks
of the timers that were due. -/
lemma dueOnce_of_reachable {ok : EpollLoop κ → Act κ → Prop} (h : (system κ).ReachableWithin ok s) :
    DueOnce s.toTimerQueue s.expired ∧
      s.timerRuns.given = s.expired.filterMap TimerNode.pending := by
  refine h.invariant (I := fun s => DueOnce s.toTimerQueue s.expired ∧
    s.timerRuns.given = s.expired.filterMap TimerNode.pending) ?_ fun s a s' hs _ hst => ?_
  · rintro _ ⟨eventFd, clock, rfl⟩
    refine ⟨⟨⟨.nil, by simp [new, TimerQueue.new]⟩, ⟨.nil, ?_, .nil, ?_, fun id addr => ?_⟩, ?_, ?_,
      .nil⟩, rfl⟩ <;> simp [new, TimerQueue.new]
  · obtain ⟨hdue, hgiven⟩ := hs
    rcases step_cases hst with ⟨o, -, happly⟩ | ⟨running, f, rfl, -, -⟩ |
      ⟨isRun, rest, first, now, waited, -, -, rfl⟩ | ⟨-, f, rest, -, -, hadv⟩ |
      ⟨-, f, rest, -, rfl⟩
    · obtain ⟨-, hruns, hexpired, -⟩ := apply_cases happly
      exact ⟨hdue.apply happly, by rw [hruns, hexpired]; exact hgiven⟩
    · exact ⟨hdue, hgiven⟩
    · refine ⟨hdue.runTimers isRun first now, ?_⟩
      show s.timerRuns.given ++ (runTimers s.toTimerQueue isRun first now).2 = _
      rw [hgiven, runTimers_batch, ← filterMap_append]
      rfl
    · obtain ⟨hq, hexpired, hruns⟩ := advance_timers hadv
      exact ⟨by rw [hq, hexpired]; exact hdue, by rw [hruns, hexpired]; exact hgiven⟩
    · exact ⟨hdue, hgiven⟩

/-! ### What exceptions lose -/

lemma conserved_timerWork (hgiven : s.timerRuns.given = s.expired.filterMap TimerNode.pending)
    (h : NothingLost s) : Batches.Conserved (timerWork s) := by
  show s.timerRuns.given.Perm (s.timerRuns.handled.map Prod.fst ++ s.batched ++ [])
  rw [hgiven, append_nil]
  exact h.timers

lemma nothingLost_of_reachable (h : (system κ).ReachableWithin Careful s) : NothingLost s := by
  have hposted := Batches.orderly_of_reachable (fun _ _ hok => hok)
    (posted_simulation.reachableWithin h)
  have htimers := Batches.conserved_of_reachable (fun _ _ hok => hok)
    (timer_simulation.reachableWithin h)
  obtain ⟨hdue, hgiven⟩ := dueOnce_of_reachable h
  refine ⟨hposted.order, hposted.later, hposted.closed, ?_, hdue.once⟩
  rw [← hgiven]
  have hperm : s.timerRuns.given.Perm (s.timerRuns.handled.map Prod.fst ++ s.batched ++ []) :=
    htimers
  rwa [append_nil] at hperm

lemma left_eq_zero_of_nothingLost (h : (system κ).ReachableWithin Careful s)
    (hst : step s .throw = some s') (hs' : NothingLost s') : Careful s .throw := by
  have hlost := nothingLost_of_reachable h
  obtain ⟨-, hgiven⟩ := dueOnce_of_reachable h
  obtain ⟨f, rest, hframes, rfl⟩ := throw_cases hst
  intro g hg
  rw [hframes, head?_cons, Option.mem_some_iff] at hg
  subst hg
  refine Frame.left_eq_zero_iff.mpr ⟨fun p hp => ?_, fun p hp => ?_⟩
  · obtain ⟨hhead, hpop⟩ := posted_abandon hframes hp
    have hbefore : Batches.Conserved (postedWork s) := .of_eq hlost.posted.symm
    have hafter : Batches.Conserved (postedWork { s with frames := rest }) := .of_eq hs'.posted.symm
    exact (Batches.abandon_conserved_iff hbefore hpop).mp hafter p hhead
  · obtain ⟨hhead, hpop⟩ := timer_abandon hframes hp
    have hbefore : Batches.Conserved (timerWork s) := conserved_timerWork hgiven hlost
    have hafter : Batches.Conserved (timerWork { s with frames := rest }) :=
      conserved_timerWork hgiven hs'
    exact (Batches.abandon_conserved_iff hbefore hpop).mp hafter p hhead

/-- **A throwing callback does not lose other work** in careful runs. In every state, the posted
callbacks have run in the order in which they were posted, or still wait in this order; those
posted during a drain run in a later one; the callbacks of all timers that were due have run once,
or wait in the vector of an iteration that is in progress; and an iteration takes all timers that
are due. An exception that is not careful loses work. -/
theorem nothing_lost {s : EpollLoop κ} (h : (system κ).ReachableWithin Careful s) :
    NothingLost s ∧
      (∀ first now ready s', step s (.wake first now ready) = some s' →
        ∀ n ∈ s'.timersByExpiry_, first < n.expiry) ∧
      ∀ s', step s .throw = some s' → (NothingLost s' ↔ Careful s .throw) := by
  refine ⟨nothingLost_of_reachable h, fun first now ready s' hst n hn => ?_, fun s' hst =>
    ⟨left_eq_zero_of_nothingLost h hst, fun hok => nothingLost_of_reachable (h.step hok hst)⟩⟩
  obtain ⟨isRun, rest, hle, -, rfl⟩ := wake_cases hst
  exact lt_of_mem_runTimers (dueOnce_of_reachable h).1.ordered hle hn

def quiet : ℤ → Readiness := fun _ => {}

/-- `runOnce`, up to its first posted callback; the batch of timers is empty. -/
def drain : List (Act ℕ) := [.enter false, .wake 0 0 quiet, .go, .go, .go]

/-- The last of two posted callbacks throws: the other has run, and nothing is lost. -/
theorem nothing_lost_last : ∃ s : EpollLoop ℕ, (system ℕ).ReachableWithin Careful s ∧
    (s.frames.isEmpty = true ∧ s.posts.handled.map Prod.fst = [some 1, some 2]) ∧
    NothingLost s := by
  have hs : (system ℕ).ReachableWithin Careful _ :=
    .final (new 3 0) (.op (.post (some 1)) :: .op (.post (some 2)) :: drain ++ [.ret, .go, .throw])
      ⟨3, 0, rfl⟩ (by decide)
  exact ⟨_, hs, by decide, (nothing_lost hs).1⟩

def NoThrow (_ : EpollLoop κ) : Act κ → Prop
  | .throw => False
  | _ => True

instance (s : EpollLoop κ) (a : Act κ) : Decidable (NoThrow s a) := by
  cases a <;> dsimp only [NoThrow] <;> infer_instance

/-- `runOnce` from its beginning to its end, when there is nothing to do. -/
def idleIteration : List (Act ℕ) := [.enter false, .wake 0 0 quiet, .go, .go]

/-- **Work is lost.** The first of two posted callbacks throws, and the other never runs; the first
of two timers that are due together throws, and the other never runs; and without any exception a
callback that was posted by a posted callback overtakes another when the callback runs the loop. In
the first two runs the loop is run again to its end. -/
theorem work_lost :
    (¬ ∀ s : EpollLoop ℕ, (system ℕ).Reachable s → s.frames.isEmpty = true →
      s.posts.handled.map Prod.fst ++ s.postedCallbacks_ = s.posts.given) ∧
    (¬ ∀ s : EpollLoop ℕ, (system ℕ).Reachable s → s.frames.isEmpty = true →
      (s.expired.filterMap TimerNode.pending).length = s.timerRuns.handled.length) ∧
    ¬ ∀ s : EpollLoop ℕ, (system ℕ).ReachableWithin NoThrow s →
      s.posts.handled.map Prod.fst <+: s.posts.given := by
  refine ⟨fun h => ?_, fun h => ?_, fun h => ?_⟩
  · refine absurd (h _ (.final (new 3 0)
      (.op (.post (some 1)) :: .op (.post (some 2)) :: drain ++ .throw :: idleIteration)
      ⟨3, 0, rfl⟩ (by decide)) rfl) (by decide)
  · refine absurd (h _ (.final (new 3 0)
      ([.op (.addTimer 0 0 (some 1)), .op (.addTimer 0 0 (some 2)), .enter false,
        .wake 0 0 quiet, .go, .throw] ++ idleIteration) ⟨3, 0, rfl⟩ (by decide)) rfl) (by decide)
  · refine absurd (h _ (.final (new 3 0)
      (.op (.post (some 1)) :: .op (.post (some 2)) :: drain ++ .op (.post (some 3)) :: drain)
      ⟨3, 0, rfl⟩ (by decide))) (by decide)

end EpollLoop

end Pman
