import Pman.Lib.Outline
import Pman.Process.Supervisor

set_option autoImplicit false

/-!
# What the supervisor does, access by access

The operations of the supervisor in phases: what a call that has got so far may do next to the table
of processes, to the numbers and to the children. A phase carries what the rest of the call still
depends on, such as the child whose exit is handled, the processes that are left to launch, or the
clock that the pending restarts are compared with.

All programs follow this outline, so what is shown for the outline holds for every interleaving of
the operations.

## Main results

* `follows_program`: the functions of the supervisor follow the outline.
-/

namespace Pman.ProcessSupervisor

open LockProgram Process

inductive Phase
  | outside
  /-- `supervisorLoop` has read the clock for the pending restarts. -/
  | timed (now : ℤ)
  /-- `supervisorLoop` has collected a child, and is about to call `handleChildExit`. -/
  | collected (child : Child) (status : ℕ)
  /-- `supervisorLoop` has left its loop; `hand` is the child it has collected last. -/
  | draining (hand : Option Child)
  | throwing
  | failing
  | inside
  | starting (names : List String)
  | raising
  /-- `stopProcess`, before and after the pending restart was cancelled; `restart` says that it is
  called by `restartProcess`. -/
  | stopping (name : String) (restart : Bool)
  | paused (name : String) (restart : Bool)
  /-- `stopProcess`, with nothing left to do but to signal. -/
  | halted (name : String) (restart : Bool)
  /-- A `waitpid` through the handle of `name` has reaped a child. -/
  | waited (name : String) (status : ℕ)
  | unlisted (name : String)
  /-- `handleChildExit`, before and after the process was looked up, and after its number was
  erased. -/
  | exiting (child : Child) (status : ℕ)
  | found (child : Child) (status : ℕ) (name : String)
  | erased (child : Child) (status : ℕ) (name : String)
  | exited (name : String) (status : ℕ)
  /-- `shouldRestart`, after the history was cleaned up at `now`. -/
  | cleaned (name : String) (status : ℕ) (now : ℤ)
  | approved (name : String) (now : ℤ)
  | counted (name : String) (now : ℤ)
  /-- The loop over the pending restarts: about to begin, with `names` left, with a process that is
  due, and about to launch it. -/
  | surveying (now : ℤ)
  | scanning (now : ℤ) (names : List String)
  | due (now : ℤ) (name : String) (names : List String)
  | restarting (now : ℤ) (name : String) (names : List String)
  | failed

def Phase.held : Phase → Bool
  | .outside | .timed _ | .collected _ _ | .draining _ | .throwing | .failing => false
  | _ => true

/-- The child that was collected last and is neither handled nor dropped yet. -/
def Phase.hand : Phase → Option Child
  | .collected child _ => some child
  | .draining hand => hand
  | _ => none

variable {φ : Phase} {m m' : Memory}

lemma Phase.hand_of_held (h : φ.held = true) : φ.hand = none := by
  cases φ with
  | collected | draining => cases h
  | _ => rfl

/-- The phases in which a call may look at the memory and go on as before: not those in which what
it does next is settled. -/
def Phase.stays : Phase → Bool
  | .timed _ | .collected _ _ | .draining _ => false
  | _ => true

lemma Phase.hand_of_stays (h : φ.stays = true) : φ.hand = none := by
  cases φ with
  | collected | draining => cases h
  | _ => rfl

/-- The operations that are asked to launch a child for a process. -/
def Op.starts : Op → String → Bool
  | .start, _ => true
  | .startProcess x, name | .restartProcess x, name => x == name
  | _, _ => false

def Op.isLoop : Op → Bool
  | .supervisorLoop _ _ => true
  | _ => false

/-- The operations other than the supervisor's thread and `stopProcess`. -/
def Op.isPlain : Op → Bool
  | .supervisorLoop _ _ | .stopProcess _ => false
  | _ => true

def Memory.handleOf (m : Memory) (name : String) : Option ProcessHandle :=
  (m.find name).bind ProcessState.handle

/-- Two memories with the same processes, numbers and children. -/
structure Memory.SameTable (m m' : Memory) : Prop where
  processes : m'.processes_ = m.processes_
  pids : m'.pidToName_ = m.pidToName_
  kernel : m'.kernel = m.kernel

def Memory.SameEnds (m m' : Memory) : Prop :=
  ∀ (i : ℕ) (e : Option Error), m'.loops[i]? = some (.finished e) → m.loops[i]? = some (.finished e)

lemma Memory.sameEnds_append (h : m'.loops = m.loops ++ [.created]) : m.SameEnds m' := by
  intro i e hend
  rw [h, List.getElem?_append] at hend
  split_ifs at hend with hi
  · exact hend
  · cases hlast : i - m.loops.length <;> simp [hlast] at hend

lemma Memory.sameEnds_set {i : ℕ} (h : m'.loops = m.loops.set i .running) : m.SameEnds m' := by
  intro j e hend
  rw [h, List.getElem?_set] at hend
  split_ifs at hend
  · cases hend
  · exact hend

/-! ### What may be done in a phase -/

section

variable (op : Op)

inductive Enters : Phase → Phase → Prop
  | inside (h : op.isPlain = true) : Enters .outside .inside
  | stopping (name : String) (restart : Bool)
      (h : op = if restart then .restartProcess name else .stopProcess name) :
      Enters .outside (.stopping name restart)
  | exiting (child : Child) (status : ℕ) :
      Enters (.collected child status) (.exiting child status)
  | surveying (now : ℤ) : Enters (.timed now) (.surveying now)

inductive Leaves : Phase → Phase → Prop
  | inside : Leaves .inside .outside
  | throwing (h : op ≠ .start) : Leaves .inside .throwing
  | started : Leaves (.starting []) .outside
  | raising : Leaves .raising .throwing
  | halted (name : String) (restart : Bool) : Leaves (.halted name restart) .outside
  | haltedThrowing (name : String) (restart : Bool) (h : op ≠ .start) :
      Leaves (.halted name restart) .throwing
  | scanned (now : ℤ) : Leaves (.scanning now []) .outside
  | failed : Leaves .failed .failing

variable (input : Input)

inductive Looks (m : Memory) : Phase → Phase → Prop
  | stay (φ : Phase) (h : φ.stays = true) : Looks m φ φ
  | fail (h : op = .start → input.errno.isSome = true) : Looks m .outside .throwing
  | time (hop : op.isLoop = true) : Looks m .outside (.timed input.now)
  | leave (hop : op.isLoop = true) (h : m.running_ = false ∨ input.poll = .failed) :
      Looks m .outside (.draining none)
  | startAll (h : op = .start) : Looks m .inside (.starting (m.processes_.map Prod.fst))
  | startOne (name : String) (h : (m.find name).isSome = true)
      (hop : op = .startProcess name ∨ op = .restartProcess name) :
      Looks m .inside (.starting [name])
  | unknown (name : String) (restart : Bool) (h : m.find name = none) :
      Looks m (.stopping name restart) (.halted name restart)
  | invalid (name : String) (restart : Bool) (h : m.validHandle name = none) :
      Looks m (.paused name restart) (.halted name restart)
  | unlisted (name : String) (h : m.validHandle name = none) : Looks m .inside (.unlisted name)
  | valid (name : String) (status : ℕ) (h : (m.validHandle name).isSome = true) :
      Looks m (.waited name status) .inside
  | found (child : Child) (status : ℕ) (name : String)
      (h : m.pidToName_.lookup child.pid = some name) :
      Looks m (.exiting child status) (.found child status name)
  | unmapped (child : Child) (status : ℕ) (h : m.pidToName_.lookup child.pid = none) :
      Looks m (.exiting child status) .inside
  | gone (child : Child) (status : ℕ) (name : String) (h : m.find name = none) :
      Looks m (.erased child status name) .inside
  | idle (name : String) (status : ℕ) : Looks m (.exited name status) .inside
  | refused (name : String) (status : ℕ) (now : ℤ) : Looks m (.cleaned name status now) .inside
  | approved (name : String) (status : ℕ) (now : ℤ) (state : ProcessState)
      (h : m.find name = some state) (hs : shouldRestart state status = true) :
      Looks m (.cleaned name status now) (.approved name now)
  | surveyed (now : ℤ) : Looks m (.surveying now) (.scanning now (m.processes_.map Prod.fst))
  | skip (now : ℤ) (name : String) (names : List String)
      (h : ∀ state, m.find name = some state →
        ¬ (state.pendingRestart = true ∧ state.scheduledRestartTime ≤ now)) :
      Looks m (.scanning now (name :: names)) (.scanning now names)
  | due (now : ℤ) (name : String) (names : List String) (state : ProcessState)
      (h : m.find name = some state)
      (hdue : state.pendingRestart = true ∧ state.scheduledRestartTime ≤ now) :
      Looks m (.scanning now (name :: names)) (.due now name names)

inductive Changes (name : String) : Phase → (ProcessState → ProcessState) → Phase → Prop
  | pause (restart : Bool) :
      Changes name (.stopping name restart) (fun s => { s with pendingRestart := false })
        (.paused name restart)
  | clear (now : ℤ) (names : List String) :
      Changes name (.due now name names) (fun s => { s with pendingRestart := false })
        (.restarting now name names)
  | reset (h : op = .restartProcess name) :
      Changes name (.starting [name])
        (fun s => { s with status.restartCount := 0, restartTimes := [] }) (.starting [name])
  | noteExit (status : ℕ) :
      Changes name (.waited name status)
        (fun s => { s with status.running := false, status.lastExitStatus := status }) .inside
  | record (child : Child) (status : ℕ) :
      Changes name (.erased child status name)
        (fun s =>
          { s with
            status.running := false
            status.lastExitStatus := status
            status.lastExitTime := input.now
            status.pid := -1 })
        (.exited name status)
  | clean (status : ℕ) :
      Changes name (.exited name status) (fun s => cleanupRestartHistory s input.now)
        (.cleaned name status input.now)
  | count (now delay : ℤ) :
      Changes name (.approved name now)
        (fun s =>
          { s with
            status.nextRestartDelay := delay
            pendingRestart := true
            scheduledRestartTime := input.now + delay
            status.restartCount := s.status.restartCount + 1 })
        (.counted name now)
  | push (now : ℤ) :
      Changes name (.counted name now)
        (fun s => { s with restartTimes := s.restartTimes ++ [input.now] }) .inside

/-- Data beside the processes, the numbers and the children is changed. -/
inductive Sets (m m' : Memory) : Phase → Phase → Prop
  | stay (φ : Phase) (hφ : φ = .outside ∨ φ = .inside) (hthrown : m'.thrown = m.thrown)
      (hloops : m.SameEnds m') : Sets m m' φ φ
  | fail (h : op = .start → input.errno.isSome = true) (hthrown : m'.thrown = m.thrown)
      (hloops : m'.loops = m.loops) : Sets m m' .outside .throwing
  | raise (e : Error) (hthrown : m'.thrown = m.thrown ++ [e]) (hloops : m'.loops = m.loops) :
      Sets m m' .throwing .outside
  | finish (hand : Option Child) (i turns : ℕ) (hop : op = .supervisorLoop i turns)
      (hthrown : m'.thrown = m.thrown) (hloops : m'.loops = m.loops.set i (.finished none)) :
      Sets m m' (.draining hand) .outside
  | crash (i turns : ℕ) (errno : Process.Errno) (hop : op = .supervisorLoop i turns)
      (hthrown : m'.thrown = m.thrown)
      (hloops : m'.loops = m.loops.set i (.finished (some (.system errno "fork")))) :
      Sets m m' .failing .outside

/-- A child is launched for the process `name`: the phase before, after a launch, and after one that
failed. -/
inductive Launches (name : String) : Phase → Phase → Phase → Prop
  | start (names : List String) (h : op.starts name = true) :
      Launches name (.starting (name :: names)) (.starting names) .raising
  | restart (now : ℤ) (names : List String) :
      Launches name (.restarting now name names) (.scanning now names) .failed

/-- A `waitpid` for any child: the phase before, after one that found nothing, and after one that
has reaped a child. -/
inductive Collects : Phase → Phase → (Child → ℕ → Phase) → Prop
  | handle (hop : op.isLoop = true) : Collects .outside .outside .collected
  | drain (hand : Option Child) :
      Collects (.draining hand) (.draining none) fun child _ => .draining (some child)

end

/-- The number in the handle of a process is erased: the phase before and after. -/
inductive Unlists (name : String) : Phase → Phase → Prop
  | halt (restart : Bool) : Unlists name (.paused name restart) (.halted name restart)
  | remove : Unlists name .inside (.unlisted name)
  | waited (status : ℕ) : Unlists name (.waited name status) (.unlisted name)

/-- What a call of `op` may do in a phase: the memory before and after the access, and the next
phase. -/
inductive Accesses (op : Op) : Phase → Site → Input → Memory → Memory → Phase → Prop
  | look {φ φ' : Phase} {input : Input} {m : Memory} (h : Looks op input m φ φ') :
      Accesses op φ .access input m m φ'
  | set {φ φ' : Phase} {input : Input} {m m' : Memory} (hm : m.SameTable m')
      (h : Sets op input m m' φ φ') : Accesses op φ .access input m m' φ'
  | signal {φ : Phase} {name : String} {input : Input} {m m' : Memory} (sig : Signal)
      (hφ : φ.held = true)
      (h : m' = m ∨ ∃ hdl ∈ m.validHandle name,
        m' = { m with kernel := m.kernel.signal sig hdl.pid_ hdl.launch }) :
      Accesses op φ (.signal name) input m m' φ
  | unreaped {name : String} {input : Input} {m : Memory} (h : m.waitpid name = m) :
      Accesses op .inside (.waitpid name) input m (m.waitpid name) .inside
  | waited {name : String} {input : Input} {m : Memory} {hdl : ProcessHandle} {child : Child}
      {status : ℕ} (hv : m.validHandle name = some hdl)
      (h : m.kernel.waitpid hdl.pid_ = .exited child status) :
      Accesses op .inside (.waitpid name) input m (m.waitpid name) (.waited name status)
  | uncollected {φ φ' : Phase} {f : Child → ℕ → Phase} {input : Input} {m : Memory}
      (hφ : Collects op φ φ' f) (h : m.kernel.waitAny input.pid = none) :
      Accesses op φ .access input m (m.collect input) φ'
  | collected {φ φ' : Phase} {f : Child → ℕ → Phase} {input : Input} {m : Memory} {child : Child}
      {status : ℕ} (hφ : Collects op φ φ' f) (h : m.kernel.waitAny input.pid = some (child, status)) :
      Accesses op φ .access input m (m.collect input) (f child status)
  | exit {launch status : ℕ} {input : Input} {m : Memory} (hop : op = .childExit launch status) :
      Accesses op .outside .access input m { m with kernel := m.kernel.exit launch status } .outside
  | launched {φ φ' φ'' : Phase} {name : String} {input : Input} {m : Memory}
      (hφ : Launches op name φ φ' φ'') (h : launches m input = true) :
      Accesses op φ .access input m (m.launch name input) φ'
  | unlaunched {φ φ' φ'' : Phase} {name : String} {input : Input} {m : Memory}
      (hφ : Launches op name φ φ' φ'') (h : launches m input = false) :
      Accesses op φ .access input m (m.launch name input) φ''
  | change {φ φ' : Phase} {name : String} {f : ProcessState → ProcessState} {input : Input}
      {m : Memory} (h : Changes op input name φ f φ') :
      Accesses op φ .access input m (m.modifyProcess name f) φ'
  | erase {child : Child} {status : ℕ} {name : String} {input : Input} {m : Memory} :
      Accesses op (.found child status name) .access input m (m.erasePid child.pid)
        (.erased child status name)
  | unlist {φ φ' : Phase} {name : String} {input : Input} {m m' : Memory}
      (hφ : Unlists name φ φ')
      (h : m.handleOf name = none ∧ m' = m ∨
        ∃ hdl, m.handleOf name = some hdl ∧ m' = m.erasePid hdl.pid_) :
      Accesses op φ .access input m m' φ'
  | add {spec : SupervisedProcess} {input : Input} {m : Memory} (hop : op = .add spec) :
      Accesses op .inside .access input m
        { m with
          processes_ := m.processes_ ++
            [(spec.name, { spec := spec, status := { name := spec.name } })] }
        .inside
  | remove {name : String} {turns : ℕ} {input : Input} {m : Memory} (hop : op = .remove name turns) :
      Accesses op (.unlisted name) .access input m
        { m with processes_ := m.processes_.filter fun e => e.1 != name } .inside

variable {op : Op} {φ' : Phase} {site : Site} {input : Input}

section

variable (h : Accesses op φ site input m m' φ')

include h

lemma Accesses.same_of_not_held (hφ : φ.held = false) :
    m'.processes_ = m.processes_ ∧ m'.pidToName_ = m.pidToName_ := by
  cases h with
  | look | exit => exact ⟨rfl, rfl⟩
  | set hm => exact ⟨hm.processes, hm.pids⟩
  | uncollected | collected =>
    unfold Memory.collect
    split <;> exact ⟨rfl, rfl⟩
  | signal _ hheld => rw [hφ] at hheld; cases hheld
  | launched h | unlaunched h | change h | unlist h => cases h <;> cases hφ
  | unreaped | waited | erase | add | remove => cases hφ

/-- The threads and what they have thrown change only where `Sets` says so. -/
lemma Accesses.sets_or_same :
    Sets op input m m' φ φ' ∨ m'.loops = m.loops ∧ m'.thrown = m.thrown := by
  cases h with
  | set _ h => exact .inl h
  | look | exit | change | erase | add | remove => exact .inr ⟨rfl, rfl⟩
  | signal _ _ h =>
    rcases h with rfl | ⟨_, -, rfl⟩ <;> exact .inr ⟨rfl, rfl⟩
  | unlist _ h =>
    rcases h with ⟨-, rfl⟩ | ⟨_, -, rfl⟩ <;> exact .inr ⟨rfl, rfl⟩
  | unreaped h => exact .inr (by rw [h]; exact ⟨rfl, rfl⟩)
  | waited hv h => exact .inr (by simp only [Memory.waitpid, hv, h]; exact ⟨rfl, rfl⟩)
  | uncollected | collected =>
    unfold Memory.collect
    split <;> exact .inr ⟨rfl, rfl⟩
  | launched | unlaunched =>
    unfold Memory.launch
    split_ifs
    · split <;> exact .inr ⟨rfl, rfl⟩
    · exact .inr ⟨rfl, rfl⟩

lemma Accesses.loops_cases :
    m.SameEnds m' ∨ ∃ i turns error, op = .supervisorLoop i turns ∧
      m'.loops = m.loops.set i (.finished error) ∧
      ((∃ hand, φ = .draining hand) ∧ error = none ∨
        φ = .failing ∧ ∃ errno, error = some (.system errno "fork")) := by
  have hsame : m'.loops = m.loops → m.SameEnds m' := fun heq i e hend => heq ▸ hend
  rcases h.sets_or_same with h | ⟨hloops, -⟩
  · cases h with
    | stay _ _ _ hloops => exact .inl hloops
    | fail _ _ hloops | raise _ _ hloops => exact .inl (hsame hloops)
    | finish hand i turns hop _ hloops =>
      exact .inr ⟨i, turns, none, hop, hloops, .inl ⟨⟨hand, rfl⟩, rfl⟩⟩
    | crash i turns errno hop _ hloops =>
      exact .inr ⟨i, turns, _, hop, hloops, .inr ⟨rfl, errno, rfl⟩⟩
  · exact .inl (hsame hloops)

lemma Accesses.thrown_cases : m'.thrown = m.thrown ∨ φ = .throwing := by
  rcases h.sets_or_same with hset | ⟨-, hthrown⟩
  · cases hset with
    | stay _ _ ht | fail _ ht | finish _ _ _ _ ht | crash _ _ _ _ ht => exact .inl ht
    | raise => exact .inr rfl
  · exact .inl hthrown

end

def outline : LockProgram.Outline Mutex Memory Input Site Op Phase where
  mutex := .supervisor
  entry := .outside
  held := Phase.held
  Enters := Enters
  Leaves := Leaves
  Accesses := Accesses
  held_entry := rfl
  held_of_enters := by
    intro op φ φ' h
    cases h <;> exact ⟨rfl, rfl⟩
  held_of_leaves := by
    intro op φ φ' h
    cases h <;> exact ⟨rfl, rfl⟩
  held_of_accesses := by
    intro op φ site input m m' φ' h
    cases h with
    | signal | unreaped | waited | exit | erase | add | remove => rfl
    | look h | set _ h | uncollected h | collected h | launched h | unlaunched h | change h
    | unlist h => cases h <;> rfl

/-- A program, in a call of `op` in the phase `φ`, follows the outline. -/
abbrev Follows (op : Op) (φ : Phase) (c : Code) : Prop := c.Follows outline op φ

section Rules

variable {k : Code} {name : String} {f : Input → Memory → Memory}

lemma follows_act {k : Input → Memory → Code}
    (h : ∀ input m, ∃ φ', Accesses op φ site input m (f input m) φ' ∧ Follows op φ' (k input m)) :
    Follows op φ (.act site f k) :=
  h

lemma follows_read {k : Input → Memory → Code}
    (h : ∀ input m, ∃ φ', Looks op input m φ φ' ∧ Follows op φ' (k input m)) :
    Follows op φ (read k) := by
  refine follows_act fun input m => ?_
  obtain ⟨φ', hlook, hk⟩ := h input m
  exact ⟨φ', .look hlook, hk⟩

lemma follows_read_stay (hφ : φ.stays = true) {k : Input → Memory → Code}
    (h : ∀ input m, Follows op φ (k input m)) : Follows op φ (read k) :=
  follows_read fun input m => ⟨φ, .stay φ hφ, h input m⟩

lemma follows_lock (h : Enters op φ φ') (hk : Follows op φ' k) :
    Follows op φ (.lock .supervisor k) :=
  ⟨rfl, φ', h, hk⟩

lemma follows_unlock (h : Leaves op φ φ') (hk : Follows op φ' k) :
    Follows op φ (.unlock .supervisor k) :=
  ⟨rfl, φ', h, hk⟩

lemma follows_update {f : Input → ProcessState → ProcessState}
    (h : ∀ input, ∃ φ', Changes op input name φ (f input) φ' ∧ Follows op φ' k) :
    Follows op φ (update name f k) := by
  refine follows_act fun input m => ?_
  obtain ⟨φ', hchange, hk⟩ := h input
  exact ⟨φ', .change hchange, hk⟩

lemma follows_write (hφ : φ = .outside ∨ φ = .inside)
    (hf : ∀ input m, m.SameTable (f input m) ∧ (f input m).thrown = m.thrown ∧
      (f input m).loops = m.loops) (hk : Follows op φ k) : Follows op φ (write f k) := by
  refine follows_act fun input m => ?_
  obtain ⟨hm, hthrown, hloops⟩ := hf input m
  exact ⟨φ, .set hm (.stay φ hφ hthrown fun i e hend => hloops ▸ hend), hk⟩

lemma follows_raise (e : Error) : Follows op .throwing (raise e) :=
  follows_act fun _ _ => ⟨_, .set ⟨rfl, rfl, rfl⟩ (.raise e rfl rfl), rfl⟩

lemma follows_unlockRaise (h : Leaves op φ .throwing) (e : Error) : Follows op φ (unlockRaise e) :=
  follows_unlock h (follows_raise e)

lemma follows_ignoreEsrch {throw_ : Error → Code} (hthrow : ∀ e, Follows op φ (throw_ e))
    (hk : Follows op φ k) (e : Error) : Follows op φ (ignoreEsrch throw_ k e) := by
  unfold ignoreEsrch
  split
  · exact hk
  · exact hthrow e

end Rules

/-! ### `ProcessHandle` -/

variable {sig : Signal}

section Handle

variable {name : String} {throw_ : Error → Code}

lemma follows_sendSignal {k : Code} (hφ : φ.held = true) (hthrow : ∀ e, Follows op φ (throw_ e))
    (hk : Follows op φ k) : Follows op φ (sendSignal name sig throw_ k) := by
  refine follows_act fun input m => ⟨φ, .signal sig hφ ?_, ?_⟩
  · split
    case h_1 => exact .inl rfl
    case h_2 hdl hv => exact .inr ⟨hdl, hv, rfl⟩
  · split
    · exact hthrow _
    · split
      · exact hk
      · exact hthrow _

lemma waitpid_cases (m : Memory) (name : String) :
    (∃ hdl child status, m.validHandle name = some hdl ∧
      m.kernel.waitpid hdl.pid_ = .exited child status) ∨
    m.waitpid name = m ∧ ∀ hdl, m.validHandle name = some hdl →
      ∀ child status, m.kernel.waitpid hdl.pid_ ≠ .exited child status := by
  unfold Memory.waitpid
  cases hv : m.validHandle name with
  | none => exact .inr ⟨rfl, nofun⟩
  | some hdl =>
    cases hw : m.kernel.waitpid hdl.pid_ with
    | exited child status => exact .inl ⟨hdl, child, status, rfl, hw⟩
    | running | noChild =>
      refine .inr ⟨by simp only [hw], fun hdl' h => ?_⟩
      cases h
      simp [hw]

lemma follows_waitpid {k : Input → Memory → Code}
    (hwaited : ∀ input m hdl child status, m.validHandle name = some hdl →
      m.kernel.waitpid hdl.pid_ = .exited child status →
      Follows op (.waited name status) (k input m))
    (hunreaped : ∀ input m, (∀ hdl, m.validHandle name = some hdl →
      ∀ child status, m.kernel.waitpid hdl.pid_ ≠ .exited child status) →
      Follows op .inside (k input m)) :
    Follows op .inside (.act (.waitpid name) (fun _ m => m.waitpid name) k) := by
  refine follows_act fun input m => ?_
  rcases waitpid_cases m name with ⟨hdl, child, status, hv, hw⟩ | ⟨hm, hnot⟩
  · exact ⟨_, .waited hv hw, hwaited input m hdl child status hv hw⟩
  · exact ⟨_, .unreaped hm, hunreaped input m hnot⟩

lemma follows_wait {k : ℕ → Code} (hthrow : ∀ e, Follows op .inside (throw_ e))
    (hk : ∀ status, Follows op (.waited name status) (k status)) :
    Follows op .inside (wait name throw_ k) := by
  refine follows_waitpid (fun input m hdl child status hv hw => ?_) fun input m hnot => ?_
  · simp only [hv, hw]
    exact hk status
  · split
    · exact hthrow _
    · split
      case h_1 child status hw => exact absurd hw (hnot _ ‹_› child status)
      case h_2 | h_3 => exact hthrow _

variable {k : Option ℕ → Code}

section

variable (hthrow : ∀ e, Follows op .inside (throw_ e))
  (hsome : ∀ status, Follows op (.waited name status) (k (some status)))

include hthrow hsome

lemma follows_tryWait (hnone : Follows op .inside (k none)) :
    Follows op .inside (tryWait name throw_ k) := by
  refine follows_waitpid (fun input m hdl child status hv hw => ?_) fun input m hnot => ?_
  · simp only [hv, hw]
    exact hsome status
  · split
    · exact hnone
    · split
      case h_1 child status hw => exact absurd hw (hnot _ ‹_› child status)
      case h_2 => exact hnone
      case h_3 => exact hthrow _

lemma follows_waitForLoop (hnone : Follows op .inside (k none)) (turns : ℕ) :
    Follows op .inside (waitForLoop name throw_ k turns) := by
  induction turns with
  | zero => exact hnone
  | succ turns ih => exact follows_tryWait hthrow hsome ih

lemma follows_waitFor (hnone : Follows op .inside (k none)) (turns : ℕ) :
    Follows op .inside (waitFor name turns throw_ k) := by
  refine follows_read_stay rfl fun input m => ?_
  split
  · exact hnone
  · split_ifs
    · exact follows_wait hthrow hsome
    · exact hnone
    · exact follows_waitForLoop hthrow hsome hnone turns

end

lemma follows_doStartProcess {φ'' : Phase} {k : Code} (hφ : Launches op name φ φ' φ'')
    (hthrow : ∀ errno, Follows op φ'' (throw_ (.system errno "fork"))) (hk : Follows op φ' k) :
    Follows op φ (doStartProcess name throw_ k) := by
  refine follows_act fun input m => ?_
  cases hlaunches : launches m input with
  | true =>
    refine ⟨φ', .launched hφ hlaunches, ?_⟩
    refine follows_read_stay (by cases hφ <;> rfl) fun _ m => ?_
    have hstarted : Follows op φ' (if m.startCallback_ then Prog.callout Site.callback k else k) := by
      split_ifs <;> exact hk
    simp only
    split
    · exact hstarted
    · split <;> exact hstarted
  | false =>
    refine ⟨φ'', .unlaunched hφ hlaunches, ?_⟩
    exact hthrow _

end Handle

section Operations

variable {k : Code}

lemma follows_eraseHandlePid {name : String} (hφ : Unlists name φ φ')
    (hk : Follows op φ' k) : Follows op φ (eraseHandlePid name k) := by
  refine follows_act fun input m => ⟨φ', .unlist hφ ?_, hk⟩
  split
  case h_1 hnone => exact .inl ⟨hnone, rfl⟩
  case h_2 hdl hsome => exact .inr ⟨hdl, hsome, rfl⟩

lemma follows_tryWaitAll {k : Bool → Code} (hop : op ≠ .start)
    (hk : ∀ allStopped, Follows op .outside (k allStopped)) (allStopped : Bool)
    (names : List String) : Follows op .inside (tryWaitAll k allStopped names) := by
  induction names generalizing allStopped with
  | nil => exact follows_unlock .inside (hk allStopped)
  | cons name names ih =>
    refine follows_read_stay rfl fun _ m => ?_
    split_ifs
    · exact follows_tryWait (follows_unlockRaise (.throwing hop))
        (fun status => follows_update fun _ => ⟨_, .noteExit status, ih allStopped⟩) (ih false)
    · exact ih allStopped

lemma follows_scheduleRestart (name : String) (status : ℕ) (hk : Follows op .inside k) :
    Follows op (.exited name status) (scheduleRestart name status k) := by
  refine follows_read fun _ m => ?_
  split_ifs
  · refine ⟨_, .stay _ rfl, follows_update fun input => ⟨_, .clean status, ?_⟩⟩
    refine follows_read fun _ m => ?_
    cases hfind : m.find name with
    | none => exact ⟨_, .refused name status input.now, hk⟩
    | some state =>
      dsimp only
      split_ifs with hrestart
      · refine ⟨_, .approved name status input.now state hfind hrestart, ?_⟩
        exact follows_update fun _ => ⟨_, .count input.now _,
          follows_update fun _ => ⟨_, .push input.now, hk⟩⟩
      · exact ⟨_, .refused name status input.now, hk⟩
  · exact ⟨_, .idle name status, hk⟩

section Continuation

variable (hk : Follows op .outside k)
include hk

lemma follows_add (spec : SupervisedProcess) (hop : op = .add spec) :
    Follows op .outside (add spec k) := by
  subst hop
  refine follows_lock (.inside rfl) (follows_read_stay rfl fun _ m => ?_)
  split_ifs
  · exact follows_unlockRaise (.throwing (by simp)) _
  · exact follows_act fun input m => ⟨_, .add rfl, follows_unlock .inside hk⟩

lemma follows_eraseProcess (name : String) (turns : ℕ) (hop : op = .remove name turns) :
    Follows op (.unlisted name) (eraseProcess name k) :=
  follows_act fun _ _ => ⟨_, .remove hop, follows_unlock .inside hk⟩

lemma follows_remove (name : String) (turns : ℕ) (hop : op = .remove name turns) :
    Follows op .outside (remove name turns k) := by
  have hthrow : ∀ e, Follows op .inside (unlockRaise e) := by
    subst hop
    exact follows_unlockRaise (.throwing (by simp))
  have herase := follows_eraseProcess hk name turns hop
  refine follows_lock (.inside (by rw [hop]; rfl)) (follows_read fun _ m => ?_)
  split
  · exact ⟨_, .stay _ rfl, follows_unlock .inside hk⟩
  split
  case isTrue hvalid => exact ⟨_, .unlisted name (by simpa using hvalid), herase⟩
  refine ⟨_, .stay _ rfl, ?_⟩
  extract_lets erase rest
  have hinside : Follows op .inside erase := follows_eraseHandlePid .remove herase
  have hwaited (status : ℕ) : Follows op (.waited name status) erase :=
    follows_eraseHandlePid (.waited status) herase
  have hkill : Follows op .inside (kill name (ignoreEsrch unlockRaise erase) <|
      wait name (ignoreEsrch unlockRaise erase) fun _ => erase) :=
    follows_sendSignal rfl (follows_ignoreEsrch hthrow hinside)
      (follows_wait (follows_ignoreEsrch hthrow hinside) hwaited)
  have hrest : Follows op .inside rest := by
    refine follows_waitFor hthrow (fun status => follows_read fun _ m => ?_)
      (follows_read_stay rfl fun _ m => ?_) turns
    · split_ifs with hv
      · exact ⟨_, .valid name status hv, hkill⟩
      · exact ⟨_, .stay _ rfl, hwaited status⟩
    · split_ifs
      · exact hkill
      · exact hinside
  exact follows_sendSignal rfl (follows_ignoreEsrch hthrow hrest) hrest

lemma follows_startAll (hop : op = .start) (names : List String) :
    Follows op (.starting names) (startAll k names) := by
  induction names with
  | nil => exact follows_unlock .started hk
  | cons name names ih =>
    exact follows_doStartProcess (.start names (by rw [hop]; rfl))
      (fun _ => follows_unlockRaise .raising _) ih

lemma follows_start (hop : op = .start) : Follows op .outside (start k) := by
  refine follows_read_stay rfl fun _ m => ?_
  split_ifs
  · exact hk
  · refine follows_read fun input _ => ?_
    cases herrno : input.errno with
    | some errno => exact ⟨_, .fail fun _ => by rw [herrno]; rfl, follows_raise _⟩
    | none =>
      refine ⟨_, .stay _ rfl, follows_act fun input m => ?_⟩
      cases herrno : input.errno with
      | some errno =>
        exact ⟨_, .set ⟨rfl, rfl, rfl⟩ (.fail (fun _ => by rw [herrno]; rfl) rfl rfl),
          follows_raise _⟩
      | none =>
        refine ⟨_, .set ⟨rfl, rfl, rfl⟩ (.stay _ (.inl rfl) rfl fun _ _ h => h), ?_⟩
        refine follows_lock (.inside (by rw [hop]; rfl)) (follows_read fun _ m => ?_)
        refine ⟨_, .startAll hop, follows_startAll ?_ hop _⟩
        refine follows_write (.inl rfl) (fun _ _ => ⟨⟨rfl, rfl, rfl⟩, rfl, rfl⟩)
          (follows_act fun input m => ?_)
        cases herrno : input.errno with
        | some errno =>
          exact ⟨_, .set ⟨rfl, rfl, rfl⟩ (.fail (fun _ => by rw [herrno]; rfl) rfl rfl),
            follows_raise _⟩
        | none =>
          exact ⟨_, .set ⟨rfl, rfl, rfl⟩ (.stay _ (.inl rfl) rfl (m.sameEnds_append rfl)), hk⟩

lemma follows_startProcess (name : String) (hop : op = .startProcess name) :
    Follows op .outside (startProcess name k) := by
  refine follows_lock (.inside (by rw [hop]; rfl)) (follows_read fun _ m => ?_)
  split_ifs with hfind
  · exact ⟨_, .stay _ rfl, follows_unlockRaise (.throwing (by simp [hop])) _⟩
  · exact ⟨_, .stay _ rfl, follows_unlock .inside hk⟩
  · refine ⟨_, .startOne name (by simpa [Option.isSome_iff_ne_none] using hfind)
      (.inl hop), ?_⟩
    exact follows_doStartProcess (.start [] (by simp [hop, Op.starts]))
      (fun _ => follows_unlockRaise .raising _) (follows_unlock .started hk)

lemma follows_stopProcess (name : String) (restart : Bool)
    (hop : op = if restart then .restartProcess name else .stopProcess name) :
    Follows op .outside (stopProcess name k) := by
  have hstart : op ≠ .start := by
    rw [hop]
    split_ifs <;> simp
  have hhalted := follows_unlock (.halted name restart) hk
  refine follows_lock (.stopping name restart hop) (follows_read fun _ m => ?_)
  split_ifs with hfind
  · exact ⟨_, .unknown name restart (by simpa using hfind),
      follows_unlockRaise (.haltedThrowing name restart hstart) _⟩
  · refine ⟨_, .stay _ rfl, follows_update fun _ => ⟨_, .pause restart, ?_⟩⟩
    refine follows_read fun _ m => ?_
    split_ifs with hvalid
    · refine ⟨_, .stay _ rfl, follows_eraseHandlePid (.halt restart) ?_⟩
      exact follows_sendSignal rfl
        (follows_ignoreEsrch (follows_unlockRaise (.haltedThrowing name restart hstart)) hhalted)
        hhalted
    · exact ⟨_, .invalid name restart (by simpa using hvalid), hhalted⟩

lemma follows_restartProcess (name : String) (hop : op = .restartProcess name) :
    Follows op .outside (restartProcess name k) := by
  refine follows_stopProcess ?_ name true hop
  refine follows_lock (.inside (by rw [hop]; rfl)) (follows_read fun _ m => ?_)
  split_ifs with hfind
  · refine ⟨_, .startOne name hfind (.inr hop), ?_⟩
    refine follows_update fun _ => ⟨_, .reset hop, ?_⟩
    exact follows_doStartProcess (.start [] (by simp [hop, Op.starts]))
      (fun _ => follows_unlockRaise .raising _) (follows_unlock .started hk)
  · exact ⟨_, .stay _ rfl, follows_unlock .inside hk⟩

lemma follows_handleChildExit (child : Child) (status : ℕ) :
    Follows op (.collected child status) (handleChildExit child.pid status k) := by
  refine follows_lock (.exiting child status) (follows_read fun _ m => ?_)
  cases hlookup : m.pidToName_.lookup child.pid with
  | none => exact ⟨_, .unmapped child status hlookup, follows_unlock .inside hk⟩
  | some name =>
    refine ⟨_, .found child status name hlookup, ?_⟩
    refine follows_act fun _ _ => ⟨_, .erase, follows_read fun _ m => ?_⟩
    cases hfind : m.find name with
    | none => exact ⟨_, .gone child status name hfind, follows_unlock .inside hk⟩
    | some state =>
      refine ⟨_, .stay _ rfl, ?_⟩
      refine follows_update fun _ => ⟨_, .record child status, ?_⟩
      refine follows_scheduleRestart name status (follows_unlock .inside ?_)
      have hexit : Follows op .outside
          (if m.exitCallback_ then Prog.callout Site.callback k else k) := by
        split_ifs <;> exact hk
      simp only
      split <;> exact hexit

lemma follows_collectLoop (hop : op.isLoop = true) (turns : ℕ) :
    Follows op .outside (collectLoop handleChildExit k turns) := by
  induction turns with
  | zero => rfl
  | succ turns ih =>
    refine follows_act fun input m => ?_
    cases hwait : m.kernel.waitAny input.pid with
    | none => exact ⟨_, .uncollected (.handle hop) hwait, hk⟩
    | some found =>
      obtain ⟨child, status⟩ := found
      exact ⟨_, .collected (.handle hop) hwait, follows_handleChildExit ih child status⟩

lemma follows_close : Follows op .outside (write (fun _ m => { m with signalFd_ := false }) k) :=
  follows_write (.inl rfl) (fun _ _ => ⟨⟨rfl, rfl, rfl⟩, rfl, rfl⟩) hk

lemma follows_status (name : String) (hop : op = .status name) :
    Follows op .outside (status name fun _ => k) := by
  refine follows_lock (.inside (by rw [hop]; rfl)) (follows_read_stay rfl fun _ m => ?_)
  split
  · exact follows_unlockRaise (.throwing (by simp [hop])) _
  · exact follows_unlock .inside hk

lemma follows_setCallback (hloop : op.isPlain = true) {f : Input → Memory → Memory}
    (hf : ∀ input m, m.SameTable (f input m) ∧ (f input m).thrown = m.thrown ∧
      (f input m).loops = m.loops) :
    Follows op .outside (.lock .supervisor <| write f <| .unlock .supervisor k) :=
  follows_lock (.inside hloop) (follows_write (.inr rfl) hf (follows_unlock .inside hk))

variable (hop : op ≠ .start)
include hop

lemma follows_signalAll (names : List String) : Follows op .inside (signalAll sig k names) := by
  induction names with
  | nil => exact follows_unlock .inside hk
  | cons name names ih =>
    refine follows_read_stay rfl fun _ m => ?_
    split_ifs
    · exact follows_sendSignal rfl
        (follows_ignoreEsrch (follows_unlockRaise (.throwing hop)) ih) ih
    · exact ih

lemma follows_joinThread : Follows op .outside (joinThread k) := by
  have hclose := follows_close hk
  refine follows_read_stay rfl fun _ m => ?_
  split
  · exact hclose
  · split
    · split
      · exact follows_write (.inl rfl) (fun _ _ => ⟨⟨rfl, rfl, rfl⟩, rfl, rfl⟩) hclose
      · exact follows_act fun _ _ => ⟨_,
          .set ⟨rfl, rfl, rfl⟩ (.fail (fun h => absurd h hop) rfl rfl), follows_raise _⟩
    · rfl

variable (hloop : op.isPlain = true)
include hloop

lemma follows_signalProcesses : Follows op .outside (signalProcesses sig k) :=
  follows_lock (.inside hloop) (follows_read_stay rfl fun _ _ => follows_signalAll hk hop _)

lemma follows_stop : Follows op .outside (stop k) :=
  follows_write (.inl rfl) (fun _ _ => ⟨⟨rfl, rfl, rfl⟩, rfl, rfl⟩)
    (follows_signalProcesses (follows_joinThread hk hop) hop hloop)

lemma follows_awaitAll (turns : ℕ) : Follows op .outside (awaitAll k turns) := by
  induction turns with
  | zero => exact hk
  | succ turns ih =>
    refine follows_lock (.inside hloop)
      (follows_read_stay rfl fun _ m => follows_tryWaitAll hop (fun allStopped => ?_) true _)
    split_ifs
    · exact hk
    · exact ih

lemma follows_stopGracefully (turns : ℕ) : Follows op .outside (stopGracefully turns k) :=
  follows_write (.inl rfl) (fun _ _ => ⟨⟨rfl, rfl, rfl⟩, rfl, rfl⟩) <|
    follows_signalProcesses (follows_awaitAll
      (follows_signalProcesses (follows_joinThread hk hop) hop hloop) hop hloop turns) hop hloop

lemma follows_destroy : Follows op .outside (destroy k) := by
  refine follows_read_stay rfl fun _ m => ?_
  split_ifs
  · exact follows_stop (follows_close hk) hop hloop
  · exact follows_close hk

end Continuation

variable {i turns : ℕ} (hop : op = .supervisorLoop i turns)
include hop

lemma follows_finishLoop (hand : Option Child) : Follows op (.draining hand) (finishLoop i none) :=
  follows_act fun _ _ => ⟨_, .set ⟨rfl, rfl, rfl⟩ (.finish hand i turns hop rfl rfl), rfl⟩

lemma follows_drain (hand : Option Child) (fuel : ℕ) :
    Follows op (.draining hand) (collectLoop (fun _ _ k => k) (finishLoop i none) fuel) := by
  induction fuel generalizing hand with
  | zero => rfl
  | succ fuel ih =>
    refine follows_act fun input m => ?_
    cases hwait : m.kernel.waitAny input.pid with
    | none =>
      exact ⟨_, .uncollected (.drain hand) hwait, follows_finishLoop hop none⟩
    | some found =>
      obtain ⟨child, status⟩ := found
      exact ⟨_, .collected (.drain hand) hwait, ih (some child)⟩

lemma follows_restartPending (hk : Follows op .outside k) (now : ℤ) (names : List String) :
    Follows op (.scanning now names) (restartPending i now k names) := by
  induction names with
  | nil => exact follows_unlock (.scanned now) hk
  | cons name names ih =>
    refine follows_read fun _ m => ?_
    cases hfind : m.find name with
    | none => exact ⟨_, .skip now name names (by simp [hfind]), ih⟩
    | some state =>
      dsimp only
      split_ifs with hdue
      · refine ⟨_, .due now name names state hfind hdue, ?_⟩
        refine follows_update fun _ => ⟨_, .clear now names, ?_⟩
        refine follows_doStartProcess (.restart now names) (fun errno => ?_) ih
        exact follows_unlock .failed <| follows_act fun _ _ =>
          ⟨_, .set ⟨rfl, rfl, rfl⟩ (.crash i turns errno hop rfl rfl), rfl⟩
      · refine ⟨_, .skip now name names fun state' h => ?_, ih⟩
        obtain rfl := Option.some.inj (hfind.symm.trans h)
        exact hdue

lemma follows_restarts (hk : Follows op .outside k) : Follows op .outside (restarts i k) :=
  follows_read fun input _ => ⟨_, .time (by rw [hop]; rfl),
    follows_lock (.surveying input.now) <|
    follows_read fun _ _ => ⟨_, .surveyed input.now, follows_restartPending hop hk input.now _⟩⟩

lemma follows_loopTurns (fuel : ℕ) : Follows op .outside (loopTurns i fuel) := by
  have hloop : op.isLoop = true := by rw [hop]; rfl
  induction fuel with
  | zero => rfl
  | succ fuel ih =>
    refine follows_read fun _ m => ?_
    split_ifs with hrunning
    · refine ⟨_, .stay _ rfl, follows_read fun input _ => ?_⟩
      cases hpoll : input.poll with
      | interrupted => exact ⟨_, .stay _ rfl, ih⟩
      | failed => exact ⟨_, .leave hloop (.inr hpoll), follows_drain hop none fuel⟩
      | timeout => exact ⟨_, .stay _ rfl, follows_restarts hop ih⟩
      | readable =>
        exact ⟨_, .stay _ rfl, follows_collectLoop (follows_restarts hop ih) hloop fuel⟩
    · exact ⟨_, .leave hloop (.inl (by simpa using hrunning)),
        follows_drain hop none fuel⟩

lemma follows_supervisorLoop : Follows op .outside (supervisorLoop i turns) := by
  refine follows_act fun input m => ?_
  split_ifs
  · exact ⟨_, .set ⟨rfl, rfl, rfl⟩ (.stay _ (.inl rfl) rfl (m.sameEnds_set rfl)),
      follows_loopTurns hop turns⟩
  · exact ⟨_, .look (.stay _ rfl), rfl⟩

end Operations

/-- **Every operation follows the outline.** -/
theorem follows_program (op : Op) : Follows op .outside (program op) := by
  have hdone (op : Op) : Follows op .outside .done := rfl
  cases op with
  | add spec => exact follows_add (hdone _) spec rfl
  | remove name turns => exact follows_remove (hdone _) name turns rfl
  | start => exact follows_start (hdone _) rfl
  | stop => exact follows_stop (hdone _) (by simp) rfl
  | stopGracefully turns => exact follows_stopGracefully (hdone _) (by simp) rfl turns
  | startProcess name => exact follows_startProcess (hdone _) name rfl
  | stopProcess name => exact follows_stopProcess (hdone _) name false rfl
  | restartProcess name => exact follows_restartProcess (hdone _) name rfl
  | status name => exact follows_status (hdone _) name rfl
  | allStatuses =>
    exact follows_lock (.inside rfl) (follows_read_stay rfl fun _ _ =>
      follows_unlock .inside (hdone _))
  | onProcessExit callback | onProcessStart callback =>
    exact follows_setCallback (hdone _) rfl fun _ _ => ⟨⟨rfl, rfl, rfl⟩, rfl, rfl⟩
  | destroy => exact follows_destroy (hdone _) (by simp) rfl
  | supervisorLoop i turns => exact follows_supervisorLoop rfl
  | childExit launch status => exact follows_act fun _ _ => ⟨_, .exit rfl, rfl⟩

end Pman.ProcessSupervisor
