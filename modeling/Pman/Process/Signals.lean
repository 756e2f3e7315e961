import Pman.Process.Outline

set_option autoImplicit false

/-!
# Whom the supervisor signals

The supervisor signals a process through its handle whenever the handle is valid, and a handle is
valid until its own `waitpid` has reaped the child. But the supervisor's thread reaps children with
a `waitpid` for any child, and `handleChildExit` does not touch the handle. So after that `stop`,
`stopGracefully`, `stopProcess`, `restartProcess` and `remove` signal a number that is free again:
nobody, a process that is none of ours, or a later child of another process.

As long as handles are used only before their child is collected in this way, every signal goes to
the child that the handle was made for.

## Main results

* `signals_live`: when every signal goes to a living child.
-/

namespace Pman.ProcessSupervisor

open Option List LockProgram Process

/-- A handle that is used to signal or to wait is one whose child was not collected by a `waitpid`
for any child. -/
def Uncollected : Site → Memory → Prop
  | .signal name, m | .waitpid name, m =>
    ∀ h ∈ m.validHandle name, .reaped h.launch .any ∉ m.kernel.log
  | _, _ => True

instance (site : Site) (m : Memory) : Decidable (Uncollected site m) := by
  cases site <;> dsimp only [Uncollected] <;> infer_instance

/-! ### The table of processes -/

variable {m' : Memory} {h : ProcessHandle}

namespace Memory

variable {m : Memory}

lemma find_congr (h : m'.processes_ = m.processes_) (x : String) : m'.find x = m.find x := by
  rw [find, h]
  rfl

lemma find_modifyProcess (m : Memory) (name x : String) (f : ProcessState → ProcessState) :
    (m.modifyProcess name f).find x = if x = name then (m.find x).map f else m.find x := by
  unfold find modifyProcess
  induction m.processes_ with
  | nil => simp
  | cons e l ih =>
    obtain ⟨y, s⟩ := e
    rw [map_cons, lookup_cons, lookup_cons]
    by_cases hxy : x = y
    · subst hxy
      by_cases hname : x = name <;> simp [hname]
    · have hne : (x == y) = false := by simpa using hxy
      by_cases hname : y = name
      · simpa [hname, hname ▸ hxy, hname ▸ hne] using ih
      · simpa [hname, hne] using ih

variable {f : ProcessState → ProcessState} {name : String}

lemma validHandle_modifyProcess (name x : String) (hf : ∀ s, (f s).handle = s.handle) :
    (m.modifyProcess name f).validHandle x = m.validHandle x := by
  unfold validHandle
  rw [find_modifyProcess]
  split_ifs
  · cases m.find x with
    | none => rfl
    | some s => simp [hf]
  · rfl

lemma validHandle_modifyProcess_of_ne {x : String} (hne : x ≠ name)
    (f : ProcessState → ProcessState) :
    (m.modifyProcess name f).validHandle x = m.validHandle x := by
  unfold validHandle
  rw [find_modifyProcess, if_neg hne]

lemma validHandle_of_launched {h' : ProcessHandle} (hf : ∀ s, (f s).handle = some h)
    (hv : (m.modifyProcess name f).validHandle name = some h') : h' = h := by
  unfold validHandle at hv
  rw [find_modifyProcess, if_pos rfl] at hv
  cases hfind : m.find name with
  | none => simp [hfind] at hv
  | some s =>
    rw [hfind, map_some, bind_some, hf, filter_eq_some_iff] at hv
    exact (some.inj hv.1).symm

lemma validHandle_of_forgotten (name : String) :
    (m.modifyProcess name fun s =>
      { s with handle := s.handle.map ProcessHandle.forget }).validHandle name = none := by
  unfold validHandle
  rw [find_modifyProcess, if_pos rfl]
  cases m.find name with
  | none => rfl
  | some s =>
    cases hh : s.handle with
    | none => simp [hh]
    | some h => simp [hh, ProcessHandle.valid_forget]

lemma lookup_filter_ne (name x : String) (l : List (String × ProcessState)) :
    (l.filter fun e => e.1 != name).lookup x = if x = name then none else l.lookup x := by
  induction l with
  | nil => simp
  | cons e l ih =>
    obtain ⟨y, s⟩ := e
    by_cases hy : y = name
    · subst hy
      by_cases hx : x = y
      · simpa [hx] using ih
      · have hxy : (x == y) = false := by simpa using hx
        simpa [hx, hxy, lookup_cons] using ih
    · rw [filter_cons_of_pos (by simpa using hy), lookup_cons, lookup_cons]
      by_cases hx : x = y
      · simp [hx, hy]
      · have hxy : (x == y) = false := by simpa using hx
        simpa [hxy] using ih

end Memory

/-! ### What a handle says about its child -/

/-- A valid handle has the number of a child that was launched, and that was not reaped through a
handle; no two processes have handles for one launch. -/
structure Tracked (m : Memory) : Prop where
  kernel : m.kernel.Consistent
  live : SignalsLive m.kernel.log
  launched : ∀ name h, m.validHandle name = some h → .launched h.launch h.pid_ ∈ m.kernel.log
  unwaited : ∀ name h, m.validHandle name = some h → .reaped h.launch .handle ∉ m.kernel.log
  distinct : ∀ name name' h h', m.validHandle name = some h → m.validHandle name' = some h' →
    h.launch = h'.launch → name = name'

structure Frame (m m' : Memory) : Prop where
  kernel : m'.kernel = m.kernel
  handles : ∀ name h, m'.validHandle name = some h → m.validHandle name = some h

variable {m : Memory}

lemma Frame.of_eq (hk : m'.kernel = m.kernel) (hp : m'.processes_ = m.processes_) : Frame m m' := by
  refine ⟨hk, fun name h hv => ?_⟩
  rwa [Memory.validHandle, Memory.find, hp] at hv

lemma Frame.of_find {processes : List (String × ProcessState)}
    (h : ∀ x s, processes.lookup x = some s → s.handle = none ∨ m.find x = some s) :
    Frame m { m with processes_ := processes } := by
  refine ⟨rfl, fun x hdl hv => ?_⟩
  obtain ⟨hbind, hvalid⟩ := filter_eq_some_iff.mp hv
  obtain ⟨s, hs, hhdl⟩ := bind_eq_some_iff.mp hbind
  rcases h x s hs with hnone | hold
  · simp [hnone] at hhdl
  · rw [Memory.validHandle, hold, bind_some, hhdl, filter_some, if_pos hvalid]

lemma Frame.modifyProcess (m : Memory) (name : String) {f : ProcessState → ProcessState}
    (hf : ∀ s, (f s).handle = s.handle) : Frame m (m.modifyProcess name f) :=
  ⟨rfl, fun x _ hv => (Memory.validHandle_modifyProcess name x hf).symm.trans hv⟩

namespace Tracked

variable {m m' : Memory} {name : String}

variable (ht : Tracked m)

include ht

lemma frame (hf : Frame m m') : Tracked m' := by
  refine ⟨hf.kernel ▸ ht.kernel, hf.kernel ▸ ht.live, fun name h hv => ?_, fun name h hv => ?_,
    fun name name' h h' hv hv' => ht.distinct name name' h h' (hf.handles _ _ hv)
      (hf.handles _ _ hv')⟩
  · rw [hf.kernel]
    exact ht.launched name h (hf.handles _ _ hv)
  · rw [hf.kernel]
    exact ht.unwaited name h (hf.handles _ _ hv)

lemma not_reaped (hv : m.validHandle name = some h)
    (hany : .reaped h.launch .any ∉ m.kernel.log) : ¬ Reaped m.kernel.log h.launch := by
  rintro ⟨reaper, hr⟩
  cases reaper with
  | any => exact hany hr
  | handle => exact ht.unwaited name h hv hr

lemma of_log {k : Kernel} (hk : k.Consistent) {e : Event}
    (hlog : k.log = m.kernel.log ++ [e]) (hlive : SignalsLive k.log)
    (he : ∀ launch, e ≠ .reaped launch .handle) : Tracked { m with kernel := k } := by
  refine ⟨hk, hlive, fun x h hv => ?_, fun x h hv hr => ?_, ht.distinct⟩
  · rw [hlog]
    exact mem_append_left _ (ht.launched x h hv)
  · rw [hlog] at hr
    rcases mem_concat.mp hr with hr | hr
    · exact ht.unwaited x h hv hr
    · exact he _ hr.symm

lemma signal (hv : m.validHandle name = some h) (hany : .reaped h.launch .any ∉ m.kernel.log)
    (signal : Signal) : Tracked { m with kernel := m.kernel.signal signal h.pid_ h.launch } := by
  refine ht.of_log (ht.kernel.signal _ _ _) rfl (ht.live.concat fun sig pid launch heq => ?_) nofun
  obtain ⟨-, rfl, rfl⟩ := Event.signalled.inj heq
  exact ⟨ht.launched name h hv, ht.not_reaped hv hany⟩

lemma collect (input : Input) : Tracked (m.collect input) := by
  unfold Memory.collect
  split
  case h_1 => exact ht
  case h_2 child status hfound =>
    exact ht.of_log (ht.kernel.reap (Kernel.mem_of_waitAny hfound) .any) rfl
      (ht.live.concat_of_ne nofun) nofun

lemma exit (launch status : ℕ) : Tracked { m with kernel := m.kernel.exit launch status } :=
  { ht with kernel := ht.kernel.exit launch status }

/-- A `waitpid` through a handle whose child was not collected.

**Proof sketch.** The child is not reaped, so the child found under the number of the handle is the
one that the handle was made for. It is reaped through this handle, which forgets it, and no other
handle was made for it. -/
lemma waitpid (hany : ∀ h ∈ m.validHandle name, .reaped h.launch .any ∉ m.kernel.log) :
    Tracked (m.waitpid name) := by
  unfold Memory.waitpid
  split
  case h_1 => exact ht
  case h_2 h hv =>
    split
    case h_2 => exact ht
    case h_3 => exact ht
    case h_1 child status hfound =>
      obtain ⟨hchild, hpid⟩ := Kernel.mem_of_waitpid hfound
      have hlaunch : child.launch = h.launch := by
        refine ht.kernel.eq_of_pid ?_ (ht.not_reaped hv (hany h hv)) hchild
        rw [hpid]
        exact ht.launched name h hv
      -- Whatever handle is valid afterwards belongs to another process.
      have hother : ∀ x h', ({ m with kernel := m.kernel.reap child .handle }.modifyProcess name
          fun s => { s with handle := s.handle.map ProcessHandle.forget }).validHandle x = some h' →
          x ≠ name ∧ m.validHandle x = some h' := by
        intro x h' hv'
        by_cases hx : x = name
        · subst hx
          rw [Memory.validHandle_of_forgotten] at hv'
          cases hv'
        · rw [Memory.validHandle_modifyProcess_of_ne hx] at hv'
          exact ⟨hx, hv'⟩
      refine ⟨ht.kernel.reap hchild .handle, ht.live.concat_of_ne nofun, fun x h' hv' => ?_,
        fun x h' hv' hr => ?_, fun x x' h₁ h₂ h₁v h₂v => ?_⟩
      · exact mem_append_left _ (ht.launched x h' (hother x h' hv').2)
      · obtain ⟨hx, hv'⟩ := hother x h' hv'
        rcases mem_concat.mp hr with hr | hr
        · exact ht.unwaited x h' hv' hr
        · have heq := (Event.reaped.inj hr).1
          exact hx (ht.distinct x name h' h hv' hv (heq.trans hlaunch))
      · exact ht.distinct x x' h₁ h₂ (hother x h₁ h₁v).2 (hother x' h₂ h₂v).2

lemma launch (name : String) (input : Input) : Tracked (m.launch name input) := by
  unfold Memory.launch
  split_ifs with hfree
  · have hlaunched : Tracked { m with kernel := m.kernel.launch input.pid } :=
      ht.of_log (ht.kernel.launch hfree) rfl (ht.live.concat_of_ne nofun) nofun
    split
    case h_1 =>
      have hnew : ∀ x h, m.validHandle x = some h → h.launch ≠ m.kernel.launches :=
        fun x h hv => (ht.kernel.fresh _ _ (ht.launched x h hv)).ne
      have hcases : ∀ x h, (({ m with
          kernel := m.kernel.launch input.pid
          pidToName_ := (m.erasePid input.pid).pidToName_ ++ [(input.pid, name)] } :
          Memory).modifyProcess name fun s =>
            s.started ⟨input.pid, input.pidfd, m.kernel.launches⟩ input.now).validHandle x = some h →
          x = name ∧ h = ⟨input.pid, input.pidfd, m.kernel.launches⟩ ∨
            m.validHandle x = some h := by
        intro x h hv
        by_cases hx : x = name
        · subst hx
          exact .inl ⟨rfl, Memory.validHandle_of_launched (fun _ => rfl) hv⟩
        · rw [Memory.validHandle_modifyProcess_of_ne hx] at hv
          exact .inr hv
      refine ⟨hlaunched.kernel, hlaunched.live, fun x h hv => ?_, fun x h hv hr => ?_,
        fun x x' h h' hv hv' heq => ?_⟩
      · rcases hcases x h hv with ⟨-, rfl⟩ | hv
        · exact mem_append_right _ (mem_singleton_self _)
        · exact hlaunched.launched x h hv
      · rcases hcases x h hv with ⟨-, rfl⟩ | hv
        · have hr : .reaped m.kernel.launches .handle ∈ m.kernel.log := by
            simpa [Memory.modifyProcess, Kernel.launch] using hr
          exact lt_irrefl _ (ht.kernel.reaped _ ⟨.handle, hr⟩)
        · exact hlaunched.unwaited x h hv hr
      · rcases hcases x h hv with ⟨rfl, rfl⟩ | hold
        · rcases hcases x' h' hv' with ⟨rfl, -⟩ | hold'
          · rfl
          · exact absurd heq.symm (hnew x' h' hold')
        · rcases hcases x' h' hv' with ⟨rfl, rfl⟩ | hold'
          · exact absurd heq (hnew x h hold)
          · exact ht.distinct x x' h h' hold hold' heq
    case h_2 => exact ht.frame (.modifyProcess m name fun _ => rfl)
    case h_3 => exact hlaunched.frame (.modifyProcess _ name fun _ => rfl)
  · exact ht.frame (.modifyProcess m name fun _ => rfl)

end Tracked

/-- **Every access keeps track of the children**, if handles are used only before their child is
collected. -/
lemma Tracked.accesses {op : Op} {φ φ' : Phase} {site : Site} {input : Input}
    (h : Accesses op φ site input m m' φ') (hok : Uncollected site m) (ht : Tracked m) :
    Tracked m' := by
  cases h with
  | look => exact ht
  | set hm => exact ht.frame (.of_eq hm.kernel hm.processes)
  | signal sig _ h =>
    rcases h with rfl | ⟨hdl, hv, rfl⟩
    · exact ht
    · exact ht.signal hv (hok hdl hv) sig
  | unreaped | waited => exact ht.waitpid hok
  | uncollected | collected => exact ht.collect input
  | exit => exact ht.exit _ _
  | launched | unlaunched => exact ht.launch _ input
  | change h => exact ht.frame (.modifyProcess m _ fun _ => by cases h <;> rfl)
  | erase => exact ht.frame (.of_eq rfl rfl)
  | unlist _ h =>
    rcases h with ⟨-, rfl⟩ | ⟨_, -, rfl⟩
    · exact ht
    · exact ht.frame (.of_eq rfl rfl)
  | @add spec =>
    refine ht.frame (.of_find fun x s hs => ?_)
    rw [lookup_append] at hs
    rcases or_eq_some_iff.mp hs with hs | ⟨-, hs⟩
    · exact .inr hs
    · rw [lookup_cons] at hs
      cases hx : x == spec.name with
      | false => simp [hx] at hs
      | true =>
        rw [hx] at hs
        cases hs
        exact .inl rfl
  | remove =>
    refine ht.frame (.of_find fun x s hs => ?_)
    rw [Memory.lookup_filter_ne] at hs
    split_ifs at hs
    exact .inr hs

/-- **Every signal goes to a living child**: with any mix of operations, callbacks and exits of
children, as long as a handle is used only before its child is collected by a `waitpid` for any
child, every signal the supervisor sends goes to a number that `launchProcess` has returned and that
no `waitpid` has reaped since, for the very launch that the handle was made for. -/
theorem signals_live {ι : Type*} [DecidableEq ι]
    {c : LockProgram.Config Mutex Memory Input Site ι}
    (h : (system ι).ReachableWithin (StepOk Uncollected fun _ => True) c) :
    SignalsLive c.mem.kernel.log := by
  have htracked : Tracked c.mem := by
    refine mem_invariant (fun op => (follows_program op).keeps Tracked.accesses) ?_ h
    rintro _ rfl
    exact ⟨Kernel.Consistent.init, SignalsLive.nil, nofun, nofun, nofun⟩
  exact htracked.live

def go {ι : Type*} (t : ι) (n : ℕ) : List (ι × Choice Input Op) := List.replicate n (t, .go {})

def plain (name : String) : SupervisedProcess := { name := name, restart := { policy := .never } }

def eager (name : String) : SupervisedProcess where
  name := name
  restart :=
    { policy := .always, backoffStrategy := .linear, minRestartDelay := 0, linearIncrement := 0 }

/-- A supervisor with the process `"a"` is started, with a child that gets the number `7`. The
supervisor runs on the thread `false`. -/
def startRun : List (Bool × Choice Input Op) :=
  (true, .start (.add (plain "a"))) :: go true 5 ++
  (true, .start .start) :: go true 5 ++ (true, .go { pid := 7 }) :: go true 5 ++
  [(false, .start (.supervisorLoop 0 3)), (false, .go {})]

/-- The child `launch` exits, and the supervisor's thread collects it and handles the exit. -/
def exitRun (launch : ℕ) : List (Bool × Choice Input Op) :=
  [(true, .start (.childExit launch 0)), (true, .go {}), (true, .go {}), (false, .go {}),
   (false, .go { poll := .readable })] ++ go false 10

theorem signals_live_stopProcess : ∃ c : LockProgram.Config Mutex Memory Input Site Bool,
    (system Bool).ReachableWithin (StepOk Uncollected fun _ => True) c ∧
    c.mem.kernel.log = [.launched 0 7, .signalled .term 7 0, .reaped 0 .any, .launched 1 7,
      .signalled .term 7 1] ∧
    SignalsLive c.mem.kernel.log := by
  have hc : (system Bool).ReachableWithin (StepOk Uncollected fun _ => True) _ :=
    .final (initial fresh)
      (startRun ++ (true, .start (.stopProcess "a")) :: go true 8 ++ exitRun 0 ++
        (true, .start (.add (plain "b"))) :: go true 5 ++
        (true, .start (.startProcess "b")) :: go true 2 ++ (true, .go { pid := 7 }) :: go true 3 ++
        (true, .start (.stopProcess "b")) :: go true 8) ⟨fresh, rfl, rfl⟩ (by decide)
  exact ⟨_, hc, by decide +kernel, signals_live hc⟩

/-- **The supervisor signals children that were reaped**:
* a child exits and is collected, and `stop` sends `SIGKILL` to its number, which is free again,
* the number is given to a child of another process, and `stopProcess` of the first process sends
  `SIGTERM` to that one. -/
theorem signals_stale :
    (∃ c : LockProgram.Config Mutex Memory Input Site Bool, (system Bool).Reachable c ∧
      c.mem.kernel.log = [.launched 0 7, .reaped 0 .any, .signalled .kill 7 0] ∧
      c.mem.kernel.children = [] ∧ ¬ SignalsLive c.mem.kernel.log) ∧
    ∃ c : LockProgram.Config Mutex Memory Input Site Bool, (system Bool).Reachable c ∧
      c.mem.kernel.log = [.launched 0 7, .reaped 0 .any, .launched 1 7, .signalled .term 7 0] ∧
      c.mem.kernel.children = [⟨7, 1, none⟩] ∧ ¬ SignalsLive c.mem.kernel.log := by
  constructor
  · refine ⟨_, .final (initial fresh) (startRun ++ exitRun 0 ++ (true, .start .stop) :: go true 5)
      ⟨fresh, rfl, rfl⟩ (by decide), by decide +kernel, by decide +kernel, fun hlive => ?_⟩
    exact (hlive [.launched 0 7, .reaped 0 .any] [] .kill 7 0 (by decide +kernel)).2
      ⟨.any, by simp⟩
  · refine ⟨_, .final (initial fresh) (startRun ++ exitRun 0 ++
        (true, .start (.add (plain "b"))) :: go true 5 ++
        (true, .start (.startProcess "b")) :: go true 2 ++ (true, .go { pid := 7 }) :: go true 3 ++
        (true, .start (.stopProcess "a")) :: go true 8)
      ⟨fresh, rfl, rfl⟩ (by decide), by decide +kernel, by decide +kernel, fun hlive => ?_⟩
    exact (hlive [.launched 0 7, .reaped 0 .any, .launched 1 7] [] .term 7 0
      (by decide +kernel)).2 ⟨.any, by simp⟩

end Pman.ProcessSupervisor
