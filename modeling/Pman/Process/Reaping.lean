import Pman.Process.Ledger

set_option autoImplicit false

/-!
# Two reapers

Children are reaped from two sides: the supervisor's thread collects any child that has exited, and
`remove` and `stopGracefully` wait for a child through the handle of its process. If they come
second, their `waitpid` fails with `ECHILD`, and the exception leaves the operation before its work
is done, since only `ESRCH` is caught.

A `kill` for a child that was collected fails with `ESRCH`, or with another error if its number has
been given to a process that may not be signalled; the latter leaves the operation too.

If only handles of children that the thread has not collected are waited for, and no `kill` fails
for a collected child other than with `ESRCH`, the operations come to their end, unless an exception
that has nothing to do with reaping leaves them.

## Main definitions

* `OwnWait`, `OwnKill`: the conditions on `waitpid` and `kill` through a handle.
* `Completed`: what a call has done when it is over.

## Main results

* `waits_of_reachable`: each child is reaped once, and the handles know which they have reaped.
* `completes`: under the conditions every call completes.
-/

namespace Pman.ProcessSupervisor.Reaping

open Memory LockProgram Process

/-! ### Children that were waited for -/

def reaps (log : List Event) : List (ℕ × Reaper) :=
  log.filterMap fun
    | .reaped launch reaper => some (launch, reaper)
    | _ => none

lemma mem_reaps {log : List Event} {launch : ℕ} {reaper : Reaper} :
    (launch, reaper) ∈ reaps log ↔ .reaped launch reaper ∈ log := by
  unfold reaps
  rw [List.mem_filterMap]
  constructor
  · rintro ⟨e, he, heq⟩
    cases e <;> simp_all
  · exact fun h => ⟨_, h, rfl⟩

/-- The child of the process was not collected by a `waitpid` for any child. -/
def Own (m : Memory) (name : String) : Prop :=
  ∀ hdl ∈ m.validHandle name, .reaped hdl.launch .any ∉ m.kernel.log
  deriving Decidable

/-- A `waitpid` through a handle is for a child that was not collected. -/
def OwnWait : Site → Memory → Prop
  | .waitpid name, m => Own m name
  | _, _ => True

instance : ∀ site m, Decidable (OwnWait site m)
  | .waitpid name, m => inferInstanceAs (Decidable (Own m name))
  | .access, _ | .signal _, _ | .callback, _ => isTrue trivial

/-- A `kill` through a handle fails, other than with `ESRCH`, though its child was collected. -/
def misdirected : Site → Input → Memory → Bool
  | .signal name, input, m =>
    !decide (Own m name) && (m.validHandle name).any fun hdl =>
      m.kernel.signalError hdl.pid_ input.errno == some .other
  | _, _, _ => false

/-- A `kill` through a handle whose child was collected succeeds or fails with `ESRCH`. -/
def OwnKill {ι : Type*} (c : Config Mutex Memory Input Site ι) (a : ι × Choice Input Op) : Prop :=
  match observe c a with
  | some (.accessed site input before _) => misdirected site input before = false
  | _ => True

instance {ι : Type*} (c : Config Mutex Memory Input Site ι) (a : ι × Choice Input Op) :
    Decidable (OwnKill c a) := by
  unfold OwnKill
  split <;> infer_instance

/-- What the handles know about the children that were reaped through them. -/
structure Waits (m : Memory) : Prop where
  ledger : Ledger m
  once : ((reaps m.kernel.log).map Prod.fst).Nodup
  unwaited : ∀ name hdl, m.validHandle name = some hdl → (hdl.launch, .handle) ∉ reaps m.kernel.log
  forgotten : ∀ name hdl, m.handleOf name = some hdl →
    hdl.valid = true ∨ (hdl.launch, .handle) ∈ reaps m.kernel.log

namespace Waits

variable {m m' : Memory} {name : String}

lemma frame (hw : Waits m) (hl : Ledger m') (hreaps : reaps m'.kernel.log = reaps m.kernel.log)
    (hsub : ∀ x hdl, m'.handleOf x = some hdl → m.handleOf x = some hdl) : Waits m' := by
  refine ⟨hl, hreaps ▸ hw.once, fun x hdl hv => ?_, fun x hdl hx => ?_⟩
  · obtain ⟨hx, hvalid⟩ := handleOf_of_validHandle hv
    rw [hreaps]
    exact hw.unwaited x hdl (Option.filter_eq_some_iff.mpr ⟨hsub x hdl hx, hvalid⟩)
  · rw [hreaps]
    exact hw.forgotten x hdl (hsub x hdl hx)

variable {child : Child}

lemma not_reaped (hw : Waits m) (h : child ∈ m.kernel.children) (reaper : Reaper) :
    (child.launch, reaper) ∉ reaps m.kernel.log :=
  fun hr => hw.ledger.kernel.unreaped child h ⟨reaper, mem_reaps.mp hr⟩

lemma once_reap (hw : Waits m) (h : child ∈ m.kernel.children) (reaper : Reaper) :
    ((reaps (m.kernel.reap child reaper).log).map Prod.fst).Nodup := by
  have hreaps : (reaps (m.kernel.reap child reaper).log).map Prod.fst =
      (reaps m.kernel.log).map Prod.fst ++ [child.launch] := by
    simp [reaps, Kernel.reap, List.filterMap_append]
  rw [hreaps, List.nodup_append]
  refine ⟨hw.once, List.nodup_singleton _, fun launch hmem launch' hmem' heq => ?_⟩
  obtain ⟨⟨_, reaper'⟩, hr, rfl⟩ := List.mem_map.mp hmem
  obtain rfl := List.mem_singleton.mp hmem'
  exact hw.not_reaped h reaper' (heq ▸ hr)

lemma collect (hw : Waits m) (h : child ∈ m.kernel.children) :
    Waits { m with kernel := m.kernel.reap child .any } := by
  have hmem : ∀ launch, (launch, .handle) ∈ reaps (m.kernel.reap child .any).log ↔
      (launch, .handle) ∈ reaps m.kernel.log := by
    intro launch
    simp [mem_reaps, Kernel.reap]
  refine ⟨hw.ledger.reap h .any, hw.once_reap h .any, fun x hdl hv => ?_, fun x hdl hx => ?_⟩
  · exact fun hr => hw.unwaited x hdl hv ((hmem _).mp hr)
  · exact (hw.forgotten x hdl hx).imp id (hmem _).mpr

variable {hdl : ProcessHandle} {input : Input} {op : Op} {φ φ' : Phase} {site : Site}

lemma exists_child (hw : Waits m) (hv : m.validHandle name = some hdl) (hown : Own m name) :
    ¬ Reaped m.kernel.log hdl.launch := by
  rintro ⟨reaper, hr⟩
  cases reaper with
  | any => exact hown hdl hv hr
  | handle => exact hw.unwaited name hdl hv (mem_reaps.mpr hr)

lemma waitpid (hw : Waits m) (hl : Ledger (m.waitpid name)) {status : ℕ}
    (hv : m.validHandle name = some hdl) (h : m.kernel.waitpid hdl.pid_ = .exited child status)
    (hown : Own m name) : Waits (m.waitpid name) := by
  obtain ⟨hchild, hpid⟩ := Kernel.mem_of_waitpid h
  have hlaunch : child.launch = hdl.launch :=
    hw.ledger.kernel.eq_of_pid (hpid ▸ hw.ledger.launched name hdl hv)
      (hw.exists_child hv hown) hchild
  have hmem : ∀ launch, (launch, .handle) ∈ reaps (m.kernel.reap child .handle).log ↔
      (launch, .handle) ∈ reaps m.kernel.log ∨ launch = child.launch := by
    intro launch
    simp [mem_reaps, Kernel.reap]
  rw [waitpid_of_exited hv h] at hl ⊢
  refine ⟨hl, hw.once_reap hchild .handle, fun x hdl' hv' hr => ?_, fun x hdl' hx => ?_⟩
  · obtain ⟨hx, hvalid⟩ := handleOf_of_validHandle hv'
    rw [Ledger.handleOf_forget] at hx
    split_ifs at hx with hname
    · obtain ⟨_, -, rfl⟩ := Option.map_eq_some_iff.mp hx
      cases hvalid
    · -- It is the handle of another process, so it is for another launch.
      rcases (hmem _).mp hr with hr | heq
      · exact hw.unwaited x hdl' (Option.filter_eq_some_iff.mpr ⟨hx, hvalid⟩) hr
      · exact hname (hw.ledger.distinct x name hdl' hdl hx (handleOf_of_validHandle hv).1
          (heq.trans hlaunch))
  · rw [Ledger.handleOf_forget] at hx
    split_ifs at hx with hname
    · obtain ⟨hdl₀, hold, rfl⟩ := Option.map_eq_some_iff.mp hx
      have hsame : m.handleOf x = some hdl := hname ▸ (handleOf_of_validHandle hv).1
      obtain rfl := Option.some.inj (hsame.symm.trans hold)
      exact .inr ((hmem _).mpr (.inr hlaunch.symm))
    · exact (hw.forgotten x hdl' hx).imp id fun hr => (hmem _).mpr (.inl hr)

lemma launch (hw : Waits m) (h : launches m input = true) (name : String) :
    Waits (m.launch name input) := by
  have hl := hw.ledger.launch h name
  have hreaps : reaps (m.launch name input).kernel.log = reaps m.kernel.log := by
    rw [launch_of_launches h]
    simp [reaps, Memory.modifyProcess, Kernel.launch, List.filterMap_append]
  have hpos := pos_of_launches h
  have hcases : ∀ x hdl, (m.launch name input).handleOf x = some hdl →
      hdl = ⟨input.pid, input.pidfd, m.kernel.launches⟩ ∨ m.handleOf x = some hdl := by
    intro x hdl hx
    rw [launch_of_launches h] at hx
    exact (Ledger.handleOf_started hx).imp (fun h => h.2) fun h => h.2
  refine ⟨hl, hreaps ▸ hw.once, fun x hdl hv => ?_, fun x hdl hx => ?_⟩
  · obtain ⟨hx, hvalid⟩ := handleOf_of_validHandle hv
    rw [hreaps]
    rcases hcases x hdl hx with rfl | hold
    · exact fun hr => lt_irrefl _ (hw.ledger.kernel.reaped _ ⟨_, mem_reaps.mp hr⟩)
    · exact hw.unwaited x hdl (Option.filter_eq_some_iff.mpr ⟨hold, hvalid⟩)
  · rw [hreaps]
    rcases hcases x hdl hx with rfl | hold
    · exact .inl (by simpa [ProcessHandle.valid] using hpos)
    · exact hw.forgotten x hdl hold

lemma reaps_cases (h : Accesses op φ site input m m' φ') :
    (reaps m'.kernel.log = reaps m.kernel.log ∧ φ'.hand = none) ∨
    (∃ φ₀ f child status, Collects op φ φ₀ f ∧ φ' = f child status ∧
      m.kernel.waitAny input.pid = some (child, status) ∧
      m' = { m with kernel := m.kernel.reap child .any }) ∨
    ∃ name hdl child status, site = .waitpid name ∧ m.validHandle name = some hdl ∧
      m.kernel.waitpid hdl.pid_ = .exited child status ∧ m' = m.waitpid name ∧ φ = .inside ∧
      φ' = .waited name status := by
  have hlaunch : ∀ (k : Kernel) (pid : ℤ), reaps (k.launch pid).log = reaps k.log := by
    intro k pid
    simp [reaps, Kernel.launch, List.filterMap_append]
  have hheld : φ.held = true → φ'.hand = none := by
    intro hφ
    refine Phase.hand_of_held ?_
    rw [← hφ]
    exact outline.held_of_accesses h
  cases h with
  | look h =>
    refine .inl ⟨rfl, ?_⟩
    cases h with
    | stay _ h => exact Phase.hand_of_stays h
    | _ => rfl
  | set hm h =>
    refine .inl ⟨by rw [hm.kernel], ?_⟩
    cases h with
    | stay _ hφ => rcases hφ with rfl | rfl <;> rfl
    | _ => rfl
  | signal _ hφ h =>
    refine .inl ⟨?_, hheld hφ⟩
    rcases h with rfl | ⟨_, -, rfl⟩
    · rfl
    · simp [reaps, Kernel.signal, List.filterMap_append]
  | unreaped h => exact .inl ⟨by rw [h], rfl⟩
  | waited hv h => exact .inr (.inr ⟨_, _, _, _, rfl, hv, h, rfl, rfl, rfl⟩)
  | uncollected hφ h =>
    refine .inl ⟨by rw [collect_of_none h], ?_⟩
    cases hφ <;> rfl
  | collected hφ h => exact .inr (.inl ⟨_, _, _, _, hφ, rfl, h, collect_of_some h⟩)
  | launched hφ h =>
    refine .inl ⟨?_, hheld (by cases hφ <;> rfl)⟩
    rw [launch_of_launches h]
    exact hlaunch _ _
  | unlaunched hφ h =>
    refine .inl ⟨?_, hheld (by cases hφ <;> rfl)⟩
    obtain ⟨k, hk, heq⟩ := launch_of_not_launches h _
    rw [heq]
    rcases hk with rfl | ⟨-, -, rfl⟩
    · rfl
    · exact hlaunch _ _
  | unlist hφ h =>
    refine .inl ⟨?_, hheld (by cases hφ <;> rfl)⟩
    rcases h with ⟨-, rfl⟩ | ⟨_, -, rfl⟩
    · rfl
    · rfl
  | change hφ => exact .inl ⟨rfl, hheld (by cases hφ <;> rfl)⟩
  | exit | erase | add | remove => exact .inl ⟨rfl, rfl⟩

lemma accesses (hw : Waits m) (h : Accesses op φ site input m m' φ')
    (hown : ∀ name, site = .waitpid name → Own m name) : Waits m' := by
  have hl := hw.ledger.accesses h
  rcases reaps_cases h with ⟨hreaps, -⟩ | ⟨_, _, child, status, -, -, hany, rfl⟩ |
    ⟨name, hdl, child, status, hsite, hv, hw', rfl, -⟩
  · rcases Ledger.handles_cases h with hsub | ⟨name, hdl, child, status, hsite, hv, hw', rfl⟩ |
      ⟨name, _, -, hlaunches, rfl⟩
    · exact hw.frame hl hreaps hsub
    · exact hw.waitpid hl hv hw' (hown name hsite)
    · exact hw.launch hlaunches name
  · exact hw.collect (Kernel.mem_of_waitAny hany)
  · exact hw.waitpid hl hv hw' (hown name hsite)

end Waits

/-! ### Calls -/

/-- What a call has done so far: the exceptions it has thrown, and what holds after its last
access. -/
structure Call where
  errors : List Error := []
  /-- A `kill` has failed for a child that was collected, other than with `ESRCH`. -/
  misdirected : Bool := false
  /-- The process that `remove` is called for is not there. -/
  gone : Bool := false
  joined : Bool := false
  closed : Bool := false
  waiting : Bool := false
deriving DecidableEq

def unfinished (m : Memory) : Bool :=
  m.supervisorThread_.any fun i =>
    match m.loops[i]? with
    | some (.finished _) => false
    | _ => true

def recorder : Recorder Mutex Memory Input Site Op Call Unit where
  call _ := {}
  note obs op r :=
    match obs with
    | .accessed site input before after =>
      { errors := r.errors ++ after.thrown.drop before.thrown.length
        misdirected := r.misdirected || misdirected site input before
        gone :=
          match op with
          | .remove name _ => (after.find name).isNone
          | _ => false
        joined := r.joined || after.supervisorThread_.isNone
        closed := !after.signalFd_
        waiting := unfinished after }
    | _ => r
  watch _ _ _ past := past

def noChild : Error := .system .echild "waitpid"

/-- No `waitpid` and no `kill` has failed since a child was reaped by the other side. -/
def Call.Clean (r : Call) : Prop := noChild ∉ r.errors ∧ r.misdirected = false

/-- What a call of `remove`, `stop` or `stopGracefully` has done when it is over: it has not thrown
the exception of a child that was reaped. If it has thrown no other one, `remove` has erased the
process; the others have joined the thread and closed `signalFd_`, or they still wait for the
thread. -/
def Completed : Op → Call → Prop
  | .remove _ _, r => r.Clean ∧ (r.errors ≠ [] ∨ r.gone = true)
  | .stop, r | .stopGracefully _, r =>
    r.Clean ∧ (r.errors ≠ [] ∨ r.waiting = true ∨ r.joined = true ∧ r.closed = true)
  | _, _ => True

/-- What is known about the memory at an access: a `waitpid` finds its child, a `kill` does not fail
since its child was collected, and the threads have ended with the exception of a launch or without
one. -/
structure Known (site : Site) (input : Input) (m : Memory) : Prop where
  child : ∀ name, site = .waitpid name → ∀ hdl, m.validHandle name = some hdl →
    m.kernel.waitpid hdl.pid_ ≠ .noChild
  directed : misdirected site input m = false
  loops : ∀ (i : ℕ) (e : Error), m.loops[i]? = some (.finished (some e)) → e ≠ noChild

/-- A program, in a call of `op` that has not failed for a child that was reaped, does not do so,
and completes. -/
def Safe (op : Op) (c : Code) : Prop :=
  ∀ r : Call, r.Clean → c.Yields recorder Known (Completed op) op r

variable {input : Input} {m m' : Memory} {sig : Signal}

section Rules

variable {op : Op} {k : Code} {name : String}

variable {r : Call} {throw_ : Error → Code}

lemma completed_of_errors (h : r.Clean) (hne : r.errors ≠ []) : Completed op r := by
  cases op with
  | remove | stop | stopGracefully => exact ⟨h, .inl hne⟩
  | _ => trivial

variable {site : Site} {Q : Call → Prop} {f : Input → Memory → Memory} {e : Error}

lemma clean_note (hr : r.Clean) (hsite : misdirected site input m = false)
    (h : m'.thrown = m.thrown) : (recorder.note (.accessed site input m m') op r).Clean := by
  simpa [Call.Clean, recorder, h, hsite] using hr

lemma yields_unlock (h : k.Yields recorder Known Q op r) :
    (Prog.unlock .supervisor k).Yields recorder Known Q op r :=
  h

lemma yields_done (h : Q r) : (Prog.done : Code).Yields recorder Known Q op r :=
  h

lemma safe_act {k : Input → Memory → Code} (hf : ∀ input m, (f input m).thrown = m.thrown)
    (h : ∀ input m, Known site input m → Safe op (k input m)) : Safe op (.act site f k) := by
  intro r hr input m hknown
  exact h input m hknown _ (clean_note hr hknown.directed (hf input m))

lemma safe_read {k : Input → Memory → Code} (h : ∀ input m, Safe op (k input m)) :
    Safe op (read k) :=
  safe_act (fun _ _ => rfl) fun input m _ => h input m

lemma safe_write (hf : ∀ input m, (f input m).thrown = m.thrown) (h : Safe op k) :
    Safe op (write f k) :=
  safe_act hf fun _ _ _ => h

lemma safe_lock (h : Safe op k) : Safe op (.lock .supervisor k) := h

lemma safe_raise (he : e ≠ noChild) : Safe op (raise e) := by
  intro r hr input m _
  have herrors : (recorder.note (.accessed .access input m
      { m with thrown := m.thrown ++ [e] }) op r).errors = r.errors ++ [e] := by
    simp [recorder]
  refine completed_of_errors ?_ ?_
  · refine ⟨?_, by simp [recorder, hr.2, misdirected]⟩
    rw [herrors]
    simp [hr.1, he.symm]
  · rw [herrors]
    simp

lemma safe_unlockRaise (he : e ≠ noChild) : Safe op (unlockRaise e) := safe_raise he

lemma safe_ignoreEsrch (h : Safe op k) (he : e ≠ noChild) :
    Safe op (ignoreEsrch unlockRaise k e) := by
  unfold ignoreEsrch
  split
  · exact h
  · exact safe_unlockRaise he

lemma safe_sendSignal (hthrow : ∀ e, e ≠ noChild → Safe op (throw_ e))
    (h : Safe op k) : Safe op (sendSignal name sig throw_ k) := by
  refine safe_act (fun input m => ?_) fun input m _ => ?_
  · split <;> rfl
  · split
    · exact hthrow _ (by simp [noChild])
    · split
      · exact h
      · exact hthrow _ (by simp [noChild])

lemma thrown_waitpid (m : Memory) (name : String) : (m.waitpid name).thrown = m.thrown := by
  unfold Memory.waitpid
  split
  · rfl
  · split <;> rfl

lemma safe_wait {k : ℕ → Code} (hthrow : ∀ e, e ≠ noChild → Safe op (throw_ e))
    (h : ∀ status, Safe op (k status)) : Safe op (wait name throw_ k) := by
  refine safe_act (fun _ m => thrown_waitpid m name) fun input m hknown => ?_
  split
  · exact hthrow _ (by simp [noChild])
  · split
    case h_1 => exact h _
    case h_2 => exact hthrow _ (by simp [noChild])
    case h_3 hv _ hw => exact absurd hw (hknown.child name rfl _ hv)

lemma safe_tryWait {k : Option ℕ → Code} (h : ∀ status, Safe op (k status)) :
    Safe op (tryWait name throw_ k) := by
  refine safe_act (fun _ m => thrown_waitpid m name) fun input m hknown => ?_
  split
  · exact h none
  · split
    case h_1 => exact h _
    case h_2 => exact h none
    case h_3 hv _ hw => exact absurd hw (hknown.child name rfl _ hv)

lemma safe_waitForLoop {k : Option ℕ → Code} (h : ∀ status, Safe op (k status)) (turns : ℕ) :
    Safe op (waitForLoop name throw_ k turns) := by
  induction turns with
  | zero => exact h none
  | succ turns ih =>
    refine safe_tryWait fun status => ?_
    cases status with
    | none => exact ih
    | some status => exact h (some status)

lemma safe_waitFor {k : Option ℕ → Code} (hthrow : ∀ e, e ≠ noChild → Safe op (throw_ e))
    (h : ∀ status, Safe op (k status)) (turns : ℕ) : Safe op (waitFor name turns throw_ k) := by
  refine safe_read fun input m => ?_
  split
  · exact h none
  · split_ifs
    · exact safe_wait hthrow fun status => h (some status)
    · exact h none
    · exact safe_waitForLoop h turns

end Rules

variable {r : Call} {name : String}

lemma completed_remove {turns : ℕ} (hr : r.Clean) (hthrown : m'.thrown = m.thrown) (hgone : m'.find name = none) :
    Completed (.remove name turns)
      (recorder.note (.accessed .access input m m') (.remove name turns) r) := by
  refine ⟨clean_note hr rfl hthrown, .inr ?_⟩
  simp [recorder, hgone]

lemma safe_eraseProcess (name : String) (turns : ℕ) :
    Safe (.remove name turns) (eraseProcess name .done) := by
  intro r hr input m _
  refine yields_unlock (yields_done (completed_remove hr rfl ?_))
  exact (lookup_filter_ne name name m.processes_).trans (if_pos rfl)

lemma safe_remove (name : String) (turns : ℕ) :
    Safe (.remove name turns) (remove name turns .done) := by
  have herase : Safe (.remove name turns) (eraseHandlePid name (eraseProcess name .done)) := by
    refine safe_write (fun _ m => ?_) (safe_eraseProcess name turns)
    split <;> rfl
  have hcatch : ∀ e, e ≠ noChild → Safe (.remove name turns)
      (ignoreEsrch unlockRaise (eraseHandlePid name (eraseProcess name .done)) e) :=
    fun e he => safe_ignoreEsrch herase he
  refine safe_lock fun r hr input m _ => ?_
  show Prog.Yields _ _ _ _ _ (if _ then _ else _)
  split_ifs with hfind
  · exact yields_unlock (yields_done (completed_remove hr rfl (by simpa using hfind)))
  · exact safe_eraseProcess name turns _ (clean_note hr rfl rfl)
  · have hrest : Safe (.remove name turns) (waitFor name turns unlockRaise fun _ =>
        read fun _ m =>
          if (m.validHandle name).isSome then
            kill name (ignoreEsrch unlockRaise (eraseHandlePid name (eraseProcess name .done))) <|
              wait name (ignoreEsrch unlockRaise (eraseHandlePid name (eraseProcess name .done)))
                fun _ => eraseHandlePid name (eraseProcess name .done)
          else eraseHandlePid name (eraseProcess name .done)) := by
      refine safe_waitFor (fun e he => safe_unlockRaise he) (fun _ => safe_read fun _ m => ?_) turns
      split_ifs
      · exact safe_sendSignal hcatch (safe_wait hcatch fun _ => herase)
      · exact herase
    exact safe_sendSignal (fun e he => safe_ignoreEsrch hrest he) hrest _ (clean_note hr rfl rfl)

section Stop

variable {op : Op} {k : Code}

lemma safe_signalAll (h : Safe op k) (names : List String) : Safe op (signalAll sig k names) := by
  induction names with
  | nil => exact h
  | cons name names ih =>
    refine safe_read fun _ m => ?_
    split_ifs
    · exact safe_sendSignal (fun e he => safe_ignoreEsrch ih he) ih
    · exact ih

lemma safe_signalProcesses (h : Safe op k) : Safe op (signalProcesses sig k) :=
  safe_lock (safe_read fun _ _ => safe_signalAll h _)

lemma safe_tryWaitAll {k : Bool → Code} (h : ∀ allStopped, Safe op (k allStopped))
    (allStopped : Bool) (names : List String) : Safe op (tryWaitAll k allStopped names) := by
  induction names generalizing allStopped with
  | nil => exact h allStopped
  | cons name names ih =>
    refine safe_read fun _ m => ?_
    split_ifs
    · refine safe_tryWait fun status => ?_
      cases status with
      | none => exact ih false
      | some status => exact safe_write (fun _ _ => rfl) (ih allStopped)
    · exact ih allStopped

lemma safe_awaitAll (h : Safe op k) (turns : ℕ) : Safe op (awaitAll k turns) := by
  induction turns with
  | zero => exact h
  | succ turns ih =>
    refine safe_lock (safe_read fun _ m => safe_tryWaitAll (fun allStopped => ?_) true _)
    split_ifs
    · exact h
    · exact ih

def joins : Op → Bool
  | .stop | .stopGracefully _ => true
  | _ => false

lemma yields_close (hop : joins op = true) (hr : r.Clean) (hjoined : r.joined = true) :
    (write (fun _ m => { m with signalFd_ := false }) .done).Yields recorder Known (Completed op) op
      r := by
  intro input m _
  have hcompleted : ∀ r : Call, r.Clean → r.joined = true → r.closed = true →
      Completed op r := by
    intro r hclean hj hc
    cases op with
    | stop | stopGracefully => exact ⟨hclean, .inr (.inr ⟨hj, hc⟩)⟩
    | _ => trivial
  refine hcompleted _ (clean_note hr rfl rfl) ?_ rfl
  simp [recorder, hjoined]

lemma safe_joinThread (hop : joins op = true) : Safe op (joinThread .done) := by
  intro r hr input m hknown
  have hread : (recorder.note (.accessed .access input m m) op r).Clean :=
    clean_note hr rfl rfl
  dsimp only [joinThread, read]
  split
  case h_1 hnone =>
    refine yields_close hop hread ?_
    simp [recorder, hnone]
  case h_2 i hthread =>
    split
    case h_1 error hend =>
      intro input' m' _
      cases error with
      | none => exact yields_close hop (clean_note hread rfl rfl) (by simp [recorder])
      | some e => exact safe_raise (hknown.loops i e hend) _ (clean_note hread rfl rfl)
    case h_2 hnot =>
      have hwaiting : unfinished m = true := by
        unfold unfinished
        rw [hthread, Option.any_some]
        split
        case h_1 error hend => exact absurd hend (hnot error)
        case h_2 => rfl
      cases op with
      | stop | stopGracefully => exact ⟨hread, .inr (.inl hwaiting)⟩
      | _ => cases hop

lemma safe_stop (hop : joins op = true) : Safe op (stop .done) :=
  safe_write (fun _ _ => rfl) (safe_signalProcesses (safe_joinThread hop))

lemma safe_stopGracefully (hop : joins op = true) (turns : ℕ) :
    Safe op (stopGracefully turns .done) :=
  safe_write (fun _ _ => rfl) <| safe_signalProcesses <|
    safe_awaitAll (safe_signalProcesses (safe_joinThread hop)) turns

end Stop

section Runs

variable {ι : Type*} [DecidableEq ι] {κ γ : Type*} {R : Recorder Mutex Memory Input Site Op κ γ}
  {past : γ} {w : Watched Mutex Memory Input Site ι Op κ γ}

lemma waits_of_reachable
    (h : (R.watched ι program (· = fresh) past).ReachableWithin
      (fun w a => StepOk OwnWait (fun _ => True) w.config a) w) : Waits w.config.mem := by
  refine Outline.mem_invariant (O := outline)
    (B := fun site _ m => ∀ name, site = .waitpid name → Own m name) follows_program ?_
    (fun hacc hown hw => hw.accesses hacc hown) (fun w a hok => ?_) h
  · rintro _ rfl
    exact ⟨⟨Kernel.Consistent.init, nofun, nofun, nofun, nofun, nofun⟩, List.nodup_nil, nofun,
      nofun⟩
  · intro site input before after hobs name hsite
    obtain ⟨hown, -⟩ := Recorder.accessOk_of_stepOk hok site input before after hobs
    subst hsite
    exact hown

lemma error_of_finished {ok : Watched Mutex Memory Input Site ι Op κ γ → ι × Choice Input Op → Prop}
    (h : (R.watched ι program (· = fresh) past).ReachableWithin ok w) (i : ℕ) (e : Error)
    (hend : w.config.mem.loops[i]? = some (.finished (some e))) :
    ∃ errno, e = .system errno "fork" := by
  refine Outline.mem_invariant (O := outline) (B := fun _ _ _ => True)
    (K := fun m => ∀ (i : ℕ) (e : Error), m.loops[i]? = some (.finished (some e)) →
      ∃ errno, e = .system errno "fork") follows_program ?_ (fun hacc _ hK => ?_)
    (fun _ _ _ _ _ _ _ _ => trivial) h i e hend
  · rintro _ rfl
    exact nofun
  · intro i e hend
    rcases hacc.loops_cases with hsame | ⟨j, _, error, -, hloops, herror⟩
    · exact hK i e (hsame i _ hend)
    · rw [hloops, List.getElem?_set] at hend
      split_ifs at hend
      · obtain rfl := LoopState.finished.inj (Option.some.inj hend)
        rcases herror with ⟨-, herror⟩ | ⟨-, errno, herror⟩
        · cases herror
        · exact ⟨errno, Option.some.inj herror⟩
      · exact hK i e hend

end Runs

lemma Waits.waitpid_ne_noChild (hw : Waits m) (hown : Own m name) {hdl : ProcessHandle}
    (hv : m.validHandle name = some hdl) : m.kernel.waitpid hdl.pid_ ≠ .noChild := by
  obtain ⟨child, hchild, -, hpid⟩ := hw.ledger.kernel.listed _ _ (hw.ledger.launched name hdl hv)
    (hw.exists_child hv hown)
  intro hnone
  unfold Kernel.waitpid at hnone
  split at hnone
  case h_1 hfind =>
    rw [List.find?_eq_none] at hfind
    exact hfind child hchild (by simp [hpid])
  case h_2 =>
    split at hnone <;> cases hnone

/-- **Two reapers do no harm if the handles that are waited for are those of children that were not
collected, and no `kill` fails for a collected child other than with `ESRCH`**: in every such run
each child is reaped once, and every call of `remove`, `stop` and `stopGracefully` that is over has
completed. -/
theorem completes {ι : Type*} [DecidableEq ι] {w : Watched Mutex Memory Input Site ι Op Call Unit}
    (h : (recorder.watched ι program (· = fresh) ()).ReachableWithin
      (fun w a => StepOk OwnWait (fun _ => True) w.config a ∧ OwnKill w.config a) w) :
    ((reaps w.config.mem.kernel.log).map Prod.fst).Nodup ∧
    ∀ t stack op r calls, w.config.stack t = .done :: stack →
      w.history.calls t = (op, r) :: calls → Completed op r := by
  refine ⟨(waits_of_reachable (h.mono fun _ _ hok => hok.1)).once,
    fun t stack op r calls hstack hcalls => ?_⟩
  refine Recorder.record_of_done (R := recorder) (A := Known) (Q := Completed) (fun op => ?_)
    (fun w a hw hok => ?_) h hstack hcalls
  · cases op with
    | remove name turns => exact safe_remove name turns _ (by simp [recorder, Call.Clean])
    | stop => exact safe_stop rfl _ (by simp [recorder, Call.Clean])
    | stopGracefully turns => exact safe_stopGracefully rfl turns _ (by simp [recorder, Call.Clean])
    | _ => exact Prog.yields_of_forall (fun _ => trivial) _ _
  · intro site input before after hobs
    obtain ⟨hown, rfl⟩ := Recorder.accessOk_of_stepOk hok.1 site input before after hobs
    refine ⟨fun name hsite hdl hv => ?_, by simpa [OwnKill, hobs] using hok.2, fun i e hend => ?_⟩
    · subst hsite
      exact (waits_of_reachable (hw.mono fun _ _ hok => hok.1)).waitpid_ne_noChild hown hv
    · obtain ⟨errno, rfl⟩ := error_of_finished hw i e hend
      simp [noChild]

def isOver (w : Watched Mutex Memory Input Site Bool Op Call Unit) (t : Bool) : Bool :=
  match w.config.stack t with
  | .done :: _ => true
  | _ => false

theorem completes_stopGracefully : ∃ w : Watched Mutex Memory Input Site Bool Op Call Unit,
    (recorder.watched Bool program (· = fresh) ()).ReachableWithin
      (fun w a => StepOk OwnWait (fun _ => True) w.config a ∧ OwnKill w.config a) w ∧
    w.config.mem.kernel.log = [.launched 0 7, .signalled .term 7 0, .reaped 0 .handle] ∧
    isOver w true = true ∧
    (w.history.calls true).map Prod.snd = [{ joined := true, closed := true }] ∧
    ∀ t stack op r calls, w.config.stack t = .done :: stack →
      w.history.calls t = (op, r) :: calls → Completed op r := by
  have hw : (recorder.watched Bool program (· = fresh) ()).ReachableWithin
      (fun w a => StepOk OwnWait (fun _ => True) w.config a ∧ OwnKill w.config a) _ :=
    .final ⟨initial fresh, Recorder.nothing ()⟩
      (startRun ++ [(true, .start (.childExit 0 0)), (true, .go {}), (true, .go {}),
        (true, .start (.stopGracefully 1))] ++ go true 16 ++ go false 3 ++ go true 3)
      ⟨fresh, rfl, rfl⟩ (by decide +kernel)
  exact ⟨_, hw, by decide +kernel, by decide +kernel, by decide +kernel, (completes hw).2⟩

/-- **`remove` fails since its child was collected**: a child exits, the supervisor's thread
collects it, and the `waitpid` of `remove` fails with `ECHILD`. The exception leaves `remove`, and
the process is still there. So does that of a `kill` that finds the number in use by a process of
another user. -/
theorem remove_fails :
    (∃ w : Watched Mutex Memory Input Site Bool Op Call Unit,
      (recorder.watched Bool program (· = fresh) ()).Reachable w ∧
      w.config.mem.kernel.log = [.launched 0 7, .reaped 0 .any, .signalled .term 7 0] ∧
      isOver w true = true ∧ (w.history.calls true).map Prod.snd =
        [{ errors := [noChild], gone := false, waiting := true }] ∧
      (w.config.mem.find "a").isSome = true) ∧
    ∃ w : Watched Mutex Memory Input Site Bool Op Call Unit,
      (recorder.watched Bool program (· = fresh) ()).Reachable w ∧
      w.config.mem.kernel.log = [.launched 0 7, .reaped 0 .any, .signalled .term 7 0] ∧
      isOver w true = true ∧ (w.history.calls true).map Prod.snd =
        [{ errors := [.system .other "kill"], misdirected := true, waiting := true }] ∧
      (w.config.mem.find "a").isSome = true :=
  ⟨TransitionSystem.reached_by ⟨initial fresh, Recorder.nothing ()⟩
      (startRun ++ exitRun 0 ++ (true, .start (.remove "a" 1)) :: go true 7)
      ⟨fresh, rfl, rfl⟩ (by decide +kernel),
    TransitionSystem.reached_by ⟨initial fresh, Recorder.nothing ()⟩
      (startRun ++ exitRun 0 ++ (true, .start (.remove "a" 1)) :: go true 2 ++
        (true, .go { errno := some .other }) :: go true 2) ⟨fresh, rfl, rfl⟩ (by decide +kernel)⟩

end Pman.ProcessSupervisor.Reaping
