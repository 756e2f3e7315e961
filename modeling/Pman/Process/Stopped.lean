import Pman.Process.Ledger

set_option autoImplicit false

/-!
# A stopped process stays stopped

`stopProcess` cancels a pending restart, and erases the number in the handle of the process, so that
the exit of its child is not handled. A restart is scheduled only for the process of a number, and
launched only if it is pending. So after `stopProcess` no child is launched for the process unless
it is asked for, if the number in the handle was its only one.

But `start` launches a child also for a process that has one already, and the old number stays. When
the old child exits after `stopProcess`, the process is restarted.

## Main results

* `stays_stopped`: when a stopped process stays stopped.
-/

namespace Pman.ProcessSupervisor.Stops

open Memory LockProgram Process

/-! ### Stopped processes -/

/-- The processes that are stopped, and those of them for which a child was launched. -/
structure Record where
  stopped : List String := []
  relaunched : List String := []

/-- A process is stopped from the end of `stopProcess` on, until an operation that is asked to
launch a child for it takes a step. -/
def recorder : Recorder Mutex Memory Input Site Op Unit Record where
  call _ := ()
  note _ _ _ := ()
  watch obs op _ past :=
    let stopped := past.stopped.filter fun name => !op.starts name
    match obs, op with
    | .unlocked _, .stopProcess name => { past with stopped := name :: stopped }
    | .accessed _ _ before after, _ =>
      { stopped := stopped
        relaunched := past.relaunched ++ stopped.filter (launchesFor before after) }
    | _, _ => { past with stopped := stopped }

def Numbered (m : Memory) (name : String) : Prop :=
  ∀ e ∈ m.pidToName_, e.2 = name → ∃ hdl ∈ m.validHandle name, hdl.pid_ = e.1
  deriving Decidable

def locksToStop : Observation Mutex Memory Input Site Op → Op → Option String
  | .locked _, .stopProcess name => some name
  | _, _ => none

/-- When `stopProcess(name)` locks `mutex_`, every number of `name` is the one in its handle. -/
def OneNumber {ι : Type*} (obs : Observation Mutex Memory Input Site Op) (op : Op) (_ : Unit)
    (m : Memory) (_ : History ι Op Unit Record) : Prop :=
  ∀ name ∈ locksToStop obs op, Numbered m name
  deriving Decidable

def Idle (m : Memory) (x : String) : Prop :=
  ∀ state, m.find x = some state → state.pendingRestart = false

structure Quiet (m : Memory) (x : String) : Prop where
  unmapped : ∀ e ∈ m.pidToName_, e.2 ≠ x
  idle : Idle m x

/-- The call inside of `mutex_` is not about to restart the process. -/
def Apart (x : String) : Option Phase → Prop
  | some (.found _ _ y) | some (.erased _ _ y) | some (.exited y _) | some (.cleaned y _ _)
  | some (.approved y _) | some (.counted y _) | some (.due _ y _) | some (.restarting _ y _) => y ≠ x
  | _ => True

def Halting (m : Memory) : Option Phase → Prop
  | some (.stopping x false) => Numbered m x
  | some (.paused x false) => Numbered m x ∧ Idle m x
  | some (.halted x false) => Quiet m x
  | _ => True

/-- The invariant of stopped processes. -/
structure Stays (m : Memory) (past : Record) (r : Option Phase) : Prop where
  stopped : ∀ x ∈ past.stopped, Quiet m x ∧ Apart x r
  relaunched : past.relaunched = []
  halting : Halting m r

def Stopping : Op → Phase → Prop
  | .stopProcess x, φ =>
    φ ∈ [.outside, .throwing, .stopping x false, .paused x false, .halted x false]
  | _, _ => True

section Phases

variable {op : Op} {φ φ' : Phase} {site : Site} {input : Input} {m m' : Memory} {x : String}

lemma Stopping.enters (hs : Stopping op φ) (h : Enters op φ φ') : Stopping op φ' := by
  cases op with
  | stopProcess x =>
    cases h with
    | inside hop => cases hop
    | stopping name restart hop =>
      cases restart <;> simp at hop
      simp [Stopping, hop]
    | exiting | surveying => simp [Stopping] at hs
  | _ => trivial

lemma Stopping.leaves (hs : Stopping op φ) (h : Leaves op φ φ') : Stopping op φ' := by
  cases op with
  | stopProcess x => cases h <;> simp [Stopping] at hs ⊢
  | _ => trivial

lemma Stopping.accesses (hs : Stopping op φ) (h : Accesses op φ site input m m' φ') :
    Stopping op φ' := by
  cases op with
  | stopProcess x =>
    cases h with
    | look h =>
      cases h with
      | stay => exact hs
      | time hop | leave hop => cases hop
      | _ => simp_all [Stopping]
    | set _ h =>
      cases h with
      | stay => exact hs
      | _ => simp_all [Stopping]
    | signal => exact hs
    | uncollected h | collected h => cases h <;> simp_all [Stopping, Op.isLoop]
    | launched h | unlaunched h | change h | unlist h => cases h <;> simp_all [Stopping]
    | _ => simp_all [Stopping]
  | _ => trivial

lemma mem_pids_of_accesses (h : Accesses op φ site input m m' φ') {e : ℤ × String}
    (he : e ∈ m'.pidToName_) : e ∈ m.pidToName_ ∨ ∃ φ'', Launches op e.2 φ φ' φ'' := by
  have herase : ∀ pid, e ∈ (m.erasePid pid).pidToName_ → e ∈ m.pidToName_ :=
    fun _ h => List.mem_of_mem_filter h
  cases h with
  | look | exit | change | add | remove => exact .inl he
  | set hm => exact .inl (hm.pids ▸ he)
  | signal _ _ h =>
    rcases h with rfl | ⟨_, -, rfl⟩
    · exact .inl he
    · exact .inl he
  | unreaped h => exact .inl (h ▸ he)
  | waited hv h =>
    rw [waitpid_of_exited hv h] at he
    exact .inl he
  | uncollected _ h =>
    rw [collect_of_none h] at he
    exact .inl he
  | collected _ h =>
    rw [collect_of_some h] at he
    exact .inl he
  | launched hφ h =>
    rw [launch_of_launches h] at he
    rcases List.mem_concat.mp he with he | rfl
    · exact .inl (herase _ he)
    · exact .inr ⟨_, hφ⟩
  | unlaunched _ h =>
    obtain ⟨k, -, heq⟩ := launch_of_not_launches h _
    rw [heq] at he
    exact .inl he
  | erase => exact .inl (herase _ he)
  | unlist _ h =>
    rcases h with ⟨-, rfl⟩ | ⟨_, -, rfl⟩
    · exact .inl he
    · exact .inl (herase _ he)

lemma Idle.modifyProcess (h : Idle m x) (name : String) {f : ProcessState → ProcessState}
    (hf : name = x → ∀ s, (f s).pendingRestart = true → s.pendingRestart = true) :
    Idle (m.modifyProcess name f) x := by
  intro state hstate
  rw [find_modifyProcess] at hstate
  split_ifs at hstate with hx
  · obtain ⟨s, hs, rfl⟩ := Option.map_eq_some_iff.mp hstate
    by_contra hpending
    exact absurd (h s hs) (by simp [hf hx.symm s (by simpa using hpending)])
  · exact h state hstate

lemma Idle.accesses (hi : Idle m x) (h : Accesses op φ site input m m' φ')
    (hapart : Apart x (some φ)) : Idle m' x := by
  cases h with
  | look | exit | erase => exact hi
  | set hm =>
    intro state hstate
    rw [Memory.find, hm.processes] at hstate
    exact hi state hstate
  | signal _ _ h =>
    rcases h with rfl | ⟨_, -, rfl⟩
    · exact hi
    · exact hi
  | unreaped h => rwa [h]
  | waited hv h =>
    rw [waitpid_of_exited hv h]
    refine Idle.modifyProcess ?_ _ fun _ _ h => h
    exact hi
  | uncollected _ h => rwa [collect_of_none h]
  | collected _ h =>
    rw [collect_of_some h]
    exact hi
  | launched _ h =>
    rw [launch_of_launches h]
    refine Idle.modifyProcess ?_ _ fun _ _ h => h
    exact hi
  | unlaunched _ h =>
    obtain ⟨k, -, heq⟩ := launch_of_not_launches h _
    rw [heq]
    refine Idle.modifyProcess ?_ _ fun _ _ h => h
    exact hi
  | change h =>
    refine hi.modifyProcess _ fun hx s hs => ?_
    cases h with
    | pause | clear => cases hs
    | count => exact absurd hx hapart
    | _ => exact hs
  | unlist _ h =>
    rcases h with ⟨-, rfl⟩ | ⟨_, -, rfl⟩
    · exact hi
    · exact hi
  | @add spec =>
    intro state hstate
    rw [Memory.find, lookup_append_singleton] at hstate
    rcases Option.or_eq_some_iff.mp hstate with hs | ⟨-, hs⟩
    · exact hi state hs
    · split_ifs at hs
      cases hs
      rfl
  | remove =>
    intro state hstate
    rw [Memory.find, lookup_filter_ne] at hstate
    split_ifs at hstate
    exact hi state hstate

lemma Apart.accesses (hq : Quiet m x) (hapart : Apart x (some φ))
    (h : Accesses op φ site input m m' φ') : Apart x (some φ') := by
  cases h with
  | look h =>
    cases h with
    | stay | approved => exact hapart
    | found child status name h =>
      exact hq.unmapped (child.pid, name) (mem_of_lookup h)
    | due now name names state h hdue =>
      rintro rfl
      simp [hq.idle state h] at hdue
    | _ => trivial
  | set _ h =>
    cases h with
    | stay => exact hapart
    | _ => trivial
  | signal | erase => exact hapart
  | change h => cases h <;> first | exact hapart | trivial
  | uncollected h | collected h | launched h | unlaunched h | unlist h => cases h <;> trivial
  | unreaped | waited | exit | add | remove => trivial

lemma Halting.congr {r : Option Phase} (h : Halting m r) (hprocesses : m'.processes_ = m.processes_)
    (hpids : m'.pidToName_ = m.pidToName_) : Halting m' r := by
  have hfind := find_congr hprocesses
  have hnumbered : ∀ x, Numbered m x → Numbered m' x := by
    intro x hx e he
    rw [hpids] at he
    rw [Memory.validHandle, hfind]
    exact hx e he
  have hidle : ∀ x, Idle m x → Idle m' x := by
    intro x hx state hstate
    rw [hfind] at hstate
    exact hx state hstate
  unfold Halting at h ⊢
  split
  case h_1 => exact hnumbered _ h
  case h_2 => exact ⟨hnumbered _ h.1, hidle _ h.2⟩
  case h_3 =>
    refine ⟨?_, hidle _ h.idle⟩
    rw [hpids]
    exact h.unmapped
  case h_4 => trivial

lemma Numbered.unmapped (h : Numbered m x) (hv : m.validHandle x = none) :
    ∀ e ∈ m.pidToName_, e.2 ≠ x := by
  intro e he hx
  obtain ⟨hdl, hmem, -⟩ := h e he hx
  simp [hv] at hmem

/-- `stopProcess` goes on.

**Proof sketch.** All numbers of the process are the one in its handle, so there is none if the
handle is not valid, and none is left after that one was erased. -/
lemma Halting.accesses (hh : Halting m (some φ)) (h : Accesses op φ site input m m' φ') :
    Halting m' (some φ') := by
  cases h with
  | look h =>
    cases h with
    | stay => exact hh
    | unknown name restart h =>
      cases restart with
      | true => trivial
      | false =>
        have hv : m.validHandle name = none := by rw [Memory.validHandle, h]; rfl
        exact ⟨hh.unmapped hv, fun state hstate => by rw [h] at hstate; cases hstate⟩
    | invalid name restart h =>
      cases restart with
      | true => trivial
      | false => exact ⟨hh.1.unmapped h, hh.2⟩
    | _ => trivial
  | set hm h =>
    cases h with
    | stay => exact hh.congr hm.processes hm.pids
    | _ => trivial
  | signal _ _ h =>
    rcases h with rfl | ⟨_, -, rfl⟩
    · exact hh
    · exact hh.congr rfl rfl
  | @change _ _ name _ _ _ h =>
    cases h with
    | pause restart =>
      cases restart with
      | true => trivial
      | false =>
        refine ⟨fun e he hx => ?_, fun state hstate => ?_⟩
        · rw [validHandle_modifyProcess name name]
          · exact hh e he hx
          · exact fun _ => rfl
        · rw [find_modifyProcess, if_pos rfl] at hstate
          obtain ⟨_, -, rfl⟩ := Option.map_eq_some_iff.mp hstate
          rfl
    | _ => trivial
  | @unlist _ _ name _ _ _ hφ h =>
    cases hφ with
    | halt restart =>
      cases restart with
      | true => trivial
      | false =>
        rcases h with ⟨hnone, rfl⟩ | ⟨hdl, hsome, rfl⟩
        · refine ⟨hh.1.unmapped (validHandle_eq_none_iff.mpr fun hdl hh => ?_), hh.2⟩
          rw [hnone] at hh
          cases hh
        · refine ⟨fun e he hx => ?_, hh.2⟩
          obtain ⟨hmem, hne⟩ := List.mem_filter.mp he
          obtain ⟨hdl', hv, hpid⟩ := hh.1 e hmem hx
          have hsame := (handleOf_of_validHandle hv).1
          rw [hsome] at hsame
          cases hsame
          simp [hpid] at hne
    | _ => trivial
  | uncollected h | collected h | launched h | unlaunched h => cases h <;> trivial
  | unreaped | waited | exit | erase | add | remove => trivial

lemma launchesFor_eq_false (hl : Ledger m) (h : Accesses op φ site input m m' φ')
    (hstarts : op.starts x = false) (hapart : Apart x (some φ)) : launchesFor m m' x = false := by
  have hold : ∀ hdl, m.handleOf x = some hdl → hdl.launch ≠ m.kernel.launches :=
    fun hdl hh => (hl.fresh x hdl hh).ne
  unfold launchesFor
  cases hx : m'.handleOf x with
  | none => rfl
  | some hdl' =>
    rw [Option.any_some, beq_eq_false_iff_ne]
    rcases Ledger.handles_cases h with hsub | ⟨name, hdl, child, status, -, hv, hw, rfl⟩ |
      ⟨name, φ'', hφ, hlaunches, rfl⟩
    · exact hold hdl' (hsub x hdl' hx)
    · rw [waitpid_of_exited hv hw] at hx
      obtain ⟨hdl, hm, heq, -⟩ := Ledger.handlesFrom_forget { m with kernel := _ } name x hdl' hx
      rw [heq]
      exact hold hdl hm
    · have hne : name ≠ x := by
        rintro rfl
        cases hφ with
        | start names hop => exact absurd hop (by simp [hstarts])
        | restart => exact hapart rfl
      rw [launch_of_launches hlaunches] at hx
      rcases Ledger.handleOf_started hx with ⟨rfl, -⟩ | ⟨-, hm⟩
      · exact absurd rfl hne
      · exact hold hdl' hm

end Phases

section Steps

variable {ι : Type*} [DecidableEq ι] {m m' : Memory} {h : History ι Op Unit Record} {t : ι}
  {op : Op} {calls : List (Op × Unit)} {site : Site} {input : Input} {φ φ' : Phase}
  {r r' : Option Phase}

variable {obs : Observation Mutex Memory Input Site Op} {past : Record}

lemma mem_stopped {x : String} (hx : x ∈ (recorder.watch obs op () past).stopped) :
    x ∈ past.stopped ∧ op.starts x = false ∨
      ∃ mutex, obs = .unlocked mutex ∧ op = .stopProcess x := by
  have hfilter : x ∈ past.stopped.filter (fun name => !op.starts name) →
      x ∈ past.stopped ∧ op.starts x = false := by
    simp
  simp only [recorder] at hx
  split at hx
  case h_1 mutex name =>
    rcases List.mem_cons.mp hx with rfl | hx
    · exact .inr ⟨mutex, rfl, rfl⟩
    · exact .inl (hfilter hx)
  case h_2 | h_3 => exact .inl (hfilter hx)

lemma relaunched_watch (hobs : obs.isAccess = false) (past : Record) :
    (recorder.watch obs op () past).relaunched = past.relaunched := by
  simp only [recorder]
  split
  case h_2 => cases hobs
  all_goals rfl

lemma Stays.step (hS : Stays m past r) (hobs : obs.isAccess = false)
    (hapart : ∀ x, Apart x r → Apart x r') (hhalting : Halting m r')
    (hstop : ∀ mutex x, obs = .unlocked mutex → op = .stopProcess x → Quiet m x ∧ Apart x r') :
    Stays m (recorder.watch obs op () past) r' := by
  refine ⟨fun x hx => ?_, (relaunched_watch hobs past).trans hS.relaunched, hhalting⟩
  rcases mem_stopped hx with ⟨hx, -⟩ | ⟨mutex, hunlock, hop⟩
  · exact ⟨(hS.stopped x hx).1, hapart x (hS.stopped x hx).2⟩
  · exact hstop mutex x hunlock hop

lemma Stays.access (hS : Stays m past r)
    (hquiet : ∀ x ∈ past.stopped, op.starts x = false → Quiet m' x ∧ Apart x r')
    (hlaunch : ∀ x ∈ past.stopped, op.starts x = false → launchesFor m m' x = false)
    (hhalting : Halting m' r') :
    Stays m' (recorder.watch (.accessed site input m m') op () past) r' := by
  refine ⟨fun x hx => ?_, ?_, hhalting⟩
  · rcases mem_stopped hx with ⟨hx, hstarts⟩ | ⟨mutex, hunlock, -⟩
    · exact hquiet x hx hstarts
    · cases hunlock
  · have hnone :
        (past.stopped.filter fun name => !op.starts name).filter (launchesFor m m') = [] := by
      rw [List.filter_eq_nil_iff]
      intro x hx
      obtain ⟨hmem, hstarts⟩ := List.mem_filter.mp hx
      simp [hlaunch x hmem (by simpa using hstarts)]
    show past.relaunched ++ _ = []
    rw [hS.relaunched, hnone]
    rfl

lemma Quiet.accesses {x : String} (hq : Quiet m x) (hacc : Accesses op φ site input m m' φ')
    (hstarts : op.starts x = false) (hapart : Apart x (some φ)) : Quiet m' x := by
  refine ⟨fun e he hx => ?_, hq.idle.accesses hacc hapart⟩
  rcases mem_pids_of_accesses hacc he with he | ⟨φ'', hφ⟩
  · exact hq.unmapped e he hx
  · subst hx
    cases hφ with
    | start names hop => exact absurd hop (by simp [hstarts])
    | restart => exact hapart rfl

lemma apart_of_not_held (hφ : φ.held = false) (x : String) : Apart x (some φ) := by
  cases φ with
  | outside | timed | collected | draining | throwing | failing => trivial
  | _ => cases hφ

lemma Stays.keeps : outline.Keeps (ι := ι) recorder OneNumber Ledger
    (fun op φ _ => Stopping op φ) fun m h r => Stays m h.past r where
  started {t op s h r} _ _ hS := by
    refine ⟨by cases op <;> simp [Stopping, outline], ?_⟩
    rw [recorder.past_record rfl]
    exact hS.step rfl (fun _ => id) hS.halting nofun
  ended hcalls _ _ _ hS := by
    rw [recorder.past_of_call hcalls rfl]
    exact hS.step rfl (fun _ => id) hS.halting nofun
  entered {t op k calls φ φ' s h} henters hcalls hL _ hok hS := by
    refine ⟨hL.enters henters, ?_⟩
    rw [recorder.past_of_call hcalls rfl]
    refine hS.step rfl (fun x _ => by cases henters <;> trivial) ?_ nofun
    cases henters with
    | stopping name restart hop =>
      cases restart with
      | true => trivial
      | false =>
        obtain rfl : op = .stopProcess name := hop
        exact hok name rfl
    | _ => trivial
  left {t op k calls φ φ' s h} hleaves hcalls hL _ _ hS := by
    refine ⟨hL.leaves hleaves, ?_⟩
    rw [recorder.past_of_call hcalls rfl]
    refine hS.step rfl (fun _ _ => trivial) trivial fun mutex x _ hop => ⟨?_, trivial⟩
    subst hop
    have hhalting := hS.halting
    cases hleaves <;> simp [Stopping] at hL
    all_goals
      obtain ⟨rfl, rfl⟩ := hL
      exact hhalting
  inside hφ hacc hcalls hL hl _ hS := by
    refine ⟨hL.accesses hacc, ?_⟩
    rw [recorder.past_of_call hcalls rfl]
    exact hS.access
      (fun x hx hstarts => ⟨(hS.stopped x hx).1.accesses hacc hstarts (hS.stopped x hx).2,
        Apart.accesses (hS.stopped x hx).1 (hS.stopped x hx).2 hacc⟩)
      (fun x hx hstarts => launchesFor_eq_false hl hacc hstarts (hS.stopped x hx).2)
      (hS.halting.accesses hacc)
  outside hφ hacc hcalls hL hl _ hS := by
    refine ⟨hL.accesses hacc, ?_⟩
    rw [recorder.past_of_call hcalls rfl]
    obtain ⟨hprocesses, hpids⟩ := hacc.same_of_not_held hφ
    exact hS.access
      (fun x hx hstarts => ⟨(hS.stopped x hx).1.accesses hacc hstarts (apart_of_not_held hφ x),
        (hS.stopped x hx).2⟩)
      (fun x hx hstarts => launchesFor_eq_false hl hacc hstarts (apart_of_not_held hφ x))
      (hS.halting.congr hprocesses hpids)
  resumed hcalls hL _ _ hS := by
    refine ⟨hL, ?_⟩
    rw [recorder.past_of_call hcalls rfl]
    exact hS.step rfl (fun _ => id) hS.halting nofun

end Steps

/-- **A stopped process stays stopped.** In every run in which all numbers of a process are the one
in its handle whenever `stopProcess` locks `mutex_` for it, no child is launched for a process after
`stopProcess` has returned, until `startProcess`, `restartProcess` or `start` is called for it; nor
is a restart of it pending. -/
theorem stays_stopped {ι : Type*} [DecidableEq ι]
    {w : Watched Mutex Memory Input Site ι Op Unit Record}
    (h : (recorder.watched ι program (· = fresh) {}).ReachableWithin
      (recorder.Allows OneNumber) w) :
    w.history.past.relaunched = [] ∧ ∀ x ∈ w.history.past.stopped, Idle w.config.mem x := by
  obtain ⟨_, _, hO⟩ := Stays.keeps.invariant follows_program
    (by rintro _ rfl; exact ⟨nofun, rfl, trivial⟩) (fun _ _ hok => hok)
    (fun _ hw => ledger_of_reachable hw) h
  exact ⟨hO.holds.relaunched, fun x hx => (hO.holds.stopped x hx).1.idle⟩

theorem stays_stopped_exit : ∃ w : Watched Mutex Memory Input Site Bool Op Unit Record,
    (recorder.watched Bool program (· = fresh) {}).ReachableWithin (recorder.Allows OneNumber) w ∧
    w.history.past.stopped = ["a"] ∧
    w.config.mem.kernel.log = [.launched 0 7, .signalled .term 7 0, .reaped 0 .any] ∧
    w.history.past.relaunched = [] ∧ Idle w.config.mem "a" := by
  have hw : (recorder.watched Bool program (· = fresh) {}).ReachableWithin
      (recorder.Allows OneNumber) _ :=
    .final ⟨initial fresh, Recorder.nothing {}⟩
      ((true, .start (.add (eager "a"))) :: startRun.tail ++
        (true, .start (.stopProcess "a")) :: go true 8 ++ exitRun 0) ⟨fresh, rfl, rfl⟩
      (by decide +kernel)
  obtain ⟨hrelaunched, hidle⟩ := stays_stopped hw
  exact ⟨_, hw, by decide +kernel, by decide +kernel, hrelaunched, hidle "a" (by decide +kernel)⟩

def removes : Choice Input Op → Bool
  | .start (.remove _ _) => true
  | _ => false

/-- **A stopped process is restarted**, in a run without `remove`: `startProcess` launches a child
with the number `7`, and `start` another one with the number `8`. `stopProcess` erases the number
`8`. When the child `7` exits, the process is restarted. -/
theorem restarted_after_stop : ∃ w : Watched Mutex Memory Input Site Bool Op Unit Record,
    (recorder.watched Bool program (· = fresh) {}).ReachableWithin
      (fun _ a => removes a.2 = false) w ∧
    w.history.past.stopped = ["a"] ∧ w.history.past.relaunched = ["a"] ∧
    w.config.mem.kernel.log = [.launched 0 7, .launched 1 8, .signalled .term 8 1, .reaped 0 .any,
      .launched 2 9] := by
  exact TransitionSystem.reached_by ⟨initial fresh, Recorder.nothing {}⟩
    ((true, .start (.add (eager "a"))) :: go true 5 ++
      (true, .start (.startProcess "a")) :: go true 2 ++ (true, .go { pid := 7 }) :: go true 3 ++
      (true, .start .start) :: go true 5 ++ (true, .go { pid := 8 }) :: go true 5 ++
      [(false, .start (.supervisorLoop 0 3)), (false, .go {})] ++
      (true, .start (.stopProcess "a")) :: go true 8 ++ exitRun 0 ++ go false 8 ++
      [(false, .go { pid := 9 })]) ⟨fresh, rfl, rfl⟩ (by decide +kernel)

end Pman.ProcessSupervisor.Stops
