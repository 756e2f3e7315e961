import Pman.Process.Reaping

set_option autoImplicit false

/-!
# When `startProcess` launches a child

`startProcess` takes a process for running if its handle is valid. A handle becomes invalid only
when a `waitpid` through it has reaped a child. The supervisor's thread reaps the children with a
`waitpid` for any child and leaves the handles alone, in its loop as well as in the final drain. So
after a child was collected, its process still has a valid handle, and `startProcess` does nothing.

## Main results

* `launches_iff`: `startProcess` launches a child if the handle is not valid, and only then.
-/

namespace Pman.ProcessSupervisor.Starts

open TransitionSystem LockProgram Process

variable {ι : Type*} [DecidableEq ι]

/-- A call of `startProcess` on the thread `t`, up to its third access. -/
def call {ι : Type*} (t : ι) (name : String) (i₀ i₁ input : Input) : List (ι × Choice Input Op) :=
  [(t, .start (.startProcess name)), (t, .go i₀), (t, .go i₁), (t, .go input)]

def Launched (before after : Memory) (name : String) (input : Input) : Prop :=
  after.kernel.launches = before.kernel.launches + 1 ∧
    after.handleOf name = some ⟨input.pid, input.pidfd, before.kernel.launches⟩

instance (before after : Memory) (name : String) (input : Input) :
    Decidable (Launched before after name input) :=
  inferInstanceAs (Decidable (_ ∧ _))

variable {m : Memory} {name : String} {input : Input}

lemma launched_of_launches (hknown : (m.find name).isSome = true) (h : launches m input = true) :
    Launched m (m.launch name input) name input := by
  obtain ⟨state, hstate⟩ := Option.isSome_iff_exists.mp hknown
  rw [Memory.launch_of_launches h]
  refine ⟨rfl, ?_⟩
  rw [Memory.handleOf, Memory.find_modifyProcess, if_pos rfl]
  show ((m.find name).map _).bind _ = _
  rw [hstate]
  rfl

variable {c : LockProgram.Config Mutex Memory Input Site ι}

lemma launched_iff_of_lookup {t : ι} (hmem : c.mem = m) (hknown : (m.find name).isSome = true)
    (hlaunches : launches m input = true) (hstack : c.stack t = [if (m.find name).isNone then
        unlockRaise (.runtime ("Unknown process: " ++ name))
      else if (m.validHandle name).isSome then .unlock .supervisor .done
      else doStartProcess name unlockRaise (.unlock .supervisor .done)]) :
    (system ι).RunsTo (fun _ _ => True) (fun c' => Launched m c'.mem name input) c [(t, .go input)] ↔
      m.validHandle name = none := by
  subst hmem
  rw [if_neg (by simpa [Option.isSome_iff_ne_none] using hknown)] at hstack
  cases hv : c.mem.validHandle name with
  | none =>
    rw [hv, if_neg (by simp)] at hstack
    refine (runsTo_cons (step_act program hstack input) trivial).trans ?_
    exact iff_of_true (launched_of_launches hknown hlaunches) rfl
  | some hdl =>
    rw [hv, Option.isSome_some, if_pos rfl] at hstack
    refine (runsTo_cons (step_unlock program hstack input) trivial).trans ?_
    exact iff_of_false (fun h => Nat.succ_ne_self _ h.1.symm) nofun

/-- **`startProcess` launches a child if and only if the handle of the process is not valid**, for
every known process, called on any idle thread while `mutex_` is free, if the launch can succeed. -/
theorem launches_iff {c : LockProgram.Config Mutex Memory Input Site ι} {t : ι}
    (hidle : c.stack t = []) (hfree : c.owner .supervisor = none) {name : String}
    (hknown : (c.mem.find name).isSome = true) {input : Input}
    (hlaunches : launches c.mem input = true) (i₀ i₁ : Input) :
    (system ι).RunsTo (fun _ _ => True) (fun c' => Launched c.mem c'.mem name input) c
      (call t name i₀ i₁ input) ↔ c.mem.validHandle name = none := by
  refine (runsTo_cons (step_start program hidle _) trivial).trans ?_
  refine (runsTo_cons (step_lock program (c := c.setStack t _)
    (Function.update_self ..) hfree i₀) trivial).trans ?_
  refine (runsTo_cons (step_act program (Function.update_self ..) i₁) trivial).trans ?_
  exact launched_iff_of_lookup rfl hknown hlaunches (Function.update_self ..)

/-- **The handle of a process stays valid when its child is collected**, in every run in which waits
through a handle are for children that were not collected. -/
theorem validHandle_of_collected
    (h : (system ι).ReachableWithin (StepOk Reaping.OwnWait fun _ => True) c) {name : String}
    {hdl : ProcessHandle} (hcurrent : c.mem.handleOf name = some hdl)
    (hreaped : .reaped hdl.launch .any ∈ c.mem.kernel.log) : c.mem.validHandle name = some hdl := by
  obtain ⟨history, hw⟩ := Reaping.recorder.exists_history () h
  have hwaits := Reaping.waits_of_reachable hw
  refine Option.filter_eq_some_iff.mpr ⟨hcurrent, ?_⟩
  rcases hwaits.forgotten name hdl hcurrent with hvalid | hwaited
  · exact hvalid
  · have heq := List.inj_on_of_nodup_map hwaits.once (Reaping.mem_reaps.mpr hreaped) hwaited rfl
    cases heq

def Collected (m : Memory) (name : String) : Prop :=
  ∃ hdl ∈ m.handleOf name, .reaped hdl.launch .any ∈ m.kernel.log
  deriving Decidable

/-- The theorem in a state in which the child of `"a"` was collected, and the handle of `"a"` has
forgotten it: its number was given to a child of `"b"`, and `stopGracefully` has reaped that one
through the handle of `"a"`. -/
theorem launches_iff_forgotten :
    ∃ c : LockProgram.Config Mutex Memory Input Site Bool, (system Bool).Reachable c ∧
      Collected c.mem "a" ∧ c.mem.validHandle "a" = none ∧
      (system Bool).RunsTo (fun _ _ => True) (fun c' => Launched c.mem c'.mem "a" { pid := 9 }) c
        (call true "a" {} {} { pid := 9 }) := by
  have hc : (system Bool).Reachable _ := .final (initial fresh)
      (startRun ++ exitRun 0 ++ (true, .start (.add (plain "b"))) :: go true 5 ++
        (true, .start (.startProcess "b")) :: go true 2 ++ (true, .go { pid := 7 }) :: go true 3 ++
        [(true, .start (.childExit 1 0)), (true, .go {}), (true, .go {}),
          (true, .start (.stopGracefully 1))] ++ go true 18) ⟨fresh, rfl, rfl⟩ (by decide +kernel)
  exact ⟨_, hc, by decide +kernel, by decide +kernel,
    (launches_iff (List.isEmpty_iff.mp (by decide +kernel)) (by decide +kernel)
      (by decide +kernel) (by decide +kernel) {} {}).mpr (by decide +kernel)⟩

/-- **`startProcess` does nothing after the child was collected**: a child exits, the supervisor's
thread collects it and handles its exit, and then a whole call of `startProcess` launches
nothing. -/
theorem not_launched :
    ∃ c : LockProgram.Config Mutex Memory Input Site Bool, (system Bool).Reachable c ∧
      Collected c.mem "a" ∧ c.mem.kernel.launches = 1 ∧ launches c.mem { pid := 9 } = true ∧
      (system Bool).RunsTo (fun _ _ => True)
        (fun c' => c'.mem.kernel.launches = 1 ∧ (c'.stack true).isEmpty = true) c
        (call true "a" {} {} { pid := 9 } ++ [(true, .go {})]) := by
  exact reached_by (initial fresh) (startRun ++ exitRun 0)
    ⟨fresh, rfl, rfl⟩ (by decide +kernel)

end Pman.ProcessSupervisor.Starts
