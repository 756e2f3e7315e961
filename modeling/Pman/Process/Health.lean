import Mathlib.Algebra.Group.Nat.Even
import Mathlib.Data.List.DropRight
import Mathlib.Data.List.Infix

set_option autoImplicit false

/-!
# Health from the history of the checks

`HealthMonitor` checks each of its processes in rounds. A round in which all checks pass, none
passes or some pass moves two counters and, past the thresholds of the process, its status; a change
of the status is reported to a callback. Here the counters and the status are read off the rounds
since the process was added, or got its last pid.

The counters are natural numbers. Within fewer than `2 ^ 31` rounds they stay in the range of the
`int`s of the code (`Follows.counters_lt`).

## Main definitions

* `MonitoredProcess.checkProcess`: a round; `Memory.reports`: the call of the callback.
* `successes`, `failures`, `statusOf`: what a history of rounds says.

## Main results

* `health_of_history`: the counters, the status and the reports follow the history.
-/

namespace Pman.HealthMonitor

open Function

inductive HealthStatus
  | unknown
  | healthy
  | unhealthy
  | degraded
deriving DecidableEq, Repr

/-- `HealthCheckConfig`; the interval is in nanoseconds. -/
structure HealthCheckConfig where
  interval : ℤ := 30000000000
  unhealthyThreshold : ℤ := 3
  healthyThreshold : ℤ := 2
deriving DecidableEq, Repr

structure MonitoredProcess where
  config : HealthCheckConfig
  status : HealthStatus := .unknown
  consecutiveFailures : ℕ := 0
  consecutiveSuccesses : ℕ := 0
  lastCheck : ℤ
deriving DecidableEq, Repr

structure Change where
  name : String
  oldStatus : HealthStatus
  newStatus : HealthStatus
deriving DecidableEq, Repr

/-- `checkProcess`, up to the callback; `passed` is what the checks of the process answer. -/
def MonitoredProcess.checkProcess (proc : MonitoredProcess) (passed : List Bool) (now : ℤ) :
    MonitoredProcess :=
  let proc := { proc with lastCheck := now }
  if passed.all id then
    let successes : ℕ := proc.consecutiveSuccesses + 1
    { proc with
      consecutiveSuccesses := successes
      consecutiveFailures := 0
      status := if proc.config.healthyThreshold ≤ successes then .healthy else proc.status }
  else if passed.count true = 0 then
    let failures : ℕ := proc.consecutiveFailures + 1
    { proc with
      consecutiveFailures := failures
      consecutiveSuccesses := 0
      status := if proc.config.unhealthyThreshold ≤ failures then .unhealthy else proc.status }
  else
    { proc with
      consecutiveSuccesses := 0
      consecutiveFailures :=
        if 0 < proc.consecutiveFailures then proc.consecutiveFailures + 1
        else proc.consecutiveFailures
      status := .degraded }

/-- The data of a `HealthMonitor`; of the callback only whether it is set. -/
structure Memory where
  processes_ : String → Option MonitoredProcess
  healthChangeCallback_ : Bool
  running_ : Bool

namespace Memory

def addProcess (m : Memory) (name : String) (config : HealthCheckConfig) (now : ℤ) : Memory :=
  let proc : MonitoredProcess := { config := config, lastCheck := now - config.interval }
  { m with processes_ := update m.processes_ name (some proc) }

def removeProcess (m : Memory) (name : String) : Memory :=
  { m with processes_ := update m.processes_ name none }

def updatePid (m : Memory) (name : String) : Memory :=
  { m with
    processes_ := update m.processes_ name <| (m.processes_ name).map fun proc =>
      { proc with status := .unknown, consecutiveFailures := 0, consecutiveSuccesses := 0 } }

/-- A turn of the second loop of `monitorLoop`: the process is checked if it is still there. -/
def checkRound (m : Memory) (name : String) (passed : List Bool) (now : ℤ) : Memory :=
  { m with
    processes_ := update m.processes_ name <|
      (m.processes_ name).map fun proc => proc.checkProcess passed now }

/-- What the callback is called with in such a turn, if it is. -/
def reports (m : Memory) (name : String) (passed : List Bool) (now : ℤ) : Option Change :=
  (m.processes_ name).bind fun proc =>
    let newStatus := (proc.checkProcess passed now).status
    if proc.status ≠ newStatus ∧ m.healthChangeCallback_ = true then
      some ⟨name, proc.status, newStatus⟩
    else none

end Memory

inductive Round
  | allPassed
  | nonePassed
  | mixed
deriving DecidableEq, Repr

def Round.of (passed : List Bool) : Round :=
  if ∀ b ∈ passed, b = true then .allPassed
  else if ∀ b ∈ passed, b = false then .nonePassed
  else .mixed

/-- The length of the trailing run of rounds in which all checks passed. -/
def successes (rounds : List Round) : ℕ := (rounds.rtakeWhile (· = .allPassed)).length

/-- The number of rounds from the first one in which nothing passed after the last one in which
everything did. -/
def failures (rounds : List Round) : ℕ :=
  ((rounds.rtakeWhile (· ≠ .allPassed)).dropWhile (· ≠ .nonePassed)).length

/-- The status that the last round of a history decides on, if it does. -/
def verdict (config : HealthCheckConfig) (rounds : List Round) : Option HealthStatus :=
  match rounds.getLast? with
  | none => none
  | some .mixed => some .degraded
  | some .allPassed =>
    if config.healthyThreshold ≤ successes rounds then some .healthy else none
  | some .nonePassed =>
    if config.unhealthyThreshold ≤ failures rounds then some .unhealthy else none

def statusOf (config : HealthCheckConfig) (rounds : List Round) : HealthStatus :=
  ((rounds.inits.filterMap (verdict config)).getLast?).getD .unknown

/-- The data of a process is what its rounds say. -/
structure Follows (config : HealthCheckConfig) (rounds : List Round) (proc : MonitoredProcess) :
    Prop where
  config_eq : proc.config = config
  successes_eq : proc.consecutiveSuccesses = successes rounds
  failures_eq : proc.consecutiveFailures = failures rounds
  status_eq : proc.status = statusOf config rounds

/-- The counters fit into an `int` for fewer than `2 ^ 31` rounds. -/
lemma Follows.counters_lt {config : HealthCheckConfig} {rounds : List Round}
    {proc : MonitoredProcess} (h : Follows config rounds proc) (hlt : rounds.length < 2 ^ 31) :
    proc.consecutiveSuccesses < 2 ^ 31 ∧ proc.consecutiveFailures < 2 ^ 31 := by
  rw [h.successes_eq, h.failures_eq]
  exact ⟨(List.rtakeWhile_suffix _ _).length_le.trans_lt hlt,
    ((List.dropWhile_suffix _).trans (List.rtakeWhile_suffix _ _)).length_le.trans_lt hlt⟩

lemma successes_concat (rounds : List Round) (r : Round) :
    successes (rounds ++ [r]) = if r = .allPassed then successes rounds + 1 else 0 := by
  unfold successes
  split_ifs <;> simp_all

lemma failures_concat (rounds : List Round) (r : Round) :
    failures (rounds ++ [r]) =
      if r = .allPassed then 0
      else if r = .nonePassed ∨ 0 < failures rounds then failures rounds + 1
      else 0 := by
  unfold failures
  rw [List.rtakeWhile_concat]
  by_cases hall : r = .allPassed
  · simp [hall]
  · simp only [hall, ne_eq, not_false_eq_true, decide_true, if_true, if_false,
      List.dropWhile_append]
    cases hdrop : (rounds.rtakeWhile fun x => !decide (x = .allPassed)).dropWhile
        fun x => !decide (x = .nonePassed) with
    | nil => by_cases hnone : r = .nonePassed <;> simp_all
    | cons x xs => simp_all

lemma statusOf_concat (config : HealthCheckConfig) (rounds : List Round) (r : Round) :
    statusOf config (rounds ++ [r]) =
      (verdict config (rounds ++ [r])).getD (statusOf config rounds) := by
  unfold statusOf
  cases hv : verdict config (rounds ++ [r]) <;> simp [List.inits_append, List.filterMap_append, hv]

variable {config : HealthCheckConfig} {proc : MonitoredProcess}

lemma follows_checkProcess {rounds : List Round} (h : Follows config rounds proc)
    (passed : List Bool) (now : ℤ) :
    Follows config (rounds ++ [Round.of passed]) (proc.checkProcess passed now) := by
  obtain ⟨rfl, hs, hf, hst⟩ := h
  have hall : passed.all id = true ↔ ∀ b ∈ passed, b = true := by simp
  have hnone : passed.count true = 0 ↔ ∀ b ∈ passed, b = false := by
    rw [List.count_eq_zero]
    exact ⟨fun h b hb => by cases b <;> simp_all, fun h hmem => by simpa using h _ hmem⟩
  unfold MonitoredProcess.checkProcess Round.of
  simp only [hall, hnone]
  by_cases ha : ∀ b ∈ passed, b = true
  · simp only [if_pos ha]
    refine ⟨rfl, by simp [successes_concat, hs], by simp [failures_concat], ?_⟩
    simp only [statusOf_concat, verdict, List.getLast?_concat, successes_concat, if_true, hs, hst]
    split_ifs <;> rfl
  by_cases hn : ∀ b ∈ passed, b = false
  · simp only [if_neg ha, if_pos hn]
    refine ⟨rfl, by simp [successes_concat], by simp [failures_concat, hf], ?_⟩
    simp only [statusOf_concat, verdict, List.getLast?_concat, failures_concat, reduceCtorEq,
      if_false, true_or, if_true, hf, hst]
    split_ifs <;> rfl
  · simp only [if_neg ha, if_neg hn]
    refine ⟨rfl, by simp [successes_concat], ?_, by simp [statusOf_concat, verdict]⟩
    simp only [failures_concat, reduceCtorEq, if_false, false_or, hf]
    split_ifs <;> omega

/-- The rounds of a process, with the answers of its checks and the clock. -/
def Memory.checkRounds (m : Memory) (name : String) (rounds : List (List Bool × ℤ)) : Memory :=
  rounds.foldl (fun m r => m.checkRound name r.1 r.2) m

lemma Memory.checkRounds_find {m : Memory} {name : String} {history : List Round}
    (hproc : m.processes_ name = some proc) (h : Follows config history proc)
    (rounds : List (List Bool × ℤ)) :
    ∃ proc', (m.checkRounds name rounds).processes_ name = some proc' ∧
      Follows config (history ++ rounds.map fun r => Round.of r.1) proc' := by
  induction rounds generalizing m proc history with
  | nil => exact ⟨proc, hproc, by simpa using h⟩
  | cons r rounds ih =>
    have hnext : (m.checkRound name r.1 r.2).processes_ name = some (proc.checkProcess r.1 r.2) := by
      simp [checkRound, hproc]
    simpa [checkRounds] using ih hnext (follows_checkProcess h r.1 r.2)

/-- **Health is determined by history**: after any rounds of a process since it was added or got
its pid, its counters and its status are what the rounds say; and the next round calls the
callback, if one is set, exactly if it changes the status, with both values. -/
theorem health_of_history {m start : Memory} {name : String} {config : HealthCheckConfig}
    (hstart : (∃ now, start = m.addProcess name config now) ∨
      start = m.updatePid name ∧ (m.processes_ name).map MonitoredProcess.config = some config)
    (rounds : List (List Bool × ℤ)) :
    let history := rounds.map fun r => Round.of r.1
    (∃ proc, (start.checkRounds name rounds).processes_ name = some proc ∧
      Follows config history proc) ∧
    ∀ passed now, (start.checkRounds name rounds).reports name passed now =
      let before := statusOf config history
      let after := statusOf config (history ++ [Round.of passed])
      if before ≠ after ∧ (start.checkRounds name rounds).healthChangeCallback_ = true then
        some ⟨name, before, after⟩
      else none := by
  intro history
  have hfresh : ∃ proc, start.processes_ name = some proc ∧ Follows config [] proc := by
    rcases hstart with ⟨now, rfl⟩ | ⟨rfl, hconfig⟩
    · exact ⟨_, update_self .., rfl, rfl, rfl, rfl⟩
    · obtain ⟨proc, hproc, hc⟩ := Option.map_eq_some_iff.mp hconfig
      refine ⟨{ proc with status := .unknown, consecutiveFailures := 0, consecutiveSuccesses := 0 },
        ?_, hc, rfl, rfl, rfl⟩
      simp [Memory.updatePid, hproc]
  obtain ⟨proc, hproc, hnil⟩ := hfresh
  obtain ⟨proc', hproc', h⟩ := Memory.checkRounds_find hproc hnil rounds
  refine ⟨⟨proc', hproc', h⟩, fun passed now => ?_⟩
  have hafter : (proc'.checkProcess passed now).status =
      statusOf config (history ++ [Round.of passed]) :=
    (follows_checkProcess h passed now).status_eq
  simp only [Memory.reports, hproc', Option.bind_some, hafter, h.status_eq]
  rfl

def fresh : Memory := ⟨fun _ => none, false, false⟩

/-- Two failed rounds, a mixed one and a good one, with the default thresholds. -/
theorem health_of_history_recovering :
    ∃ proc, ((fresh.addProcess "a" {} 0).checkRounds "a"
        [([false], 1), ([false, false], 2), ([true, false], 3), ([true], 4)]).processes_ "a" =
        some proc ∧
      Follows {} [.nonePassed, .nonePassed, .mixed, .allPassed] proc :=
  (health_of_history (.inl ⟨0, rfl⟩) _).1

end Pman.HealthMonitor
