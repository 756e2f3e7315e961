import Mathlib.Algebra.Order.Ring.Int
import Pman.Lib.TransitionSystem

set_option autoImplicit false

/-!
# The loop of the cron scheduler

`CronScheduler`: an iteration of `schedulerLoop` reads the system clock, collects the tasks that are
due under the lock, and executes them after it has released it. What is collected is dispatched: the
occurrence is `nextRun`, and the next one is the first after the reading, whatever the clock does.

`cancel` answers `true` whenever the task exists, and a task that has been collected is executed
although it is cancelled meanwhile.

## Main definitions

* `system`: calls of `schedule` and `cancel`, and the steps of the loop.

## Main results

* `dispatches_ordered`: what is started, and for which occurrences.
* `cancel_final`: when a cancelled task does not start again.
-/

namespace Pman.CronScheduler

open Function

/-- What the loop uses of a cron expression: `nextAfter` is the least matching time after a time. -/
structure Expression where
  Matches : ℤ → Prop
  nextAfter : ℤ → ℤ
  isLeast : ∀ t, IsLeast {u | t < u ∧ Matches u} (nextAfter t)

/-- `CronTask`. The last field is history: the occurrences dispatched and the readings of the
clock, the last one first. -/
structure Task where
  expression : Expression
  nextRun : ℤ
  executionCount : ℕ := 0
  active : Bool := true
  dispatches : List (ℤ × ℤ) := []

/-- Where an iteration of the loop is; the reading of the clock is kept to its end as history. -/
inductive Phase
  | polling
  | woken (now : ℤ)
  | executing (now : ℤ) (toExecute : List ℕ)

/-- What happened to a task: a call of `cancel`, whether it deactivated the task and what it
answered; or an execution started. -/
inductive Event
  | cancelled (taskId : ℕ) (deactivated answer : Bool)
  | started (taskId : ℕ)
deriving DecidableEq

/-- The data of a scheduler; the events are history, the last one first. -/
structure State where
  tasks_ : ℕ → Option Task
  nextTaskId_ : ℕ
  phase : Phase
  log : List Event

def new : State := ⟨fun _ => none, 1, .polling, []⟩

def State.toExecute (s : State) : List ℕ :=
  match s.phase with
  | .executing _ toExecute => toExecute
  | _ => []

/-- The reading of the clock in the iteration that executes. -/
def State.reading (s : State) : Option ℤ :=
  match s.phase with
  | .executing now _ => some now
  | _ => none

/-- The executions of a task that were started. -/
def State.starts (s : State) (taskId : ℕ) : ℕ := s.log.count (.started taskId)

/-- The dispatches of a task. -/
def State.dispatches (s : State) (taskId : ℕ) : List (ℤ × ℤ) :=
  (s.tasks_ taskId).elim [] Task.dispatches

def Task.due (now : ℤ) (task : Task) : Bool := task.active && decide (task.nextRun ≤ now)

def Task.collect (now : ℤ) (task : Task) : Task :=
  if task.due now then
    { task with
      executionCount := task.executionCount + 1
      nextRun := task.expression.nextAfter now
      dispatches := (task.nextRun, now) :: task.dispatches }
  else task

inductive Act
  | schedule (expression : Expression) (now : ℤ)
  | cancel (taskId : ℕ)
  | wake (now : ℤ)
  /-- The tasks that are due are collected, under the lock, in the order of `tasks_`. -/
  | collect (toExecute : List ℕ)
  /-- The next task starts; without one, the iteration ends. -/
  | execute

def step (s : State) : Act → Option State
  | .schedule expression now =>
    some { s with
      tasks_ := update s.tasks_ s.nextTaskId_
        (some { expression := expression, nextRun := expression.nextAfter now })
      nextTaskId_ := s.nextTaskId_ + 1 }
  | .cancel taskId =>
    match s.tasks_ taskId with
    | none => some { s with log := .cancelled taskId false false :: s.log }
    | some task =>
      some { s with
        tasks_ := update s.tasks_ taskId (some { task with active := false })
        log := .cancelled taskId task.active true :: s.log }
  | .wake now =>
    match s.phase with
    | .polling => some { s with phase := .woken now }
    | _ => none
  | .collect toExecute =>
    match s.phase with
    | .woken now =>
      -- an unordered map: the due tasks come in any order
      if toExecute.Perm ((List.range s.nextTaskId_).filter
          fun taskId => (s.tasks_ taskId).any (Task.due now)) then
        some { s with
          tasks_ := fun taskId => (s.tasks_ taskId).map (Task.collect now)
          phase := .executing now toExecute }
      else none
    | _ => none
  | .execute =>
    match s.phase with
    | .executing _ [] => some { s with phase := .polling }
    | .executing now (taskId :: rest) =>
      some { s with phase := .executing now rest, log := .started taskId :: s.log }
    | _ => none

def system : TransitionSystem State Act := ⟨(· = new), step⟩

section Dispatches

variable {s s' : State} {a : Act}

/-- The history of a task: each occurrence is at most the reading of its dispatch, and the first
that matches after the reading of the dispatch before. -/
def Expression.History (e : Expression) : List (ℤ × ℤ) → ℤ → Prop
  | [], next => e.Matches next
  | (occurrence, now) :: earlier, next =>
    next = e.nextAfter now ∧ occurrence ≤ now ∧ e.History earlier occurrence

variable {e : Expression} {ds : List (ℤ × ℤ)} {next : ℤ} {task : Task}

lemma Expression.History.matches_ (h : e.History ds next) : e.Matches next := by
  cases ds with
  | nil => exact h
  | cons d ds =>
    rw [h.1]
    exact (e.isLeast d.2).1.2

lemma Expression.History.ordered (h : e.History ds next) :
    (∀ d ∈ ds, e.Matches d.1 ∧ d.1 ≤ d.2 ∧ d.1 < next) ∧
      ds.Pairwise (fun later earlier => earlier.1 < later.1) ∧
      ds.IsChain fun later earlier => later.1 = e.nextAfter earlier.2 := by
  induction ds generalizing next with
  | nil => exact ⟨by simp, .nil, .nil⟩
  | cons d ds ih =>
    obtain ⟨hnext, hle, hrest⟩ := h
    obtain ⟨hall, hpairs, hchain⟩ := ih hrest
    have hlt : d.1 < next := by
      have : d.2 < e.nextAfter d.2 := (e.isLeast d.2).1.1
      omega
    refine ⟨?_, List.pairwise_cons.mpr ⟨fun d' hd' => (hall d' hd').2.2, hpairs⟩, ?_⟩
    · rw [List.forall_mem_cons]
      refine ⟨⟨hrest.matches_, hle, hlt⟩, fun d' hd' => ?_⟩
      obtain ⟨hm, hd, hlt'⟩ := hall d' hd'
      exact ⟨hm, hd, hlt'.trans hlt⟩
    · cases ds with
      | nil => exact .singleton _
      | cons d' ds => exact hchain.cons_cons hrest.1

def Task.Recorded (task : Task) : Prop :=
  task.expression.History task.dispatches task.nextRun ∧
    task.executionCount = task.dispatches.length

lemma Task.Recorded.collect (h : task.Recorded) (now : ℤ) : (task.collect now).Recorded := by
  unfold Task.collect
  split_ifs with hdue
  · simp only [Task.due, Bool.and_eq_true, decide_eq_true_eq] at hdue
    exact ⟨⟨rfl, hdue.2, h.1⟩, congrArg (· + 1) h.2⟩
  · exact h

/-- The invariant: the history of every task is in order, and each of its dispatches was started or
waits in the iteration that collected it. -/
structure Recorded (s : State) : Prop where
  given : ∀ taskId, s.nextTaskId_ ≤ taskId → s.tasks_ taskId = none
  tasks : ∀ taskId task, s.tasks_ taskId = some task → task.Recorded
  starts : ∀ taskId, s.starts taskId + s.toExecute.count taskId = (s.dispatches taskId).length
  reading : ∀ taskId ∈ s.toExecute, (s.dispatches taskId).head?.map Prod.snd = s.reading
  once : s.toExecute.Nodup

/-- Steps that start nothing and leave the collected tasks and all dispatches as they are. -/
lemma Recorded.of_dispatches (h : Recorded s)
    (hgiven : ∀ taskId, s'.nextTaskId_ ≤ taskId → s'.tasks_ taskId = none)
    (htasks : ∀ taskId task, s'.tasks_ taskId = some task → task.Recorded)
    (hdispatches : ∀ taskId, s'.dispatches taskId = s.dispatches taskId)
    (hstarts : ∀ taskId, s'.starts taskId = s.starts taskId)
    (hphase : s'.toExecute = s.toExecute) (hreading : s.toExecute ≠ [] → s'.reading = s.reading) :
    Recorded s' := by
  refine ⟨hgiven, htasks, fun taskId => ?_, fun taskId hmem => ?_, hphase ▸ h.once⟩
  · rw [hdispatches, hstarts, hphase]
    exact h.starts taskId
  · rw [hphase] at hmem
    rw [hdispatches, hreading (List.ne_nil_of_mem hmem)]
    exact h.reading taskId hmem

/-- Entering a task with the dispatches its number has, as `schedule` and `cancel` do. -/
lemma Recorded.put (h : Recorded s) {taskId next : ℕ} {log : List Event} (htask : task.Recorded)
    (hsame : task.dispatches = s.dispatches taskId) (hlt : taskId < next)
    (hnext : s.nextTaskId_ ≤ next) (hlog : ∀ id, log.count (.started id) = s.starts id) :
    Recorded { s with
      tasks_ := update s.tasks_ taskId (some task), nextTaskId_ := next, log := log } := by
  refine h.of_dispatches (fun id hle => ?_) ?_ (fun id => ?_) hlog rfl fun _ => rfl
  · have hle : next ≤ id := hle
    exact (update_of_ne (by omega) _ _).trans (h.given id (hnext.trans hle))
  · refine (forall_update_iff s.tasks_ fun _ x => ∀ task', x = some task' → task'.Recorded).mpr
      ⟨?_, fun id _ => h.tasks id⟩
    rintro _ ⟨⟩
    exact htask
  · unfold State.dispatches
    dsimp only
    by_cases hid : id = taskId
    · rw [hid, update_self]
      exact hsame
    · rw [update_of_ne hid]

lemma Recorded.collect (h : Recorded s) {now : ℤ} (hphase : s.phase = .woken now)
    {toExecute : List ℕ} (hperm : toExecute.Perm ((List.range s.nextTaskId_).filter
      fun taskId => (s.tasks_ taskId).any (Task.due now))) :
    Recorded { s with
      tasks_ := fun taskId => (s.tasks_ taskId).map (Task.collect now)
      phase := .executing now toExecute } := by
  have hnodup : toExecute.Nodup := hperm.nodup_iff.mpr (List.nodup_range.filter _)
  have hmem : ∀ taskId, taskId ∈ toExecute ↔ (s.tasks_ taskId).any (Task.due now) = true := by
    intro taskId
    rw [hperm.mem_iff, List.mem_filter, List.mem_range]
    refine and_iff_right_of_imp fun hdue => not_le.mp fun hle => ?_
    simp [h.given taskId hle] at hdue
  have hold : ∀ taskId, s.starts taskId = (s.dispatches taskId).length := fun taskId => by
    simpa [State.toExecute, hphase] using h.starts taskId
  refine ⟨fun taskId hle => by simp [h.given taskId hle], fun taskId task htask => ?_,
    fun taskId => ?_, fun taskId hin => ?_, hnodup⟩
  · obtain ⟨task₀, htask₀, rfl⟩ := Option.map_eq_some_iff.mp htask
    exact (h.tasks taskId task₀ htask₀).collect now
  · have hcount : toExecute.count taskId = if (s.tasks_ taskId).any (Task.due now) then 1 else 0 := by
      rw [hnodup.count, if_congr (hmem taskId) rfl rfl]
    change s.starts taskId + toExecute.count taskId = _
    rw [hold, hcount]
    cases htask : s.tasks_ taskId with
    | none => simp [State.dispatches, htask]
    | some task => by_cases hdue : task.due now = true <;>
        simp [State.dispatches, htask, Task.collect, hdue]
  · have hdue := (hmem taskId).mp hin
    cases htask : s.tasks_ taskId with
    | none => simp [htask] at hdue
    | some task =>
      have hdue : task.due now = true := by simpa [htask] using hdue
      simp [State.dispatches, State.reading, htask, Task.collect, hdue]

lemma Recorded.execute (h : Recorded s) {now : ℤ} {taskId : ℕ} {rest : List ℕ}
    (hphase : s.phase = .executing now (taskId :: rest)) :
    Recorded { s with phase := .executing now rest, log := .started taskId :: s.log } := by
  have hlist : s.toExecute = taskId :: rest := by rw [State.toExecute, hphase]
  have hreading : s.reading = some now := by rw [State.reading, hphase]
  refine ⟨h.given, h.tasks, fun id => ?_, fun id hin => ?_, (hlist ▸ h.once).of_cons⟩
  · have hstarts := h.starts id
    rw [hlist, List.count_cons, State.starts] at hstarts
    change (Event.started taskId :: s.log).count (.started id) + rest.count id = _
    rw [List.count_cons]
    simp only [beq_iff_eq, Event.started.injEq] at hstarts ⊢
    rw [add_right_comm, add_assoc]
    exact hstarts
  · have hin' := h.reading id (by rw [hlist]; exact List.mem_cons_of_mem _ hin)
    rwa [hreading] at hin'

lemma Recorded.step (h : Recorded s) (hst : step s a = some s') : Recorded s' := by
  cases a with
  | schedule e now =>
    cases hst
    refine h.put ⟨(e.isLeast now).1.2, rfl⟩ ?_ s.nextTaskId_.lt_succ_self s.nextTaskId_.le_succ
      fun _ => rfl
    rw [State.dispatches, h.given _ le_rfl]
    rfl
  | cancel taskId =>
    simp only [CronScheduler.step] at hst
    split at hst <;> cases hst
    · exact h.of_dispatches h.given h.tasks (fun _ => rfl) (fun id => by simp [State.starts]) rfl
        fun _ => rfl
    · rename_i task htask
      have hlt : taskId < s.nextTaskId_ := not_le.mp fun hle => by simp [h.given _ hle] at htask
      refine h.put (h.tasks taskId task htask) ?_ hlt le_rfl fun id => by simp [State.starts]
      rw [State.dispatches, htask]
      rfl
  | wake now =>
    simp only [CronScheduler.step] at hst
    split at hst <;> cases hst
    rename_i hphase
    have hnone : s.toExecute = [] := by rw [State.toExecute, hphase]
    exact h.of_dispatches h.given h.tasks (fun _ => rfl) (fun _ => rfl) hnone.symm
      fun hne => absurd hnone hne
  | collect toExecute =>
    simp only [CronScheduler.step] at hst
    split at hst <;> try cases hst
    rename_i now hphase
    split_ifs at hst with hperm
    cases hst
    exact h.collect hphase hperm
  | execute =>
    simp only [CronScheduler.step] at hst
    split at hst <;> cases hst
    · rename_i now hphase
      have hnone : s.toExecute = [] := by rw [State.toExecute, hphase]
      exact h.of_dispatches h.given h.tasks (fun _ => rfl) (fun _ => rfl) hnone.symm
        fun hne => absurd hnone hne
    · rename_i now taskId rest hphase
      exact h.execute hphase

/-- **What is started, and for which occurrences**, whatever the readings of the clock. The
dispatches of a task, the last one first, are for matching times in strictly increasing order, none
after the reading of its dispatch, each the first after the reading of the dispatch before, and
`executionCount` is their number. Every dispatch is started once: the last of them may still wait to
be, in the iteration whose reading it has, and all others were started. -/
theorem dispatches_ordered (h : system.Reachable s) {taskId : ℕ}
    (htask : s.tasks_ taskId = some task) :
    (∀ d ∈ task.dispatches, task.expression.Matches d.1 ∧ d.1 ≤ d.2) ∧
      task.dispatches.Pairwise (fun later earlier => earlier.1 < later.1) ∧
      task.dispatches.IsChain (fun later earlier =>
        later.1 = task.expression.nextAfter earlier.2) ∧
      task.executionCount = task.dispatches.length ∧
      s.starts taskId + s.toExecute.count taskId = task.dispatches.length ∧
      s.toExecute.Nodup ∧
      (taskId ∈ s.toExecute → task.dispatches.head?.map Prod.snd = s.reading) := by
  have hrec : Recorded s := by
    refine h.invariant ?_ fun _ _ _ hs _ hst => hs.step hst
    rintro _ rfl
    exact ⟨fun _ _ => rfl, by simp [new], fun _ => rfl, by simp [State.toExecute, new], .nil⟩
  have hdispatches : s.dispatches taskId = task.dispatches := by rw [State.dispatches, htask]; rfl
  obtain ⟨hall, hpairs, hchain⟩ := (hrec.tasks taskId task htask).1.ordered
  rw [← hdispatches, ← hrec.starts taskId, hdispatches]
  refine ⟨fun d hd => ⟨(hall d hd).1, (hall d hd).2.1⟩, hpairs, hchain, ?_, rfl, hrec.once,
    fun hin => hdispatches ▸ hrec.reading taskId hin⟩
  rw [(hrec.tasks taskId task htask).2, hrec.starts, hdispatches]

end Dispatches

def everyMinute : Expression where
  Matches u := u % 60 = 0
  nextAfter t := (t / 60 + 1) * 60
  isLeast t := by
    refine ⟨⟨by omega, by omega⟩, ?_⟩
    rintro u ⟨hlt, hmod⟩
    omega

/-- A clock that goes back between two dispatches, after three occurrences were merged. -/
theorem dispatches_ordered_merged : ∃ s task, system.Reachable s ∧ s.tasks_ 1 = some task ∧
    task.dispatches = [(240, 250), (60, 200)] ∧ task.executionCount = 2 ∧ s.starts 1 = 1 ∧
    s.toExecute = [2, 1] ∧
    task.dispatches.Pairwise (fun later earlier => earlier.1 < later.1) := by
  have hs : system.Reachable _ := .final new
      [.schedule everyMinute 0, .wake 200, .collect [1], .execute, .execute, .wake 30, .collect [],
        .execute, .schedule everyMinute 100, .wake 250, .collect [2, 1]] rfl
      (by decide)
  exact ⟨_, _, hs, rfl, by decide, by decide, by decide, rfl,
    (@dispatches_ordered _ _ hs 1 rfl).2.1⟩

/-! ### Cancelling -/

/-- **A task is cancelled once, and not between collection and execution.** -/
def CancelsOnce (s : State) : Act → Prop
  | .cancel taskId =>
    taskId ∉ s.toExecute ∧ ∀ task, s.tasks_ taskId = some task → task.active = true
  | _ => True

def State.Cancelled (s : State) (taskId : ℕ) : Prop :=
  ∃ deactivated, .cancelled taskId deactivated true ∈ s.log

/-- After `cancel` has answered `true`, the task does not start, and no other call does. -/
def Event.Allows (later earlier : Event) : Prop :=
  ∀ taskId deactivated, earlier = .cancelled taskId deactivated true →
    later ≠ .started taskId ∧ ∀ again, later ≠ .cancelled taskId again true

/-- The invariant: a cancelled task is inactive and waits for no execution. -/
structure Final (s : State) : Prop where
  given : ∀ taskId, s.nextTaskId_ ≤ taskId → s.tasks_ taskId = none
  answers : ∀ taskId deactivated answer,
    .cancelled taskId deactivated answer ∈ s.log → answer = deactivated
  ordered : s.log.Pairwise Event.Allows
  inactive : ∀ taskId, s.Cancelled taskId → taskId ∉ s.toExecute ∧
    ∃ task, s.tasks_ taskId = some task ∧ task.active = false

section Cancelling

variable {s s' : State} {a : Act}

lemma Final.of_inactive (h : Final s) (hlog : s'.log = s.log)
    (hgiven : ∀ taskId, s'.nextTaskId_ ≤ taskId → s'.tasks_ taskId = none)
    (htasks : ∀ taskId task, s.tasks_ taskId = some task → task.active = false →
      taskId ∉ s.toExecute → taskId ∉ s'.toExecute ∧ s'.tasks_ taskId = some task) : Final s' := by
  refine ⟨hgiven, hlog ▸ h.answers, hlog ▸ h.ordered, fun taskId hc => ?_⟩
  obtain ⟨hnot, task, htask, hactive⟩ := h.inactive taskId (by rwa [State.Cancelled, ← hlog])
  obtain ⟨hnot', htask'⟩ := htasks taskId task htask hactive hnot
  exact ⟨hnot', task, htask', hactive⟩

lemma Final.step (h : Final s) (hok : CancelsOnce s a) (hst : step s a = some s') : Final s' := by
  cases a with
  | schedule e now =>
    cases hst
    have hne : ∀ taskId, s.tasks_ taskId ≠ none → taskId ≠ s.nextTaskId_ := by
      rintro _ hsome rfl
      exact hsome (h.given _ le_rfl)
    refine h.of_inactive rfl (fun taskId hle => ?_) fun taskId task htask _ hnot => ⟨hnot, ?_⟩
    · have hlt : s.nextTaskId_ < taskId := hle
      exact (update_of_ne hlt.ne' _ _).trans (h.given taskId hlt.le)
    · exact (update_of_ne (hne taskId (by simp [htask])) _ _).trans htask
  | cancel taskId =>
    simp only [CronScheduler.step] at hst
    split at hst <;> cases hst
    case h_1 =>
      refine ⟨h.given, fun id d r hmem => ?_, List.pairwise_cons.mpr ⟨?_, h.ordered⟩, ?_⟩
      · rcases List.mem_cons.mp hmem with heq | hmem
        · cases heq
          rfl
        · exact h.answers id d r hmem
      · rintro e he id d rfl
        exact ⟨by simp, by simp⟩
      · rintro id ⟨d, hmem⟩
        exact h.inactive id ⟨d, (List.mem_cons.mp hmem).resolve_left (by simp)⟩
    case h_2 task htask =>
      obtain ⟨hpending, hactive⟩ := hok
      have hold : ∀ d, Event.cancelled taskId d true ∉ s.log := by
        intro d hmem
        obtain ⟨-, task', htask', hinactive⟩ := h.inactive taskId ⟨d, hmem⟩
        simp [hactive task' htask'] at hinactive
      refine ⟨fun id hle => ?_, fun id d r hmem => ?_, List.pairwise_cons.mpr ⟨?_, h.ordered⟩, ?_⟩
      · have hne : id ≠ taskId := by
          rintro rfl
          simp [h.given _ hle] at htask
        exact (update_of_ne hne _ _).trans (h.given id hle)
      · rcases List.mem_cons.mp hmem with heq | hmem
        · cases heq
          exact (hactive task htask).symm
        · exact h.answers id d r hmem
      · rintro e he id d rfl
        refine ⟨by simp, fun again heq => ?_⟩
        cases heq
        exact hold d he
      · rintro id ⟨d, hmem⟩
        by_cases hid : id = taskId
        · subst hid
          exact ⟨hpending, _, update_self .., rfl⟩
        · have hmem : Event.cancelled id d true ∈ s.log :=
            (List.mem_cons.mp hmem).resolve_left (by simp [hid])
          obtain ⟨hnot, task', htask', hinactive⟩ := h.inactive id ⟨d, hmem⟩
          exact ⟨hnot, task', (update_of_ne hid _ _).trans htask', hinactive⟩
  | wake now =>
    simp only [CronScheduler.step] at hst
    split at hst <;> cases hst
    exact h.of_inactive rfl h.given fun taskId task htask _ _ => ⟨by simp [State.toExecute], htask⟩
  | collect toExecute =>
    simp only [CronScheduler.step] at hst
    split at hst <;> try cases hst
    split_ifs at hst with hperm
    cases hst
    refine h.of_inactive rfl (fun taskId hle => ?_) fun taskId task htask hactive _ => ⟨?_, ?_⟩
    · simp [h.given taskId hle]
    · simp [State.toExecute, hperm.mem_iff, htask, Task.due, hactive]
    · simp [htask, Task.collect, Task.due, hactive]
  | execute =>
    simp only [CronScheduler.step] at hst
    split at hst <;> cases hst
    case h_1 =>
      exact h.of_inactive rfl h.given fun taskId task htask _ _ =>
        ⟨by simp [State.toExecute], htask⟩
    case h_2 now taskId rest hphase =>
      refine ⟨h.given, fun id d r hmem => ?_, List.pairwise_cons.mpr ⟨?_, h.ordered⟩, ?_⟩
      · exact h.answers id d r ((List.mem_cons.mp hmem).resolve_left (by simp))
      · rintro e he id d rfl
        refine ⟨fun heq => ?_, by simp⟩
        cases heq
        exact (h.inactive taskId ⟨d, he⟩).1 (by simp [State.toExecute, hphase])
      · rintro id ⟨d, hmem⟩
        obtain ⟨hnot, htask⟩ := h.inactive id ⟨d, (List.mem_cons.mp hmem).resolve_left (by simp)⟩
        exact ⟨fun hin => hnot (by rw [State.toExecute, hphase]; exact List.mem_cons_of_mem _ hin),
          htask⟩

/-- **Cancelling once is final**: in every run in which a task is cancelled at most once, and not
between its collection and its execution, a call of `cancel` answers `true` exactly when it
deactivates the task, and after that no execution of the task starts and no other call answers
`true`. -/
theorem cancel_final (h : system.ReachableWithin CancelsOnce s) :
    (∀ taskId deactivated answer, .cancelled taskId deactivated answer ∈ s.log →
      answer = deactivated) ∧ s.log.Pairwise Event.Allows := by
  have hinv : Final s := by
    refine h.invariant ?_ fun _ _ _ hs hok hst => hs.step hok hst
    rintro _ rfl
    exact ⟨fun _ _ => rfl, by simp [new], .nil, by simp [State.Cancelled, new]⟩
  exact ⟨hinv.answers, hinv.ordered⟩

end Cancelling

/-- A task is cancelled after it was executed. -/
theorem cancel_final_executed : ∃ s, system.ReachableWithin CancelsOnce s ∧
    s.log = [.cancelled 1 true true, .started 1] ∧ s.log.Pairwise Event.Allows := by
  have hs : system.ReachableWithin CancelsOnce _ :=
    .final new [.schedule everyMinute 0, .wake 60, .collect [1], .execute, .cancel 1] rfl
      (by exact ⟨trivial, trivial, trivial, trivial,
        ⟨by simp [State.toExecute], by rintro _ ⟨⟩; rfl⟩, trivial⟩)
  exact ⟨_, hs, rfl, (cancel_final hs).2⟩

/-- **A second call answers `true` too**, and **a task that was collected is executed after it has
been cancelled.** -/
theorem cancel_not_final :
    (∃ s, system.Reachable s ∧ s.log = [.cancelled 1 false true, .cancelled 1 true true]) ∧
    ∃ s, system.Reachable s ∧ s.log = [.started 1, .cancelled 1 true true] := by
  constructor
  · exact TransitionSystem.reached_by new [.schedule everyMinute 0, .cancel 1, .cancel 1] rfl
      ⟨trivial, trivial, trivial, rfl⟩
  · exact TransitionSystem.reached_by new
      [.schedule everyMinute 0, .wake 60, .collect [1], .cancel 1, .execute] rfl
      ⟨trivial, trivial, trivial, trivial, trivial, rfl⟩

end Pman.CronScheduler
