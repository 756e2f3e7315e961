import Pman.Lib.LockProgram
import Pman.Timer.Wheel

set_option autoImplicit false

/-!
# The timer wheel and the periodic scheduler as programs with locks

Every public operation of `TimerWheel` and of the `PeriodicScheduler` above it, and the code of
their threads, as programs that lock the two mutexes where the code does. Each access to an atomic
variable and each region that only works on data under a lock is one access here.

Timer callbacks are the scheduler's `executeTask` or user code, tasks are user code, and
`request_stop` runs the stop callbacks that tasks have registered: there foreign code may call
operations again.
-/

namespace Pman.Scheduler

open LockProgram Pman.TimerWheel

inductive Mutex
  | wheel
  | scheduler
deriving DecidableEq, Repr

instance : Fintype Mutex := ⟨{.wheel, .scheduler}, fun m => by cases m <;> simp⟩

inductive Callback
  | user
  | executeTask (taskId : ℕ)
deriving DecidableEq, Repr

structure TaskConfig where
  name : String
  period : ℤ
  initialDelay : ℤ := 0
  fixedRate : Bool := false
  catchUp : Bool := false
  maxConcurrent : ℤ := 1

/-- `PeriodicScheduler::TaskState`; the task itself is user code. -/
structure TaskState where
  config : TaskConfig
  stopRequested : Bool := false
  timerId : ℕ := 0
  active : Bool := true
  paused : Bool := false
  runningCount : ℤ := 0
  executionCount : ℕ := 0
  lastExecution : ℤ := 0
  nextScheduled : ℤ := 0
  totalExecutionTime : ℤ := 0

structure TaskStatus where
  id : ℕ
  name : String
  active : Bool
  paused : Bool
  executionCount : ℕ
  lastExecution : ℤ
  nextScheduled : ℤ
  averageExecutionTime : ℤ

/-- The data of a scheduler and its wheel; `jobs` are the task executions submitted to the
workers. -/
structure Memory where
  wheel : Wheel Callback
  tasks_ : List (ℕ × TaskState)
  nextTaskId_ : ℕ
  running_ : Bool
  jobs : List ℕ

namespace Memory

def find (m : Memory) (taskId : ℕ) : Option TaskState := m.tasks_.lookup taskId

/-- Change the state of a task, which all holders of the pointer share. -/
def modifyTask (m : Memory) (taskId : ℕ) (f : TaskState → TaskState) : Memory :=
  { m with tasks_ := m.tasks_.map fun e => if e.1 = taskId then (e.1, f e.2) else e }

def runnable (m : Memory) (taskId : ℕ) : Bool :=
  match m.find taskId with
  | some state => state.active && !state.paused
  | none => false

end Memory

inductive Site
  | access
  /-- `TimerWheel::schedule` and `schedulePeriodic` test `running_` -/
  | wheelRunning
  /-- `resume` has found a paused task and tests `running_` -/
  | resumeRunning
  | startTask (taskId : ℕ)
  | userCode
  | stopCallback
deriving DecidableEq, Repr

/-- Programs over the two mutexes; the input of an access is a reading of the clock. -/
abbrev Code := Prog Mutex Memory ℤ Site

def write (f : ℤ → Memory → Memory) (k : Code) : Code := .act .access f fun _ _ => k

def read (k : ℤ → Memory → Code) : Code := .act .access (fun _ m => m) k

def writeWheel (f : ℤ → Wheel Callback → Wheel Callback) (k : Code) : Code :=
  write (fun now m => { m with wheel := f now m.wheel }) k

/-! ### `TimerWheel` -/

namespace TimerWheel

def timeUntilNextExpiry (k : ℤ → Code) : Code :=
  .lock .wheel <| read fun now m => .unlock .wheel <| k (m.wheel.timeUntilNextExpiry now)

def armTimerFd (k : Code) : Code :=
  timeUntilNextExpiry fun nextExpiry =>
    writeWheel (fun _ d => { d with timerFd_ := Wheel.armTime d.config_ nextExpiry }) k

/-- The common part of `schedule` and `schedulePeriodic`: number the entry, insert it under the
lock and, still under the lock, arm the descriptor if the wheel is running. -/
def enqueue (delay period : ℤ) (callback : Callback) (k : ℕ → Code) : Code :=
  .act .access (fun _ m => { m with wheel := { m.wheel with nextId_ := m.wheel.nextId_ + 1 } })
    fun now m =>
      let entry : Entry Callback := ⟨m.wheel.nextId_, now + delay, period, callback, false⟩
      .lock .wheel <|
      writeWheel (fun now d => { d.insert now entry with activeCount_ := d.activeCount_ + 1 }) <|
      .act .wheelRunning (fun _ m => m) fun _ m =>
        if m.wheel.running_ then armTimerFd <| .unlock .wheel <| k entry.id
        else .unlock .wheel <| k entry.id

def schedule (delay : ℤ) (callback : Option Callback) (throw_ : String → Code) (k : ℕ → Code) :
    Code :=
  match callback with
  | none => throw_ "Timer callback cannot be null"
  | some callback => enqueue delay 0 callback k

def schedulePeriodic (period : ℤ) (callback : Option Callback) (throw_ : String → Code)
    (k : ℕ → Code) : Code :=
  match callback with
  | none => throw_ "Timer callback cannot be null"
  | some callback =>
    if period ≤ 0 then throw_ "Period must be positive" else enqueue period period callback k

def cancel (timerId : ℕ) (k : Bool → Code) : Code :=
  .lock .wheel <|
  .act .access (fun _ m => { m with wheel := (m.wheel.cancel timerId).1 }) fun _ m =>
    .unlock .wheel <| k (m.wheel.cancel timerId).2

def advance (elapsed : ℤ) (k : Code) : Code :=
  .lock .wheel <| writeWheel (fun now d => d.advance now elapsed) <| .unlock .wheel k

def tick (k : Code) : Code := read fun _ m => advance m.wheel.config_.tickDuration k

def release (k : Code) : Code :=
  writeWheel (fun _ d => { d with activeCount_ := d.activeCount_ - 1 }) k

/-- The loop of `processExpired` over the expired entries; `run` is what a callback does. -/
def runExpired (run : Callback → Code → Code) (k : Code) : List (Entry Callback) → Code
  | [] => k
  | entry :: rest =>
    if entry.cancelled then release <| runExpired run k rest
    else
      run entry.callback <|
      if 0 < entry.period ∧ entry.cancelled = false then
        read fun now _ =>
          .lock .wheel <|
          writeWheel (fun now' d => d.insert now' { entry with expiry := now + entry.period }) <|
          .unlock .wheel <| runExpired run k rest
      else release <| runExpired run k rest

def processExpired (run : Callback → Code → Code) (k : ℕ → Code) : Code :=
  read fun now _ =>
    .lock .wheel <|
    .act .access (fun _ m => { m with wheel := (m.wheel.takeExpired now).1 }) fun _ m =>
      .unlock .wheel <|
      runExpired run (k (m.wheel.takeExpired now).2.length) (m.wheel.takeExpired now).2

def activeTimers (k : ℤ → Code) : Code := read fun _ m => k m.wheel.activeCount_

def pendingExpirations (k : ℕ → Code) : Code :=
  .lock .wheel <| read fun now m => .unlock .wheel <| k (m.wheel.pendingExpirations now)

def start (k : Code) : Code :=
  read fun _ m =>
    if m.wheel.running_ then k
    else
      writeWheel (fun _ d => { d with running_ := true }) <|
      armTimerFd <|
      writeWheel (fun _ d => { d with timerThread_ := true }) k

/-- The wait for the thread to end is left out: it takes no mutex. -/
def stop (k : Code) : Code :=
  writeWheel (fun _ d => { d with running_ := false }) <|
  writeWheel (fun _ d => { d with timerThread_ := false }) k

def timerThread (run : Callback → Code → Code) (k : Code) : Code :=
  read fun _ m =>
    if m.wheel.running_ then tick <| processExpired run fun _ => armTimerFd k else k

end TimerWheel

/-! ### `PeriodicScheduler` -/

def nextDelay (state : TaskState) (isFirst : Bool) (now : ℤ) : ℤ :=
  if isFirst then state.config.initialDelay
  else if state.config.fixedRate then
    let nextTarget := state.nextScheduled + state.config.period
    if now < nextTarget then nextTarget - now else 0
  else state.config.period

/-- Look a task up under the lock; `missing` is the way out when there is none. -/
def lookup (taskId : ℕ) (missing found : Code) : Code :=
  .lock .scheduler <|
  read fun _ m =>
    .unlock .scheduler <| if (m.find taskId).isSome then found else missing

def scheduleNext (taskId : ℕ) (isFirst : Bool) (k : Code) : Code :=
  lookup taskId k <|
  read fun now m =>
    match m.find taskId with
    | none => k
    | some state =>
      if !state.active || state.paused then k
      else
        let delay := nextDelay state isFirst now
        write (fun now m => m.modifyTask taskId fun s => { s with nextScheduled := now + delay }) <|
        TimerWheel.schedule delay (some (.executeTask taskId)) (fun _ => k) fun timerId =>
          write (fun _ m => m.modifyTask taskId fun s => { s with timerId := timerId }) k

def executeTask (taskId : ℕ) (k : Code) : Code :=
  lookup taskId k <|
  read fun _ m =>
    match m.find taskId with
    | none => k
    | some state =>
      if !state.active || state.paused then k
      else
        read fun _ m =>
          let running := ((m.find taskId).map TaskState.runningCount).getD 0
          if state.config.maxConcurrent ≤ running ∧ state.config.catchUp = false then
            scheduleNext taskId false k
          else
            write (fun _ m => m.modifyTask taskId fun s =>
              { s with runningCount := s.runningCount + 1 }) <|
            write (fun _ m => { m with jobs := m.jobs ++ [taskId] }) k

def run : Callback → Code → Code
  | .user, k => .callout .userCode k
  | .executeTask taskId, k => executeTask taskId k

def job (taskId : ℕ) (k : Code) : Code :=
  read fun startTime _ =>
    .callout .userCode <|
    read fun endTime _ =>
      write (fun _ m => m.modifyTask taskId fun s =>
        { s with runningCount := s.runningCount - 1 }) <|
      .lock .scheduler <|
      write (fun _ m => m.modifyTask taskId fun s =>
        { s with
          executionCount := s.executionCount + 1
          lastExecution := startTime
          totalExecutionTime := s.totalExecutionTime + (endTime - startTime) }) <|
      .unlock .scheduler <|
      read fun _ m =>
        if m.running_ && m.runnable taskId then scheduleNext taskId false k else k

def worker (k : Code) : Code :=
  .act .access (fun _ m => { m with jobs := m.jobs.tail }) fun _ m =>
    match m.jobs with
    | [] => k
    | taskId :: _ => job taskId k

def register (config : TaskConfig) (k : ℕ → Code) : Code :=
  .act .access (fun _ m => { m with nextTaskId_ := m.nextTaskId_ + 1 }) fun _ m =>
    let taskId := m.nextTaskId_
    .lock .scheduler <|
    write (fun _ m => { m with tasks_ := m.tasks_ ++ [(taskId, { config := config })] }) <|
    .unlock .scheduler <|
    read fun _ m => if m.running_ then scheduleNext taskId true (k taskId) else k taskId

/-- `schedule` for a plain task; `task` says whether the function is set. -/
def schedule (config : TaskConfig) (task : Bool) (throw_ : String → Code) (k : ℕ → Code) : Code :=
  if !task then throw_ "Task cannot be null"
  else if config.period ≤ 0 then throw_ "Period must be positive"
  else register config k

/-- `schedule` for a task with a stop token, which does not check the period. -/
def scheduleStoppable (config : TaskConfig) (task : Bool) (throw_ : String → Code)
    (k : ℕ → Code) : Code :=
  if !task then throw_ "Task cannot be null" else register config k

/-- `request_stop` and the cancellation of the task's timer, under the lock. -/
def stopTask (taskId : ℕ) (k : Code) : Code :=
  write (fun _ m => m.modifyTask taskId fun s => { s with stopRequested := true }) <|
  .callout .stopCallback <|
  read fun _ m =>
    match m.find taskId with
    | none => k
    | some state => if state.timerId ≠ 0 then TimerWheel.cancel state.timerId fun _ => k else k

def cancel (taskId : ℕ) (k : Bool → Code) : Code :=
  .lock .scheduler <|
  read fun _ m =>
    if (m.find taskId).isSome then
      write (fun _ m => m.modifyTask taskId fun s => { s with active := false }) <|
      stopTask taskId <| .unlock .scheduler <| k true
    else .unlock .scheduler <| k false

def pause (taskId : ℕ) (k : Code) : Code :=
  .lock .scheduler <|
  write (fun _ m => m.modifyTask taskId fun s => { s with paused := true }) <|
  .unlock .scheduler k

def resume (taskId : ℕ) (k : Code) : Code :=
  .lock .scheduler <|
  read fun _ m =>
    match m.find taskId with
    | none => .unlock .scheduler k
    | some state =>
      if state.paused then
        write (fun _ m => m.modifyTask taskId fun s => { s with paused := false }) <|
        .act .resumeRunning (fun _ m => m) fun _ m =>
          if m.running_ then scheduleNext taskId false <| .unlock .scheduler k
          else .unlock .scheduler k
      else .unlock .scheduler k

def startTasks (k : Code) : List ℕ → Code
  | [] => .unlock .scheduler k
  | taskId :: rest =>
    .act (.startTask taskId) (fun _ m => m) fun _ m =>
      if m.runnable taskId then scheduleNext taskId true (startTasks k rest)
      else startTasks k rest

def start (k : Code) : Code :=
  read fun _ m =>
    if m.running_ then k
    else
      write (fun _ m => { m with running_ := true }) <|
      TimerWheel.start <|
      .lock .scheduler <| read fun _ m => startTasks k (m.tasks_.map Prod.fst)

def stopTasks (k : Code) : List ℕ → Code
  | [] => .unlock .scheduler k
  | taskId :: rest => stopTask taskId (stopTasks k rest)

def stopAll (finish : Code) : Code :=
  write (fun _ m => { m with running_ := false }) <|
  .lock .scheduler <| read fun _ m => stopTasks finish (m.tasks_.map Prod.fst)

def stop (k : Code) : Code := stopAll <| TimerWheel.stop k

/-- Before it stops the wheel it waits for the workers to be idle, which takes neither mutex. -/
def stopGracefully (k : Code) : Code := stopAll <| read fun _ _ => TimerWheel.stop k

def taskStatus (taskId : ℕ) (state : TaskState) : TaskStatus where
  id := taskId
  name := state.config.name
  active := state.active
  paused := state.paused
  executionCount := state.executionCount
  lastExecution := state.lastExecution
  nextScheduled := state.nextScheduled
  averageExecutionTime :=
    if 0 < state.executionCount then state.totalExecutionTime.tdiv state.executionCount else 0

def status (k : List TaskStatus → Code) : Code :=
  .lock .scheduler <| read fun _ m =>
    .unlock .scheduler <| k (m.tasks_.map fun e => taskStatus e.1 e.2)

def statusOf (taskId : ℕ) (throw_ : String → Code) (k : TaskStatus → Code) : Code :=
  .lock .scheduler <|
  read fun _ m =>
    .unlock .scheduler <|
    match m.find taskId with
    | none => throw_ "Unknown task ID"
    | some state => k (taskStatus taskId state)

/-- The destructor: it stops a running scheduler, and the wheel's destructor stops the wheel. -/
def destroy (k : Code) : Code :=
  read fun _ m => if m.running_ then stop (TimerWheel.stop k) else TimerWheel.stop k

inductive Op
  | wheelSchedule (delay : ℤ) (callback : Option Callback)
  | wheelSchedulePeriodic (period : ℤ) (callback : Option Callback)
  | wheelCancel (timerId : ℕ)
  | wheelTick
  | wheelAdvance (elapsed : ℤ)
  | wheelProcessExpired
  | wheelTimeUntilNextExpiry
  | wheelActiveTimers
  | wheelPendingExpirations
  | wheelStart
  | wheelStop
  | timerThread
  | schedule (config : TaskConfig) (task : Bool)
  | scheduleStoppable (config : TaskConfig) (task : Bool)
  | cancel (taskId : ℕ)
  | pause (taskId : ℕ)
  | resume (taskId : ℕ)
  | start
  | stop
  | stopGracefully
  | status
  | statusOf (taskId : ℕ)
  | destroy
  | worker

/-- The program of an operation; its answer goes to the caller. -/
def program : Op → Code
  | .wheelSchedule delay callback =>
    TimerWheel.schedule delay callback (fun _ => .done) fun _ => .done
  | .wheelSchedulePeriodic period callback =>
    TimerWheel.schedulePeriodic period callback (fun _ => .done) fun _ => .done
  | .wheelCancel timerId => TimerWheel.cancel timerId fun _ => .done
  | .wheelTick => TimerWheel.tick .done
  | .wheelAdvance elapsed => TimerWheel.advance elapsed .done
  | .wheelProcessExpired => TimerWheel.processExpired run fun _ => .done
  | .wheelTimeUntilNextExpiry => TimerWheel.timeUntilNextExpiry fun _ => .done
  | .wheelActiveTimers => TimerWheel.activeTimers fun _ => .done
  | .wheelPendingExpirations => TimerWheel.pendingExpirations fun _ => .done
  | .wheelStart => TimerWheel.start .done
  | .wheelStop => TimerWheel.stop .done
  | .timerThread => TimerWheel.timerThread run .done
  | .schedule config task => schedule config task (fun _ => .done) fun _ => .done
  | .scheduleStoppable config task =>
    scheduleStoppable config task (fun _ => .done) fun _ => .done
  | .cancel taskId => cancel taskId fun _ => .done
  | .pause taskId => pause taskId .done
  | .resume taskId => resume taskId .done
  | .start => start .done
  | .stop => stop .done
  | .stopGracefully => stopGracefully .done
  | .status => status fun _ => .done
  | .statusOf taskId => statusOf taskId (fun _ => .done) fun _ => .done
  | .destroy => destroy .done
  | .worker => worker .done

/-- A new scheduler above a new wheel of any valid configuration. -/
def Fresh (m : Memory) : Prop :=
  ∃ config now, Wheel.create config now true = .ok m.wheel ∧ m.tasks_ = [] ∧
    m.nextTaskId_ = 1 ∧ m.running_ = false ∧ m.jobs = []

/-- Any number of threads that run the operations in any interleaving. -/
def system (ι : Type*) [DecidableEq ι] :
    TransitionSystem (LockProgram.Config Mutex Memory ℤ Site ι) (ι × Choice ℤ Op) :=
  LockProgram.system ι program Fresh

end Pman.Scheduler
