import Mathlib.Data.Rat.Defs
import Pman.Lib.LockProgram
import Pman.Process.Handle

set_option autoImplicit false

/-!
# The process supervisor as programs with a lock

`ProcessSupervisor` keeps a table of named processes under `mutex_`, launches a child for each of
them and restarts the children that exit. Its thread collects exited children with a `waitpid` for
any child, outside of `mutex_`, and looks up under `mutex_` which process a child belonged to.

The operations are programs that lock `mutex_` where the code does. Each system call, each access to
the atomic `running_` and each piece of work under the lock between them is one access; its input is
what the environment decides: the clock, the number of a new child, the outcome of a system call.
Callbacks are the points where foreign code runs.

Loops that depend on the clock or on the children make a number of turns that is given with the
operation. A call made when it would block ends its program: the runs in which it comes back are
those in which it takes the step later.
-/

namespace Pman.ProcessSupervisor

open LockProgram Process

/-! ### Data -/

inductive RestartPolicy
  | never
  | always
  | onFailure
  | onSuccess
deriving DecidableEq, Repr

inductive BackoffStrategy
  | exponential
  | linear
  | custom
deriving DecidableEq, Repr

structure RestartConfig where
  policy : RestartPolicy := .onFailure
  backoffStrategy : BackoffStrategy := .exponential
  minRestartDelay : ℤ := 1000000000
  maxRestartDelay : ℤ := 300000000000
  backoffMultiplier : ℚ := 2
  linearIncrement : ℤ := 1000000000
  customBackoff : Option (ℤ → ℤ) := none
  maxRestarts : ℤ := -1
  maxRestartWindow : ℤ := 3600000000000
  maxRestartsInWindow : ℤ := 10

/-- `SupervisedProcess`; of the callbacks only whether they are set. -/
structure SupervisedProcess where
  name : String
  restart : RestartConfig := {}
  onExit : Bool := false
  onRestart : Bool := false

structure ProcessStatus where
  name : String
  pid : ℤ := -1
  running : Bool := false
  lastExitStatus : ℕ := 0
  restartCount : ℤ := 0
  lastStartTime : ℤ := 0
  lastExitTime : ℤ := 0
  nextRestartDelay : ℤ := 0

structure ProcessState where
  spec : SupervisedProcess
  handle : Option ProcessHandle := none
  status : ProcessStatus
  restartTimes : List ℤ := []
  pendingRestart : Bool := false
  scheduledRestartTime : ℤ := 0

inductive Error
  | system (errno : Process.Errno) (context : String)
  | runtime (message : String)
  | logic (message : String)
deriving DecidableEq, Repr

/-- How far a thread that `start` has created has come; `join` throws what has ended it. -/
inductive LoopState
  | created
  | running
  | finished (error : Option Error)
deriving DecidableEq, Repr

/-- The supervisor, the exceptions its operations have thrown, and the children. -/
structure Memory where
  processes_ : List (String × ProcessState)
  pidToName_ : List (ℤ × String)
  running_ : Bool
  signalFd_ : Bool
  /-- The thread that is left to join, among all that were created. -/
  supervisorThread_ : Option ℕ
  loops : List LoopState
  exitCallback_ : Bool
  startCallback_ : Bool
  thrown : List Error
  kernel : Kernel

namespace Memory

def find (m : Memory) (name : String) : Option ProcessState := m.processes_.lookup name

def modifyProcess (m : Memory) (name : String) (f : ProcessState → ProcessState) : Memory :=
  { m with processes_ := m.processes_.map fun e => if e.1 = name then (e.1, f e.2) else e }

def validHandle (m : Memory) (name : String) : Option ProcessHandle :=
  ((m.find name).bind ProcessState.handle).filter ProcessHandle.valid

def erasePid (m : Memory) (pid : ℤ) : Memory :=
  { m with pidToName_ := m.pidToName_.filter fun e => e.1 != pid }

end Memory

/-- How a launch ends: with a child, without one, or with a child that the exception leaves
behind. -/
inductive LaunchResult
  | ok
  | failed
  | orphaned
deriving DecidableEq, Repr

inductive PollResult
  | readable
  | timeout
  | interrupted
  | failed
deriving DecidableEq, Repr

structure Input where
  now : ℤ := 0
  /-- the number of a new child, or of the child to collect -/
  pid : ℤ := 0
  pidfd : Bool := false
  launch : LaunchResult := .ok
  errno : Option Process.Errno := none
  poll : PollResult := .timeout

inductive Mutex
  | supervisor
deriving DecidableEq, Repr

instance : Fintype Mutex := ⟨{.supervisor}, fun m => by cases m; simp⟩

inductive Site
  | access
  | signal (name : String)
  | waitpid (name : String)
  | callback
deriving DecidableEq, Repr

abbrev Code := Prog Mutex Memory Input Site

def write (f : Input → Memory → Memory) (k : Code) : Code := .act .access f fun _ _ => k

def read (k : Input → Memory → Code) : Code := .act .access (fun _ m => m) k

def update (name : String) (f : Input → ProcessState → ProcessState) (k : Code) : Code :=
  write (fun input m => m.modifyProcess name (f input)) k

def raise (e : Error) : Code := write (fun _ m => { m with thrown := m.thrown ++ [e] }) .done

def unlockRaise (e : Error) : Code := .unlock .supervisor <| raise e

def blocked : Code := .done

/-- `catch` of a `system_error` that is thrown on unless it is `ESRCH`. -/
def ignoreEsrch (throw_ : Error → Code) (k : Code) : Error → Code
  | .system .esrch _ => k
  | e => throw_ e

/-! ### `ProcessHandle` -/

def sendSignal (name : String) (signal : Signal) (throw_ : Error → Code) (k : Code) : Code :=
  .act (.signal name)
    (fun _ m =>
      match m.validHandle name with
      | none => m
      | some h => { m with kernel := m.kernel.signal signal h.pid_ h.launch })
    fun input m =>
      match m.validHandle name with
      | none => throw_ (.logic "ProcessHandle is not valid")
      | some h =>
        match m.kernel.signalError h.pid_ input.errno with
        | none => k
        | some errno => throw_ (.system errno "kill")

def terminate (name : String) (throw_ : Error → Code) (k : Code) : Code :=
  sendSignal name .term throw_ k

def kill (name : String) (throw_ : Error → Code) (k : Code) : Code :=
  sendSignal name .kill throw_ k

/-- `waitpid` through the handle of a process: a child that has exited is reaped, and the handle
forgets it. -/
def Memory.waitpid (m : Memory) (name : String) : Memory :=
  match m.validHandle name with
  | none => m
  | some h =>
    match m.kernel.waitpid h.pid_ with
    | .exited child _ =>
      { m with kernel := m.kernel.reap child .handle }.modifyProcess name fun s =>
        { s with handle := s.handle.map ProcessHandle.forget }
    | .running | .noChild => m

/-- `wait` of the handle of a process. When it comes back while the child runs, a signal has
interrupted it. -/
def wait (name : String) (throw_ : Error → Code) (k : ℕ → Code) : Code :=
  .act (.waitpid name) (fun _ m => m.waitpid name) fun _ m =>
    match m.validHandle name with
    | none => throw_ (.logic "ProcessHandle is not valid")
    | some h =>
      match m.kernel.waitpid h.pid_ with
      | .exited _ status => k status
      | .running => throw_ (.system .eintr "waitpid")
      | .noChild => throw_ (.system .echild "waitpid")

def tryWait (name : String) (throw_ : Error → Code) (k : Option ℕ → Code) : Code :=
  .act (.waitpid name) (fun _ m => m.waitpid name) fun _ m =>
    match m.validHandle name with
    | none => k none
    | some h =>
      match m.kernel.waitpid h.pid_ with
      | .exited _ status => k (some status)
      | .running => k none
      | .noChild => throw_ (.system .echild "waitpid")

def waitForLoop (name : String) (throw_ : Error → Code) (k : Option ℕ → Code) : ℕ → Code
  | 0 => k none
  | turns + 1 =>
    tryWait name throw_ fun
      | some status => k (some status)
      | none => waitForLoop name throw_ k turns

/-- `waitFor` of the handle of a process; the clock reaches the deadline after some turns. -/
def waitFor (name : String) (turns : ℕ) (throw_ : Error → Code) (k : Option ℕ → Code) : Code :=
  read fun input m =>
    match m.validHandle name with
    | none => k none
    | some h =>
      if h.pidfd_ then
        if input.poll = .readable ∧ m.kernel.hasExited h.launch = true then
          wait name throw_ fun status => k (some status)
        else k none
      else waitForLoop name throw_ k turns

/-! ### Launching -/

def ProcessState.started (s : ProcessState) (handle : ProcessHandle) (now : ℤ) : ProcessState :=
  { s with
    handle := some handle
    status.pid := handle.pid_
    status.running := true
    status.lastStartTime := now }

def ProcessState.stopped (s : ProcessState) : ProcessState :=
  { s with status.running := false, status.pid := -1 }

def Memory.launch (m : Memory) (name : String) (input : Input) : Memory :=
  if m.kernel.free input.pid then
    match input.launch with
    | .ok =>
      let handle : ProcessHandle := ⟨input.pid, input.pidfd, m.kernel.launches⟩
      { m with
        kernel := m.kernel.launch input.pid
        pidToName_ := (m.erasePid input.pid).pidToName_ ++ [(input.pid, name)] }.modifyProcess name
          fun s => s.started handle input.now
    | .failed => m.modifyProcess name ProcessState.stopped
    | .orphaned =>
      { m with kernel := m.kernel.launch input.pid }.modifyProcess name ProcessState.stopped
  else m.modifyProcess name ProcessState.stopped

def launches (m : Memory) (input : Input) : Bool :=
  m.kernel.free input.pid && input.launch == .ok

/-- `doStartProcess`, which runs its callbacks under `mutex_`. -/
def doStartProcess (name : String) (throw_ : Error → Code) (k : Code) : Code :=
  .act .access (fun input m => m.launch name input) fun input m =>
    if launches m input then
      read fun _ m =>
        let started := if m.startCallback_ then Prog.callout Site.callback k else k
        match m.find name with
        | none => started
        | some state =>
          if state.spec.onRestart ∧ 0 < state.status.restartCount then .callout .callback started
          else started
    else throw_ (.system (input.errno.getD .other) "fork")

/-! ### Restarts -/

def wifexited (status : ℕ) : Bool := status % 128 == 0

def wexitstatus (status : ℕ) : ℕ := status / 256 % 256

def cleanupRestartHistory (state : ProcessState) (now : ℤ) : ProcessState :=
  { state with
    restartTimes := state.restartTimes.filter fun t =>
      decide (now - state.spec.restart.maxRestartWindow ≤ t) }

def shouldRestart (state : ProcessState) (status : ℕ) : Bool :=
  let rc := state.spec.restart
  if 0 ≤ rc.maxRestarts ∧ rc.maxRestarts ≤ state.status.restartCount then false
  else if rc.maxRestartsInWindow ≤ state.restartTimes.length then false
  else
    match rc.policy with
    | .never => false
    | .always => true
    | .onFailure => !wifexited status || wexitstatus status != 0
    | .onSuccess => wifexited status && wexitstatus status == 0

/-- `calculateRestartDelay`, with a rational number for the multiplier. -/
def calculateRestartDelay (rc : RestartConfig) (restartCount : ℤ) : ℤ :=
  let delay :=
    match rc.backoffStrategy with
    | .exponential =>
      let multiplier := (fun q : ℚ => q * rc.backoffMultiplier)^[min restartCount.toNat 32] 1
      let product := (rc.minRestartDelay : ℚ) * multiplier
      product.num.tdiv product.den
    | .linear => rc.minRestartDelay + rc.linearIncrement * restartCount
    | .custom =>
      match rc.customBackoff with
      | some customBackoff => customBackoff restartCount
      | none => rc.minRestartDelay
  let delay := if rc.maxRestartDelay < delay then rc.maxRestartDelay else delay
  if delay < rc.minRestartDelay then rc.minRestartDelay else delay

def add (spec : SupervisedProcess) (k : Code) : Code :=
  .lock .supervisor <|
  read fun _ m =>
    if (m.find spec.name).isSome then
      unlockRaise (.runtime ("Process already exists: " ++ spec.name))
    else
      write (fun _ m =>
        let state : ProcessState := { spec := spec, status := { name := spec.name } }
        { m with processes_ := m.processes_ ++ [(spec.name, state)] }) <|
      .unlock .supervisor k

def eraseProcess (name : String) (k : Code) : Code :=
  write (fun _ m => { m with processes_ := m.processes_.filter fun e => e.1 != name }) <|
  .unlock .supervisor k

def eraseHandlePid (name : String) (k : Code) : Code :=
  write (fun _ m =>
    match (m.find name).bind ProcessState.handle with
    | none => m
    | some h => m.erasePid h.pid_) k

def remove (name : String) (turns : ℕ) (k : Code) : Code :=
  .lock .supervisor <|
  read fun _ m =>
    if (m.find name).isNone then .unlock .supervisor k
    else if (m.validHandle name).isNone then eraseProcess name k
    else
      let erase := eraseHandlePid name <| eraseProcess name k
      let rest := waitFor name turns unlockRaise fun _ =>
        read fun _ m =>
          if (m.validHandle name).isSome then
            kill name (ignoreEsrch unlockRaise erase) <|
            wait name (ignoreEsrch unlockRaise erase) fun _ => erase
          else erase
      terminate name (ignoreEsrch unlockRaise rest) rest

/-- The loop of `start` over the processes, under the lock. -/
def startAll (k : Code) : List String → Code
  | [] => .unlock .supervisor k
  | name :: rest => doStartProcess name unlockRaise (startAll k rest)

def start (k : Code) : Code :=
  read fun _ m =>
    if m.running_ then k
    else
      read fun input _ =>
        match input.errno with
        | some errno => raise (.system errno "pthread_sigmask")
        | none =>
          .act .access (fun input m => { m with signalFd_ := input.errno.isNone }) fun input _ =>
            match input.errno with
            | some errno => raise (.system errno "signalfd")
            | none =>
              .lock .supervisor <| read fun _ m =>
                startAll
                  (write (fun _ m => { m with running_ := true }) <|
                    .act .access
                      (fun input m =>
                        if input.errno.isSome then m
                        else
                          { m with
                            supervisorThread_ := some m.loops.length
                            loops := m.loops ++ [.created] })
                      fun input _ =>
                        match input.errno with
                        | some errno => raise (.system errno "pthread_create")
                        | none => k)
                  (m.processes_.map Prod.fst)

/-- The loops of `stop` and `stopGracefully` that send a signal to every process, under the
lock. -/
def signalAll (signal : Signal) (k : Code) : List String → Code
  | [] => .unlock .supervisor k
  | name :: rest =>
    read fun _ m =>
      if (m.validHandle name).isSome then
        sendSignal name signal (ignoreEsrch unlockRaise (signalAll signal k rest))
          (signalAll signal k rest)
      else signalAll signal k rest

def signalProcesses (signal : Signal) (k : Code) : Code :=
  .lock .supervisor <| read fun _ m => signalAll signal k (m.processes_.map Prod.fst)

/-- The end of `stop` and `stopGracefully`: join the thread, which throws what has ended it, and
close `signalFd_`. -/
def joinThread (k : Code) : Code :=
  read fun _ m =>
    let close := write (fun _ m => { m with signalFd_ := false }) k
    match m.supervisorThread_ with
    | none => close
    | some i =>
      match m.loops[i]? with
      | some (.finished error) =>
        write (fun _ m => { m with supervisorThread_ := none }) <|
        match error with
        | none => close
        | some e => raise e
      | _ => blocked

def stop (k : Code) : Code :=
  write (fun _ m => { m with running_ := false }) <| signalProcesses .kill <| joinThread k

/-- A turn of the waiting loop of `stopGracefully`, under the lock. -/
def tryWaitAll (k : Bool → Code) (allStopped : Bool) : List String → Code
  | [] => .unlock .supervisor (k allStopped)
  | name :: rest =>
    read fun _ m =>
      if (m.validHandle name).isSome then
        tryWait name unlockRaise fun
          | some status =>
            update name (fun _ s =>
              { s with status.running := false, status.lastExitStatus := status }) <|
            tryWaitAll k allStopped rest
          | none => tryWaitAll k false rest
      else tryWaitAll k allStopped rest

/-- The waiting loop of `stopGracefully`; the clock reaches the deadline after some turns. -/
def awaitAll (k : Code) : ℕ → Code
  | 0 => k
  | turns + 1 =>
    .lock .supervisor <| read fun _ m =>
      tryWaitAll (fun allStopped => if allStopped then k else awaitAll k turns) true
        (m.processes_.map Prod.fst)

def stopGracefully (turns : ℕ) (k : Code) : Code :=
  write (fun _ m => { m with running_ := false }) <|
  signalProcesses .term <|
  awaitAll (signalProcesses .kill <| joinThread k) turns

def startProcess (name : String) (k : Code) : Code :=
  .lock .supervisor <|
  read fun _ m =>
    if (m.find name).isNone then unlockRaise (.runtime ("Unknown process: " ++ name))
    else if (m.validHandle name).isSome then .unlock .supervisor k
    else doStartProcess name unlockRaise <| .unlock .supervisor k

def stopProcess (name : String) (k : Code) : Code :=
  .lock .supervisor <|
  read fun _ m =>
    if (m.find name).isNone then unlockRaise (.runtime ("Unknown process: " ++ name))
    else
      update name (fun _ s => { s with pendingRestart := false }) <|
      read fun _ m =>
        if (m.validHandle name).isSome then
          eraseHandlePid name <|
          terminate name (ignoreEsrch unlockRaise <| .unlock .supervisor k) <|
          .unlock .supervisor k
        else .unlock .supervisor k

def restartProcess (name : String) (k : Code) : Code :=
  stopProcess name <|
  .lock .supervisor <|
  read fun _ m =>
    if (m.find name).isSome then
      update name (fun _ s => { s with status.restartCount := 0, restartTimes := [] }) <|
      doStartProcess name unlockRaise <| .unlock .supervisor k
    else .unlock .supervisor k

/-- `status(name)`. -/
def status (name : String) (k : ProcessStatus → Code) : Code :=
  .lock .supervisor <|
  read fun _ m =>
    match m.find name with
    | none => unlockRaise (.runtime ("Unknown process: " ++ name))
    | some state => .unlock .supervisor (k state.status)

/-- `status()`. -/
def allStatuses (k : List ProcessStatus → Code) : Code :=
  .lock .supervisor <|
  read fun _ m => .unlock .supervisor <| k (m.processes_.map fun e => e.2.status)

def onProcessExit (callback : Bool) (k : Code) : Code :=
  .lock .supervisor <|
  write (fun _ m => { m with exitCallback_ := callback }) <|
  .unlock .supervisor k

def onProcessStart (callback : Bool) (k : Code) : Code :=
  .lock .supervisor <|
  write (fun _ m => { m with startCallback_ := callback }) <|
  .unlock .supervisor k

/-- The part of `handleChildExit` that schedules a restart, under the lock. -/
def scheduleRestart (name : String) (status : ℕ) (k : Code) : Code :=
  read fun _ m =>
    if m.running_ then
      update name (fun input s => cleanupRestartHistory s input.now) <|
      read fun _ m =>
        match m.find name with
        | none => k
        | some state =>
          if shouldRestart state status then
            let delay := calculateRestartDelay state.spec.restart state.status.restartCount
            update name (fun input s =>
              { s with
                status.nextRestartDelay := delay
                pendingRestart := true
                scheduledRestartTime := input.now + delay
                status.restartCount := s.status.restartCount + 1 }) <|
            update name (fun input s =>
              { s with restartTimes := s.restartTimes ++ [input.now] }) k
          else k
    else k

def handleChildExit (pid : ℤ) (status : ℕ) (k : Code) : Code :=
  .lock .supervisor <|
  read fun _ m =>
    match m.pidToName_.lookup pid with
    | none => .unlock .supervisor k
    | some name =>
      write (fun _ m => m.erasePid pid) <|
      read fun _ m =>
        match m.find name with
        | none => .unlock .supervisor k
        | some state =>
          update name (fun input s =>
            { s with
              status.running := false
              status.lastExitStatus := status
              status.lastExitTime := input.now
              status.pid := -1 }) <|
          scheduleRestart name status <|
          .unlock .supervisor <|
          let exitCb := if m.exitCallback_ then Prog.callout Site.callback k else k
          if state.spec.onExit then .callout .callback exitCb else exitCb

/-- `waitpid(-1, .., WNOHANG)`: a child that has exited is reaped. -/
def Memory.collect (m : Memory) (input : Input) : Memory :=
  match m.kernel.waitAny input.pid with
  | none => m
  | some (child, _) => { m with kernel := m.kernel.reap child .any }

/-- The loops of `supervisorLoop` that collect children; `handle` is what is done with one. -/
def collectLoop (handle : ℤ → ℕ → Code → Code) (k : Code) : ℕ → Code
  | 0 => .done
  | turns + 1 =>
    .act .access (fun input m => m.collect input) fun input m =>
      match m.kernel.waitAny input.pid with
      | none => k
      | some (child, status) => handle child.pid status (collectLoop handle k turns)

def finishLoop (i : ℕ) (error : Option Error) : Code :=
  write (fun _ m => { m with loops := m.loops.set i (.finished error) }) .done

/-- The loop of `supervisorLoop` over the pending restarts, under the lock. -/
def restartPending (i : ℕ) (now : ℤ) (k : Code) : List String → Code
  | [] => .unlock .supervisor k
  | name :: rest =>
    read fun _ m =>
      match m.find name with
      | none => restartPending i now k rest
      | some state =>
        if state.pendingRestart ∧ state.scheduledRestartTime ≤ now then
          update name (fun _ s => { s with pendingRestart := false }) <|
          doStartProcess name (fun e => .unlock .supervisor <| finishLoop i (some e))
            (restartPending i now k rest)
        else restartPending i now k rest

def restarts (i : ℕ) (k : Code) : Code :=
  read fun input _ =>
    .lock .supervisor <| read fun _ m =>
      restartPending i input.now k (m.processes_.map Prod.fst)

def loopTurns (i : ℕ) : ℕ → Code
  | 0 => .done
  | turns + 1 =>
    let drain := collectLoop (fun _ _ k => k) (finishLoop i none) turns
    read fun _ m =>
      if m.running_ then
        read fun input _ =>
          match input.poll with
          | .interrupted => loopTurns i turns
          | .failed => drain
          | .timeout => restarts i (loopTurns i turns)
          | .readable => collectLoop handleChildExit (restarts i (loopTurns i turns)) turns
      else drain

/-- `supervisorLoop` on the thread `i` that `start` has created. -/
def supervisorLoop (i turns : ℕ) : Code :=
  .act .access
    (fun _ m =>
      if m.loops[i]? = some .created then { m with loops := m.loops.set i .running } else m)
    fun _ m => if m.loops[i]? = some .created then loopTurns i turns else .done

def destroy (k : Code) : Code :=
  let close := write (fun _ m => { m with signalFd_ := false }) k
  read fun _ m => if m.running_ then stop close else close

/-- The operations a thread can start; the children are threads that exit. -/
inductive Op
  | add (spec : SupervisedProcess)
  | remove (name : String) (turns : ℕ)
  | start
  | stop
  | stopGracefully (turns : ℕ)
  | startProcess (name : String)
  | stopProcess (name : String)
  | restartProcess (name : String)
  | status (name : String)
  | allStatuses
  | onProcessExit (callback : Bool)
  | onProcessStart (callback : Bool)
  | destroy
  | supervisorLoop (i turns : ℕ)
  | childExit (launch status : ℕ)

/-- The program of an operation; its answer goes to the caller. -/
def program : Op → Code
  | .add spec => add spec .done
  | .remove name turns => remove name turns .done
  | .start => start .done
  | .stop => stop .done
  | .stopGracefully turns => stopGracefully turns .done
  | .startProcess name => startProcess name .done
  | .stopProcess name => stopProcess name .done
  | .restartProcess name => restartProcess name .done
  | .status name => status name fun _ => .done
  | .allStatuses => allStatuses fun _ => .done
  | .onProcessExit callback => onProcessExit callback .done
  | .onProcessStart callback => onProcessStart callback .done
  | .destroy => destroy .done
  | .supervisorLoop i turns => supervisorLoop i turns
  | .childExit launch status =>
    write (fun _ m => { m with kernel := m.kernel.exit launch status }) .done

def fresh : Memory where
  processes_ := []
  pidToName_ := []
  running_ := false
  signalFd_ := false
  supervisorThread_ := none
  loops := []
  exitCallback_ := false
  startCallback_ := false
  thrown := []
  kernel := Kernel.init

/-- Any number of threads that run the operations in any interleaving. -/
def system (ι : Type*) [DecidableEq ι] :
    TransitionSystem (LockProgram.Config Mutex Memory Input Site ι) (ι × Choice Input Op) :=
  LockProgram.system ι program (· = fresh)

end Pman.ProcessSupervisor
