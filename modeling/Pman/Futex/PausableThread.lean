import Pman.Futex.CondVar

set_option autoImplicit false

/-!
# `PausableThread`

The four functions of `pausable_thread.cpp` that synchronise a worker with its controllers, as a
monitor over `PauseControl`. `pause` sets a flag and waits, a tenth of a second at a time, until
the worker has paused, a stop is requested or the thread is not joinable; the worker's
`checkPause` reports that it has paused and waits without a timeout until it is resumed or
stopped. The flags are atomics, so every access is one step.
-/

namespace Pman.PausableThread

structure Control where
  pauseRequested : Bool := false
  stopRequested : Bool := false
  paused : Bool := false

inductive Cv
  | pauseCv
  | resumeCv
  deriving DecidableEq

inductive Result
  | returned
  | stopRequestedException

inductive Outer
  | pause
  | resume
  | requestStop
  | checkPause
  | checkPauseRequested

inductive Inner
  | pauseStore
  | pauseLoadPaused
  | pauseLoadStop
  | pauseJoinable
  | resumeStore
  | stopStore
  | stopStorePause
  /-- `resume`, `requestStop`: `resumeCv.notify_all()`. -/
  | notifyResume
  | done
  | checkStore
  | checkNotify
  | checkLoadPause
  | checkLoadStop
  | checkClear
  | checkThrow

/-- Before the guard. The input says whether the thread is joinable. -/
def outer (p : Outer) (_ : Bool) (d : Control) : OuterStep Outer Inner Result × Control :=
  match p with
  | .pause => (.guard .pauseStore, d)
  | .resume => (.guard .resumeStore, d)
  | .requestStop => (.guard .stopStore, d)
  | .checkPause =>
    (if d.stopRequested then .leave .stopRequestedException else .goto .checkPauseRequested, d)
  | .checkPauseRequested =>
    (if d.pauseRequested then .guard .checkStore else .leave .returned, d)

def inner (p : Inner) (joinable : Bool) (d : Control) : InnerStep Cv Inner Result × Control :=
  match p with
  -- `pause`
  | .pauseStore => (.goto .pauseLoadPaused, { d with pauseRequested := true })
  | .pauseLoadPaused => (if d.paused then .leave .returned else .goto .pauseLoadStop, d)
  | .pauseLoadStop => (if d.stopRequested then .leave .returned else .goto .pauseJoinable, d)
  | .pauseJoinable =>
    (if joinable then .wait .pauseCv (some 100000000) .pauseLoadPaused else .leave .returned, d)
  -- `resume`
  | .resumeStore => (.goto .notifyResume, { d with pauseRequested := false })
  -- `requestStop`
  | .stopStore => (.goto .stopStorePause, { d with stopRequested := true })
  | .stopStorePause => (.goto .notifyResume, { d with pauseRequested := false })
  | .notifyResume => (.notifyAll .resumeCv .done, d)
  | .done => (.leave .returned, d)
  -- `checkPause`
  | .checkStore => (.goto .checkNotify, { d with paused := true })
  | .checkNotify => (.notifyAll .pauseCv .checkLoadPause, d)
  | .checkLoadPause => (.goto (if d.pauseRequested then .checkLoadStop else .checkClear), d)
  | .checkLoadStop =>
    (if d.stopRequested then .goto .checkClear else .wait .resumeCv none .checkLoadPause, d)
  | .checkClear => (.goto .checkThrow, { d with paused := false })
  | .checkThrow =>
    (.leave (if d.stopRequested then .stopRequestedException else .returned), d)

def monitor : Monitor where
  Cv := Cv
  Data := Control
  Input := Bool
  Outer := Outer
  Inner := Inner
  Result := Result
  fresh d := d = {}
  outer := outer
  inner := inner

instance : DecidableEq monitor.Cv := inferInstanceAs (DecidableEq Cv)

end Pman.PausableThread
