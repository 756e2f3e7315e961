import Mathlib.Data.Int.Notation

set_option autoImplicit false

/-!
# Answers of the futex system call

`FUTEX_WAIT` compares the futex word with the caller's argument and puts the caller to sleep
only if they are equal. This file has the answers it can give and how the wait helpers of
`futex.cpp`, `recursive_mutex.cpp`, `rw_mutex.cpp` and `shared_sync.cpp` classify them.
-/

namespace Pman

structure Timespec where
  tv_sec : ℤ
  tv_nsec : ℤ
  deriving DecidableEq, Repr

def Timespec.ofNanoseconds (ns : ℤ) : Timespec where
  tv_sec := ns.tdiv 1000000000
  tv_nsec := ns.tmod 1000000000

inductive Errno
  | EAGAIN
  | EINTR
  | ETIMEDOUT
  deriving DecidableEq, Repr

/-- What `FUTEX_WAIT` returns: `0`, or `-1` with an error number. A return of `0` is a wake-up
by `FUTEX_WAKE` or a spurious one. -/
inductive WaitResult
  | woken
  | error (e : Errno)
  deriving DecidableEq, Repr

/-- The answers a sleeping caller can get: `ETIMEDOUT` only if it passed a timeout, and never
`EAGAIN`, which is decided before the caller falls asleep. -/
def WaitResult.possible (timed : Bool) : WaitResult → Bool
  | .woken => true
  | .error .EAGAIN => false
  | .error .EINTR => true
  | .error .ETIMEDOUT => timed

inductive WaitOutcome
  | returns
  | retries
  | throws (e : Errno)
  deriving DecidableEq, Repr

/-- One pass through the loop of `futex_wait_internal`; `timed` says that a timeout was
passed. -/
def futexWaitInternal (timed : Bool) : WaitResult → WaitOutcome
  | .woken => .returns
  | .error e =>
    if e = .EAGAIN then .returns
    else if e ≠ .EINTR then .throws e
    else if timed then .returns
    else .retries

/-- One pass through the loop of `futex_wait`, which takes no timeout: the same classification
as `futex_wait_internal` without one. -/
def futexWait (r : WaitResult) : WaitOutcome := futexWaitInternal false r

end Pman
