import Mathlib.Algebra.Order.Field.Rat
import Pman.Futex.CondVar

set_option autoImplicit false

/-!
# The rate limiters

`TokenBucketRateLimiter` and `SlidingWindowRateLimiter` as monitors: every function runs under a
`FutexLockGuard`, and `acquire` and `tryAcquireFor` wait on the condition variable until the time
they computed has passed. Nobody notifies it. Times are nanoseconds, `double` is read as an
exact rational. Every evaluation of `steady_clock::now()` reads the input of a step.
-/

namespace Pman

namespace TokenBucketRateLimiter

structure Config where
  tokensPerSecond : ℚ
  burstSize : ℚ
  initialTokens : ℚ := -1

/-- The fields of the limiter besides the mutex and the condition variable. -/
structure Data where
  config_ : Config
  tokens_ : ℚ
  lastRefill_ : ℤ

def create (config : Config) (now : ℤ) : Except String Data :=
  if config.tokensPerSecond ≤ 0 then .error "tokensPerSecond must be positive"
  else if config.burstSize ≤ 0 then .error "burstSize must be positive"
  else .ok ⟨config, if 0 ≤ config.initialTokens then config.initialTokens else config.burstSize,
    now⟩

def seconds (ns : ℤ) : ℚ := (ns : ℚ) / 1000000000

/-- `duration_cast` from seconds to nanoseconds, which truncates. -/
def nanoseconds (x : ℚ) : ℤ := (x * 1000000000).num.tdiv (x * 1000000000).den

/-- The level that `refill` stores and `availableTokens` and `timeUntilAvailable` compute. -/
def Data.level (d : Data) (now : ℤ) : ℚ :=
  min (d.tokens_ + seconds (now - d.lastRefill_) * d.config_.tokensPerSecond) d.config_.burstSize

def Data.refill (d : Data) (now : ℤ) : Data := { d with tokens_ := d.level now, lastRefill_ := now }

def Data.waitTime (d : Data) (tokens : ℚ) : ℤ :=
  nanoseconds ((tokens - d.tokens_) / d.config_.tokensPerSecond)

inductive Result
  | invalidArgument (what : String)
  | acquired
  | granted (b : Bool)
  | tokens (x : ℚ)
  | time (ns : ℤ)

inductive Outer
  | tryAcquire (tokens : ℚ)
  | acquire (tokens : ℚ)
  | tryAcquireFor (tokens : ℚ) (timeout : ℤ)
  | availableTokens
  | timeUntilAvailable (tokens : ℚ)

inductive Inner
  | tryAcquire (tokens : ℚ)
  | acquire (tokens : ℚ)
  | tryAcquireFor (tokens : ℚ) (deadline : ℤ)
  | checkDeadline (tokens : ℚ) (deadline : ℤ)
  | availableTokens
  | timeUntilAvailable (tokens : ℚ)

/-- Before the guard: `tryAcquire` and `acquire` check the amount, `tryAcquireFor` does not. -/
def outer (p : Outer) (now : ℤ) (d : Data) : OuterStep Outer Inner Result × Data :=
  match p with
  | .tryAcquire tokens =>
    (if tokens ≤ 0 then .leave (.invalidArgument "tokens must be positive")
      else .guard (.tryAcquire tokens), d)
  | .acquire tokens =>
    (if tokens ≤ 0 then .leave (.invalidArgument "tokens must be positive")
      else .guard (.acquire tokens), d)
  | .tryAcquireFor tokens timeout => (.guard (.tryAcquireFor tokens (now + timeout)), d)
  | .availableTokens => (.guard .availableTokens, d)
  | .timeUntilAvailable tokens => (.guard (.timeUntilAvailable tokens), d)

def Data.take (d : Data) (now : ℤ) (tokens : ℚ) (r : Result)
    (missing : Data → InnerStep Unit Inner Result) : InnerStep Unit Inner Result × Data :=
  let d := d.refill now
  if tokens ≤ d.tokens_ then (.leave r, { d with tokens_ := d.tokens_ - tokens })
  else (missing d, d)

def inner (p : Inner) (now : ℤ) (d : Data) : InnerStep Unit Inner Result × Data :=
  match p with
  | .tryAcquire tokens => d.take now tokens (.granted true) fun _ => .leave (.granted false)
  | .acquire tokens =>
    d.take now tokens .acquired fun d => .wait () (some (d.waitTime tokens)) (.acquire tokens)
  | .tryAcquireFor tokens deadline =>
    d.take now tokens (.granted true) fun _ => .goto (.checkDeadline tokens deadline)
  | .checkDeadline tokens deadline =>
    if deadline ≤ now then (.leave (.granted false), d)
    else (.wait () (some (min (d.waitTime tokens) (deadline - now)))
      (.tryAcquireFor tokens deadline), d)
  | .availableTokens => (.leave (.tokens (d.level now)), d)
  | .timeUntilAvailable tokens =>
    let current := d.level now
    (.leave (.time (if tokens ≤ current then 0
      else nanoseconds ((tokens - current) / d.config_.tokensPerSecond))), d)

def monitor : Monitor where
  Cv := Unit
  Data := Data
  Input := ℤ
  Outer := Outer
  Inner := Inner
  Result := Result
  fresh d := ∃ config now, create config now = .ok d
  outer := outer
  inner := inner

instance : DecidableEq monitor.Cv := inferInstanceAs (DecidableEq Unit)

lemma data_outer (p : Outer) (now : ℤ) (d : Data) : (outer p now d).2 = d := by
  cases p <;> rfl

end TokenBucketRateLimiter

namespace SlidingWindowRateLimiter

structure Config where
  maxRequests : ℕ
  windowDuration : ℤ

/-- The fields of the limiter besides the mutex and the condition variable. -/
structure Data where
  config_ : Config
  timestamps_ : List ℤ

def create (config : Config) : Except String Data :=
  if config.maxRequests = 0 then .error "maxRequests must be positive"
  else if config.windowDuration ≤ 0 then .error "windowDuration must be positive"
  else .ok ⟨config, []⟩

def Data.cleanup (d : Data) (now : ℤ) : Data :=
  { d with timestamps_ := d.timestamps_.dropWhile (· < now - d.config_.windowDuration) }

def Data.waitTime (d : Data) (now : ℤ) : ℤ :=
  let oldestExpiry := d.timestamps_.headD 0 + d.config_.windowDuration
  if now < oldestExpiry then oldestExpiry - now else 0

inductive Result
  | acquired
  | granted (b : Bool)
  | requests (n : ℕ)
  | time (ns : ℤ)

inductive Outer
  | tryAcquire
  | acquire
  | tryAcquireFor (timeout : ℤ)
  | remainingRequests
  | timeUntilReset

inductive Call
  | tryAcquire
  | acquire
  | tryAcquireFor (deadline : ℤ)

inductive Inner
  | cleanup (c : Call)
  | record (c : Call)
  | full (c : Call)
  | remainingRequests
  | timeUntilReset

def outer (p : Outer) (now : ℤ) (d : Data) : OuterStep Outer Inner Result × Data :=
  match p with
  | .tryAcquire => (.guard (.cleanup .tryAcquire), d)
  | .acquire => (.guard (.cleanup .acquire), d)
  | .tryAcquireFor timeout => (.guard (.cleanup (.tryAcquireFor (now + timeout))), d)
  | .remainingRequests => (.guard .remainingRequests, d)
  | .timeUntilReset => (.guard .timeUntilReset, d)

def inner (p : Inner) (now : ℤ) (d : Data) : InnerStep Unit Inner Result × Data :=
  match p with
  | .cleanup c =>
    let d := d.cleanup now
    (.goto (if d.timestamps_.length < d.config_.maxRequests then .record c else .full c), d)
  | .record c =>
    (.leave (match c with
      | .acquire => .acquired
      | .tryAcquire | .tryAcquireFor _ => .granted true),
      { d with timestamps_ := d.timestamps_ ++ [now] })
  | .full .tryAcquire => (.leave (.granted false), d)
  | .full .acquire => (.wait () (some (d.waitTime now)) (.cleanup .acquire), d)
  | .full (.tryAcquireFor deadline) =>
    if deadline ≤ now then (.leave (.granted false), d)
    else (.wait () (some (min (d.waitTime now) (deadline - now)))
      (.cleanup (.tryAcquireFor deadline)), d)
  | .remainingRequests =>
    let valid := d.timestamps_.countP (now - d.config_.windowDuration ≤ ·)
    (.leave (.requests (d.config_.maxRequests - valid)), d)
  | .timeUntilReset =>
    (.leave (.time (match d.timestamps_.find? (now - d.config_.windowDuration ≤ ·) with
      | none => 0
      | some ts => ts + d.config_.windowDuration - now)), d)

def monitor : Monitor where
  Cv := Unit
  Data := Data
  Input := ℤ
  Outer := Outer
  Inner := Inner
  Result := Result
  fresh d := ∃ config, create config = .ok d
  outer := outer
  inner := inner

instance : DecidableEq monitor.Cv := inferInstanceAs (DecidableEq Unit)

end SlidingWindowRateLimiter

end Pman
