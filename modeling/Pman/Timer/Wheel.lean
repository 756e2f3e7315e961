import Mathlib.Algebra.Group.Int.Defs
import Mathlib.Algebra.Group.Nat.Even
import Mathlib.Data.Int.Order.Basic

set_option autoImplicit false

/-!
# The timer wheel: data

`TimerWheel` keeps its timers in several wheels of slots. Slot distances in wheel `w` are
`tickDuration * wheelSize ^ w`; a timer goes into the first wheel whose span covers its delay.
`advance` moves the current slot of wheel `0` and, whenever a wheel comes round, spreads the current
slot of the next wheel over the wheels below.

This file has the data and the pure functions that the member functions apply to it under `mutex_`.
Such a region reads the clock once, as its argument `now`. Durations and times are integers in
nanoseconds.
-/

namespace Pman.TimerWheel

structure Config where
  tickDuration : ℤ := 1000000
  wheelSize : ℕ := 256
  numWheels : ℕ := 4

/-- `TimerWheel::TimerEntry`. Entries are moved, never copied, so the shared flag `cancelled` is
a field. -/
structure Entry (κ : Type*) where
  id : ℕ
  expiry : ℤ
  period : ℤ
  callback : κ
  cancelled : Bool

/-- The fields of `TimerWheel`. The counter `activeCount_` is unsigned in the code; a negative
value here is one that has wrapped there. `timerFd_` is the time the descriptor is armed for. -/
structure Wheel (κ : Type*) where
  config_ : Config
  wheels_ : List (List (List (Entry κ)))
  currentSlots_ : List ℕ
  lastTick_ : ℤ
  nextId_ : ℕ
  activeCount_ : ℤ
  timerFd_ : ℤ
  timerThread_ : Bool
  running_ : Bool

def toSize (x : ℤ) : ℕ := (x % 2 ^ 64).toNat

def hours (n : ℤ) : ℤ := n * 3600000000000

namespace Wheel

variable {κ : Type*}

def new (config : Config) (now : ℤ) : Wheel κ where
  config_ := config
  wheels_ := List.replicate config.numWheels (List.replicate config.wheelSize [])
  currentSlots_ := List.replicate config.numWheels 0
  lastTick_ := now
  nextId_ := 1
  activeCount_ := 0
  timerFd_ := 0
  timerThread_ := false
  running_ := false

/-- The constructor; `fd` says whether `timerfd_create` succeeded. -/
def create (config : Config) (now : ℤ) (fd : Bool) : Except String (Wheel κ) :=
  if config.wheelSize = 0 ∨ config.numWheels = 0 then .error "Invalid timer wheel configuration"
  else if fd then .ok (new config now)
  else .error "timerfd_create"

def ticksPerSlot (config : Config) : ℕ → ℤ
  | 0 => config.tickDuration
  | w + 1 => ticksPerSlot config w * config.wheelSize

def computeSlot (config : Config) (delay : ℤ) (w : ℕ) : ℕ :=
  toSize (delay.tdiv (ticksPerSlot config w))

def currentSlot (d : Wheel κ) (w : ℕ) : ℕ := d.currentSlots_.getD w 0

/-- Append an entry to a slot of wheel `w`, counted from the current one. -/
def place (d : Wheel κ) (w slot : ℕ) (entry : Entry κ) : Wheel κ :=
  let slot := min slot (d.config_.wheelSize - 1)
  let actualSlot := (d.currentSlot w + slot) % d.config_.wheelSize
  { d with wheels_ := d.wheels_.modify w fun wheel => wheel.modify actualSlot (· ++ [entry]) }

/-- The loop of `insert` over the wheels: `n` wheels remain, the next one is `w`. -/
def insertFrom (d : Wheel κ) (delay : ℤ) (entry : Entry κ) : ℕ → ℕ → Wheel κ
  | 0, _ => d
  | n + 1, w =>
    let slot := computeSlot d.config_ delay w
    if slot < d.config_.wheelSize ∨ w = d.config_.numWheels - 1 then d.place w slot entry
    else insertFrom d delay entry n (w + 1)

def insert (d : Wheel κ) (now : ℤ) (entry : Entry κ) : Wheel κ :=
  let delay := if now < entry.expiry then entry.expiry - now else 0
  d.insertFrom delay entry d.config_.numWheels 0

def cascade (d : Wheel κ) (now : ℤ) (wheelIndex : ℕ) : Wheel κ :=
  if d.config_.numWheels ≤ wheelIndex then d
  else
    let slot := d.currentSlot wheelIndex
    let entries := (d.wheels_.getD wheelIndex []).getD slot []
    let d := { d with
      wheels_ := d.wheels_.modify wheelIndex fun wheel => wheel.modify slot fun _ => [] }
    entries.foldl (fun d entry => if entry.cancelled then d else d.insert now entry) d

def bumpSlot (d : Wheel κ) (w : ℕ) : Wheel κ :=
  { d with currentSlots_ := d.currentSlots_.modify w fun slot => (slot + 1) % d.config_.wheelSize }

/-- The inner loop of `advance`: `n` wheels remain, the next one is `w`. -/
def cascadeFrom (now : ℤ) : ℕ → ℕ → Wheel κ → Wheel κ
  | 0, _, d => d
  | n + 1, w, d =>
    let d := (d.cascade now w).bumpSlot w
    if d.currentSlot w ≠ 0 then d else cascadeFrom now n (w + 1) d

def advanceTick (now : ℤ) (d : Wheel κ) : Wheel κ :=
  let d := d.bumpSlot 0
  if d.currentSlot 0 = 0 then cascadeFrom now (d.config_.numWheels - 1) 1 d else d

def advance (d : Wheel κ) (now elapsed : ℤ) : Wheel κ :=
  let ticksToAdvance := elapsed.tdiv d.config_.tickDuration
  { (advanceTick now)^[ticksToAdvance.toNat] d with lastTick_ := now }

/-- Replace the first element for which `f` has a replacement. -/
def updateFirst {α : Type*} (f : α → Option α) : List α → Option (List α)
  | [] => none
  | a :: l =>
    match f a with
    | some a' => some (a' :: l)
    | none => (updateFirst f l).map (a :: ·)

def cancel (d : Wheel κ) (timerId : ℕ) : Wheel κ × Bool :=
  let mark (entry : Entry κ) : Option (Entry κ) :=
    if entry.id = timerId ∧ entry.cancelled = false then some { entry with cancelled := true }
    else none
  match updateFirst (updateFirst (updateFirst mark)) d.wheels_ with
  | some wheels => ({ d with wheels_ := wheels, activeCount_ := d.activeCount_ - 1 }, true)
  | none => (d, false)

/-- The locked part of `processExpired`: cancelled entries of the current slot are dropped, the
expired ones are taken out. -/
def takeExpired (d : Wheel κ) (now : ℤ) : Wheel κ × List (Entry κ) :=
  let slot := d.currentSlot 0
  let entries := (d.wheels_.getD 0 []).getD slot []
  let live := entries.filter fun entry => !entry.cancelled
  let kept := live.filter fun entry => now < entry.expiry
  let expired := live.filter fun entry => entry.expiry ≤ now
  ({ d with wheels_ := d.wheels_.modify 0 fun wheel => wheel.modify slot fun _ => kept }, expired)

def entries (d : Wheel κ) : List (Entry κ) := d.wheels_.flatten.flatten

def timeUntilNextExpiry (d : Wheel κ) (now : ℤ) : ℤ :=
  let earliest := d.entries.foldl
    (fun earliest entry =>
      if entry.cancelled = false ∧ entry.expiry < earliest then entry.expiry else earliest)
    (now + hours 24)
  if earliest ≤ now then 0 else earliest - now

def pendingExpirations (d : Wheel κ) (now : ℤ) : ℕ :=
  d.entries.countP fun entry => !entry.cancelled && decide (entry.expiry ≤ now)

/-- The time `armTimerFd` arms the descriptor for, given the time until the next expiry. -/
def armTime (config : Config) (nextExpiry : ℤ) : ℤ :=
  let nextExpiry := if hours 1 < nextExpiry then config.tickDuration else nextExpiry
  let nextExpiry := if nextExpiry < config.tickDuration then config.tickDuration else nextExpiry
  if nextExpiry = 0 then 1 else nextExpiry

end Wheel

end Pman.TimerWheel
