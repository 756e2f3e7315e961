import Mathlib.Data.ENat.Basic
import Pman.Lib.Producer

set_option autoImplicit false

/-!
# Streams

`Stream<T>` is an object whose `next()` gives the next value or `nullopt`. `map`, `filter`, `take`,
`skip`, `takeWhile` and `chain` make a stream from another one, their source. They are member
functions and have only `this` of their source: they keep it in a `shared_ptr` whose deleter does
nothing, so the new stream does not own it. Only the second stream of a `chain` is passed as a real
`shared_ptr`. When the caller has dropped the last owning pointer to a source, the next call of its
`next()` is a use of a destroyed object. So a combinator is modelled with the number of calls that
find its source alive (`⊤` if the caller keeps it for good).

The coroutines run one at a time and every call of `next()` is awaited at once, so a stream is a
state and a function of it. Element functions are pure. The loop of `filter` and those of the
consumers have fuel.
-/

namespace Pman

namespace Streams

/-- What can go wrong: a call on a stream that has been destroyed, and a loop that is not done when
the fuel is. -/
inductive Fault
  | dangling
  | fuel
deriving DecidableEq, Repr

/-- `next()` as a function of the state of the stream. -/
abbrev Next (σ T : Type) := σ → Except Fault (Option T × σ)

variable {σ τ T U : Type}

/-- A stream behind a `shared_ptr` that does not own it, and how often it was called. -/
structure Borrowed (σ : Type) where
  source : σ
  calls : ℕ
deriving DecidableEq, Repr

/-- `source_->next()`, when the first `lifetime` calls find the object alive. -/
def Borrowed.next (lifetime : ℕ∞) (source : Next σ T) : Next (Borrowed σ) T := fun s =>
  if (s.calls : ℕ∞) < lifetime then
    match source s.source with
    | .error e => .error e
    | .ok (value, source) => .ok (value, ⟨source, s.calls + 1⟩)
  else .error .dangling

structure VectorStream (T : Type) where
  values_ : List T
  index_ : ℕ
deriving DecidableEq, Repr

/-- `VectorStream::next`. The value that is moved out is not looked at again. -/
def VectorStream.next : Next (VectorStream T) T := fun s =>
  if h : s.index_ < s.values_.length then
    .ok (some s.values_[s.index_], { s with index_ := s.index_ + 1 })
  else .ok (none, s)

def MapStream.next (source : Next σ T) (func : T → U) : Next σ U := fun s =>
  match source s with
  | .error e => .error e
  | .ok (none, s) => .ok (none, s)
  | .ok (some value, s) => .ok (some (func value), s)

def FilterStream.next (source : Next σ T) (pred : T → Bool) : ℕ → Next σ T
  | 0, _ => .error .fuel
  | fuel + 1, s =>
    match source s with
    | .error e => .error e
    | .ok (none, s) => .ok (none, s)
    | .ok (some value, s) =>
      if pred value then .ok (some value, s) else FilterStream.next source pred fuel s

structure TakeStream (σ : Type) where
  source_ : σ
  count_ : ℕ
deriving DecidableEq, Repr

def TakeStream.next (source : Next σ T) (n : ℕ) : Next (TakeStream σ) T := fun s =>
  if s.count_ ≥ n then .ok (none, s)
  else
    match source s.source_ with
    | .error e => .error e
    | .ok (value, source) => .ok (value, ⟨source, s.count_ + 1⟩)

structure SkipStream (σ : Type) where
  source_ : σ
  skipped_ : ℕ
deriving DecidableEq, Repr

/-- The loop of `SkipStream::next`, that many times from leaving it, and the call after it. -/
def SkipStream.loop (source : Next σ T) : ℕ → Next (SkipStream σ) T
  | 0, s =>
    match source s.source_ with
    | .error e => .error e
    | .ok (value, source) => .ok (value, { s with source_ := source })
  | rest + 1, s =>
    match source s.source_ with
    | .error e => .error e
    | .ok (none, source) => .ok (none, { s with source_ := source })
    | .ok (some _, source') => SkipStream.loop source rest ⟨source', s.skipped_ + 1⟩

def SkipStream.next (source : Next σ T) (n : ℕ) : Next (SkipStream σ) T := fun s =>
  SkipStream.loop source (n - s.skipped_) s

structure TakeWhileStream (σ : Type) where
  source_ : σ
  done_ : Bool
deriving DecidableEq, Repr

def TakeWhileStream.next (source : Next σ T) (pred : T → Bool) : Next (TakeWhileStream σ) T :=
  fun s =>
    if s.done_ then .ok (none, s)
    else
      match source s.source_ with
      | .error e => .error e
      | .ok (none, source) => .ok (none, ⟨source, true⟩)
      | .ok (some value, source) =>
        if pred value then .ok (some value, { s with source_ := source })
        else .ok (none, ⟨source, true⟩)

structure ChainStream (σ τ : Type) where
  first_ : σ
  second_ : τ
  on_second_ : Bool
deriving DecidableEq, Repr

def ChainStream.nextSecond (second : Next τ T) : Next (ChainStream σ τ) T := fun s =>
  match second s.second_ with
  | .error e => .error e
  | .ok (value, second) => .ok (value, { s with second_ := second })

def ChainStream.next (first : Next σ T) (second : Next τ T) : Next (ChainStream σ τ) T := fun s =>
  if s.on_second_ then ChainStream.nextSecond second s
  else
    match first s.first_ with
    | .error e => .error e
    | .ok (some value, first) => .ok (some value, { s with first_ := first })
    | .ok (none, first) =>
      ChainStream.nextSecond second { s with first_ := first, on_second_ := true }

end Streams

open Streams

/-- **A stream**: an object with a state and its `next()`. -/
structure Stream (T : Type) where
  State : Type
  init : State
  next : ℕ → Next State T

namespace Stream

variable {T U : Type}

/-- The `shared_ptr` to a stream that a combinator makes from `this`. -/
def borrow (s : Stream T) (lifetime : ℕ∞) : Stream T :=
  ⟨Borrowed s.State, ⟨s.init, 0⟩, fun fuel => Borrowed.next lifetime (s.next fuel)⟩

def fromVector (values : List T) : Stream T :=
  ⟨VectorStream T, ⟨values, 0⟩, fun _ => VectorStream.next⟩

/-- `Stream<T>::map`; here and below on the stream that `borrow` gives. -/
def map (s : Stream T) (func : T → U) : Stream U :=
  ⟨s.State, s.init, fun fuel => MapStream.next (s.next fuel) func⟩

def filter (s : Stream T) (pred : T → Bool) : Stream T :=
  ⟨s.State, s.init, fun fuel => FilterStream.next (s.next fuel) pred fuel⟩

def take (s : Stream T) (n : ℕ) : Stream T :=
  ⟨TakeStream s.State, ⟨s.init, 0⟩, fun fuel => TakeStream.next (s.next fuel) n⟩

def skip (s : Stream T) (n : ℕ) : Stream T :=
  ⟨SkipStream s.State, ⟨s.init, 0⟩, fun fuel => SkipStream.next (s.next fuel) n⟩

def takeWhile (s : Stream T) (pred : T → Bool) : Stream T :=
  ⟨TakeWhileStream s.State, ⟨s.init, false⟩, fun fuel => TakeWhileStream.next (s.next fuel) pred⟩

def chain (s other : Stream T) : Stream T :=
  ⟨ChainStream s.State other.State, ⟨s.init, other.init, false⟩,
    fun fuel => ChainStream.next (s.next fuel) (other.next fuel)⟩

def drain {σ β : Type} (next : Next σ T) (body : β → T → β) : ℕ → β → σ → Except Fault (β × σ)
  | 0, _, _ => .error .fuel
  | fuel + 1, acc, s =>
    match next s with
    | .error e => .error e
    | .ok (none, s) => .ok (acc, s)
    | .ok (some value, s) => drain next body fuel (body acc value) s

def collect (s : Stream T) (fuel : ℕ) : Except Fault (List T) :=
  (drain (s.next fuel) (fun result value => result ++ [value]) fuel [] s.init).map Prod.fst

def count (s : Stream T) (fuel : ℕ) : Except Fault ℕ :=
  (drain (s.next fuel) (fun n _ => n + 1) fuel 0 s.init).map Prod.fst

end Stream

end Pman
