import Pman.Async.StreamFollows

set_option autoImplicit false

/-!
# Pipelines of streams

A pipeline is built from vectors with `map`, `filter`, `take`, `skip`, `takeWhile` and `chain`. It
denotes a list, by the list functions of the same names. Its stream follows that list call by call,
as long as the calls find every object alive that they need: the combinators do not own their
sources, and a pipeline that is written as one chain of calls, as in the example that documents
`Stream`, has dropped all of them but the last when it is first used.

## Main results

* `follows`: a pipeline follows its list.
* `computes_iff_serves`: when a terminal operation computes it.
-/

namespace Pman

namespace Streams

open Producer

variable {σ T : Type}

/-! ### Consumers and counters -/

lemma drain_eq {β : Type} {next : ℕ → Next σ T} {bound : ℕ} {s : σ} {l : List T}
    {safe : ℕ → Prop} (h : Follows Fault.dangling next bound s l safe)
    (hsafe : safe (l.length + 1)) (body : β → T → β) (acc : β) {fuel rounds : ℕ}
    (hfuel : bound ≤ fuel) (hrounds : l.length < rounds) :
    ∃ s', Stream.drain (next fuel) body rounds acc s = .ok (l.foldl body acc, s') := by
  obtain ⟨rounds, rfl⟩ := Nat.exists_eq_succ_of_ne_zero (Nat.ne_of_gt (Nat.zero_lt_of_lt hrounds))
  induction l generalizing s safe acc rounds with
  | nil =>
    obtain ⟨s', hnext, -⟩ := h.unfold.gives hsafe
    exact ⟨s', by simp [Stream.drain, hnext fuel hfuel]⟩
  | cons x l ih =>
    obtain ⟨hclosed, -, hgives⟩ := h.unfold
    obtain ⟨s', hnext, hrest⟩ := hgives (hclosed.mono (Nat.le_add_left 1 _) hsafe)
    rw [List.length_cons] at hrounds
    obtain ⟨k, rfl⟩ := Nat.exists_eq_succ_of_ne_zero (by omega : rounds ≠ 0)
    obtain ⟨s'', hdrain⟩ := ih hrest hsafe (body acc x) k (by omega)
    refine ⟨s'', ?_⟩
    rw [Stream.drain, hnext fuel hfuel]
    exact hdrain

def counted (source : Next σ T) : Next (σ × ℕ) T := fun s =>
  match source s.1 with
  | .error e => .error e
  | .ok (value, source) => .ok (value, (source, s.2 + 1))

lemma counted_ok {source : Next σ T} {s s' : σ × ℕ} {value : Option T}
    (h : counted source s = .ok (value, s')) : s'.2 = s.2 + 1 := by
  unfold counted at h
  split at h <;> cases h
  rfl

variable {values : List (Option T)}

lemma calls_invariant {next : Next σ T} {P : List (Option T) → σ → Prop}
    (hstep : ∀ values s value s', P values s → next s = .ok (value, s') →
      P (values ++ [value]) s') {m : ℕ} {s s' : σ} (before : List (Option T)) (hs : P before s)
    (h : calls next m s = .ok (values, s')) : P (before ++ values) s' := by
  induction m generalizing s before values with
  | zero =>
    cases h
    simpa using hs
  | succ m ih =>
    simp only [calls] at h
    split at h
    · cases h
    · rename_i value s₁ hnext
      split at h
      · cases h
      · rename_i rest s₂ hcalls
        cases h
        simpa using ih _ (hstep _ _ _ _ hs hnext) hcalls

lemma take_pulls (source : Next σ T) (n m : ℕ) (s : σ) {s' : TakeStream (σ × ℕ)}
    (h : calls (TakeStream.next (counted source) n) m ⟨(s, 0), 0⟩ = .ok (values, s')) :
    s'.source_.2 ≤ n := by
  have hinv : s'.source_.2 = s'.count_ ∧ s'.count_ ≤ n := by
    refine calls_invariant (P := fun _ s => s.source_.2 = s.count_ ∧ s.count_ ≤ n) ?_
      [] ⟨rfl, Nat.zero_le n⟩ h
    rintro _ ⟨⟨source₁, pulled⟩, count⟩ value t ⟨heq, hle⟩ hnext
    dsimp only at heq hle
    unfold TakeStream.next at hnext
    split at hnext
    · cases hnext
      exact ⟨heq, hle⟩
    · split at hnext
      · cases hnext
      · rename_i hlt _ _ _ hcounted
        cases hnext
        have hone := counted_ok hcounted
        dsimp only at hlt hone ⊢
        omega
  omega

lemma takeWhile_pulls (source : Next σ T) (pred : T → Bool) (m : ℕ) (s : σ)
    {s' : TakeWhileStream (σ × ℕ)}
    (h : calls (TakeWhileStream.next (counted source) pred) m ⟨(s, 0), false⟩ = .ok (values, s')) :
    s'.source_.2 ≤ values.countP Option.isSome + 1 := by
  have hinv : s'.source_.2 = values.countP Option.isSome + s'.done_.toNat := by
    refine calls_invariant
      (P := fun values s => s.source_.2 = values.countP Option.isSome + s.done_.toNat) ?_
      [] rfl h
    rintro values ⟨⟨source₁, pulled⟩, done⟩ value t heq hnext
    dsimp only at heq
    unfold TakeWhileStream.next at hnext
    rw [List.countP_append, List.countP_singleton]
    split at hnext
    · cases hnext
      simpa using heq
    · rename_i hdone
      obtain rfl : done = false := by simpa using hdone
      split at hnext
      · cases hnext
      · rename_i hcounted
        cases hnext
        simpa [heq] using counted_ok hcounted
      · rename_i hcounted
        have hone := counted_ok hcounted
        split at hnext <;> cases hnext <;> simpa [heq] using hone
  have := Bool.toNat_le s'.done_
  omega

end Streams

open Streams Producer

/-! ### Pipelines -/

/-- **A pipeline**: how a stream was built. Every source that is not owned comes with its
lifetime. -/
inductive Pipeline : Type → Type 1
  | vector {T : Type} (values : List T) : Pipeline T
  | map {T U : Type} (source : Pipeline T) (lifetime : ℕ∞) (func : T → U) : Pipeline U
  | filter {T : Type} (source : Pipeline T) (lifetime : ℕ∞) (pred : T → Bool) : Pipeline T
  | take {T : Type} (source : Pipeline T) (lifetime : ℕ∞) (n : ℕ) : Pipeline T
  | skip {T : Type} (source : Pipeline T) (lifetime : ℕ∞) (n : ℕ) : Pipeline T
  | takeWhile {T : Type} (source : Pipeline T) (lifetime : ℕ∞) (pred : T → Bool) : Pipeline T
  | chain {T : Type} (first : Pipeline T) (lifetime : ℕ∞) (second : Pipeline T) : Pipeline T

namespace Pipeline

def stream : {T : Type} → Pipeline T → Stream T
  | _, vector values => .fromVector values
  | _, map source lifetime func => (source.stream.borrow lifetime).map func
  | _, filter source lifetime pred => (source.stream.borrow lifetime).filter pred
  | _, take source lifetime n => (source.stream.borrow lifetime).take n
  | _, skip source lifetime n => (source.stream.borrow lifetime).skip n
  | _, takeWhile source lifetime pred => (source.stream.borrow lifetime).takeWhile pred
  | _, chain first lifetime second => (first.stream.borrow lifetime).chain second.stream

def denote : {T : Type} → Pipeline T → List T
  | _, vector values => values
  | _, map source _ func => source.denote.map func
  | _, filter source _ pred => source.denote.filter pred
  | _, take source _ n => source.denote.take n
  | _, skip source _ n => source.denote.drop n
  | _, takeWhile source _ pred => source.denote.takeWhile pred
  | _, chain first _ second => first.denote ++ second.denote

/-- **`m` calls of `next()` reach only objects that are alive.** -/
def Serves : {T : Type} → Pipeline T → ℕ → Prop
  | _, vector _ => fun _ => True
  | _, map source lifetime _ => Reaches lifetime source.Serves
  | _, filter source lifetime pred => fun m =>
    Reaches lifetime source.Serves (filterPulls pred source.denote m)
  | _, take source lifetime n => fun m => Reaches lifetime source.Serves (min m n)
  | _, skip source lifetime n => fun m =>
    Reaches lifetime source.Serves (skipPulls n source.denote.length m)
  | _, takeWhile source lifetime pred => fun m =>
    Reaches lifetime source.Serves (min m ((source.denote.takeWhile pred).length + 1))
  | _, chain first lifetime second => fun m =>
    Reaches lifetime first.Serves (min m (first.denote.length + 1)) ∧
      second.Serves (m - first.denote.length)

/-- **A pipeline follows its list.** -/
theorem follows {T : Type} (p : Pipeline T) :
    ∃ bound, Follows Fault.dangling p.stream.next bound p.stream.init p.denote p.Serves := by
  induction p with
  | vector values => exact ⟨0, follows_vector values⟩
  | map source lifetime func ih =>
    obtain ⟨bound, h⟩ := ih
    exact ⟨bound, follows_map (follows_borrowed h lifetime) func⟩
  | filter source lifetime pred ih =>
    obtain ⟨bound, h⟩ := ih
    exact ⟨_, follows_filter (follows_borrowed h lifetime) pred⟩
  | take source lifetime n ih =>
    obtain ⟨bound, h⟩ := ih
    exact ⟨bound, follows_take (follows_borrowed h lifetime) n⟩
  | skip source lifetime n ih =>
    obtain ⟨bound, h⟩ := ih
    exact ⟨bound, follows_skip (follows_borrowed h lifetime) n⟩
  | takeWhile source lifetime pred ih =>
    obtain ⟨bound, h⟩ := ih
    exact ⟨bound, follows_takeWhile (follows_borrowed h lifetime) pred⟩
  | chain first lifetime second ih₁ ih₂ =>
    obtain ⟨bound₁, h₁⟩ := ih₁
    obtain ⟨bound₂, h₂⟩ := ih₂
    exact ⟨max bound₁ bound₂, follows_chain
      ((follows_borrowed h₁ lifetime).mono (Nat.le_max_left _ _)) (h₂.mono (Nat.le_max_right _ _))⟩

def Kept : {T : Type} → Pipeline T → Prop
  | _, vector _ => True
  | _, map source lifetime _ | _, filter source lifetime _ | _, take source lifetime _
  | _, skip source lifetime _ | _, takeWhile source lifetime _ => lifetime = ⊤ ∧ source.Kept
  | _, chain first lifetime second => lifetime = ⊤ ∧ first.Kept ∧ second.Kept

lemma Kept.serves {T : Type} {p : Pipeline T} (h : p.Kept) (m : ℕ) : p.Serves m := by
  induction p generalizing m with
  | vector _ => trivial
  | map source lifetime func ih | filter source lifetime pred ih | take source lifetime n ih
  | skip source lifetime n ih | takeWhile source lifetime pred ih =>
    obtain ⟨rfl, hsource⟩ := h
    exact ⟨le_top, ih hsource _⟩
  | chain first lifetime second ih₁ ih₂ =>
    obtain ⟨rfl, hfirst, hsecond⟩ := h
    exact ⟨⟨le_top, ih₁ hfirst _⟩, ih₂ hsecond _⟩

/-- **A stream computes the list of its pipeline**: `collect()` returns it, the calls of `next()`
give its elements in order, and after a `nullopt` only `nullopt`. -/
def Computes {T : Type} (p : Pipeline T) : Prop :=
  (∃ bound, ∀ fuel, bound ≤ fuel → p.stream.collect fuel = .ok p.denote) ∧
    ∀ m, ∃ bound, ∀ fuel, bound ≤ fuel → ∃ values s',
      calls (p.stream.next fuel) m p.stream.init = .ok (values, s') ∧
        (∀ i < m, values[i]? = some p.denote[i]?) ∧
          ∀ i j, i ≤ j → j < m → values[i]? = some none → values[j]? = some none

/-- **A pipeline computes its list exactly when every object that its calls reach is alive**, and
whatever its source, `take(n)` pulls at most `n` elements and `takeWhile` at most one more than it
returns.

**Proof sketch.** The stream follows the list (`Pipeline.follows`): safe calls give its elements,
and too many calls fail. If all numbers of calls are safe then so are those that `collect` makes.
The counts are invariants of the calls. -/
theorem computes_iff_serves {T : Type} (p : Pipeline T) :
    (p.Computes ↔ ∀ m, p.Serves m) ∧
    (∀ {σ : Type} (source : Next σ T) (n m : ℕ) (s : σ) (values : List (Option T))
      (s' : TakeStream (σ × ℕ)),
      calls (TakeStream.next (counted source) n) m ⟨(s, 0), 0⟩ = .ok (values, s') →
        s'.source_.2 ≤ n) ∧
    ∀ {σ : Type} (source : Next σ T) (pred : T → Bool) (m : ℕ) (s : σ)
      (values : List (Option T)) (s' : TakeWhileStream (σ × ℕ)),
      calls (TakeWhileStream.next (counted source) pred) m ⟨(s, 0), false⟩ = .ok (values, s') →
        s'.source_.2 ≤ values.countP Option.isSome + 1 := by
  refine ⟨?_, fun source n m s values s' => take_pulls source n m s,
    fun source pred m s values s' => takeWhile_pulls source pred m s⟩
  obtain ⟨bound, h⟩ := p.follows
  constructor
  · rintro ⟨-, hcalls⟩ m
    by_contra hm
    obtain ⟨bound', hcalls⟩ := hcalls m
    obtain ⟨values, s', hok, -⟩ := hcalls (max bound bound') (Nat.le_max_right _ _)
    simp [h.calls_error hm (Nat.le_max_left _ _)] at hok
  · intro hserves
    refine ⟨⟨max bound (p.denote.length + 1), fun fuel hfuel => ?_⟩, fun m => ?_⟩
    · obtain ⟨s', hdrain⟩ := drain_eq h (hserves _) (fun result value => result ++ [value]) []
        (by omega : bound ≤ fuel) (by omega : p.denote.length < fuel)
      have hresult : p.denote.foldl (fun result value => result ++ [value]) [] = p.denote := by
        simp [← List.flatMap_def]
      rw [Stream.collect, hdrain, hresult]
      rfl
    · obtain ⟨s', hok⟩ := h.calls_ok (hserves m)
      refine ⟨bound, fun fuel hfuel => ⟨_, s', hok fuel hfuel, fun i hi => ?_, ?_⟩⟩
      · simp [answers, List.getElem?_range hi]
      · exact fun i j hij hj => answers_getElem?_none hij hj

/-- The evens among `1, 2, 3, 4`, of which one is taken, with all streams kept; the count of `take`
after three calls of it. -/
theorem computes_take_filter :
    (take (filter (chain (vector [1, 2]) ⊤ (vector [3, 4])) ⊤ (· % 2 == 0)) ⊤ 1).Computes ∧
      ∀ values s', calls (TakeStream.next (counted VectorStream.next) 1) 3
        ⟨((⟨[7, 8], 0⟩ : VectorStream ℕ), 0), 0⟩ = .ok (values, s') → s'.source_.2 ≤ 1 :=
  ⟨(computes_iff_serves _).1.mpr (Kept.serves ⟨rfl, rfl, rfl, trivial, trivial⟩),
    fun values s' => (computes_iff_serves (vector [7, 8])).2.1 _ 1 3 _ values s'⟩

/-- `Stream<int>::fromVector({1, 2, 3})->map(f)`: the vector stream is gone when `collect()` calls
it. -/
theorem collect_dangling :
    ¬ (map (vector [1, 2, 3]) 0 (· + 1)).Computes ∧
      ∀ fuel, (map (vector [1, 2, 3]) 0 (· + 1)).stream.collect (fuel + 1) = .error .dangling := by
  refine ⟨fun h => ?_, fun fuel => rfl⟩
  obtain ⟨bound, h⟩ := h.1
  have hfuel := h (bound + 1) (Nat.le_succ bound)
  cases hfuel

end Pipeline

end Pman
