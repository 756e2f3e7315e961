import Mathlib.Data.List.Nodup
import Mathlib.Data.List.Perm.Subperm
import Mathlib.Data.List.Range
import Pman.Lib.TransitionSystem

set_option autoImplicit false

/-!
# `all` and `any`

Both awaiters start a wrapper for each of their tasks in a loop in `await_suspend`. A wrapper that
ends updates a shared state and may call the continuation, which resumes the waiter at once. Tasks
may end while the loop still runs, and in any order; each end is one step.

The awaiter lives in the frame of the waiter. A step of the loop after the waiter was resumed reads
`tasks_` of a destroyed awaiter; the loop is then `late`, and what it does next, which is undefined
in the source, is not modelled. For `void` tasks `T` is `Unit`.

## Main definitions

* `system`: an awaiter with its tasks, for `all` and both kinds of `any`.

## Main results

* `all_joins_once`, `any_reports_winner`: what the waiter obtains, once, in runs that are not late.
* `never_late`: when the loop ends before the waiter goes on.
-/

namespace Pman.Combinators

open TransitionSystem List

variable {T E σ R : Type*}

/-- What the waiter obtains: a value, an exception, or what is behind an empty `optional`. -/
inductive Outcome (R E : Type*)
  | value (r : R)
  | error (e : E)
  | undefined
deriving DecidableEq, Repr

/-- An awaiter: the shared state for a number of tasks, what the end of a wrapper does to it and
whether it calls the continuation, and `await_resume`. -/
structure Awaiter (T E σ R : Type*) where
  init : ℕ → σ
  complete : σ → ℕ → Except E T → σ × Bool
  awaitResume : σ → Outcome R E

/-! ### `AllAwaiter` -/

structure AllState (T E : Type*) where
  completed : ℕ := 0
  hasError : Bool := false
  results : ℕ → Option T := fun _ => none
  error : Option E := none
  total : ℕ

def allAwaiter : Awaiter T E (AllState T E) (List T) where
  init n := { total := n }
  complete s idx result :=
    let s := match result with
      | .ok v => { s with results := Function.update s.results idx (some v) }
      | .error e => if s.hasError then s else { s with hasError := true, error := some e }
    ({ s with completed := s.completed + 1 }, s.completed + 1 == s.total)
  awaitResume s :=
    match s.error with
    | some e => .error e
    | none => .value ((List.range s.total).filterMap s.results)

/-! ### `AnyAwaiter` -/

structure AnyState (T E : Type*) where
  done : Bool := false
  winnerIndex : Option ℕ := none
  result : Option T := none
  error : Option E := none

def AnyState.complete (s : AnyState T E) (idx : ℕ) (result : Except E T) : AnyState T E × Bool :=
  if s.done then (s, false)
  else
    match result with
    | .ok v => ({ s with done := true, winnerIndex := some idx, result := some v }, true)
    | .error e => ({ s with done := true, error := some e }, true)

def anyAwaiter : Awaiter T E (AnyState T E) (ℕ × T) where
  init _ := {}
  complete := AnyState.complete
  awaitResume s :=
    match s.error with
    | some e => .error e
    | none =>
      match s.result with
      | some v => .value (s.winnerIndex.getD 0, v)
      | none => .undefined

def anyVoidAwaiter : Awaiter Unit E (AnyState Unit E) ℕ where
  init _ := {}
  complete := AnyState.complete
  awaitResume s :=
    match s.error with
    | some e => .error e
    | none => .value (s.winnerIndex.getD 0)

def first : Outcome (ℕ × T) E → Outcome T E
  | .value r => .value r.2
  | .error e => .error e
  | .undefined => .undefined

/-- Where `await_suspend` is: before it reads `tasks_.size()`, before it starts a task, at its end,
or after a step that it made though the waiter was resumed. -/
inductive Suspend
  | check (i : ℕ)
  | start (i : ℕ)
  | over
  | late
deriving DecidableEq, Repr

/-- The awaiter, with the tasks that were started and that have finished, oldest first, and what the
waiter has obtained each time it was resumed. -/
structure State (T E σ R : Type*) where
  shared : σ
  suspend : Suspend
  started : List ℕ
  finished : List (ℕ × Except E T)
  resumed : List (Outcome R E)

inductive Act (T E : Type*)
  | suspend
  | finish (i : ℕ) (result : Except E T)

def State.suspendStep (s : State T E σ R) (n : ℕ) : Option (State T E σ R) :=
  match s.suspend with
  | .check i =>
    some { s with
      suspend := if s.resumed.isEmpty then (if i < n then .start i else .over) else .late }
  | .start i =>
    some (if s.resumed.isEmpty then { s with suspend := .check (i + 1), started := s.started ++ [i] }
      else { s with suspend := .late })
  | .over | .late => none

def State.finish (s : State T E σ R) (A : Awaiter T E σ R) (i : ℕ) (result : Except E T) :
    State T E σ R :=
  let next := A.complete s.shared i result
  { s with
    shared := next.1
    finished := s.finished ++ [(i, result)]
    resumed := s.resumed ++ if next.2 then [A.awaitResume next.1] else [] }

/-- An awaiter with `n` tasks. Without tasks it is ready, and the waiter goes on at once. -/
def system (A : Awaiter T E σ R) (n : ℕ) : TransitionSystem (State T E σ R) (Act T E) where
  init s := s =
    { shared := A.init n
      suspend := if n = 0 then .over else .check 0
      started := []
      finished := []
      resumed := if n = 0 then [A.awaitResume (A.init n)] else [] }
  step s
    | .suspend => s.suspendStep n
    | .finish i result =>
      if i ∈ s.started ∧ i ∉ s.finished.map Prod.fst then some (s.finish A i result) else none

/-! ### Invariants -/

/-- The tasks are started in order, and each of them finishes once. -/
structure Sound (n : ℕ) (s : State T E σ R) : Prop where
  started : ∃ k ≤ n, s.started = List.range k ∧
    match s.suspend with
    | .check i => k = i
    | .start i => k = i ∧ i < n
    | .over => k = n
    | .late => True
  nodup : (s.finished.map Prod.fst).Nodup
  subset : ∀ p ∈ s.finished, p.1 < n

variable {A : Awaiter T E σ R} {n : ℕ} {s s' : State T E σ R}

lemma Sound.started_of_over (h : Sound n s) (hover : s.suspend = .over) :
    s.started = List.range n := by
  obtain ⟨k, -, hrange, hpos⟩ := h.started
  rw [hover] at hpos
  rw [hrange, hpos]

lemma Sound.lt_of_started (h : Sound n s) {i : ℕ} (hi : i ∈ s.started) : i < n := by
  obtain ⟨k, hk, hrange, -⟩ := h.started
  rw [hrange, mem_range] at hi
  omega

lemma Sound.suspendStep (h : Sound n s) (hst : s.suspendStep n = some s') : Sound n s' := by
  obtain ⟨k, hk, hrange, hpos⟩ := h.started
  unfold State.suspendStep at hst
  split at hst <;> cases hst
  case h_1 i hi =>
    rw [hi] at hpos
    refine ⟨⟨k, hk, hrange, ?_⟩, h.nodup, h.subset⟩
    split_ifs with h1 h2
    · exact ⟨hpos, h2⟩
    · omega
    · trivial
  case h_2 i hi =>
    rw [hi] at hpos
    obtain ⟨rfl, hlt⟩ := hpos
    split_ifs
    · exact ⟨⟨k + 1, hlt, by simp [hrange, range_succ], rfl⟩, h.nodup, h.subset⟩
    · exact ⟨⟨k, hk, hrange, trivial⟩, h.nodup, h.subset⟩

lemma Sound.finish (h : Sound n s) {i : ℕ} (result : Except E T) (hi : i ∈ s.started)
    (hnew : i ∉ s.finished.map Prod.fst) : Sound n (s.finish A i result) := by
  refine ⟨h.started, ?_, ?_⟩
  · simpa [State.finish] using h.nodup.concat hnew
  · simp only [State.finish, forall_mem_append, forall_mem_singleton]
    exact ⟨h.subset, h.lt_of_started hi⟩

variable {ok : State T E σ R → Act T E → Prop}

/-- **The rule for the shared state**: what the ends of the wrappers keep of it, of the finished
tasks and of the resumptions holds in every run. -/
lemma sound_and {I : σ → List (ℕ × Except E T) → List (Outcome R E) → Prop}
    (h : (system A n).ReachableWithin ok s)
    (h0 : I (A.init n) [] (if n = 0 then [A.awaitResume (A.init n)] else []))
    (hfinish : ∀ {s : State T E σ R} {i : ℕ} (result : Except E T), Sound n s → i < n →
      i ∉ s.finished.map Prod.fst → I s.shared s.finished s.resumed →
      I (s.finish A i result).shared (s.finish A i result).finished
        (s.finish A i result).resumed) : Sound n s ∧ I s.shared s.finished s.resumed := by
  refine h.invariant (I := fun s => Sound n s ∧ I s.shared s.finished s.resumed) ?_ ?_
  · rintro _ rfl
    refine ⟨⟨⟨0, n.zero_le, rfl, ?_⟩, by simp, by simp⟩, h0⟩
    split_ifs with hn
    · exact hn.symm
    · rfl
  · rintro s a s' ⟨hs, hI⟩ - hst
    cases a with
    | suspend =>
      refine ⟨hs.suspendStep hst, ?_⟩
      simp only [system, State.suspendStep] at hst
      split at hst <;> cases hst
      · exact hI
      · split_ifs <;> exact hI
    | finish i result =>
      simp only [system] at hst
      split_ifs at hst with hi
      cases hst
      exact ⟨hs.finish result hi.1 hi.2, hfinish result hs (hs.lt_of_started hi.1) hi.2 hI⟩

lemma Sound.length_eq_iff (h : Sound n s) :
    s.finished.length = n ↔ ∀ i < n, i ∈ s.finished.map Prod.fst := by
  have hsub : s.finished.map Prod.fst ⊆ range n := by
    intro i hi
    obtain ⟨p, hp, rfl⟩ := mem_map.mp hi
    exact mem_range.mpr (h.subset p hp)
  have hperm := subperm_of_subset h.nodup hsub
  constructor
  · intro hlen i hi
    have := hperm.perm_of_length_le (by simp [hlen])
    exact this.mem_iff.mpr (mem_range.mpr hi)
  · intro hall
    have hge := subperm_of_subset nodup_range fun i hi => hall i (mem_range.mp hi)
    simpa using (hperm.antisymm hge).length_eq

lemma not_late (h : (system A n).ReachableWithin ok s)
    (hok : ∀ s, (system A n).ReachableWithin ok s → ok s .suspend → s.resumed = []) :
    s.suspend ≠ .late := by
  refine h.invariant_of (I := fun s => s.suspend ≠ .late) (fun _ => id) ?_ ?_
  · rintro _ rfl
    split_ifs <;> simp
  · intro s a s' hr hlate ha hst
    cases a with
    | suspend =>
      simp only [system, State.suspendStep, hok s hr ha] at hst
      split at hst <;> cases hst
      · simp only [isEmpty_nil, if_true]
        split_ifs <;> simp
      · simp
    | finish i result =>
      simp only [system] at hst
      split_ifs at hst
      cases hst
      exact hlate

/-- Before each step of its loop some task of `all` is unfinished. -/
def SomeUnfinished (n : ℕ) (s : State T E σ R) : Act T E → Prop
  | .suspend => s.finished.length < n
  | .finish _ _ => True

/-- Before each step of its loop no task of `any` has finished. -/
def NoneFinished (n : ℕ) (s : State T E σ R) : Act T E → Prop
  | .suspend => n ≠ 0 ∧ s.finished = []
  | .finish _ _ => True

instance (n : ℕ) (s : State T E σ R) (a : Act T E) :
    Decidable (SomeUnfinished n s a) := by
  cases a <;> dsimp only [SomeUnfinished] <;> infer_instance

instance [DecidableEq T] [DecidableEq E] (n : ℕ) (s : State T E σ R) (a : Act T E) :
    Decidable (NoneFinished n s a) := by
  cases a <;> dsimp only [NoneFinished] <;> infer_instance

/-! ### `all` -/

def thrown : ℕ × Except E T → Option E
  | (_, .error e) => some e
  | (_, .ok _) => none

/-- The shared state of `all` after the tasks `l` have finished. -/
structure AllInv (n : ℕ) (s : AllState T E) (l : List (ℕ × Except E T))
    (resumed : List (Outcome (List T) E)) : Prop where
  completed : s.completed = l.length
  total : s.total = n
  results : ∀ i v, s.results i = some v ↔ (i, .ok v) ∈ l
  error : s.error = l.findSome? thrown
  hasError : s.hasError = s.error.isSome
  resumed : resumed = if l.length = n then [allAwaiter.awaitResume s] else []

lemma allInv_of_reachable {s : State T E (AllState T E) (List T)}
    {ok : State T E (AllState T E) (List T) → Act T E → Prop}
    (h : (system allAwaiter n).ReachableWithin ok s) :
    Sound n s ∧ AllInv n s.shared s.finished s.resumed := by
  refine sound_and h ⟨rfl, rfl, by simp [allAwaiter], rfl, rfl, by simp [eq_comm]⟩ ?_
  intro s i result hs hi hnew hI
  have hlt : s.finished.length ≠ n := fun hlen => hnew (hs.length_eq_iff.mp hlen i hi)
  have hnil : s.resumed = [] := by simpa [hlt] using hI.resumed
  have hnever : ∀ v : T, (i, .ok v) ∉ s.finished := fun v hmem =>
    hnew (mem_map_of_mem (f := Prod.fst) hmem)
  cases result with
  | ok v =>
    refine ⟨by simp [State.finish, allAwaiter, hI.completed], hI.total, fun j w => ?_, ?_, hI.hasError,
      ?_⟩
    · simp only [State.finish, allAwaiter, Function.update_apply, mem_append,
        mem_singleton, Prod.mk.injEq, Except.ok.injEq, ← hI.results]
      split_ifs with hj
      · subst hj
        have := hI.results j w
        simp [hnever] at this
        simp [this, eq_comm]
      · simp [hj]
    · simp [State.finish, allAwaiter, hI.error, findSome?_append, thrown]
    · simp [State.finish, allAwaiter, hnil, hI.completed, hI.total]
  | error e =>
    have hhas := hI.hasError
    rw [hI.error] at hhas
    cases herr : s.finished.findSome? thrown <;> rw [herr] at hhas <;>
      refine ⟨?_, ?_, fun j w => ?_, ?_, ?_, ?_⟩ <;>
      simp [State.finish, allAwaiter, hhas, hI.completed, hI.total, hI.results, hnil, hI.error,
        findSome?_append, herr, thrown]

lemma all_not_late {s : State T E (AllState T E) (List T)}
    (h : (system allAwaiter n).ReachableWithin (SomeUnfinished n) s) : s.suspend ≠ .late :=
  not_late h fun s hr hlt => by rw [(allInv_of_reachable hr).2.resumed, if_neg hlt.ne]

lemma map_some_filterMap {f : ℕ → Option T} {l : List ℕ} (h : ∀ i ∈ l, ∃ v, f i = some v) :
    (l.filterMap f).map some = l.map f := by
  induction l with
  | nil => rfl
  | cons i l ih =>
    obtain ⟨⟨v, hv⟩, hl⟩ := forall_mem_cons.mp h
    simp [hv, ih hl]

/-- **`all` joins exactly once**, if before each step of the loop some task is unfinished: no step of
the loop comes after the waiter, the waiter is resumed at most once, and it has been as soon as all
tasks have finished, not before. It obtains the exception of the task that failed first, or else the
values of all tasks in the order of the vector. -/
theorem all_joins_once {s : State T E (AllState T E) (List T)}
    (h : (system allAwaiter n).ReachableWithin (SomeUnfinished n) s) :
    s.suspend ≠ .late ∧ s.resumed.length ≤ 1 ∧
    (s.resumed.length = 1 ↔ ∀ i < n, i ∈ s.finished.map Prod.fst) ∧
    ∀ outcome ∈ s.resumed,
      match s.finished.findSome? thrown with
      | some e => outcome = .error e
      | none => ∃ values : List T, outcome = .value values ∧ values.length = n ∧
        ∀ i v, values[i]? = some v ↔ (i, .ok v) ∈ s.finished := by
  obtain ⟨hs, hI⟩ := allInv_of_reachable h
  refine ⟨all_not_late h, ?_⟩
  rw [← hs.length_eq_iff, hI.resumed]
  split_ifs with hlen
  · refine ⟨by simp, by simp [hlen], fun outcome hout => ?_⟩
    obtain rfl := mem_singleton.mp hout
    simp only [allAwaiter, hI.error, hI.total]
    split
    case h_1 e he => rfl
    case h_2 hnone =>
      -- every task has finished with a value, so nothing is dropped from `results`
      have hvalue : ∀ i ∈ range n, ∃ v, s.shared.results i = some v := by
        intro i hi
        obtain ⟨⟨j, r⟩, hp, rfl⟩ := mem_map.mp (hs.length_eq_iff.mp hlen i (mem_range.mp hi))
        have hr := findSome?_eq_none_iff.mp hnone _ hp
        cases r with
        | ok v => exact ⟨v, (hI.results j v).mpr hp⟩
        | error e => cases hr
      have hmap := map_some_filterMap hvalue
      refine ⟨_, rfl, by simpa using congrArg length hmap, fun i v => ?_⟩
      have hget := congrArg (·[i]? = some (some v)) hmap
      have hlt : (i, .ok v) ∈ s.finished → i < n := hs.subset _
      simpa [getElem?_eq_some_iff, hI.results, and_iff_right_of_imp hlt] using hget
  · exact ⟨by simp, by simp [hlen], by simp⟩

/-- Three tasks that end in another order, one of them while the loop runs. -/
theorem all_joins_once_order : ∃ s : State ℕ Unit (AllState ℕ Unit) (List ℕ),
    (system allAwaiter 3).ReachableWithin (SomeUnfinished 3) s ∧
      s.resumed = [.value [10, 11, 12]] ∧ s.resumed.length ≤ 1 := by
  obtain ⟨s, h, hres⟩ : ∃ s, (system (allAwaiter (E := Unit)) 3).ReachableWithin
      (SomeUnfinished 3) s ∧ s.resumed = [.value [10, 11, 12]] :=
    reached_by _
      [.suspend, .suspend, .suspend, .suspend, .finish 1 (.ok 11), .suspend, .suspend, .suspend,
        .finish 2 (.ok 12), .finish 0 (.ok 10)] rfl (by decide)
  exact ⟨s, h, hres, (all_joins_once h).2.1⟩

/-- **The loop of `all` goes on over a destroyed awaiter** when the last unfinished task ends within
its start: the waiter has been resumed, and the next step of the loop reads `tasks_`. -/
theorem all_goes_on : ∃ s : State ℕ Unit (AllState ℕ Unit) (List ℕ),
    (system allAwaiter 2).Reachable s ∧ s.suspend = .late ∧ s.started = [0, 1] ∧
      s.resumed = [.value [10, 11]] :=
  reached_by _ [.suspend, .suspend, .finish 0 (.ok 10), .suspend, .suspend, .finish 1 (.ok 11),
    .suspend] rfl (by decide)

/-! ### `any` -/

/-- The shared state of `any`, by the task that has finished first. -/
def winner : Option (ℕ × Except E T) → AnyState T E
  | none => {}
  | some p => (AnyState.complete {} p.1 p.2).1

lemma any_of_reachable {A : Awaiter T E (AnyState T E) R} {s : State T E (AnyState T E) R}
    {ok : State T E (AnyState T E) R → Act T E → Prop} (hinit : A.init n = {})
    (hcomplete : A.complete = AnyState.complete) (h : (system A n).ReachableWithin ok s) :
    Sound n s ∧ s.shared = winner s.finished.head? ∧
      s.resumed = if n = 0 then [A.awaitResume {}]
        else s.finished.head?.toList.map fun p => A.awaitResume (winner (some p)) := by
  refine sound_and (I := fun s l rs => s = winner l.head? ∧ rs = if n = 0 then [A.awaitResume {}]
    else l.head?.toList.map fun p => A.awaitResume (winner (some p))) h ⟨hinit, by simp [hinit]⟩ ?_
  rintro s i result - hi - ⟨hshared, hres⟩
  have hn : n ≠ 0 := by omega
  simp only [State.finish, hcomplete, hshared, hres, hn, if_false]
  cases hf : s.finished with
  | nil => cases result <;> simp [winner, AnyState.complete]
  | cons p l =>
    obtain ⟨j, r⟩ := p
    cases r <;> simp [winner, AnyState.complete]

lemma any_not_late {A : Awaiter T E (AnyState T E) R} {s : State T E (AnyState T E) R}
    (hinit : A.init n = {}) (hcomplete : A.complete = AnyState.complete)
    (h : (system A n).ReachableWithin (NoneFinished n) s) : s.suspend ≠ .late :=
  not_late h fun s hr hnone => by
    rw [(any_of_reachable hinit hcomplete hr).2.2, if_neg hnone.1, hnone.2]
    rfl

def report : ℕ × Except E T → Outcome (ℕ × T) E
  | (i, .ok v) => .value (i, v)
  | (_, .error e) => .error e

/-- **`any` and `first` report the winner**, for at least one task, and if no task has finished
before a step of the loop: no step of the loop comes after the waiter, and the waiter is resumed
once, by the task that finishes first, with its index and value or its exception; later ends have no
effect. For `void` tasks this includes no task at all, where the index is zero. -/
theorem any_reports_winner (hn : n ≠ 0) {s : State T E (AnyState T E) (ℕ × T)}
    (h : (system anyAwaiter n).ReachableWithin (NoneFinished n) s) {k : ℕ}
    {v : State Unit E (AnyState Unit E) ℕ}
    (hv : (system anyVoidAwaiter k).ReachableWithin (NoneFinished k) v) :
    s.suspend ≠ .late ∧ v.suspend ≠ .late ∧
    s.resumed = s.finished.head?.toList.map report ∧
    s.resumed.map first = s.finished.head?.toList.map (fun p => first (report p)) ∧
    v.resumed = if k = 0 then [.value 0] else v.finished.head?.toList.map fun p =>
      match report p with
      | .value r => .value r.1
      | .error e => .error e
      | .undefined => .undefined := by
  have hs : s.resumed = s.finished.head?.toList.map report := by
    rw [(any_of_reachable rfl rfl h).2.2, if_neg hn]
    refine map_congr_left ?_
    rintro ⟨_, _ | _⟩ - <;> rfl
  refine ⟨any_not_late rfl rfl h, any_not_late rfl rfl hv, hs, by simp [hs], ?_⟩
  rw [(any_of_reachable rfl rfl hv).2.2]
  congr 1
  refine map_congr_left ?_
  rintro ⟨_, _ | _⟩ - <;> rfl

/-- The second of two tasks ends first, and an empty vector of void tasks. -/
theorem any_reports_winner_second :
    (∃ s : State ℕ Unit (AnyState ℕ Unit) (ℕ × ℕ),
      (system anyAwaiter 2).ReachableWithin (NoneFinished 2) s ∧ s.finished.length = 2 ∧
      s.resumed = [.value (1, 11)]) ∧
    ∃ v : State Unit Unit (AnyState Unit Unit) ℕ,
      (system anyVoidAwaiter 0).ReachableWithin (NoneFinished 0) v ∧ v.resumed = [.value 0] := by
  obtain ⟨s, h, hf⟩ : ∃ s, (system (anyAwaiter (T := ℕ) (E := Unit)) 2).ReachableWithin
      (NoneFinished 2) s ∧ s.finished.length = 2 ∧
      s.finished.head?.toList.map report = [.value (1, 11)] :=
    reached_by _
      [.suspend, .suspend, .suspend, .suspend, .suspend, .finish 1 (.ok 11), .finish 0 (.error ())]
      rfl (by decide)
  have hinit : (system (anyVoidAwaiter (E := Unit)) 0).ReachableWithin (NoneFinished 0) _ :=
    .init rfl
  obtain ⟨-, -, hs, -, hv⟩ := any_reports_winner (by decide) h hinit
  exact ⟨⟨s, h, hf.1, hs.trans hf.2⟩, ⟨_, hinit, hv⟩⟩

/-- **An absent result is dereferenced** for an empty vector, and with a task that ends within its
start the loop goes on over a destroyed awaiter. -/
theorem any_empty_undefined :
    (∃ s : State ℕ Unit (AnyState ℕ Unit) (ℕ × ℕ), (system anyAwaiter 0).Reachable s ∧
      s.resumed = [.undefined]) ∧
    ∃ s : State ℕ Unit (AnyState ℕ Unit) (ℕ × ℕ), (system anyAwaiter 3).Reachable s ∧
      s.suspend = .late ∧ s.started = [0, 1] ∧ s.resumed = [.value (1, 11)] :=
  ⟨⟨_, .init rfl, rfl⟩,
    reached_by _ [.suspend, .suspend, .suspend, .suspend, .finish 1 (.ok 11), .suspend] rfl
      (by decide)⟩

/-! ### The loop of `await_suspend` -/

/-- **Starting ends before the waiter goes on**, if before each step of the loop some task of `all`
is unfinished, and no task of `any` (for values or `void`) has finished: no step of `await_suspend`
comes after the resumption, and at its end every task was started once, in order. -/
theorem never_late {s : State T E (AllState T E) (List T)}
    (hs : (system allAwaiter n).ReachableWithin (SomeUnfinished n) s)
    {A : Awaiter T E (AnyState T E) R} (hinit : A.init n = {})
    (hcomplete : A.complete = AnyState.complete) {v : State T E (AnyState T E) R}
    (hv : (system A n).ReachableWithin (NoneFinished n) v) :
    (s.suspend ≠ .late ∧ (s.suspend = .over → s.started = List.range n)) ∧
    (v.suspend ≠ .late ∧ (v.suspend = .over → v.started = List.range n)) := by
  refine ⟨⟨all_not_late hs, fun hover => ?_⟩, ⟨any_not_late hinit hcomplete hv, fun hover => ?_⟩⟩
  · exact (allInv_of_reachable hs).1.started_of_over hover
  · exact (any_of_reachable hinit hcomplete hv).1.started_of_over hover

/-- Two tasks, one of which ends while the loop of `all` still runs. -/
theorem never_late_two : ∃ (s : State ℕ Unit (AllState ℕ Unit) (List ℕ))
    (v : State ℕ Unit (AnyState ℕ Unit) (ℕ × ℕ)),
    (system allAwaiter 2).ReachableWithin (SomeUnfinished 2) s ∧
    (system anyAwaiter 2).ReachableWithin (NoneFinished 2) v ∧
    s.finished.length = 2 ∧ v.finished.length = 1 ∧ s.suspend ≠ .late ∧ v.suspend ≠ .late := by
  obtain ⟨s, hs, hf⟩ : ∃ s, (system (allAwaiter (T := ℕ) (E := Unit)) 2).ReachableWithin
      (SomeUnfinished 2) s ∧ s.finished.length = 2 :=
    reached_by _ [.suspend, .suspend, .finish 0 (.ok 10), .suspend, .suspend,
      .suspend, .finish 1 (.ok 11)] rfl (by decide)
  obtain ⟨v, hv, hf'⟩ : ∃ v, (system (anyAwaiter (T := ℕ) (E := Unit)) 2).ReachableWithin
      (NoneFinished 2) v ∧ v.finished.length = 1 :=
    reached_by _ [.suspend, .suspend, .suspend, .suspend, .suspend,
      .finish 1 (.ok 11)] rfl (by decide)
  obtain ⟨h, h'⟩ := never_late hs rfl rfl hv
  exact ⟨s, v, hs, hv, hf, hf', h.1, h'.1⟩

/-- **The loop goes on after the waiter**: it reads `tasks_` after the only task of `all` has ended
within its start, and so it does for the first of two tasks of `any`, with the second left. -/
theorem late_after_resumption :
    (∃ s : State ℕ Unit (AllState ℕ Unit) (List ℕ), (system allAwaiter 1).Reachable s ∧
      s.suspend = .late) ∧
    ∃ v : State ℕ Unit (AnyState ℕ Unit) (ℕ × ℕ), (system anyAwaiter 2).Reachable v ∧
      v.suspend = .late ∧ v.started = [0] :=
  ⟨reached_by _ [.suspend, .suspend, .finish 0 (.ok 10), .suspend] rfl (by decide),
    reached_by _ [.suspend, .suspend, .finish 0 (.ok 10), .suspend] rfl (by decide)⟩

end Pman.Combinators
