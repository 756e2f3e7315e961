import Mathlib.Data.Finset.Basic
import Mathlib.Data.Fintype.Defs
import Pman.Lib.TransitionSystem

set_option autoImplicit false

/-!
# Programs that lock mutexes, and self-deadlock

A small language for code that takes and releases non-recursive mutexes, works on a shared memory
and hands control to foreign code. Threads run such programs in any interleaving; foreign code, and
a thread without work, may start any operation.

A thread deadlocks with itself when it is about to lock a mutex it owns. `Prog.Safe` is a condition
on the text of a program that rules this out. It takes the mutexes held on entry and follows every
path, where a path may be cut off by a condition on the state at a labelled site; so it also covers
the runs that never take certain branches. `Prog.Keeps` is such a condition for the memory: what
every access on every path keeps is an invariant of all interleavings.

## Main results

* `not_selfDeadlock`: safe programs do not deadlock with themselves.
* `rank_lt_of_wants`: ordered programs lock upwards.
-/

namespace LockProgram

open Function

universe u v w x

/-- Programs over mutexes `μ`, a shared memory `σ`, an input `ε` read by every access, and labels
`θ` of program points. -/
inductive Prog (μ : Type u) (σ : Type v) (ε : Type w) (θ : Type x)
  | done
  | lock (m : μ) (k : Prog μ σ ε θ)
  | unlock (m : μ) (k : Prog μ σ ε θ)
  /-- One atomic access: the new memory and the rest of the program depend on the input and the
  memory found. -/
  | act (site : θ) (f : ε → σ → σ) (k : ε → σ → Prog μ σ ε θ)
  | callout (site : θ) (k : Prog μ σ ε θ)

variable {μ : Type u} {σ : Type v} {ε : Type w} {θ : Type x}

namespace Prog

def wants : Prog μ σ ε θ → Option μ
  | .lock m _ => some m
  | _ => none

end Prog

/-- The memory, the owner of each mutex, and for each thread the operation it runs above those
whose foreign code called it. -/
structure Config (μ : Type u) (σ : Type v) (ε : Type w) (θ : Type x) (ι : Type*) where
  mem : σ
  owner : μ → Option ι
  stack : ι → List (Prog μ σ ε θ)

inductive Choice (ε : Type w) (ω : Type*)
  /-- Start an operation: the thread has nothing to do, or runs foreign code. -/
  | start (op : ω)
  | go (input : ε)

section Semantics

variable {ι : Type*} {ω : Type*} [DecidableEq μ] [DecidableEq ι]

def Config.setStack (c : Config μ σ ε θ ι) (t : ι) (ps : List (Prog μ σ ε θ)) :
    Config μ σ ε θ ι :=
  { c with stack := update c.stack t ps }

def step (ops : ω → Prog μ σ ε θ) (c : Config μ σ ε θ ι) :
    ι × Choice ε ω → Option (Config μ σ ε θ ι)
  | (t, .start op) =>
    match c.stack t with
    | [] => some (c.setStack t [ops op])
    | .callout site k :: rest => some (c.setStack t (ops op :: .callout site k :: rest))
    | _ => none
  | (t, .go input) =>
    match c.stack t with
    | [] => none
    | .done :: rest => some (c.setStack t rest)
    | .lock m k :: rest =>
      if c.owner m = none then
        some { c.setStack t (k :: rest) with owner := update c.owner m (some t) }
      else none
    | .unlock m k :: rest =>
      some { c.setStack t (k :: rest) with owner := update c.owner m none }
    | .act _ f k :: rest =>
      some { c.setStack t (k input c.mem :: rest) with mem := f input c.mem }
    | .callout _ k :: rest => some (c.setStack t (k :: rest))

section Steps

variable (ops : ω → Prog μ σ ε θ) {c : Config μ σ ε θ ι} {t : ι} {rest : List (Prog μ σ ε θ)}

lemma step_start (h : c.stack t = []) (op : ω) :
    step ops c (t, .start op) = some (c.setStack t [ops op]) := by
  simp only [step, h]

variable {m : μ} {k : Prog μ σ ε θ}

lemma step_lock (h : c.stack t = .lock m k :: rest) (hfree : c.owner m = none) (input : ε) :
    step ops c (t, .go input) =
      some { c.setStack t (k :: rest) with owner := update c.owner m (some t) } := by
  simp only [step, h, if_pos hfree]

lemma step_unlock (h : c.stack t = .unlock m k :: rest) (input : ε) :
    step ops c (t, .go input) =
      some { c.setStack t (k :: rest) with owner := update c.owner m none } := by
  simp only [step, h]

lemma step_act {site : θ} {f : ε → σ → σ} {k : ε → σ → Prog μ σ ε θ}
    (h : c.stack t = .act site f k :: rest) (input : ε) :
    step ops c (t, .go input) =
      some { c.setStack t (k input c.mem :: rest) with mem := f input c.mem } := by
  simp only [step, h]

end Steps

def initial (mem : σ) : Config μ σ ε θ ι where
  mem := mem
  owner := fun _ => none
  stack := fun _ => []

/-- Threads that run the operations `ops` from memories in `init`. -/
def system (ι : Type*) [DecidableEq ι] (ops : ω → Prog μ σ ε θ) (init : σ → Prop) :
    TransitionSystem (Config μ σ ε θ ι) (ι × Choice ε ω) where
  init c := ∃ mem, init mem ∧ c = initial mem
  step := step ops

def SelfDeadlock (c : Config μ σ ε θ ι) (t : ι) : Prop :=
  ∃ m, (c.stack t).head?.bind Prog.wants = some m ∧ c.owner m = some t

instance [Fintype μ] (c : Config μ σ ε θ ι) (t : ι) : Decidable (SelfDeadlock c t) :=
  inferInstanceAs (Decidable (∃ m, (c.stack t).head?.bind Prog.wants = some m ∧ _))

/-- The condition on steps: accesses at a site are made only in memories allowed by `A`, and
foreign code at a site calls operations only if `B` allows it. -/
def StepOk (A : θ → σ → Prop) (B : θ → Prop) (c : Config μ σ ε θ ι) :
    ι × Choice ε ω → Prop
  | (t, .start _) =>
    match c.stack t with
    | .callout site _ :: _ => B site
    | _ => True
  | (t, .go _) =>
    match c.stack t with
    | .act site _ _ :: _ => A site c.mem
    | _ => True

instance (A : θ → σ → Prop) (B : θ → Prop) [∀ site s, Decidable (A site s)] [DecidablePred B]
    (c : Config μ σ ε θ ι) : ∀ a : ι × Choice ε ω, Decidable (StepOk A B c a)
  | (t, .start _) =>
    match h : c.stack t with
    | .callout site _ :: _ => decidable_of_iff (B site) (by simp only [StepOk, h])
    | [] | .done :: _ | .lock _ _ :: _ | .unlock _ _ :: _ | .act _ _ _ :: _ =>
      isTrue (by simp only [StepOk, h])
  | (t, .go _) =>
    match h : c.stack t with
    | .act site _ _ :: _ => decidable_of_iff (A site c.mem) (by simp only [StepOk, h])
    | [] | .done :: _ | .lock _ _ :: _ | .unlock _ _ :: _ | .callout _ _ :: _ =>
      isTrue (by simp only [StepOk, h])

end Semantics

/-! ### Safe programs -/

variable {ps : List (Prog μ σ ε θ)} {init : σ → Prop}

section Safety

variable [DecidableEq μ]

/-- No path of the program, entered with the mutexes `held`, locks a mutex it holds, releases one
it does not hold, ends with one held, or calls foreign code that may call operations with one
held. Paths are followed only through accesses that `A` allows. -/
def Prog.Safe (A : θ → σ → Prop) (B : θ → Prop) : Finset μ → Prog μ σ ε θ → Prop
  | held, .done => held = ∅
  | held, .lock m k => m ∉ held ∧ Safe A B (insert m held) k
  | held, .unlock m k => m ∈ held ∧ Safe A B (held.erase m) k
  | held, .act site _ k => ∀ input s, A site s → Safe A B held (k input s)
  | held, .callout site k => (B site → held = ∅) ∧ Safe A B held k

variable {m : μ}

lemma Prog.safe_unlock_insert {A : θ → σ → Prop} {B : θ → Prop} {held : Finset μ} {k : Prog μ σ ε θ}
    (hm : m ∉ held) (h : k.Safe A B held) : (Prog.unlock m k).Safe A B (insert m held) := by
  refine ⟨Finset.mem_insert_self _ _, ?_⟩
  rw [Finset.erase_insert hm]
  exact h

/-- **A discipline**: a condition on what is left of an operation and on the mutexes its thread
holds, which stays true while the operation goes on. -/
structure Discipline (A : θ → σ → Prop) (B : θ → Prop) (P : Finset μ → Prog μ σ ε θ → Prop) :
    Prop where
  done : ∀ {held}, P held .done → held = ∅
  lock : ∀ {held m k}, P held (.lock m k) → P (insert m held) k
  unlock : ∀ {held m k}, P held (.unlock m k) → m ∈ held ∧ P (held.erase m) k
  act : ∀ {held site f k}, P held (.act site f k) → ∀ input s, A site s → P held (k input s)
  callout : ∀ {held site k}, P held (.callout site k) → (B site → held = ∅) ∧ P held k

/-- The stack of a thread that holds the mutexes `held`: the operations below the innermost one
called foreign code, holding nothing. -/
def StackSafe (P : Finset μ → Prog μ σ ε θ → Prop) (held : Finset μ) :
    List (Prog μ σ ε θ) → Prop
  | [] => held = ∅
  | p :: rest => P held p ∧ ∀ q ∈ rest, ∃ site k, q = .callout site k ∧ P ∅ q

variable {ι : Type*} {ω : Type*} [DecidableEq ι] {A : θ → σ → Prop} {B : θ → Prop}
  {P : Finset μ → Prog μ σ ε θ → Prop} {c c' : Config μ σ ε θ ι} {t : ι} {held : Finset μ}

/-- Thread `t` holds the mutexes `held` and its stack is safe with them. -/
structure ThreadSafe (P : Finset μ → Prog μ σ ε θ → Prop) (c : Config μ σ ε θ ι) (t : ι)
    (held : Finset μ) : Prop where
  owns : ∀ m, m ∈ held ↔ c.owner m = some t
  stack : StackSafe P held (c.stack t)

omit [DecidableEq μ] in
lemma StackSafe.pop {rest : List (Prog μ σ ε θ)}
    (h : ∀ q ∈ rest, ∃ site k, q = .callout site k ∧ P ∅ q) : StackSafe P ∅ rest := by
  cases rest with
  | nil => rfl
  | cons q rest =>
    obtain ⟨site, k, -, hq⟩ := h q List.mem_cons_self
    exact ⟨hq, fun q' hq' => h q' (List.mem_cons_of_mem _ hq')⟩

omit [DecidableEq μ] in
lemma ThreadSafe.update (hsafe : ∀ u, ∃ held, ThreadSafe P c u held)
    (hstack : c'.stack = update c.stack t ps) (hps : StackSafe P held ps)
    (howns : ∀ m, m ∈ held ↔ c'.owner m = some t)
    (hothers : ∀ u, u ≠ t → ∀ m, c'.owner m = some u ↔ c.owner m = some u) :
    ∀ u, ∃ held, ThreadSafe P c' u held := by
  intro u
  by_cases hut : u = t
  · subst hut
    refine ⟨held, howns, ?_⟩
    rw [hstack, update_self]
    exact hps
  · obtain ⟨held, hu⟩ := hsafe u
    refine ⟨held, fun m => (hu.owns m).trans (hothers u hut m).symm, ?_⟩
    rw [hstack, update_of_ne hut]
    exact hu.stack

variable {ops : ω → Prog μ σ ε θ}

/-- **One step** under the condition keeps every thread safe.

**Proof sketch.** By what is on top of the thread's stack. Only `lock` and `unlock` change the
owners, and then by the mutex that the discipline adds or takes away. -/
lemma threadSafe_step (hP : Discipline A B P) {a : ι × Choice ε ω}
    (hops : ∀ op, a.2 = .start op → P ∅ (ops op)) (hsafe : ∀ u, ∃ held, ThreadSafe P c u held)
    (hok : StepOk A B c a) (hst : step ops c a = some c') :
    ∀ u, ∃ held, ThreadSafe P c' u held := by
  have hsame : ∀ u, u ≠ a.1 → ∀ m, c.owner m = some u ↔ c.owner m = some u := fun _ _ _ => Iff.rfl
  obtain ⟨held, ht⟩ := hsafe a.1
  have hstack := ht.stack
  revert hst
  fun_cases step ops c a <;> rintro ⟨⟩ <;> simp only [StepOk] at hok
  case case1 op hnil =>
    rw [hnil] at hstack
    obtain rfl : held = ∅ := hstack
    exact ThreadSafe.update hsafe rfl ⟨hops op rfl, by simp⟩ ht.owns hsame
  case case2 op site k rest hcall =>
    rw [hcall] at hstack hok
    obtain rfl : held = ∅ := (hP.callout hstack.1).1 hok
    refine ThreadSafe.update hsafe rfl ⟨hops op rfl, fun q hq => ?_⟩ ht.owns hsame
    rcases List.mem_cons.mp hq with rfl | hq
    · exact ⟨site, k, rfl, hstack.1⟩
    · exact hstack.2 q hq
  case case5 hdone =>
    rw [hdone] at hstack
    obtain rfl : held = ∅ := hP.done hstack.1
    exact ThreadSafe.update hsafe rfl (StackSafe.pop hstack.2) ht.owns hsame
  case case6 m k rest hlock hfree =>
    rw [hlock] at hstack
    refine ThreadSafe.update hsafe rfl ⟨hP.lock hstack.1, hstack.2⟩ (fun m' => ?_)
      (fun v hv m' => ?_)
    · by_cases hm : m' = m
      · subst hm
        simp
      · simp [hm, ht.owns]
    · by_cases hm : m' = m
      · subst hm
        simp [hfree, Ne.symm hv]
      · simp [hm]
  case case8 t _ m k rest hunlock =>
    rw [hunlock] at hstack
    obtain ⟨hmem, hk⟩ := hP.unlock hstack.1
    have hown : c.owner m = some t := (ht.owns m).mp hmem
    refine ThreadSafe.update hsafe rfl ⟨hk, hstack.2⟩ (fun m' => ?_) (fun v hv m' => ?_)
    · by_cases hm : m' = m
      · subst hm
        simp
      · simp [hm, ht.owns]
    · by_cases hm : m' = m
      · subst hm
        simp [hown, Ne.symm hv]
      · simp [hm]
  case case9 input site f k rest hact =>
    rw [hact] at hstack hok
    exact ThreadSafe.update hsafe rfl ⟨hP.act hstack.1 input c.mem hok, hstack.2⟩ ht.owns hsame
  case case10 hcall =>
    rw [hcall] at hstack
    exact ThreadSafe.update hsafe rfl ⟨(hP.callout hstack.1).2, hstack.2⟩ ht.owns hsame

variable {ok : Config μ σ ε θ ι → ι × Choice ε ω → Prop}

lemma threadSafe_of_reachable (hP : Discipline A B P)
    (hok : ∀ c a, ok c a → StepOk A B c a ∧ ∀ op, a.2 = .start op → P ∅ (ops op))
    (h : (system ι ops init).ReachableWithin ok c) (t : ι) : ∃ held, ThreadSafe P c t held := by
  refine h.invariant (I := fun c => ∀ u, ∃ held, ThreadSafe P c u held) ?_
    (fun c a c' hs ha hst => threadSafe_step hP (hok c a ha).2 hs (hok c a ha).1 hst) t
  rintro _ ⟨mem, -, rfl⟩ u
  exact ⟨∅, by simp [initial], rfl⟩

omit [DecidableEq μ] [DecidableEq ι] in
lemma ThreadSafe.lock_of_wants (h : ThreadSafe P c t held)
    (hwants : (c.stack t).head?.bind Prog.wants = some m) : ∃ k, P held (.lock m k) := by
  have hstack := h.stack
  cases hst : c.stack t with
  | nil => simp [hst] at hwants
  | cons p rest =>
    rw [hst] at hstack hwants
    cases p with
    | lock m' k =>
      obtain rfl : m' = m := Option.some.inj hwants
      exact ⟨k, hstack.1⟩
    | done | unlock | act | callout => cases hwants

/-- **No self-deadlock**: if the operations are safe under the condition on sites, no run that
keeps to the condition brings a thread before a mutex it owns. -/
theorem not_selfDeadlock (hops : ∀ op, (ops op).Safe A B ∅)
    (h : (system ι ops init).ReachableWithin (StepOk A B) c) (t : ι) : ¬ SelfDeadlock c t := by
  have hP : Discipline A B fun held (p : Prog μ σ ε θ) => p.Safe A B held :=
    ⟨id, And.right, id, id, id⟩
  rintro ⟨m, hwants, hown⟩
  obtain ⟨held, ht⟩ := threadSafe_of_reachable hP (fun _ _ ha => ⟨ha, fun op _ => hops op⟩) h t
  obtain ⟨k, hk⟩ := ht.lock_of_wants hwants
  exact hk.1 ((ht.owns m).mpr hown)

/-- Every path of the program, entered with the mutexes `held`, takes mutexes in the order of their
ranks, and calls foreign code with none held. -/
def Prog.Ordered (rank : μ → ℕ) : Finset μ → Prog μ σ ε θ → Prop
  | held, .done => held = ∅
  | held, .lock m k => (∀ m' ∈ held, rank m' < rank m) ∧ Ordered rank (insert m held) k
  | held, .unlock m k => m ∈ held ∧ Ordered rank (held.erase m) k
  | held, .act _ _ k => ∀ input s, Ordered rank held (k input s)
  | held, .callout _ k => held = ∅ ∧ Ordered rank held k

/-- **Mutexes in order**: if the operations that are started take mutexes in the order of their
ranks, a thread waits only for a mutex above those it holds. -/
theorem rank_lt_of_wants {rank : μ → ℕ}
    (hops : ∀ c a, ok c a → ∀ op, a.2 = .start op → (ops op).Ordered rank ∅)
    (h : (system ι ops init).ReachableWithin ok c) {m' : μ} (hown : c.owner m' = some t)
    (hwants : (c.stack t).head?.bind Prog.wants = some m) : rank m' < rank m := by
  have hP : Discipline (fun _ _ => True) (fun _ => True)
      fun held (p : Prog μ σ ε θ) => p.Ordered rank held :=
    ⟨id, And.right, id, fun hk input s _ => hk input s, fun hk => ⟨fun _ => hk.1, hk.2⟩⟩
  have hok : ∀ c a, ok c a → StepOk (fun _ _ => True) (fun _ => True) c a ∧
      ∀ op, a.2 = .start op → (ops op).Ordered rank ∅ := by
    refine fun c a ha => ⟨?_, hops c a ha⟩
    unfold StepOk
    split <;> split <;> trivial
  obtain ⟨held, ht⟩ := threadSafe_of_reachable hP hok h t
  obtain ⟨k, hk⟩ := ht.lock_of_wants hwants
  exact hk.1 m' ((ht.owns m').mpr hown)

end Safety

/-! ### Invariants of the memory -/

section Invariants

/-- Every access of the program, on every path through accesses that `A` allows, keeps the property
`I` of the memory. -/
def Prog.Keeps (A : θ → σ → Prop) (I : σ → Prop) : Prog μ σ ε θ → Prop
  | .done => True
  | .lock _ k => Keeps A I k
  | .unlock _ k => Keeps A I k
  | .act site f k => ∀ input s, A site s → (I s → I (f input s)) ∧ Keeps A I (k input s)
  | .callout _ k => Keeps A I k

variable {ι : Type*} {ω : Type*} [DecidableEq ι] {A : θ → σ → Prop} {B : θ → Prop} {I : σ → Prop}

/-- The memory has the property, and all threads run programs that keep it. -/
structure Kept (A : θ → σ → Prop) (I : σ → Prop) (c : Config μ σ ε θ ι) : Prop where
  mem : I c.mem
  stack : ∀ t, ∀ p ∈ c.stack t, p.Keeps A I

variable {c c' : Config μ σ ε θ ι} {ops : ω → Prog μ σ ε θ}

lemma Kept.update {t : ι} (h : Kept A I c) (hstack : c'.stack = update c.stack t ps)
    (hps : ∀ p ∈ ps, p.Keeps A I) (hmem : I c'.mem) : Kept A I c' := by
  refine ⟨hmem, fun u p hp => ?_⟩
  rw [hstack] at hp
  by_cases hut : u = t
  · subst hut
    rw [update_self] at hp
    exact hps p hp
  · rw [update_of_ne hut] at hp
    exact h.stack u p hp

variable [DecidableEq μ]

/-- One step.

**Proof sketch.** By what is on top of the thread's stack. Only an access changes the memory. -/
lemma Kept.step (hops : ∀ op, (ops op).Keeps A I) {a : ι × Choice ε ω} (h : Kept A I c)
    (hok : StepOk A B c a) (hst : LockProgram.step ops c a = some c') : Kept A I c' := by
  have hstack := h.stack a.1
  revert hst
  fun_cases LockProgram.step ops c a <;> rintro ⟨⟩
  case case1 op _ =>
    refine h.update rfl (fun p hp => ?_) h.mem
    rw [List.mem_singleton.mp hp]
    exact hops op
  case case2 op site k rest htop =>
    rw [htop] at hstack
    exact h.update rfl (List.forall_mem_cons.mpr ⟨hops op, hstack⟩) h.mem
  case case5 htop =>
    rw [htop, List.forall_mem_cons] at hstack
    exact h.update rfl hstack.2 h.mem
  case case6 k rest htop _ | case8 k rest htop | case10 k rest htop =>
    rw [htop, List.forall_mem_cons] at hstack
    have hk : k.Keeps A I := hstack.1
    exact h.update rfl (List.forall_mem_cons.mpr ⟨hk, hstack.2⟩) h.mem
  case case9 input site f k rest htop =>
    simp only [StepOk, htop] at hok
    rw [htop, List.forall_mem_cons] at hstack
    obtain ⟨hmem, hk⟩ := hstack.1 input c.mem hok
    exact h.update rfl (List.forall_mem_cons.mpr ⟨hk, hstack.2⟩) (hmem h.mem)

/-- **The rule for invariants of the memory**: what every access of every operation keeps holds in
every run under the condition on sites. -/
theorem mem_invariant (hops : ∀ op, (ops op).Keeps A I) (hinit : ∀ mem, init mem → I mem)
    (h : (system ι ops init).ReachableWithin (StepOk A B) c) : I c.mem := by
  have hkept : Kept A I c := by
    refine h.invariant ?_ fun c a c' hs hok hst => hs.step hops hok hst
    rintro _ ⟨mem, hmem, rfl⟩
    exact ⟨hinit mem hmem, nofun⟩
  exact hkept.mem

end Invariants

end LockProgram
