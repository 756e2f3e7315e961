import Pman.Lib.Census
import Pman.Lib.TransitionSystem

set_option autoImplicit false

/-!
# A pool of permits with sleepers

The protocol behind counting semaphores. Threads take permits from a pool; a thread that finds none
may fall asleep. A thread that returns `n` permits owes the sleepers `n` wake-ups, and it may lower
its debt to the number of sleepers.

Two counts excuse the sleepers of a pool that is not empty: every permit is spoken for, by a thread
that is trying to take one or by a wake-up that is owed, or there are as many wake-ups owed as
sleepers.

## Main results

* `not_stuck_of_view`: what refines the pool has no stuck sleeper.
-/

namespace PermitPool

open Function

inductive Role
  | out
  /-- It will look at the pool again before it gives up or sleeps. -/
  | trying
  | parked
  | owing (k : ℕ)
  deriving DecidableEq, Repr

def Role.tries : Role → ℕ
  | .trying => 1
  | _ => 0

def Role.sleeps : Role → ℕ
  | .parked => 1
  | _ => 0

def Role.owes : Role → ℕ
  | .owing k => k
  | _ => 0

structure State (ι : Type*) where
  permits : ℕ
  role : ι → Role

inductive Act (ι : Type*)
  | enter (t : ι)
  | take (t : ι)
  | quit (t : ι)
  | park (t : ι)
  | unpark (t : ι)
  | abandon (t : ι)
  | add (t : ι) (n : ℕ)
  | settle (t : ι) (k : ℕ)
  /-- Issue the wake-ups: they wake the threads of `W`. -/
  | wake (t : ι) (W : Finset ι)

variable {ι : Type*} [Fintype ι]

/-- How many threads are trying, asleep, and how many wake-ups are owed. -/
def State.trying (s : State ι) : ℕ := Census.total Role.tries s.role
def State.sleepers (s : State ι) : ℕ := Census.total Role.sleeps s.role
def State.owed (s : State ι) : ℕ := Census.total Role.owes s.role

section Steps

variable [DecidableEq ι]

def woken (role : ι → Role) (W : Finset ι) (u : ι) : Role := if u ∈ W then .trying else role u

def step (s : State ι) : Act ι → Option (State ι)
  | .enter t =>
    if s.role t = .out then some ⟨s.permits, update s.role t .trying⟩ else none
  | .take t =>
    if s.role t = .trying ∧ 0 < s.permits then
      some ⟨s.permits - 1, update s.role t .out⟩
    else none
  | .quit t =>
    if s.role t = .trying ∧ s.permits = 0 then some ⟨s.permits, update s.role t .out⟩
    else none
  | .park t =>
    if s.role t = .out ∧ s.permits = 0 then some ⟨s.permits, update s.role t .parked⟩
    else none
  | .unpark t =>
    if s.role t = .parked then some ⟨s.permits, update s.role t .trying⟩ else none
  | .abandon t =>
    if s.role t = .parked then some ⟨s.permits, update s.role t .out⟩ else none
  | .add t n =>
    if s.role t = .out then some ⟨s.permits + n, update s.role t (.owing n)⟩ else none
  | .settle t k =>
    match s.role t with
    | .owing n =>
      if n ≤ k ∨ s.sleepers ≤ k then some ⟨s.permits, update s.role t (.owing k)⟩ else none
    | _ => none
  | .wake t W =>
    match s.role t with
    | .owing k =>
      if (∀ u ∈ W, s.role u = .parked) ∧ W.card = min k s.sleepers then
        some ⟨s.permits, update (woken s.role W) t .out⟩
      else none
    | _ => none

def system (ι : Type*) [Fintype ι] [DecidableEq ι] : TransitionSystem (State ι) (Act ι) where
  init s := ∀ t, s.role t = .out
  step := step

end Steps

/-- **The promise to sleepers**: every permit is spoken for, or as many wake-ups are owed as threads
sleep. -/
def Served (s : State ι) : Prop := s.permits ≤ s.trying + s.owed ∨ s.sleepers ≤ s.owed

variable {k : ℕ}

section Steps

variable [DecidableEq ι]

lemma counts_update (s : State ι) (t : ι) (x : Role) (p : ℕ) :
    (⟨p, update s.role t x⟩ : State ι).trying + (s.role t).tries =
      s.trying + x.tries ∧
    (⟨p, update s.role t x⟩ : State ι).sleepers + (s.role t).sleeps =
      s.sleepers + x.sleeps ∧
    (⟨p, update s.role t x⟩ : State ι).owed + (s.role t).owes = s.owed + x.owes :=
  ⟨Census.total_update _ _ _ _, Census.total_update _ _ _ _, Census.total_update _ _ _ _⟩

variable {W : Finset ι} {t : ι} {ok : State ι → Act ι → Prop}

lemma total_woken (f : Role → ℕ) {role : ι → Role} (hW : ∀ u ∈ W, role u = .parked) :
    Census.total f (woken role W) + W.card * f .parked =
      Census.total f role + W.card * f .trying := by
  have hrest : ∀ u, u ∉ W → woken role W u = role u := fun u hu => if_neg hu
  have hsum := Census.total_add_sum f W hrest
  have hbefore : ∑ u ∈ W, f (role u) = W.card * f .parked :=
    Finset.sum_const_nat fun u hu => by rw [hW u hu]
  have hafter : ∑ u ∈ W, f (woken role W u) = W.card * f .trying :=
    Finset.sum_const_nat fun u hu => by rw [woken, if_pos hu]
  rwa [hbefore, hafter] at hsum

lemma counts_wake (s : State ι) (ht : s.role t = .owing k) (hW : ∀ u ∈ W, s.role u = .parked) :
    (⟨s.permits, update (woken s.role W) t .out⟩ : State ι).trying =
      s.trying + W.card ∧
    (⟨s.permits, update (woken s.role W) t .out⟩ : State ι).sleepers + W.card =
      s.sleepers ∧
    (⟨s.permits, update (woken s.role W) t .out⟩ : State ι).owed + k = s.owed := by
  have htW : t ∉ W := by
    intro hmem
    simp [hW t hmem] at ht
  have hwt : woken s.role W t = .owing k := by rw [woken, if_neg htW, ht]
  obtain ⟨htries, hsleeps, howes⟩ := counts_update ⟨s.permits, woken s.role W⟩ t .out s.permits
  simp only [hwt] at htries hsleeps howes
  have htries' := total_woken Role.tries hW
  have hsleeps' := total_woken Role.sleeps hW
  have howes' := total_woken Role.owes hW
  simp only [State.trying, State.sleepers, State.owed, Role.tries, Role.sleeps, Role.owes] at *
  omega

variable {s : State ι}

omit [DecidableEq ι] in
lemma served_of_empty (h : s.permits = 0) : Served s :=
  Or.inl (by rw [h]; exact Nat.zero_le _)

lemma Served.update (h : Served s) {x : Role} {p : ℕ}
    (hsleeps : x.sleeps + (s.role t).owes ≤ (s.role t).sleeps + x.owes)
    (hpermits : p + (s.role t).tries + (s.role t).owes ≤ s.permits + x.tries + x.owes ∨ p = 0) :
    Served ⟨p, update s.role t x⟩ := by
  obtain ⟨htries', hsleeps', howes'⟩ := counts_update s t x p
  simp only [Served] at h ⊢
  omega

/-- **Step lemma**: every step keeps the promise.

**Proof sketch.** A thread that stops trying has taken a permit, or has found the pool empty; a
thread that falls asleep has found it empty. A thread that returns permits owes as many wake-ups. A
debt lowered to the number of sleepers still covers them. Wake-ups turn sleepers into threads that
try, one for each wake-up owed, or leave nobody asleep. -/
lemma served_step {s' : State ι} {a : Act ι} (h : Served s) (hst : step s a = some s') :
    Served s' := by
  cases a with
  | enter t | unpark t | abandon t =>
    obtain ⟨ht, ⟨⟩⟩ := Option.ite_none_right_eq_some.mp hst
    refine h.update (by simp [ht, Role.owes, Role.sleeps]) ?_
    simp [ht, Role.tries, Role.owes]
  | take t | add t n =>
    obtain ⟨ht, ⟨⟩⟩ := Option.ite_none_right_eq_some.mp hst
    refine h.update (by simp [ht, Role.owes, Role.sleeps]) (.inl ?_)
    simp only [ht, Role.tries, Role.owes]
    omega
  | quit t | park t =>
    obtain ⟨hpermits, ⟨⟩⟩ := Option.ite_none_right_eq_some.mp hst
    exact served_of_empty hpermits.2
  | settle t k =>
    simp only [step] at hst
    split at hst
    case h_2 => cases hst
    case h_1 n ht =>
      obtain ⟨hk, ⟨⟩⟩ := Option.ite_none_right_eq_some.mp hst
      obtain ⟨htries, hsleeps, howes⟩ := counts_update s t (.owing k) s.permits
      have hshare : (s.role t).owes ≤ s.owed := Census.le_total Role.owes s.role t
      simp only [ht, Role.tries, Role.sleeps, Role.owes] at htries hsleeps howes hshare
      simp only [Served] at h ⊢
      omega
  | wake t W =>
    simp only [step] at hst
    split at hst
    case h_2 => cases hst
    case h_1 k ht =>
      obtain ⟨⟨hparked, hcard⟩, ⟨⟩⟩ := Option.ite_none_right_eq_some.mp hst
      obtain ⟨htries, hsleeps, howes⟩ := counts_wake s ht hparked
      simp only [Served] at h ⊢
      omega

/-- Sleepers are excused in every run. -/
theorem served_of_reachable (h : (system ι).ReachableWithin ok s) : Served s := by
  refine h.invariant ?_ fun s a s' hI _ hst => served_step hI hst
  intro s hinit
  refine .inr (le_of_eq_of_le (Census.total_eq_zero fun t => ?_) (Nat.zero_le _))
  rw [hinit t]
  rfl

/-- **No stuck sleeper**: no run leaves permits in the pool, everybody outside or asleep, and
somebody asleep. -/
theorem not_stuck_of_reachable (h : (system ι).ReachableWithin ok s) :
    ¬ (0 < s.permits ∧ (∀ t, s.role t = .out ∨ s.role t = .parked) ∧ ∃ t, s.role t = .parked) := by
  rintro ⟨hpermits, hall, t, ht⟩
  have htrying : s.trying = 0 := Census.total_eq_zero fun u => by
    rcases hall u with hu | hu <;> rw [hu] <;> rfl
  have howed : s.owed = 0 := Census.total_eq_zero fun u => by
    rcases hall u with hu | hu <;> rw [hu] <;> rfl
  have hsleeps : (s.role t).sleeps ≤ s.sleepers := Census.le_total Role.sleeps s.role t
  rw [ht] at hsleeps
  have hserved := served_of_reachable h
  simp only [Served, Role.sleeps] at hserved hsleeps
  omega

end Steps

section View

variable [DecidableEq ι]

def Moves (s s' : State ι) : Prop := s' = s ∨ ∃ b, (system ι).step s b = some s'

variable {P : Type*} (role : P → Role)

omit [Fintype ι] [DecidableEq ι] in
/-- The protocol state of a number of permits and the threads' program points. -/
def view (permits : ℕ) (pc : ι → P) : State ι := ⟨permits, role ∘ pc⟩

variable {role} {n : ℕ} {pc : ι → P} {t : ι} {p q : P}

section Moves

variable (hpc : pc t = q)

include hpc

lemma moves_stutter (h : role p = role q) :
    Moves (view role n pc) (view role n (update pc t p)) := by
  left
  simp only [view, comp_update, h, ← hpc]
  congr 1
  exact update_eq_self t (role ∘ pc)

lemma moves_enter (h : role q = .out) (hp : role p = .trying) :
    Moves (view role n pc) (view role n (update pc t p)) :=
  Or.inr ⟨.enter t, by simp [system, step, view, comp_update, hpc, h, hp]⟩

lemma moves_take (h : role q = .trying) (hp : role p = .out) :
    Moves (view role (n + 1) pc) (view role n (update pc t p)) :=
  Or.inr ⟨.take t, by simp [system, step, view, comp_update, hpc, h, hp]⟩

lemma moves_quit (h : role q = .trying) (hp : role p = .out) :
    Moves (view role 0 pc) (view role 0 (update pc t p)) :=
  Or.inr ⟨.quit t, by simp [system, step, view, comp_update, hpc, h, hp]⟩

lemma moves_park (h : role q = .out) (hp : role p = .parked) :
    Moves (view role 0 pc) (view role 0 (update pc t p)) :=
  Or.inr ⟨.park t, by simp [system, step, view, comp_update, hpc, h, hp]⟩

lemma moves_unpark (h : role q = .parked) (hp : role p = .trying ∨ role p = .out) :
    Moves (view role n pc) (view role n (update pc t p)) := by
  rcases hp with hp | hp
  · exact .inr ⟨.unpark t, by simp [system, step, view, comp_update, hpc, h, hp]⟩
  · exact .inr ⟨.abandon t, by simp [system, step, view, comp_update, hpc, h, hp]⟩

lemma moves_add (h : role q = .out) (hp : role p = .owing k) :
    Moves (view role n pc) (view role (n + k) (update pc t p)) :=
  Or.inr ⟨.add t k, by simp [system, step, view, comp_update, hpc, h, hp]⟩

lemma moves_settle {j : ℕ} (h : role q = .owing j) (hp : role p = .owing k)
    (hk : j ≤ k ∨ Census.total (Role.sleeps ∘ role) pc ≤ k) :
    Moves (view role n pc) (view role n (update pc t p)) := by
  have hk' : j ≤ k ∨ (view role n pc).sleepers ≤ k := hk
  refine .inr ⟨.settle t k, ?_⟩
  have hrole : (view role n pc).role t = .owing j := (congrArg role hpc).trans h
  simp only [system, step, hrole, if_pos hk']
  simp [view, comp_update, hp]

lemma moves_wake {W : Finset ι} {pc' : ι → P} (h : role q = .owing k)
    (hp : role p = .out) (hW : ∀ u ∈ W, role (pc u) = .parked ∧ role (pc' u) = .trying)
    (hrest : ∀ u, u ∉ W → pc' u = pc u)
    (hcard : W.card = min k (Census.total (Role.sleeps ∘ role) pc)) :
    Moves (view role n pc) (view role n (update pc' t p)) := by
  have hwoken : role ∘ pc' = woken (role ∘ pc) W := by
    funext u
    by_cases hu : u ∈ W
    · rw [woken, if_pos hu]
      exact (hW u hu).2
    · rw [woken, if_neg hu, comp_apply, hrest u hu]
      rfl
  have hW' : (∀ u ∈ W, (view role n pc).role u = .parked) ∧
      W.card = min k (view role n pc).sleepers := ⟨fun u hu => (hW u hu).1, hcard⟩
  have hrole : (view role n pc).role t = .owing k := (congrArg role hpc).trans h
  refine .inr ⟨.wake t W, ?_⟩
  simp only [system, step, hrole, if_pos hW']
  simp [view, comp_update, hp, hwoken]

end Moves

/-- No stuck sleeper, read off the program points. -/
theorem not_stuck_of_view {ok : State ι → Act ι → Prop}
    (h : (system ι).ReachableWithin ok (view role n pc)) :
    ¬ (0 < n ∧ (∀ t, role (pc t) = .out ∨ role (pc t) = .parked) ∧ ∃ t, role (pc t) = .parked) :=
  not_stuck_of_reachable h

end View

end PermitPool
