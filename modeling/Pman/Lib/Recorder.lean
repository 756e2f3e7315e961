import Pman.Lib.LockProgram

set_option autoImplicit false

/-!
# Runs of lock programs with a history

A recorder watches the steps of the threads and writes down what has happened: which operation a
thread is in, what it has seen on its way, what was done since some call returned. It keeps a record
for every call that is in progress, and one record about the whole run. It does not change what the
threads do, but conditions on steps may use the history.

## Main results

* `exists_history`: every run has a history.
* `record_of_done`: what the record of a finished call says.
-/

namespace LockProgram

universe u v w x

/-! ### Observations -/

inductive Observation (μ : Type u) (σ : Type v) (ε : Type w) (θ : Type x) (ω : Type*)
  | started (op : ω)
  | ended
  | locked (m : μ)
  | unlocked (m : μ)
  | accessed (site : θ) (input : ε) (before after : σ)
  | resumed (site : θ)

variable {μ : Type u} {σ : Type v} {ε : Type w} {θ : Type x} {ι ω : Type*}

def observe (c : Config μ σ ε θ ι) : ι × Choice ε ω → Option (Observation μ σ ε θ ω)
  | (_, .start op) => some (.started op)
  | (t, .go input) =>
    match c.stack t with
    | [] => none
    | .done :: _ => some .ended
    | .lock m _ :: _ => some (.locked m)
    | .unlock m _ :: _ => some (.unlocked m)
    | .act site f _ :: _ => some (.accessed site input c.mem (f input c.mem))
    | .callout site _ :: _ => some (.resumed site)

namespace Observation

def memory (s : σ) : Observation μ σ ε θ ω → σ
  | .accessed _ _ _ after => after
  | _ => s

def isStart : Observation μ σ ε θ ω → Bool
  | .started _ => true
  | _ => false

def goesOn : Observation μ σ ε θ ω → Bool
  | .started _ | .ended => false
  | _ => true

def isAccess : Observation μ σ ε θ ω → Bool
  | .accessed _ _ _ _ => true
  | _ => false

lemma isStart_of_goesOn {obs : Observation μ σ ε θ ω} (h : obs.goesOn = true) :
    obs.isStart = false := by
  cases obs with
  | started => cases h
  | _ => rfl

/-- The owners of the mutexes after a step of thread `t`. -/
def owner [DecidableEq μ] (owner : μ → Option ι) (t : ι) :
    Observation μ σ ε θ ω → μ → Option ι
  | .locked m => Function.update owner m (some t)
  | .unlocked m => Function.update owner m none
  | _ => owner

end Observation

/-- The program that is left after a step, in the memory `s`. -/
inductive Prog.Next (s : σ) : Prog μ σ ε θ → Observation μ σ ε θ ω → Prog μ σ ε θ → Prop
  | lock (m : μ) (k : Prog μ σ ε θ) : Next s (.lock m k) (.locked m) k
  | unlock (m : μ) (k : Prog μ σ ε θ) : Next s (.unlock m k) (.unlocked m) k
  | act (site : θ) (f : ε → σ → σ) (k : ε → σ → Prog μ σ ε θ) (input : ε) :
      Next s (.act site f k) (.accessed site input s (f input s)) (k input s)
  | callout (site : θ) (k : Prog μ σ ε θ) : Next s (.callout site k) (.resumed site) k

variable {c : Config μ σ ε θ ι} {a : ι × Choice ε ω}

section Steps

variable [DecidableEq μ] [DecidableEq ι]

/-- The steps of a thread: an operation is started, one is over, or the innermost one goes on. -/
inductive Steps (ops : ω → Prog μ σ ε θ) (c : Config μ σ ε θ ι) (t : ι) :
    Observation μ σ ε θ ω → Config μ σ ε θ ι → Prop
  | started (op : ω) : Steps ops c t (.started op) (c.setStack t (ops op :: c.stack t))
  | ended {rest : List (Prog μ σ ε θ)} (htop : c.stack t = .done :: rest) :
      Steps ops c t .ended (c.setStack t rest)
  | next {p p' : Prog μ σ ε θ} {rest : List (Prog μ σ ε θ)} {obs : Observation μ σ ε θ ω}
      (htop : c.stack t = p :: rest) (hnext : p.Next c.mem obs p')
      (hfree : ∀ m, obs = .locked m → c.owner m = none) :
      Steps ops c t obs
        ⟨obs.memory c.mem, obs.owner c.owner t, Function.update c.stack t (p' :: rest)⟩

lemma steps_of_step {ops : ω → Prog μ σ ε θ} {c' : Config μ σ ε θ ι} (hst : step ops c a = some c')
    : ∃ obs, observe c a = some obs ∧ Steps ops c a.1 obs c' := by
  revert hst
  fun_cases step ops c a <;> rintro ⟨⟩
  case case1 t op htop | case2 t op _ _ _ htop =>
    have hstarted : Steps ops c t (.started op) (c.setStack t (ops op :: c.stack t)) := .started op
    rw [htop] at hstarted
    exact ⟨.started op, rfl, hstarted⟩
  case case5 htop => exact ⟨.ended, by simp only [observe, htop], .ended htop⟩
  case case6 m k rest htop hfree =>
    refine ⟨.locked m, by simp only [observe, htop], .next htop (.lock m k) fun m' hm => ?_⟩
    obtain rfl := Observation.locked.inj hm
    exact hfree
  case case8 m k rest htop =>
    exact ⟨.unlocked m, by simp only [observe, htop],
      .next htop (.unlock m k) fun _ hm => by cases hm⟩
  case case9 input site f k rest htop =>
    exact ⟨.accessed site input c.mem (f input c.mem), by simp only [observe, htop],
      .next htop (.act site f k input) fun _ hm => by cases hm⟩
  case case10 site k rest htop =>
    exact ⟨.resumed site, by simp only [observe, htop],
      .next htop (.callout site k) fun _ hm => by cases hm⟩

end Steps

/-! ### Recorders -/

/-- How records are written: `κ` is what is kept about a call, and `γ` about the whole run. -/
structure Recorder (μ : Type u) (σ : Type v) (ε : Type w) (θ : Type x) (ω κ γ : Type*) where
  call : ω → κ
  note : Observation μ σ ε θ ω → ω → κ → κ
  watch : Observation μ σ ε θ ω → ω → κ → γ → γ

/-- For each thread the calls in progress with their records, innermost first, and the record of
the run. -/
structure History (ι ω κ γ : Type*) where
  calls : ι → List (ω × κ)
  past : γ

namespace History

variable {κ γ : Type*} (P : κ → Prop) (h : History ι ω κ γ)

def Any : Prop := ∃ t, ∃ call ∈ h.calls t, P call.2

/-- Some call in progress, other than the innermost one of thread `t`, has a record with the
property; `calls` are the other ones of that thread. -/
def Others (t : ι) (calls : List (ω × κ)) : Prop :=
  (∃ call ∈ calls, P call.2) ∨ ∃ u, u ≠ t ∧ ∃ call ∈ h.calls u, P call.2

variable {P h}

variable {t : ι} {calls : List (ω × κ)}

lemma any_iff (hcalls : h.calls t = calls) : h.Any P ↔ h.Others P t calls := by
  constructor
  · rintro ⟨u, call, hmem, hP⟩
    by_cases hu : u = t
    · subst hu
      exact .inl ⟨call, hcalls ▸ hmem, hP⟩
    · exact .inr ⟨u, hu, call, hmem, hP⟩
  · rintro (⟨call, hmem, hP⟩ | ⟨u, -, call, hmem, hP⟩)
    · exact ⟨t, call, hcalls ▸ hmem, hP⟩
    · exact ⟨u, call, hmem, hP⟩

lemma others_cons {call : ω × κ} :
    h.Others P t (call :: calls) ↔ P call.2 ∨ h.Others P t calls := by
  simp [Others, or_assoc]

end History

structure Watched (μ : Type u) (σ : Type v) (ε : Type w) (θ : Type x) (ι ω κ γ : Type*) where
  config : Config μ σ ε θ ι
  history : History ι ω κ γ

namespace Recorder

variable {κ γ : Type*} (R : Recorder μ σ ε θ ω κ γ)

def current (h : History ι ω κ γ) (t : ι) : Observation μ σ ε θ ω → Option (ω × κ)
  | .started op => some (op, R.call op)
  | _ => (h.calls t).head?

def update (calls : List (ω × κ)) : Observation μ σ ε θ ω → List (ω × κ)
  | .started op => (op, R.call op) :: calls
  | .ended => calls.tail
  | obs =>
    match calls with
    | [] => []
    | (op, r) :: rest => (op, R.note obs op r) :: rest

variable {obs : Observation μ σ ε θ ω} {t : ι} {h : History ι ω κ γ} {op : ω} {r : κ}
  {calls : List (ω × κ)} {P : κ → Prop}

variable {s : σ} {p p' : Prog μ σ ε θ}

lemma update_of_next (hnext : p.Next s obs p') (op : ω) (r : κ) (rest : List (ω × κ)) :
    R.update ((op, r) :: rest) obs = (op, R.note obs op r) :: rest := by
  cases hnext <;> rfl

lemma current_of_next (hnext : p.Next s obs p') (h : History ι ω κ γ) (t : ι) :
    R.current h t obs = (h.calls t).head? := by
  cases hnext <;> rfl

/-- About the run, something is written down at accesses only. -/
def WatchesAccesses : Prop :=
  ∀ obs op r past, Observation.isAccess obs = false → R.watch obs op r past = past

variable [DecidableEq ι]

def record (h : History ι ω κ γ) (t : ι) (obs : Observation μ σ ε θ ω) : History ι ω κ γ where
  calls := Function.update h.calls t (R.update (h.calls t) obs)
  past :=
    match R.current h t obs with
    | none => h.past
    | some (op, r) => R.watch obs op r h.past

lemma calls_record_self (h : History ι ω κ γ) (t : ι) (obs : Observation μ σ ε θ ω) :
    (R.record h t obs).calls t = R.update (h.calls t) obs := by
  simp [record]

lemma calls_record_of_ne (h : History ι ω κ γ) {u : ι} (hne : u ≠ t) (obs : Observation μ σ ε θ ω) :
    (R.record h t obs).calls u = h.calls u := by
  simp [record, hne]

lemma past_record (hcurrent : R.current h t obs = some (op, r)) :
    (R.record h t obs).past = R.watch obs op r h.past := by
  simp only [record, hcurrent]

lemma past_of_call (hcalls : h.calls t = (op, r) :: calls) (hobs : obs.isStart = false) :
    (R.record h t obs).past = R.watch obs op r h.past := by
  refine R.past_record ?_
  cases obs with
  | started => cases hobs
  | _ => simp [current, hcalls]

lemma past_of_watchesAccesses (hR : R.WatchesAccesses) (hcalls : h.calls t = (op, r) :: calls)
    (hstart : obs.isStart = false) (haccess : obs.isAccess = false) :
    (R.record h t obs).past = h.past :=
  (R.past_of_call hcalls hstart).trans (hR obs op r h.past haccess)

lemma others_record : (R.record h t obs).Others P t calls ↔ h.Others P t calls := by
  refine or_congr_right (exists_congr fun u => and_congr_right fun hu => ?_)
  rw [R.calls_record_of_ne h hu]

lemma any_started : (R.record h t (.started op)).Any P ↔ P (R.call op) ∨ h.Any P := by
  rw [History.any_iff (R.calls_record_self h t _), others_record, History.any_iff rfl]
  exact History.others_cons

lemma any_ended {call : ω × κ} (hcalls : h.calls t = call :: calls) :
    (R.record h t .ended).Any P ↔ h.Others P t calls := by
  rw [History.any_iff (R.calls_record_self h t _), others_record, hcalls]
  rfl

lemma any_goesOn (hcalls : h.calls t = (op, r) :: calls) (hobs : obs.goesOn = true) :
    (R.record h t obs).Any P ↔ P (R.note obs op r) ∨ h.Others P t calls := by
  have hupdate : R.update (h.calls t) obs = (op, R.note obs op r) :: calls := by
    rw [hcalls]
    cases obs with
    | started | ended => cases hobs
    | _ => rfl
  rw [History.any_iff ((R.calls_record_self h t _).trans hupdate), others_record]
  exact History.others_cons

/-- A condition on steps that sees what the step shows, the call it belongs to, the memory and the
history. -/
def Allows (A : Observation μ σ ε θ ω → ω → κ → σ → History ι ω κ γ → Prop)
    (w : Watched μ σ ε θ ι ω κ γ) (a : ι × Choice ε ω) : Prop :=
  ∀ obs ∈ observe w.config a, ∀ call ∈ R.current w.history a.1 obs,
    A obs call.1 call.2 w.config.mem w.history

instance (A : Observation μ σ ε θ ω → ω → κ → σ → History ι ω κ γ → Prop)
    [∀ obs op r s h, Decidable (A obs op r s h)] (w : Watched μ σ ε θ ι ω κ γ)
    (a : ι × Choice ε ω) : Decidable (R.Allows A w a) :=
  inferInstanceAs (Decidable (∀ obs ∈ observe w.config a, ∀ call ∈ _, _))

variable [DecidableEq μ]

def step (ops : ω → Prog μ σ ε θ) (w : Watched μ σ ε θ ι ω κ γ) (a : ι × Choice ε ω) :
    Option (Watched μ σ ε θ ι ω κ γ) :=
  match LockProgram.step ops w.config a, observe w.config a with
  | some c, some obs => some ⟨c, R.record w.history a.1 obs⟩
  | _, _ => none

def nothing (past : γ) : History ι ω κ γ := ⟨fun _ => [], past⟩

/-- Threads that run the operations `ops` from memories in `init`, with a history. -/
def watched (ι : Type*) [DecidableEq ι] (ops : ω → Prog μ σ ε θ) (init : σ → Prop) (past : γ) :
    TransitionSystem (Watched μ σ ε θ ι ω κ γ) (ι × Choice ε ω) where
  init w := ∃ mem, init mem ∧ w = ⟨initial mem, nothing past⟩
  step := R.step ops

variable {R} {ops : ω → Prog μ σ ε θ} {init : σ → Prop}

lemma exists_of_step {w w' : Watched μ σ ε θ ι ω κ γ} (hst : R.step ops w a = some w') :
    ∃ obs, observe w.config a = some obs ∧ Steps ops w.config a.1 obs w'.config ∧
      w'.history = R.record w.history a.1 obs := by
  unfold step at hst
  split at hst <;> cases hst
  case h_1 c obs hc hobs =>
    obtain ⟨obs', hobs', hsteps⟩ := steps_of_step hc
    obtain rfl := Option.some.inj (hobs.symm.trans hobs')
    exact ⟨obs, hobs, hsteps, rfl⟩

variable (R) in
/-- **Every run has a history**, since every step shows something. -/
theorem exists_history (past : γ) {ok : Config μ σ ε θ ι → ι × Choice ε ω → Prop}
    (h : (system ι ops init).ReachableWithin ok c) :
    ∃ history, (R.watched ι ops init past).ReachableWithin (fun w a => ok w.config a)
      ⟨c, history⟩ := by
  induction h with
  | init hi =>
    obtain ⟨mem, hmem, rfl⟩ := hi
    exact ⟨nothing past, .init ⟨mem, hmem, rfl⟩⟩
  | @step c c' a _ hok hst ih =>
    obtain ⟨history, hr⟩ := ih
    obtain ⟨obs, hobs, -⟩ := steps_of_step hst
    have hst : LockProgram.step ops c a = some c' := hst
    refine ⟨R.record history a.1 obs, hr.step hok ?_⟩
    simp only [watched, step, hst, hobs]

end Recorder

/-! ### The record of a call that is over -/

section Yields

variable {κ γ : Type*}

/-- Every path through the program, with accesses that `A` allows, ends with a record that has the
property `Q`. -/
def Prog.Yields (R : Recorder μ σ ε θ ω κ γ) (A : θ → ε → σ → Prop) (Q : κ → Prop) (op : ω) :
    κ → Prog μ σ ε θ → Prop
  | r, .done => Q r
  | r, .lock m k => Yields R A Q op (R.note (.locked m) op r) k
  | r, .unlock m k => Yields R A Q op (R.note (.unlocked m) op r) k
  | r, .act site f k => ∀ input s, A site input s →
    Yields R A Q op (R.note (.accessed site input s (f input s)) op r) (k input s)
  | r, .callout site k => Yields R A Q op (R.note (.resumed site) op r) k

variable {op : ω}

lemma Prog.yields_of_forall {R : Recorder μ σ ε θ ω κ γ} {A : θ → ε → σ → Prop} {Q : κ → Prop}
    (hQ : ∀ r, Q r) (p : Prog μ σ ε θ) (r : κ) : p.Yields R A Q op r := by
  induction p generalizing r with
  | done => exact hQ r
  | lock _ _ ih | unlock _ _ ih | callout _ _ ih => exact ih _
  | act _ _ _ ih => exact fun input s _ => ih input s _

namespace Recorder

def AccessOk (A : θ → ε → σ → Prop) (c : Config μ σ ε θ ι) (a : ι × Choice ε ω) : Prop :=
  ∀ site input before after,
    observe c a = some (.accessed site input before after) → A site input before

lemma accessOk_of_stepOk {B : θ → σ → Prop} {C : θ → Prop} (h : StepOk B C c a) :
    AccessOk (fun site _ s => B site s ∧ s = c.mem) c a := by
  obtain ⟨t, choice⟩ := a
  intro site input before after hobs
  cases choice with
  | start op => cases hobs
  | go input =>
    simp only [observe] at hobs
    simp only [StepOk] at h
    split at hobs
    case h_5 site' f k rest htop =>
      obtain ⟨rfl, rfl, rfl, rfl⟩ := Observation.accessed.inj (Option.some.inj hobs)
      rw [htop] at h
      exact ⟨h, rfl⟩
    all_goals cases hobs

variable [DecidableEq ι] [DecidableEq μ] {R : Recorder μ σ ε θ ω κ γ} {ops : ω → Prog μ σ ε θ}
  {A : θ → ε → σ → Prop} {Q : ω → κ → Prop}

/-- One step of a thread.

**Proof sketch.** By what the step shows. Only the innermost call of the thread changes. -/
lemma yields_step (hops : ∀ op, (ops op).Yields R A (Q op) op (R.call op))
    {w w' : Watched μ σ ε θ ι ω κ γ}
    (hyields : ∀ t, List.Forall₂ (fun call p => p.Yields R A (Q call.1) call.1 call.2)
      (w.history.calls t) (w.config.stack t))
    (hok : AccessOk A w.config a) (hst : R.step ops w a = some w') (t : ι) :
    List.Forall₂ (fun call p => p.Yields R A (Q call.1) call.1 call.2)
      (w'.history.calls t) (w'.config.stack t) := by
  obtain ⟨obs, hobs, hsteps, hhistory⟩ := exists_of_step hst
  rw [hhistory]
  by_cases ht : t = a.1
  · subst ht
    have hold := hyields a.1
    rw [calls_record_self]
    generalize w.history.calls a.1 = calls at hold
    generalize w'.config = c' at hsteps
    cases hsteps with
    | started op => simpa [Config.setStack] using .cons (hops op) hold
    | ended htop =>
      rw [htop] at hold
      cases hold with
      | cons hp hrest => simpa [Config.setStack, update] using hrest
    | next htop hnext =>
      rw [htop] at hold
      cases hold with
      | @cons call p calls rest hp hrest =>
        obtain ⟨op, r⟩ := call
        rw [R.update_of_next hnext]
        simp only [Function.update_self]
        refine .cons ?_ hrest
        cases hnext with
        | lock | unlock | callout => exact hp
        | act site f k input => exact hp input _ (hok _ _ _ _ hobs)
  · rw [R.calls_record_of_ne _ ht]
    have hstack : w'.config.stack t = w.config.stack t := by
      generalize w'.config = c' at hsteps
      cases hsteps <;> simp [Config.setStack, ht]
    rw [hstack]
    exact hyields t

/-- **The rule for calls that are over**: if every path through every operation ends with a record
that has the property, then so does every call that is over, in every run whose accesses are
allowed. -/
theorem record_of_done (hops : ∀ op, (ops op).Yields R A (Q op) op (R.call op)) {init : σ → Prop}
    {past : γ} {ok : Watched μ σ ε θ ι ω κ γ → ι × Choice ε ω → Prop}
    (hok : ∀ w a, (R.watched ι ops init past).ReachableWithin ok w → ok w a → AccessOk A w.config a)
    {w : Watched μ σ ε θ ι ω κ γ} (h : (R.watched ι ops init past).ReachableWithin ok w) {t : ι}
    {stack : List (Prog μ σ ε θ)} (hstack : w.config.stack t = .done :: stack) {r : κ}
    {calls : List (ω × κ)} (hcalls : w.history.calls t = (op, r) :: calls) : Q op r := by
  have hyields : ∀ t, List.Forall₂ (fun call p => p.Yields R A (Q call.1) call.1 call.2)
      (w.history.calls t) (w.config.stack t) := by
    refine h.invariant_of (fun _ hr => hr) ?_ fun w a w' hr hs hallowed hst =>
      yields_step hops hs (hok w a hr hallowed) hst
    rintro _ ⟨mem, -, rfl⟩ t
    exact .nil
  have htop := hyields t
  rw [hstack, hcalls] at htop
  exact (List.forall₂_cons.mp htop).1

end Recorder

end Yields

end LockProgram
