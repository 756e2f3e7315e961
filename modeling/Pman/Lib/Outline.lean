import Pman.Lib.Recorder

set_option autoImplicit false

/-!
# Proof outlines for programs with one lock

Threads work on a shared memory, some of it protected by a mutex. An outline divides the programs
into phases and says which accesses are made from each phase, and which phase comes next. At any
time at most one call is in a phase inside of the region of the mutex.

Once the programs are known to follow the outline, nothing looks at their text any more. An
invariant speaks of the memory, the history and the phase inside of the region, if somebody is
there; an access from outside keeps it whoever is inside. What a call knows by itself, from its own
record, goes with its phase and is not disturbed by the others.

## Main results

* `Keeps.invariant`: what the accesses of an outline keep holds in every run.
-/

namespace LockProgram

open Function

universe u v w x

variable {μ : Type u} {σ : Type v} {ε : Type w} {θ : Type x} {ι ω κ γ Φ : Type*}

structure Outline (μ : Type u) (σ : Type v) (ε : Type w) (θ : Type x) (ω Φ : Type*) where
  mutex : μ
  entry : Φ
  held : Φ → Bool
  Enters : ω → Φ → Φ → Prop
  Leaves : ω → Φ → Φ → Prop
  /-- A call may make an access, with the memory before and after it. -/
  Accesses : ω → Φ → θ → ε → σ → σ → Φ → Prop
  held_entry : held entry = false
  held_of_enters : ∀ {op φ φ'}, Enters op φ φ' → held φ = false ∧ held φ' = true
  held_of_leaves : ∀ {op φ φ'}, Leaves op φ φ' → held φ = true ∧ held φ' = false
  held_of_accesses : ∀ {op φ site input s s' φ'}, Accesses op φ site input s s' φ' →
    held φ' = held φ

/-- The program, in a call of `op` that is in the phase `φ`, does only what the outline allows, on
every path. -/
def Prog.Follows (O : Outline μ σ ε θ ω Φ) (op : ω) : Φ → Prog μ σ ε θ → Prop
  | φ, .done => O.held φ = false
  | φ, .lock m k => m = O.mutex ∧ ∃ φ', O.Enters op φ φ' ∧ Follows O op φ' k
  | φ, .unlock m k => m = O.mutex ∧ ∃ φ', O.Leaves op φ φ' ∧ Follows O op φ' k
  | φ, .act site f k => ∀ input s,
    ∃ φ', O.Accesses op φ site input s (f input s) φ' ∧ Follows O op φ' (k input s)
  | φ, .callout _ k => Follows O op φ k

lemma Prog.Follows.keeps {O : Outline μ σ ε θ ω Φ} {op : ω} {A : θ → σ → Prop} {I : σ → Prop}
    (haccess : ∀ {φ site input s s' φ'}, O.Accesses op φ site input s s' φ' → A site s → I s →
      I s') {φ : Φ} {p : Prog μ σ ε θ} (h : p.Follows O op φ) : p.Keeps A I := by
  induction p generalizing φ with
  | done => trivial
  | lock m k ih | unlock m k ih =>
    obtain ⟨-, φ', -, hk⟩ := h
    exact ih hk
  | act site f k ih =>
    intro input s hA
    obtain ⟨φ', ha, hk⟩ := h input s
    exact ⟨haccess ha hA, ih input s hk⟩
  | callout site k ih => exact ih h

namespace Outline

variable (O : Outline μ σ ε θ ω Φ) [DecidableEq ι]

/-- Everything that the outline allows keeps the invariant `I` of the memory, the history and the
phase inside of the region, and with it what a call knows, `L`. Steps are those that `A` allows, in
memories with `J`. -/
structure Keeps (R : Recorder μ σ ε θ ω κ γ)
    (A : Observation μ σ ε θ ω → ω → κ → σ → History ι ω κ γ → Prop) (J : σ → Prop)
    (L : ω → Φ → κ → Prop) (I : σ → History ι ω κ γ → Option Φ → Prop) : Prop where
  started : ∀ {t op s h r}, J s → A (.started op) op (R.call op) s h → I s h r →
    L op O.entry (R.call op) ∧ I s (R.record h t (.started op)) r
  ended : ∀ {t op k calls φ s h r}, h.calls t = (op, k) :: calls → L op φ k → J s →
    A .ended op k s h → I s h r → I s (R.record h t .ended) r
  entered : ∀ {t op k calls φ φ' s h}, O.Enters op φ φ' → h.calls t = (op, k) :: calls →
    L op φ k → J s → A (.locked O.mutex) op k s h → I s h none →
    L op φ' (R.note (.locked O.mutex) op k) ∧ I s (R.record h t (.locked O.mutex)) (some φ')
  left : ∀ {t op k calls φ φ' s h}, O.Leaves op φ φ' → h.calls t = (op, k) :: calls →
    L op φ k → J s → A (.unlocked O.mutex) op k s h → I s h (some φ) →
    L op φ' (R.note (.unlocked O.mutex) op k) ∧ I s (R.record h t (.unlocked O.mutex)) none
  inside : ∀ {t op k calls φ φ' site input s s' h}, O.held φ = true →
    O.Accesses op φ site input s s' φ' → h.calls t = (op, k) :: calls → L op φ k → J s →
    A (.accessed site input s s') op k s h → I s h (some φ) →
    L op φ' (R.note (.accessed site input s s') op k) ∧
      I s' (R.record h t (.accessed site input s s')) (some φ')
  outside : ∀ {t op k calls φ φ' site input s s' h r}, O.held φ = false →
    O.Accesses op φ site input s s' φ' → h.calls t = (op, k) :: calls → L op φ k → J s →
    A (.accessed site input s s') op k s h → I s h r →
    L op φ' (R.note (.accessed site input s s') op k) ∧
      I s' (R.record h t (.accessed site input s s')) r
  resumed : ∀ {t op k calls φ site s h r}, h.calls t = (op, k) :: calls → L op φ k → J s →
    A (.resumed site) op k s h → I s h r →
    L op φ (R.note (.resumed site) op k) ∧ I s (R.record h t (.resumed site)) r

/-- The calls of a thread follow the outline from the phases they are in. -/
inductive Framed (L : ω → Φ → κ → Prop) :
    List Φ → List (ω × κ) → List (Prog μ σ ε θ) → Prop
  | nil : Framed L [] [] []
  | cons {φ : Φ} {op : ω} {k : κ} {p : Prog μ σ ε θ} {phases : List Φ} {calls : List (ω × κ)}
      {stack : List (Prog μ σ ε θ)} (hp : p.Follows O op φ) (hl : L op φ k)
      (h : Framed L phases calls stack) :
      Framed L (φ :: phases) ((op, k) :: calls) (p :: stack)

/-- The phases of all calls: the owner of the mutex, and nobody else, has one inside of the region,
and the invariant holds with it. -/
structure Outlined (L : ω → Φ → κ → Prop) (I : σ → History ι ω κ γ → Option Φ → Prop)
    (w : Watched μ σ ε θ ι ω κ γ) (phases : ι → List Φ) (r : Option Φ) : Prop where
  framed : ∀ t, O.Framed L (phases t) (w.history.calls t) (w.config.stack t)
  region : ∀ t, (phases t).filter O.held =
    if w.config.owner O.mutex = some t then r.toList else []
  free : w.config.owner O.mutex = none → r = none
  holds : I w.config.mem w.history r

variable {O} {L : ω → Φ → κ → Prop} {I : σ → History ι ω κ γ → Option Φ → Prop}

variable {p : Prog μ σ ε θ} {stack : List (Prog μ σ ε θ)} {init : σ → Prop} {past : γ}
  {ok : Watched μ σ ε θ ι ω κ γ → ι × Choice ε ω → Prop}

lemma Framed.exists_cons {phases : List Φ} {calls : List (ω × κ)}
    (h : O.Framed L phases calls (p :: stack)) :
    ∃ φ op k phases' calls', phases = φ :: phases' ∧ calls = (op, k) :: calls' ∧
      p.Follows O op φ ∧ L op φ k ∧ O.Framed L phases' calls' stack := by
  cases h with
  | cons hp hl h => exact ⟨_, _, _, _, _, rfl, rfl, hp, hl, h⟩

variable {w : Watched μ σ ε θ ι ω κ γ} {phases : ι → List Φ} {r : Option Φ}

variable {t : ι} {ops : ω → Prog μ σ ε θ}

lemma Outlined.of_held (hO : O.Outlined L I w phases r) {φ : Φ} {rest : List Φ}
    (ht : phases t = φ :: rest) (hφ : O.held φ = true) :
    w.config.owner O.mutex = some t ∧ r = some φ ∧ rest.filter O.held = [] := by
  have hregion := hO.region t
  rw [ht, List.filter_cons_of_pos hφ] at hregion
  split_ifs at hregion with howner
  cases r with
  | none => cases hregion
  | some φ' =>
    obtain ⟨rfl, hrest⟩ := List.cons.inj hregion
    exact ⟨howner, rfl, hrest⟩

lemma Outlined.of_thread {r' : Option Φ} (hO : O.Outlined L I w phases r) {c : Config μ σ ε θ ι}
    {h : History ι ω κ γ} (own : List Φ) (hcalls : ∀ u, u ≠ t → h.calls u = w.history.calls u)
    (hstack : ∀ u, u ≠ t → c.stack u = w.config.stack u)
    (hframed : O.Framed L own (h.calls t) (c.stack t))
    (hown : own.filter O.held = if c.owner O.mutex = some t then r'.toList else [])
    (hothers : ∀ u, u ≠ t → (if c.owner O.mutex = some u then r'.toList else []) =
      if w.config.owner O.mutex = some u then r.toList else [])
    (hfree : c.owner O.mutex = none → r' = none) (hholds : I c.mem h r') :
    O.Outlined L I ⟨c, h⟩ (update phases t own) r' := by
  refine ⟨fun u => ?_, fun u => ?_, hfree, hholds⟩
  · by_cases hu : u = t
    · subst hu
      simpa using hframed
    · simpa [hu, hcalls u hu, hstack u hu] using hO.framed u
  · by_cases hu : u = t
    · subst hu
      simpa using hown
    · simp only [update_of_ne hu]
      rw [hothers u hu]
      exact hO.region u

variable [DecidableEq μ] {R : Recorder μ σ ε θ ω κ γ}
  {A : Observation μ σ ε θ ω → ω → κ → σ → History ι ω κ γ → Prop} {J : σ → Prop}

/-- The innermost call of a thread goes on.

**Proof sketch.** By what the step shows. Only the phase of this call changes. If it is inside of
the region, the thread owns the mutex, and its phase is the one that the invariant speaks of; if it
enters the region, nobody is there. -/
lemma Keeps.step_next (hK : O.Keeps R A J L I) (hO : O.Outlined L I w phases r)
    (hJ : J w.config.mem) {obs : Observation μ σ ε θ ω} {p' : Prog μ σ ε θ}
    (htop : w.config.stack t = p :: stack) (hnext : p.Next w.config.mem obs p')
    (hfree : ∀ m, obs = .locked m → w.config.owner m = none)
    (hok : ∀ call ∈ R.current w.history t obs, A obs call.1 call.2 w.config.mem w.history) :
    ∃ phases' r', O.Outlined L I
      ⟨⟨obs.memory w.config.mem, obs.owner w.config.owner t,
        update w.config.stack t (p' :: stack)⟩, R.record w.history t obs⟩ phases' r' := by
  have hframed := hO.framed t
  have hregion := hO.region t
  rw [htop] at hframed
  obtain ⟨φ, op, k, rest, calls, hphases, hown, hp, hL, hrest⟩ := hframed.exists_cons
  replace hok := hok (op, k) (by rw [R.current_of_next hnext, hown]; rfl)
  rw [hphases] at hregion
  -- It remains to find the next phase.
  suffices hnext' : ∃ φ' r', p'.Follows O op φ' ∧ L op φ' (R.note obs op k) ∧
      (φ' :: rest).filter O.held =
        (if obs.owner w.config.owner t O.mutex = some t then r'.toList else []) ∧
      (∀ u, u ≠ t → (if obs.owner w.config.owner t O.mutex = some u then r'.toList else []) =
        if w.config.owner O.mutex = some u then r.toList else []) ∧
      (obs.owner w.config.owner t O.mutex = none → r' = none) ∧
      I (obs.memory w.config.mem) (R.record w.history t obs) r' by
    obtain ⟨φ', r', hp', hL', hfilter, hothers, hnone, hI⟩ := hnext'
    refine ⟨_, r', hO.of_thread (φ' :: rest) (fun u hu => R.calls_record_of_ne _ hu obs)
      (fun u hu => update_of_ne hu _ _) ?_ hfilter hothers hnone hI⟩
    rw [R.calls_record_self, hown, R.update_of_next hnext]
    simpa using .cons hp' hL' hrest
  cases hnext with
  | lock m k =>
    obtain ⟨rfl, φ', henters, hp'⟩ := hp
    obtain ⟨hφ, hφ'⟩ := O.held_of_enters henters
    have howner := hfree _ rfl
    obtain rfl := hO.free howner
    obtain ⟨hL', hI⟩ := hK.entered henters hown hL hJ hok hO.holds
    refine ⟨φ', some φ', hp', hL', ?_, fun u hu => ?_, fun h => ?_, hI⟩
    · rw [List.filter_cons_of_neg (by simp [hφ]), if_neg (by simp [howner])] at hregion
      simp [Observation.owner, hφ', hregion]
    · simp [Observation.owner, howner, Ne.symm hu]
    · simp [Observation.owner] at h
  | unlock m k =>
    obtain ⟨rfl, φ', hleaves, hp'⟩ := hp
    obtain ⟨hφ, hφ'⟩ := O.held_of_leaves hleaves
    obtain ⟨howner, rfl, hempty⟩ := hO.of_held hphases hφ
    obtain ⟨hL', hI⟩ := hK.left hleaves hown hL hJ hok hO.holds
    refine ⟨φ', none, hp', hL', ?_, fun u hu => ?_, fun _ => rfl, hI⟩
    · simp [hφ', hempty]
    · simp [howner, Ne.symm hu]
  | act site f k input =>
    obtain ⟨φ', haccess, hp'⟩ := hp input w.config.mem
    have hheld := O.held_of_accesses haccess
    cases hφ : O.held φ with
    | true =>
      obtain ⟨howner, rfl, hempty⟩ := hO.of_held hphases hφ
      obtain ⟨hL', hI⟩ := hK.inside hφ haccess hown hL hJ hok hO.holds
      refine ⟨φ', some φ', hp', hL', ?_, fun u hu => ?_, fun h => ?_, hI⟩
      · simp [Observation.owner, howner, hheld, hφ, hempty]
      · simp [Observation.owner, howner, Ne.symm hu]
      · simp [Observation.owner, howner] at h
    | false =>
      obtain ⟨hL', hI⟩ := hK.outside hφ haccess hown hL hJ hok hO.holds
      refine ⟨φ', r, hp', hL', ?_, fun _ _ => rfl, hO.free, hI⟩
      rw [List.filter_cons_of_neg (by simp [hφ])] at hregion
      rw [List.filter_cons_of_neg (by simp [hheld, hφ])]
      exact hregion
  | callout site k =>
    obtain ⟨hL', hI⟩ := hK.resumed hown hL hJ hok hO.holds
    exact ⟨φ, r, hp, hL', hregion, fun _ _ => rfl, hO.free, hI⟩

lemma Keeps.step (hK : O.Keeps R A J L I) (hops : ∀ op, (ops op).Follows O op O.entry)
    {w' : Watched μ σ ε θ ι ω κ γ} {a : ι × Choice ε ω} (hO : O.Outlined L I w phases r)
    (hJ : J w.config.mem) (hok : R.Allows A w a) (hst : R.step ops w a = some w') :
    ∃ phases' r', O.Outlined L I w' phases' r' := by
  obtain ⟨obs, hobs, hsteps, hhistory⟩ := Recorder.exists_of_step hst
  obtain ⟨c', h'⟩ := w'
  obtain rfl : h' = R.record w.history a.1 obs := hhistory
  replace hok := hok obs hobs
  generalize a.1 = t at *
  have hframed := hO.framed t
  have hregion := hO.region t
  cases hsteps with
  | next htop hnext hfree => exact hK.step_next hO hJ htop hnext hfree hok
  | started op =>
    obtain ⟨hL, hI⟩ := hK.started (t := t) hJ (hok _ rfl) hO.holds
    refine ⟨_, r, hO.of_thread (O.entry :: phases t) (fun u hu => R.calls_record_of_ne _ hu _)
      (fun u hu => update_of_ne hu _ _) ?_ ?_ (fun _ _ => rfl) hO.free hI⟩
    · rw [R.calls_record_self]
      simpa [Config.setStack] using .cons (hops op) hL hframed
    · rw [List.filter_cons_of_neg (by simp [O.held_entry])]
      exact hregion
  | ended htop =>
    rw [htop] at hframed
    obtain ⟨φ, op, k, rest, calls, hphases, hown, hdone, hL, hrest⟩ := hframed.exists_cons
    have hcurrent : R.current w.history t .ended = some (op, k) := by simp [Recorder.current, hown]
    have hI := hK.ended hown hL hJ (hok _ hcurrent) hO.holds
    refine ⟨_, r, hO.of_thread rest (fun u hu => R.calls_record_of_ne _ hu _)
      (fun u hu => update_of_ne hu _ _) ?_ ?_ (fun _ _ => rfl) hO.free hI⟩
    · rw [R.calls_record_self, hown]
      simpa [Config.setStack, Recorder.update] using hrest
    · have hφ : O.held φ = false := hdone
      rwa [hphases, List.filter_cons_of_neg (by simp [hφ])] at hregion

/-- **The rule for programs that follow an outline**: what the outline keeps holds in every run. If
nobody owns the mutex, it holds with nobody inside of the region. -/
theorem Keeps.invariant (hK : O.Keeps R A J L I) (hops : ∀ op, (ops op).Follows O op O.entry)
    (hinit : ∀ mem, init mem → I mem (Recorder.nothing past) none)
    (hok : ∀ w a, ok w a → R.Allows A w a)
    (hJ : ∀ w, (R.watched ι ops init past).ReachableWithin ok w → J w.config.mem)
    (h : (R.watched ι ops init past).ReachableWithin ok w) :
    ∃ phases r, O.Outlined L I w phases r := by
  refine h.invariant_of (J := fun w => J w.config.mem)
    (I := fun w => ∃ phases r, O.Outlined L I w phases r) hJ ?_ fun w a w' hJw hO hallowed hst => ?_
  · rintro _ ⟨mem, hmem, rfl⟩
    exact ⟨fun _ => [], none, fun _ => .nil, by simp, fun _ => rfl, hinit mem hmem⟩
  · obtain ⟨phases, r, hO⟩ := hO
    exact hK.step hops hO hJw (hok w a hallowed) hst

/-- A property of the memory that every access of the outline keeps, if it is allowed. -/
theorem mem_invariant (hops : ∀ op, (ops op).Follows O op O.entry) {K : σ → Prop}
    (hinit : ∀ mem, init mem → K mem) {B : θ → ε → σ → Prop}
    (haccess : ∀ {op φ site input s s' φ'}, O.Accesses op φ site input s s' φ' → B site input s →
      K s → K s') (hok : ∀ w a, ok w a → Recorder.AccessOk B w.config a)
    (h : (R.watched ι ops init past).ReachableWithin ok w) : K w.config.mem := by
  have hK : O.Keeps R
      (fun obs _ _ _ (_ : History ι ω κ γ) => ∀ site input before after,
        obs = .accessed site input before after → B site input before)
      (fun _ => True) (fun _ _ _ => True) (fun s _ _ => K s) :=
    ⟨fun _ _ hI => ⟨trivial, hI⟩, fun _ _ _ _ hI => hI, fun _ _ _ _ _ hI => ⟨trivial, hI⟩,
      fun _ _ _ _ _ hI => ⟨trivial, hI⟩,
      fun _ ha _ _ _ hA hI => ⟨trivial, haccess ha (hA _ _ _ _ rfl) hI⟩,
      fun _ ha _ _ _ hA hI => ⟨trivial, haccess ha (hA _ _ _ _ rfl) hI⟩,
      fun _ _ _ _ hI => ⟨trivial, hI⟩⟩
  obtain ⟨_, _, hO⟩ := hK.invariant hops hinit
    (fun w a hallowed obs hobs _ _ site input before after heq =>
      hok w a hallowed site input before after (heq ▸ hobs)) (fun _ _ => trivial) h
  exact hO.holds

end Outline

end LockProgram
