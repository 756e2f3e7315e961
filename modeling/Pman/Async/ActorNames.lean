import Pman.Async.ActorCascade

set_option autoImplicit false

/-!
# The names of actors

The registry keeps two tables, from names to pids and back. `registerName` asks only whether the
name is free. A second name for a pid overwrites its entry in `reverse_names_`: `notifyExit` erases
the name it finds there, and the other one keeps leading to the dead actor.

As long as a pid is given a name only while it has none, the two tables are inverse to each other
and no name leads to a pid whose exit was notified.

## Main results

* `consistent_of_nameOk`: the tables are inverse and lead to no dead actor.
-/

namespace Pman

open Function

namespace Actors

open ProcessRegistry

variable {μ : Type*} {order : IterationOrder}

def Consistent (r : ProcessRegistry μ) : Prop :=
  ∀ name pid, r.names_ name = some pid ↔ r.reverse_names_ pid = some name

namespace Consistent

variable {r : ProcessRegistry μ}

variable {name : String} {pid : ProcessId}

lemma insert (h : Consistent r) (hname : r.names_ name = none)
    (hpid : r.reverse_names_ pid = none) :
    Consistent { r with
      names_ := update r.names_ name (some pid)
      reverse_names_ := update r.reverse_names_ pid (some name) } := by
  intro name' pid'
  by_cases hn : name' = name <;> by_cases hp : pid' = pid
  · subst hn hp
    simp
  · subst hn
    have hno : r.reverse_names_ pid' ≠ some name' := by
      rw [Ne, ← h, hname]
      simp
    simp [hp, Ne.symm hp, hno]
  · subst hp
    have hno : r.names_ name' ≠ some pid' := by
      rw [Ne, h, hpid]
      simp
    simp [hn, Ne.symm hn, hno]
  · simpa [hn, hp] using h name' pid'

lemma erase (h : Consistent r) (hname : r.names_ name = some pid) :
    Consistent { r with
      names_ := update r.names_ name none
      reverse_names_ := update r.reverse_names_ pid none } := by
  intro name' pid'
  by_cases hn : name' = name <;> by_cases hp : pid' = pid
  · subst hn hp
    simp
  · subst hn
    have hno : r.reverse_names_ pid' ≠ some name' := by
      rw [Ne, ← h, hname]
      simpa using Ne.symm hp
    simp [hp, hno]
  · subst hp
    have hno : r.names_ name' ≠ some pid' := by
      rw [Ne, h, (h _ _).mp hname]
      simpa using Ne.symm hn
    simp [hn, hno]
  · simpa [hn, hp] using h name' pid'

lemma depart (h : Consistent r) (pid : ProcessId) : Consistent (r.depart pid) := by
  unfold ProcessRegistry.depart eraseName
  split
  case h_1 name hname => exact erase (r := r.eraseActor pid) h ((h name pid).mpr hname)
  case h_2 => exact h

end Consistent

lemma reverse_names_depart (r : ProcessRegistry μ) (pid q : ProcessId) :
    (r.depart pid).reverse_names_ q = if q = pid then none else r.reverse_names_ q := by
  unfold depart eraseName
  by_cases hq : q = pid
  · subst hq
    split
    · simp
    · simpa using ‹_›
  · split <;> simp [hq, eraseActor]

def NameOk (s : World μ) : Op μ → Prop
  | .registerName name pid => s.registry.names_ name = none → s.registry.reverse_names_ pid = none
  | _ => True

instance (s : World μ) : DecidablePred (NameOk s) := by
  intro op
  cases op <;> dsimp only [NameOk] <;> infer_instance

/-- The tables are inverse to each other, and the pids whose exit was notified have no name. -/
structure Named (s : World μ) : Prop where
  consistent : Consistent s.registry
  unnamed : ∀ p ∈ s.unnamed, s.registry.reverse_names_ p = none

namespace Named

variable {s : World μ}

variable {s' : World μ} {pid : ProcessId}

lemma of_eq (h : Named s) (hnames : s'.registry.names_ = s.registry.names_)
    (hreverse : s'.registry.reverse_names_ = s.registry.reverse_names_)
    (hunnamed : s'.unnamed = s.unnamed) : Named s' := by
  constructor
  · intro name pid
    rw [hnames, hreverse]
    exact h.consistent name pid
  · rw [hunnamed, hreverse]
    exact h.unnamed

/-- **A cascade forgets the names of all who die in it.**

**Proof sketch.** Each departure forgets one name and keeps the tables inverse; a pid that was
registered before and is not any more has departed. -/
lemma book (h : Named s) {r : ProcessRegistry μ} (hnames : r.names_ = s.registry.names_)
    (hreverse : r.reverse_names_ = s.registry.reverse_names_) {n : ℕ} (hn : r.actors_.card < n)
    {reason : ExitReason} {msg : String} {x : ProcessRegistry μ × List (Exit μ)}
    (hx : notifyExit order n r pid reason msg = some x) : Named (s.book pid x) := by
  have hr : Consistent r := by
    intro name q
    rw [hnames, hreverse]
    exact h.consistent name q
  let P : ProcessRegistry μ → Prop := fun r' =>
    Consistent r' ∧ ∀ q, q ∈ s.unnamed ∨ q = pid ∨ (q ∈ r.actors_ ∧ q ∉ r'.actors_) →
      r'.reverse_names_ q = none
  have hP : P x.1 := by
    refine (notifyExit_invariant ?_ ?_ ?_ hx).1
    · intro r' q _ ⟨hcon, hgone⟩
      refine ⟨Consistent.depart (r := r'.stop q) hcon q, fun w hw => ?_⟩
      rw [reverse_names_depart]
      split
      case isTrue => rfl
      case isFalse hne =>
        refine hgone w ?_
        simpa [ProcessRegistry.stop, hne] using hw
    · exact fun r' _ _ _ hr' => hr'
    · refine ⟨hr.depart pid, fun w hw => ?_⟩
      rw [reverse_names_depart]
      split
      case isTrue => rfl
      case isFalse hne =>
        rcases hw with hw | hw | ⟨hw, hgone⟩
        · rw [hreverse]
          exact h.unnamed w hw
        · exact absurd hw hne
        · simp [hne, hw] at hgone
  refine ⟨hP.1, fun q hq => hP.2 q ?_⟩
  rcases Finset.mem_union.mp hq with hq | hq
  · exact .inl hq
  · rcases Finset.mem_insert.mp hq with hq | hq
    · exact .inr (.inl hq)
    · exact .inr (.inr ((exits_notifyExit hn hx).1 q (List.mem_toFinset.mp hq)))

lemma onActor (h : Named s) {f : Actor μ → Actor μ} (hst : s.onActor pid f = some s') :
    Named s' := by
  unfold World.onActor at hst
  split at hst <;> cases hst
  case isTrue =>
    exact h.of_eq rfl rfl rfl

lemma send (h : Named s) (to_ from_ : ProcessId) (payload : Option (Payload μ)) :
    Named { s with registry := (s.registry.send to_ from_ payload).1 } := by
  refine h.of_eq ?_ ?_ rfl <;> (unfold ProcessRegistry.send; split <;> rfl)

end Named

lemma named_step {s s' : World μ} {op : Op μ} (h : Named s) (hok : NameOk s op)
    (hst : step order s op = some s') : Named s' := by
  cases op with
  | spawn =>
    cases hst
    exact h.of_eq rfl rfl rfl
  | registerName name pid =>
    cases hst
    cases hname : s.registry.names_ name with
    | some q =>
      have hsame : s.registry.registerName name pid = (s.registry, false) := by
        simp [ProcessRegistry.registerName, hname]
      rw [hsame]
      exact h
    | none =>
      have hpid : s.registry.reverse_names_ pid = none := hok hname
      refine ⟨?_, fun q hq => ?_⟩
      · simpa [ProcessRegistry.registerName, hname] using h.consistent.insert hname hpid
      · have hq : q ≠ pid ∧ q ∈ s.unnamed := by
          simpa [ProcessRegistry.registerName, hname] using hq
        simpa [ProcessRegistry.registerName, hname, hq.1] using h.unnamed q hq.2
  | unregisterName name =>
    cases hst
    unfold ProcessRegistry.unregisterName
    split
    case h_1 pid hname =>
      refine ⟨h.consistent.erase hname, fun q hq => ?_⟩
      by_cases hqp : q = pid
      · subst hqp
        simp
      · simpa [hqp] using h.unnamed q hq
    case h_2 => exact h
  | send to_ from_ payload =>
    cases hst
    exact h.send to_ from_ payload
  | sendName name from_ payload =>
    cases hst
    unfold ProcessRegistry.sendName
    split
    · exact h.send _ from_ payload
    · exact h
  | link =>
    cases hst
    refine h.of_eq ?_ ?_ rfl <;> (unfold ProcessRegistry.link; split <;> rfl)
  | monitor =>
    cases hst
    refine h.of_eq ?_ ?_ rfl <;> (unfold ProcessRegistry.monitor; split <;> rfl)
  | receive | stop => exact h.onActor hst
  | resume =>
    simp only [step] at hst
    split at hst
    · exact h.onActor hst
    · cases hst
  | notifyExit =>
    obtain ⟨x, hx, rfl⟩ := Option.map_eq_some_iff.mp hst
    exact h.book rfl rfl (Nat.lt_succ_self _) hx
  | handleCrash pid =>
    obtain ⟨-, hst⟩ := Option.ite_none_right_eq_some.mp hst
    obtain ⟨x, hx, rfl⟩ := Option.map_eq_some_iff.mp hst
    exact h.book (r := s.registry.stop pid) rfl rfl (Nat.lt_succ_self _) hx

/-- **The name tables stay consistent**, in every run in which a free name is registered only for a
pid that has none: a name leads to a pid exactly if the pid leads back to it, and from the
notification of an exit on no name leads to the pid, until it is given one again. -/
theorem consistent_of_nameOk {s : World μ} (hs : (system order).ReachableWithin NameOk s) :
    (∀ name pid, s.registry.names_ name = some pid ↔ s.registry.reverse_names_ pid = some name) ∧
      ∀ pid ∈ s.unnamed, ∀ name, s.registry.whereis name ≠ some pid := by
  have hnamed : Named s := by
    refine hs.invariant (fun _ h => ?_) fun _ _ _ h hok hst => named_step h hok hst
    subst h
    exact ⟨by simp [Consistent, World.new, ProcessRegistry.new], by simp [World.new]⟩
  refine ⟨hnamed.consistent, fun pid hpid name hwhereis => ?_⟩
  have hback := (hnamed.consistent name pid).mp hwhereis
  simp [hnamed.unnamed pid hpid] at hback

def IsNameCall : Op μ → Prop
  | .spawn | .registerName _ _ | .unregisterName _ | .notifyExit _ _ _ => True
  | _ => False

instance : DecidablePred (IsNameCall : Op μ → Prop)
  | .spawn | .registerName _ _ | .unregisterName _ | .notifyExit _ _ _ => .isTrue trivial
  | .send _ _ _ | .sendName _ _ _ | .link _ _ | .monitor _ _ | .receive _ | .resume _ _ | .stop _
  | .handleCrash _ _ _ => .isFalse not_false

/-- Two actors, of which the first gets a name, gives it up for another and exits. -/
theorem consistent_of_nameOk_renamed :
    ∃ s : World Unit, (system .ascending).ReachableWithin NameOk s ∧ 1 ∈ s.unnamed ∧
      s.registry.names_ "a" = some 2 ∧ s.registry.reverse_names_ 2 = some "a" ∧
      s.registry.whereis "b" ≠ some 1 := by
  have hs : (system .ascending : TransitionSystem (World Unit) _).ReachableWithin NameOk _ :=
    .final World.new
      [.spawn, .spawn, .registerName "a" 1, .unregisterName "a", .registerName "b" 1,
        .registerName "a" 2, .notifyExit 1 .Normal ""] rfl (by decide +kernel)
  obtain ⟨hinverse, hwhereis⟩ := consistent_of_nameOk hs
  exact ⟨_, hs, by decide, rfl, (hinverse _ _).mp rfl, hwhereis 1 (by decide) "b"⟩

/-- **A name survives its actor.** An actor is given two names and exits: `reverse_names_` knew only
the second, so the first still leads to it. -/
theorem names_dangle :
    ∃ s : World Unit, (system .ascending).ReachableWithin (fun _ => IsNameCall) s ∧
      (¬ ∀ name pid, s.registry.names_ name = some pid ↔
        s.registry.reverse_names_ pid = some name) ∧
      1 ∈ s.unnamed ∧ s.registry.whereis "a" = some 1 := by
  have hs : (system .ascending : TransitionSystem (World Unit) _).ReachableWithin
      (fun _ => IsNameCall) _ :=
    .final World.new
      [.spawn, .registerName "a" 1, .registerName "b" 1, .notifyExit 1 .Normal ""] rfl
      (by decide +kernel)
  refine ⟨_, hs, fun hinverse => ?_, by decide, rfl⟩
  cases (hinverse "a" 1).mp rfl

end Actors

end Pman
