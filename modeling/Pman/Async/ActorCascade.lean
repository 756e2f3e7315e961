import Mathlib.Order.Lattice.Nat
import Pman.Async.Actor
import Pman.Lib.Exploration

set_option autoImplicit false

/-!
# Exit cascades

An exit takes the exits of linked actors with it. A pid is erased from the registry before its links
are followed, and an exit signal goes only to actors that are still registered. So a cascade is the
search of `Pman.Lib.Exploration` over the link graph, and it ends with exactly the actors connected
to the first one gone, each of them once. Each exit sends one `DownMessage` to each of its monitors
that can take it.

`Actors.system` is the registry under any sequence of calls on the loop's thread. It keeps the calls
of `link` and `monitor` that took effect and the exits performed as histories.

## Main results

* `connected_of_notifyExit`: the actors that die are those connected by links.
* `notifyExit_down`: who is told of which exit.
-/

namespace Pman

open Option List

namespace Actors

open ProcessRegistry

variable {μ : Type*} {order : IterationOrder}

/-! ### Cascades are searches -/

def view (x : ProcessRegistry μ × List (Exit μ)) : Finset ProcessId × List ProcessId :=
  (x.1.actors_, x.2.map Exit.pid)

@[simp] lemma actors_notifyMonitors (pid : ProcessId) (reason : ExitReason) (r : ProcessRegistry μ)
    (ms : List ProcessId) : (notifyMonitors pid reason r ms).actors_ = r.actors_ :=
  notifyMonitors_invariant (P := fun r' => r'.actors_ = r.actors_) (fun _ _ _ _ h => h) pid reason
    ms r rfl

def follow (order : IterationOrder) (r : ProcessRegistry μ) (q : ProcessId) : List ProcessId :=
  order.links q (r.actor q).links_

variable {n : ℕ} {r : ProcessRegistry μ} {pid : ProcessId} {reason : ExitReason}
  {signal : ExitSignal}

/-- The loop over the links is the search from a list.

**Proof sketch.** Induction on the list; a cascade keeps the links, so the rest of the list meets
the same graph. -/
lemma view_signalLinks
    (hone : ∀ (r' : ProcessRegistry μ) q reason msg, follow order r' = follow order r →
      q ∈ r'.actors_ → (notifyExit order n r' q reason msg).map view =
        Exploration.visit (follow order r) n r'.actors_ q) (links : List ProcessId)
    (r' : ProcessRegistry μ) (hr : follow order r' = follow order r) :
    (signalLinks (handleExitSignal (notifyExit order n)) signal r' links).map view =
      Exploration.visitAll (Exploration.visit (follow order r) n) r'.actors_ links := by
  induction links generalizing r' with
  | nil => rfl
  | cons q links ih =>
    rw [signalLinks, Exploration.visitAll]
    by_cases hq : q ∈ r'.actors_
    · rw [if_pos hq, if_pos hq]
      have hstop : follow order (r'.stop q) = follow order r := by
        rw [← hr]
        funext w
        exact congrArg (order.links w) (r'.modify_field q w Actor.links_ Actor.links_stop)
      have hvisit := hone (r'.stop q) q .Linked
        ("Linked process " ++ toString signal.pid ++ " died") hstop hq
      rw [show (r'.stop q).actors_ = r'.actors_ from rfl] at hvisit
      rw [← hvisit, handleExitSignal, handleCrash]
      cases hx : notifyExit order n (r'.stop q) q .Linked
          ("Linked process " ++ toString signal.pid ++ " died") with
      | none => rfl
      | some x =>
        have hsame : follow order x.1 = follow order r := by
          rw [← hstop]
          funext w
          exact congrArg (order.links w) ((descends_notifyExit hx).1.links_ w)
        simp only [Option.bind_some, Option.map_some, Option.map_map]
        rw [show (view x).1 = x.1.actors_ from rfl, ← ih x.1 hsame, Option.map_map]
        congr 1
        funext y
        simp [view]
    · rw [if_neg hq, if_neg hq]
      exact ih r' hr

/-- **A cascade is a search of the link graph**: for the pids registered and the exits performed. -/
theorem view_notifyExit (n : ℕ) (r : ProcessRegistry μ) (reason : ExitReason) (msg : String)
    (hpid : pid ∈ r.actors_) :
    (notifyExit order n r pid reason msg).map view =
      Exploration.visit (follow order r) n r.actors_ pid := by
  induction n generalizing r pid reason msg with
  | zero => rfl
  | succ n ih =>
    have hlinks : (signalLinks (handleExitSignal (notifyExit order n)) ⟨pid, reason, msg⟩
        (r.depart pid) (follow order r pid)).map view =
          Exploration.visitAll (Exploration.visit (follow order r) n) (r.depart pid).actors_
            (follow order r pid) :=
      view_signalLinks (fun r' q reason msg hr hq => by rw [← hr]; exact ih r' reason msg hq)
        (follow order r pid) (r.depart pid) (by funext w; simp [follow])
    rw [actors_depart] at hlinks
    rw [notifyExit, if_pos hpid, Exploration.visit, ← hlinks, Option.map_map, Option.map_map]
    congr 1
    funext x
    simp [view]

lemma signalLinks_mono {handle handle' : ProcessRegistry μ → ProcessId → ExitSignal → Outcome μ}
    (hle : ∀ r q x, handle r q signal = some x → handle' r q signal = some x)
    {links : List ProcessId} {y : ProcessRegistry μ × List (Exit μ)}
    (hy : signalLinks handle signal r links = some y) :
    signalLinks handle' signal r links = some y := by
  induction links generalizing r y with
  | nil => exact hy
  | cons q links ih =>
    rw [signalLinks] at hy ⊢
    split at hy
    case isFalse hq =>
      rw [if_neg hq]
      exact ih hy
    case isTrue hq =>
      obtain ⟨x, hx, hy⟩ := bind_eq_some_iff.mp hy
      obtain ⟨z, hz, rfl⟩ := map_eq_some_iff.mp hy
      rw [if_pos hq, hle r q x hx, bind_some, ih hz]
      rfl

variable {x : ProcessRegistry μ × List (Exit μ)} {msg : String}

lemma notifyExit_mono {m : ℕ} (hnm : n ≤ m) (hx : notifyExit order n r pid reason msg = some x) :
    notifyExit order m r pid reason msg = some x := by
  induction n generalizing m r pid reason msg x with
  | zero => simp [notifyExit] at hx
  | succ n ih =>
    obtain ⟨m, rfl⟩ : ∃ k, m = k + 1 := ⟨m - 1, by omega⟩
    rw [notifyExit] at hx ⊢
    split at hx
    case isFalse hpid =>
      rw [if_neg hpid]
      exact hx
    case isTrue hpid =>
      obtain ⟨y, hy, rfl⟩ := map_eq_some_iff.mp hx
      have hlinks : signalLinks (handleExitSignal (notifyExit order m)) ⟨pid, reason, msg⟩
          (r.depart pid) (order.links pid (r.actor pid).links_) = some y :=
        signalLinks_mono (fun _ _ _ hx => ih (Nat.le_of_succ_le_succ hnm) hx) hy
      rw [if_pos hpid]
      simp only [hlinks, map_some]

lemma notifyExit_of_notMem (hn : 0 < n) (reason : ExitReason) (msg : String)
    (hpid : pid ∉ r.actors_) : notifyExit order n r pid reason msg = some (r.depart pid, []) := by
  obtain ⟨n, rfl⟩ : ∃ k, n = k + 1 := ⟨n - 1, by omega⟩
  rw [notifyExit, if_neg hpid]

lemma exists_notifyExit (order : IterationOrder) (r : ProcessRegistry μ) (reason : ExitReason)
    (msg : String) (hpid : pid ∈ r.actors_) :
    ∃ x, (∀ n, r.actors_.card ≤ n → notifyExit order n r pid reason msg = some x) ∧
      Exploration.Explored (follow order r) r.actors_ (· = pid) (view x) := by
  obtain ⟨v, hvisit, hexplored⟩ : ∃ v,
      Exploration.visit (follow order r) r.actors_.card r.actors_ pid = some v ∧
        Exploration.Explored (follow order r) r.actors_ (· = pid) v :=
    Exploration.explored_visit _ hpid le_rfl
  rw [← view_notifyExit _ r reason msg hpid] at hvisit
  obtain ⟨x, hx, rfl⟩ := map_eq_some_iff.mp hvisit
  exact ⟨x, fun n hn => notifyExit_mono hn hx, hexplored⟩

lemma exits_notifyExit (hn : r.actors_.card < n) (hx : notifyExit order n r pid reason msg = some x)
    : (∀ q ∈ x.2.map Exit.pid, q ∈ r.actors_ ∧ q ∉ x.1.actors_) ∧ (x.2.map Exit.pid).Nodup := by
  by_cases hpid : pid ∈ r.actors_
  · obtain ⟨y, hy, hexplored⟩ := exists_notifyExit order r reason msg hpid
    obtain rfl : x = y := some.inj (hx.symm.trans (hy n hn.le))
    refine ⟨fun q hq => ?_, hexplored.nodup⟩
    have hreached := (hexplored.visited q).mp hq
    exact ⟨hreached.mem, fun hmem => ((hexplored.rest q).mp hmem).2 hreached⟩
  · rw [notifyExit_of_notMem (Nat.zero_lt_of_lt hn) reason msg hpid] at hx
    cases hx
    simp

/-- A registry with its history. -/
structure World (μ : Type*) where
  registry : ProcessRegistry μ
  died : List ProcessId
  /-- The calls of `link` that found both actors. -/
  linked : Finset (ProcessId × ProcessId)
  /-- The calls of `monitor` that found the watched actor, as watcher and watched. -/
  watches : Finset (ProcessId × ProcessId)
  /-- The pids for which `notifyExit` has run and that no `registerName` has named since. -/
  unnamed : Finset ProcessId

/-- A call on the loop's thread. `exit` of an actor's context is `notifyExit`, the end of its `run`
is `handleCrash`. -/
inductive Op (μ : Type*)
  | spawn
  | registerName (name : String) (pid : ProcessId)
  | unregisterName (name : String)
  | send (to_ from_ : ProcessId) (payload : Option (Payload μ))
  | sendName (name : String) (from_ : ProcessId) (payload : Option (Payload μ))
  | link (pid1 pid2 : ProcessId)
  | monitor (watcher watched : ProcessId)
  | receive (pid : ProcessId)
  | resume (pid : ProcessId) (i : ℕ)
  | stop (pid : ProcessId)
  | notifyExit (pid : ProcessId) (reason : ExitReason) (msg : String)
  | handleCrash (pid : ProcessId) (reason : ExitReason) (msg : String)

namespace World

def new : World μ := ⟨ProcessRegistry.new, [], ∅, ∅, ∅⟩

def Spawned (s : World μ) (pid : ProcessId) : Prop := 0 < pid ∧ pid < s.registry.next_pid_
  deriving Decidable

def book (s : World μ) (pid : ProcessId) (x : ProcessRegistry μ × List (Exit μ)) : World μ :=
  { s with
    registry := x.1
    died := s.died ++ x.2.map Exit.pid
    unnamed := s.unnamed ∪ insert pid (x.2.map Exit.pid).toFinset }

def onActor (s : World μ) (pid : ProcessId) (f : Actor μ → Actor μ) : Option (World μ) :=
  if s.Spawned pid then some { s with registry := s.registry.modify pid f } else none

def depth (s : World μ) : ℕ := s.registry.actors_.card + 1

end World

def step (order : IterationOrder) (s : World μ) : Op μ → Option (World μ)
  | .spawn => some { s with registry := s.registry.spawn.1 }
  | .registerName name pid =>
    some { s with
      registry := (s.registry.registerName name pid).1
      unnamed := if (s.registry.registerName name pid).2 then s.unnamed.erase pid else s.unnamed }
  | .unregisterName name => some { s with registry := s.registry.unregisterName name }
  | .send to_ from_ payload => some { s with registry := (s.registry.send to_ from_ payload).1 }
  | .sendName name from_ payload =>
    some { s with registry := (s.registry.sendName name from_ payload).1 }
  | .link pid1 pid2 =>
    some { s with
      registry := s.registry.link pid1 pid2
      linked := if pid1 ∈ s.registry.actors_ ∧ pid2 ∈ s.registry.actors_ then
        insert (pid1, pid2) s.linked else s.linked }
  | .monitor watcher watched =>
    some { s with
      registry := (s.registry.monitor watcher watched).1
      watches := if watched ∈ s.registry.actors_ then
        insert (watcher, watched) s.watches else s.watches }
  | .receive pid => s.onActor pid fun a => a.receive.1
  | .resume pid i =>
    match (s.registry.actor pid).resume i with
    | some a => s.onActor pid fun _ => a
    | none => none
  | .stop pid => s.onActor pid Actor.stop
  | .notifyExit pid reason msg =>
    (ProcessRegistry.notifyExit order s.depth s.registry pid reason msg).map (s.book pid)
  | .handleCrash pid reason msg =>
    if s.Spawned pid then
      (ProcessRegistry.handleCrash (ProcessRegistry.notifyExit order s.depth) s.registry pid reason
        msg).map (s.book pid)
    else none

/-- The registry of one event loop, for any order of the sets. -/
def system (order : IterationOrder) : TransitionSystem (World μ) (Op μ) where
  init s := s = World.new
  step := step order

/-! ### Well-formed states -/

/-- The invariant of the registry. -/
structure WellFormed (s : World μ) : Prop where
  registered_lt : ∀ q ∈ s.registry.actors_, q < s.registry.next_pid_
  /-- Objects that do not exist yet are as the constructor will make them. -/
  fresh : ∀ q, s.registry.next_pid_ ≤ q → s.registry.actor q = Actor.new
  /-- Links are the calls of `link`, in both directions. -/
  links_iff : ∀ a q, q ∈ (s.registry.actor a).links_ ↔ (a, q) ∈ s.linked ∨ (q, a) ∈ s.linked
  monitors_iff : ∀ q w, w ∈ (s.registry.actor q).monitors_ ↔ (w, q) ∈ s.watches
  closedByStop : ∀ q, (s.registry.actor q).ClosedByStop
  /-- The dead are not registered and their pids are not used again. -/
  died_lt : ∀ q ∈ s.died, q < s.registry.next_pid_ ∧ q ∉ s.registry.actors_
  died_nodup : s.died.Nodup

namespace WellFormed

variable {s : World μ}

lemma new : WellFormed (World.new : World μ) where
  registered_lt := by simp [World.new, ProcessRegistry.new]
  fresh := by simp [World.new, ProcessRegistry.new]
  links_iff := by simp [World.new, ProcessRegistry.new, Actor.new]
  monitors_iff := by simp [World.new, ProcessRegistry.new, Actor.new]
  closedByStop := fun _ => Actor.closedByStop_new
  died_lt := by simp [World.new]
  died_nodup := nodup_nil

variable {s' : World μ} {f : Actor μ → Actor μ}

variable (h : WellFormed s)

include h

lemma of_eq (hnext : s'.registry.next_pid_ = s.registry.next_pid_)
    (hactors : s'.registry.actors_ = s.registry.actors_)
    (hactor : s'.registry.actor = s.registry.actor) (hdied : s'.died = s.died)
    (hlinked : s'.linked = s.linked) (hwatches : s'.watches = s.watches) : WellFormed s' := by
  constructor
  · rw [hnext, hactors]
    exact h.registered_lt
  · rw [hnext, hactor]
    exact h.fresh
  · rw [hactor, hlinked]
    exact h.links_iff
  · rw [hactor, hwatches]
    exact h.monitors_iff
  · rw [hactor]
    exact h.closedByStop
  · rw [hdied, hnext, hactors]
    exact h.died_lt
  · rw [hdied]
    exact h.died_nodup

lemma modify {pid : ProcessId} (hpid : pid < s.registry.next_pid_)
    (hlinks : (f (s.registry.actor pid)).links_ = (s.registry.actor pid).links_)
    (hmonitors : (f (s.registry.actor pid)).monitors_ = (s.registry.actor pid).monitors_)
    (hclosed : (s.registry.actor pid).ClosedByStop → (f (s.registry.actor pid)).ClosedByStop) :
    WellFormed { s with registry := s.registry.modify pid f } := by
  refine ⟨h.registered_lt, fun q hq => ?_, ?_, ?_, ?_, h.died_lt, h.died_nodup⟩
  · have hne : q ≠ pid := fun heq => absurd (heq ▸ hq) (not_le.mpr hpid)
    exact (actor_modify_of_ne _ _ hne).trans (h.fresh q hq)
  · refine (forall_modify _ _ (p := fun a object => ∀ q, q ∈ object.links_ ↔
      (a, q) ∈ s.linked ∨ (q, a) ∈ s.linked)).mpr ⟨?_, fun a _ => h.links_iff a⟩
    rw [hlinks]
    exact h.links_iff pid
  · refine (forall_modify _ _ (p := fun q object => ∀ w, w ∈ object.monitors_ ↔
      (w, q) ∈ s.watches)).mpr ⟨?_, fun q _ => h.monitors_iff q⟩
    rw [hmonitors]
    exact h.monitors_iff pid
  · exact (forall_modify _ _ (p := fun _ object => object.ClosedByStop)).mpr
      ⟨hclosed (h.closedByStop pid), fun q _ => h.closedByStop q⟩

lemma send (to_ from_ : ProcessId) (payload : Option (Payload μ)) :
    WellFormed { s with registry := (s.registry.send to_ from_ payload).1 } := by
  rw [send_eq]
  split
  case isTrue hto =>
    exact h.modify (h.registered_lt to_ hto) (Actor.links_sendMessage _ _)
      (Actor.monitors_sendMessage _ _) fun hc => Actor.closedByStop_sendMessage hc _
  case isFalse => exact h

lemma spawn : WellFormed { s with registry := s.registry.spawn.1 } := by
  have hactor : s.registry.spawn.1.actor = s.registry.actor := by
    rw [← Function.update_eq_self s.registry.next_pid_ s.registry.actor, h.fresh _ le_rfl]
    simp [ProcessRegistry.spawn]
  refine ⟨fun q hq => ?_, fun q hq => ?_, ?_, ?_, ?_, fun q hq => ?_, h.died_nodup⟩
  · rcases Finset.mem_insert.mp hq with rfl | hq
    · exact Nat.lt_succ_self _
    · exact Nat.lt_succ_of_lt (h.registered_lt q hq)
  · exact (congrFun hactor q).trans (h.fresh q (Nat.le_of_succ_le hq))
  · simp only [hactor]
    exact h.links_iff
  · simp only [hactor]
    exact h.monitors_iff
  · simp only [hactor]
    exact h.closedByStop
  · obtain ⟨hlt, hgone⟩ := h.died_lt q hq
    refine ⟨Nat.lt_succ_of_lt hlt, fun hmem => ?_⟩
    rcases Finset.mem_insert.mp hmem with heq | hmem
    · exact absurd hlt (heq ▸ lt_irrefl _)
    · exact hgone hmem

lemma link {pid1 pid2 : ProcessId} (h1 : pid1 ∈ s.registry.actors_)
    (h2 : pid2 ∈ s.registry.actors_) :
    WellFormed { s with
      registry := s.registry.link pid1 pid2
      linked := insert (pid1, pid2) s.linked } := by
  have hlink : s.registry.link pid1 pid2 =
      (s.registry.modify pid1 (Actor.addLink pid2)).modify pid2 (Actor.addLink pid1) :=
    if_pos ⟨h1, h2⟩
  rw [hlink]
  have hlt1 := h.registered_lt pid1 h1
  have hlt2 := h.registered_lt pid2 h2
  refine ⟨h.registered_lt, fun q hq => ?_, fun a q => ?_, fun q => ?_, fun q => ?_, h.died_lt,
    h.died_nodup⟩
  · have hne1 : q ≠ pid1 := (lt_of_lt_of_le hlt1 hq).ne'
    have hne2 : q ≠ pid2 := (lt_of_lt_of_le hlt2 hq).ne'
    simp only [actor_modify_of_ne _ _ hne2, actor_modify_of_ne _ _ hne1]
    exact h.fresh q hq
  · simp only [Finset.mem_insert, Prod.mk.injEq]
    by_cases ha2 : a = pid2 <;> by_cases ha1 : a = pid1
    · subst ha2 ha1
      simp only [actor_modify_self, Actor.addLink, Finset.mem_insert, h.links_iff]
      tauto
    · subst ha2
      simp only [actor_modify_self, actor_modify_of_ne _ _ ha1, Actor.addLink, Finset.mem_insert,
        h.links_iff]
      tauto
    · subst ha1
      simp only [actor_modify_of_ne _ _ ha2, actor_modify_self, Actor.addLink, Finset.mem_insert,
        h.links_iff]
      tauto
    · simp only [actor_modify_of_ne _ _ ha2, actor_modify_of_ne _ _ ha1, h.links_iff]
      tauto
  · simpa using h.monitors_iff q
  · simpa using h.closedByStop q

lemma monitor (watcher : ProcessId) {watched : ProcessId} (hw : watched ∈ s.registry.actors_) :
    WellFormed { s with
      registry := (s.registry.monitor watcher watched).1
      watches := insert (watcher, watched) s.watches } := by
  have hmonitor : (s.registry.monitor watcher watched).1 =
      s.registry.modify watched (Actor.addMonitor watcher) := by
    simp [ProcessRegistry.monitor, hw]
  rw [hmonitor]
  have hlt := h.registered_lt watched hw
  refine ⟨h.registered_lt, fun q hq => ?_, fun a => ?_, fun q w => ?_, fun q => ?_, h.died_lt,
    h.died_nodup⟩
  · have hne : q ≠ watched := (lt_of_lt_of_le hlt hq).ne'
    simp only [actor_modify_of_ne _ _ hne]
    exact h.fresh q hq
  · simpa using h.links_iff a
  · by_cases hq : q = watched
    · subst hq
      simp [Actor.addMonitor, h.monitors_iff]
    · simp [hq, h.monitors_iff]
  · simpa using h.closedByStop q

/-- **A cascade keeps the state well formed.** The exits performed are of actors that were
registered and no longer are, and of each of them once. -/
lemma book {n : ℕ} (hn : s.registry.actors_.card < n) {pid : ProcessId} {reason : ExitReason}
    (hx : notifyExit order n s.registry pid reason msg = some x) : WellFormed (s.book pid x) := by
  have hdesc := (descends_notifyExit hx).1
  obtain ⟨hexits, hnodup⟩ := exits_notifyExit hn hx
  refine ⟨fun q hq => ?_, fun q hq => ?_, fun a q => ?_, fun q w => ?_, ?_, fun q hq => ?_, ?_⟩
  · exact hdesc.next_pid_.symm ▸ h.registered_lt q (hdesc.subset hq)
  · have hq : s.registry.next_pid_ ≤ q := hdesc.next_pid_ ▸ hq
    have hnot : q ∉ s.registry.actors_ := fun hmem =>
      absurd (h.registered_lt q hmem) (not_lt.mpr hq)
    exact (hdesc.unregistered q hnot).trans (h.fresh q hq)
  · exact hdesc.links_ a ▸ h.links_iff a q
  · exact hdesc.monitors_ q ▸ h.monitors_iff q w
  · exact hdesc.closedByStop h.closedByStop
  · show q < x.1.next_pid_ ∧ q ∉ x.1.actors_
    rw [hdesc.next_pid_]
    rcases mem_append.mp hq with hq | hq
    · obtain ⟨hlt, hgone⟩ := h.died_lt q hq
      exact ⟨hlt, fun hmem => hgone (hdesc.subset hmem)⟩
    · obtain ⟨hmem, hgone⟩ := hexits q hq
      exact ⟨h.registered_lt q hmem, hgone⟩
  · refine nodup_append.mpr ⟨h.died_nodup, hnodup, ?_⟩
    rintro a ha b hb rfl
    exact (h.died_lt a ha).2 (hexits a hb).1

lemma onActor {pid : ProcessId} (hst : s.onActor pid f = some s')
    (hlinks : (f (s.registry.actor pid)).links_ = (s.registry.actor pid).links_)
    (hmonitors : (f (s.registry.actor pid)).monitors_ = (s.registry.actor pid).monitors_)
    (hclosed : (s.registry.actor pid).ClosedByStop → (f (s.registry.actor pid)).ClosedByStop) :
    WellFormed s' := by
  unfold World.onActor at hst
  split at hst <;> cases hst
  case isTrue hspawned =>
    exact h.modify hspawned.2 hlinks hmonitors hclosed

end WellFormed

variable {s : World μ}

lemma wellFormed_step {s' : World μ} {op : Op μ} (h : WellFormed s)
    (hst : step order s op = some s') : WellFormed s' := by
  cases op with
  | spawn =>
    cases hst
    exact h.spawn
  | registerName =>
    cases hst
    refine h.of_eq ?_ ?_ ?_ rfl rfl rfl <;>
      (unfold ProcessRegistry.registerName; split <;> rfl)
  | unregisterName =>
    cases hst
    refine h.of_eq ?_ ?_ ?_ rfl rfl rfl <;>
      (unfold ProcessRegistry.unregisterName; split <;> rfl)
  | send to_ from_ payload =>
    cases hst
    exact h.send to_ from_ payload
  | sendName name from_ payload =>
    cases hst
    unfold ProcessRegistry.sendName
    split
    · exact h.send _ from_ payload
    · exact h
  | link pid1 pid2 =>
    cases hst
    by_cases hboth : pid1 ∈ s.registry.actors_ ∧ pid2 ∈ s.registry.actors_
    · simp only [if_pos hboth]
      exact h.link hboth.1 hboth.2
    · simp only [if_neg hboth, ProcessRegistry.link]
      exact h
  | monitor watcher watched =>
    cases hst
    by_cases hw : watched ∈ s.registry.actors_
    · simp only [if_pos hw]
      exact h.monitor watcher hw
    · simp only [if_neg hw, ProcessRegistry.monitor]
      exact h
  | receive pid =>
    refine h.onActor hst rfl rfl fun hc hclosed => hc ?_
    have heff : Channel.Effect Message.movedFrom (s.registry.actor pid).mailbox_impl_ .recv
        (s.registry.actor pid).receive.1.mailbox_impl_ := Channel.effect_of_step rfl
    exact (heff.closed_eq (by simp)).symm.trans hclosed
  | resume =>
    simp only [step] at hst
    split at hst
    case h_2 => cases hst
    case h_1 a ha =>
      obtain ⟨mailbox, hmailbox, rfl⟩ := map_eq_some_iff.mp ha
      refine h.onActor hst rfl rfl fun hc hclosed => hc ?_
      exact ((Channel.effect_of_step hmailbox).closed_eq (by simp)).symm.trans hclosed
  | stop =>
    exact h.onActor hst (Actor.links_stop _) (Actor.monitors_stop _)
      fun _ => Actor.closedByStop_stop _
  | notifyExit =>
    obtain ⟨x, hx, rfl⟩ := map_eq_some_iff.mp hst
    exact h.book (Nat.lt_succ_self _) hx
  | handleCrash pid =>
    obtain ⟨hspawned, hst⟩ := Option.ite_none_right_eq_some.mp hst
    obtain ⟨x, hx, rfl⟩ := map_eq_some_iff.mp hst
    have hstop : WellFormed { s with registry := s.registry.stop pid } :=
      h.modify hspawned.2 (Actor.links_stop _) (Actor.monitors_stop _)
        fun _ => Actor.closedByStop_stop _
    exact hstop.book (Nat.lt_succ_self _) hx

/-- The registry is well-formed in every run. -/
theorem wellFormed_of_reachable {ok : World μ → Op μ → Prop}
    (hs : (system order).ReachableWithin ok s) : WellFormed s :=
  hs.invariant (fun _ h => h ▸ .new) fun _ _ _ h _ hst => wellFormed_step h hst

/-! ### The connected actors -/

namespace World

def Linked (s : World μ) (a b : ProcessId) : Prop :=
  a ∈ s.registry.actors_ ∧ b ∈ s.registry.actors_ ∧ ((a, b) ∈ s.linked ∨ (b, a) ∈ s.linked)

end World

def IterationOrder.ascending : IterationOrder where
  links _ s := (List.range (s.sup id + 1)).filter (· ∈ s)
  monitors _ s := (List.range (s.sup id + 1)).filter (· ∈ s)
  mem_links _ s q := by
    simp only [mem_filter, mem_range, decide_eq_true_eq, and_iff_right_iff_imp]
    exact fun hq => Nat.lt_succ_of_le (Finset.le_sup (f := id) hq)
  mem_monitors _ s q := by
    simp only [mem_filter, mem_range, decide_eq_true_eq, and_iff_right_iff_imp]
    exact fun hq => Nat.lt_succ_of_le (Finset.le_sup (f := id) hq)
  nodup_monitors _ s := nodup_range.filter _

/-! ### Messages to monitors -/

def Exit.downTo (e : Exit μ) (w : ProcessId) : Message μ :=
  ⟨INVALID_PID, some (.down ⟨e.pid, w, e.reason⟩)⟩

/-- A monitor that is registered, not stopped and has room when the monitors of the exit are
notified. -/
def Exit.Notifies (e : Exit μ) (w : ProcessId) : Prop :=
  w ∈ (e.registry.actor e.pid).monitors_ ∧ w ∈ e.registry.actors_ ∧
    (e.registry.actor w).stopped_ = false ∧ (e.registry.actor w).HasRoom
  deriving Decidable

def Exit.sends (w : ProcessId) (e : Exit μ) : List (Message μ) :=
  if e.Notifies w then [e.downTo w] else []

def Message.isDownOf (pid : ProcessId) (msg : Message μ) : Bool :=
  match msg.payload with
  | some (.down down) => down.pid == pid
  | _ => false

variable {ms : List ProcessId} {w : ProcessId}

lemma actor_notifyMonitors_of_notMem (hw : w ∉ ms)
    (r : ProcessRegistry μ) : (notifyMonitors pid reason r ms).actor w = r.actor w := by
  induction ms generalizing r with
  | nil => rfl
  | cons m ms ih =>
    obtain ⟨hne, hw⟩ : w ≠ m ∧ w ∉ ms := by simpa using hw
    rw [notifyMonitors]
    split
    case isTrue hm =>
      rw [ih hw, send_eq, if_pos hm, actor_modify_of_ne _ _ hne]
    case isFalse => exact ih hw r

lemma mailbox_notifyMonitors (hms : ms.Nodup)
    (r : ProcessRegistry μ) (hr : (r.actor w).ClosedByStop) :
    ((notifyMonitors pid reason r ms).actor w).mailbox =
      (r.actor w).mailbox ++
        if w ∈ ms ∧ w ∈ r.actors_ ∧ (r.actor w).stopped_ = false ∧ (r.actor w).HasRoom then
          [⟨INVALID_PID, some (.down ⟨pid, w, reason⟩)⟩] else [] := by
  induction ms generalizing r with
  | nil => simp [notifyMonitors]
  | cons m ms ih =>
    obtain ⟨hm, hms⟩ := nodup_cons.mp hms
    by_cases hw : w = m
    · subst hw
      rw [notifyMonitors]
      by_cases hreg : w ∈ r.actors_
      · rw [if_pos hreg, actor_notifyMonitors_of_notMem hm, send_eq, if_pos hreg, actor_modify_self,
          Actor.mailbox_sendMessage hr]
        simp only [mem_cons_self, hreg, true_and]
        split <;> simp
      · rw [if_neg hreg, actor_notifyMonitors_of_notMem hm]
        simp [hreg]
    · have hmem : w ∈ m :: ms ↔ w ∈ ms := by simp [hw]
      rw [notifyMonitors]
      simp only [hmem]
      split
      case isTrue hreg =>
        have hsame : (r.send m INVALID_PID (some (.down ⟨pid, m, reason⟩))).1.actor w =
            r.actor w := by
          rw [send_eq, if_pos hreg, actor_modify_of_ne _ _ hw]
        have hactors : (r.send m INVALID_PID (some (.down ⟨pid, m, reason⟩))).1.actors_ =
            r.actors_ := by
          rw [send_eq, if_pos hreg, actors_modify]
        rw [ih hms _ (hsame ▸ hr), hsame, hactors]
      case isFalse => exact ih hms r hr

/-- **The mailboxes after a cascade**: each exit appends its messages, in the order in which the
exits were performed.

**Proof sketch.** Induction on the depth, with the rule for the loop over the links. Departures and
stops leave the messages where they are. -/
lemma mailbox_notifyExit (hr : ∀ q, (r.actor q).ClosedByStop)
    (hx : notifyExit order n r pid reason msg = some x) (w : ProcessId) :
    (x.1.actor w).mailbox = (r.actor w).mailbox ++ x.2.flatMap (Exit.sends w) := by
  induction n generalizing r pid reason msg x with
  | zero => simp [notifyExit] at hx
  | succ n ih =>
    rw [notifyExit] at hx
    split at hx
    case isFalse =>
      cases hx
      simp
    case isTrue =>
      obtain ⟨y, hy, rfl⟩ := map_eq_some_iff.mp hx
      have hlinks : (∀ q, ((r.depart pid).actor q).ClosedByStop) →
          (y.1.actor w).mailbox = ((r.depart pid).actor w).mailbox ++ y.2.flatMap (Exit.sends w) ∧
            ∀ q, (y.1.actor q).ClosedByStop := by
        refine signalLinks_rule (R := fun r y => (∀ q, (r.actor q).ClosedByStop) →
          (y.1.actor w).mailbox = (r.actor w).mailbox ++ y.2.flatMap (Exit.sends w) ∧
            ∀ q, (y.1.actor q).ClosedByStop) (fun r hr => ⟨by simp, hr⟩)
          (fun r q x z hq hx hz hr => ?_) hy
        have hstop : ∀ q', ((r.stop q).actor q').ClosedByStop :=
          (forall_modify _ _ (p := fun _ object => object.ClosedByStop)).mpr
            ⟨Actor.closedByStop_stop _, fun q' _ => hr q'⟩
        have hsame : ((r.stop q).actor w).mailbox = (r.actor w).mailbox :=
          r.modify_field q w Actor.mailbox Actor.mailbox_stop
        obtain ⟨hmail, hclosed⟩ := hz ((descends_notifyExit hx).1.closedByStop hstop)
        refine ⟨?_, hclosed⟩
        rw [hmail, ih hstop hx, hsame, flatMap_append, append_assoc]
      obtain ⟨hmail, hclosed⟩ := hlinks (by simpa using hr)
      rw [mailbox_notifyMonitors (order.nodup_monitors _ _) _ (hclosed w), hmail, actor_depart,
        flatMap_append, flatMap_singleton, append_assoc]
      simp only [order.mem_monitors]
      rfl

lemma filter_isDownOf {es : List (Exit μ)} (hnodup : (es.map Exit.pid).Nodup) {e : Exit μ}
    (he : e ∈ es) : (es.flatMap (Exit.sends w)).filter (Message.isDownOf e.pid) = e.sends w := by
  have hother : ∀ e' : Exit μ, e'.pid ≠ e.pid →
      (e'.sends w).filter (Message.isDownOf e.pid) = [] := by
    intro e' hne
    unfold Exit.sends
    split <;> simp [Exit.downTo, Message.isDownOf, hne]
  have hself : (e.sends w).filter (Message.isDownOf e.pid) = e.sends w := by
    unfold Exit.sends
    split <;> simp [Exit.downTo, Message.isDownOf]
  induction es with
  | nil => simp at he
  | cons d es ih =>
    rw [map_cons, nodup_cons] at hnodup
    rw [flatMap_cons, filter_append]
    rcases mem_cons.mp he with rfl | he
    · have hrest : (es.flatMap (Exit.sends w)).filter (Message.isDownOf e.pid) = [] := by
        rw [filter_flatMap]
        refine flatMap_eq_nil_iff.mpr fun e' he' => hother e' fun heq => hnodup.1 ?_
        exact heq ▸ mem_map_of_mem he'
      rw [hself, hrest, append_nil]
    · have hne : d.pid ≠ e.pid := fun heq => hnodup.1 (heq ▸ mem_map_of_mem he)
      rw [hother d hne, nil_append, ih hnodup.2 he]

/-- **One message for each exit that is watched.** In every state a registry can reach, a cascade of
any pid performs the exits of different actors and appends to the mailbox of each actor `w` only
messages about them: exactly one about the exit `e` if `w` has called `monitor` for that actor and
is registered, not stopped and has room when the monitors of `e` are notified, and none
otherwise. -/
theorem notifyExit_down {s : World μ} (hs : (system order).Reachable s) (p : ProcessId)
    (reason : ExitReason) (msg : String) :
    ∃ x, (∀ n, s.registry.actors_.card < n →
        notifyExit order n s.registry p reason msg = some x) ∧
      (x.2.map Exit.pid).Nodup ∧
      ∀ w, ∃ sent, (x.1.actor w).mailbox = (s.registry.actor w).mailbox ++ sent ∧
        (∀ m ∈ sent, ∃ e ∈ x.2, m = e.downTo w) ∧
        ∀ e ∈ x.2, sent.filter (Message.isDownOf e.pid) =
          if (w, e.pid) ∈ s.watches ∧ w ∈ e.registry.actors_ ∧
              (e.registry.actor w).stopped_ = false ∧ (e.registry.actor w).HasRoom then
            [e.downTo w] else [] := by
  have hwf := wellFormed_of_reachable hs
  obtain ⟨x, hx⟩ : ∃ x, ∀ n, s.registry.actors_.card < n →
      notifyExit order n s.registry p reason msg = some x := by
    by_cases hp : p ∈ s.registry.actors_
    · obtain ⟨x, hx, -⟩ := exists_notifyExit order s.registry reason msg hp
      exact ⟨x, fun n hn => hx n hn.le⟩
    · exact ⟨_, fun n hn => notifyExit_of_notMem (Nat.zero_lt_of_lt hn) reason msg hp⟩
  have hx' := hx _ (Nat.lt_succ_self _)
  have hnodup := (exits_notifyExit (Nat.lt_succ_self _) hx').2
  refine ⟨x, hx, hnodup, fun w => ⟨x.2.flatMap (Exit.sends w),
    mailbox_notifyExit hwf.closedByStop hx' w, fun m hm => ?_, fun e he => ?_⟩⟩
  · obtain ⟨e, he, hm⟩ := mem_flatMap.mp hm
    unfold Exit.sends at hm
    split at hm
    · exact ⟨e, he, mem_singleton.mp hm⟩
    · cases hm
  · have hwatch : w ∈ (e.registry.actor e.pid).monitors_ ↔ (w, e.pid) ∈ s.watches := by
      rw [((descends_notifyExit hx').2 e he).monitors_, hwf.monitors_iff]
    rw [filter_isDownOf hnodup he, Exit.sends]
    simp only [Exit.Notifies, hwatch]

/-- Two linked actors and a third that watches both, the second by two calls: the exit of the first
brings it one message about the first. -/
theorem notifyExit_down_pair :
    ∃ s : World Unit, (system .ascending).Reachable s ∧ s.registry.actors_ = {1, 2, 3} ∧
      (3, 1) ∈ s.watches ∧ ∃ x, notifyExit .ascending 4 s.registry 1 .Killed "" = some x ∧
        ∃ sent, (x.1.actor 3).mailbox = (s.registry.actor 3).mailbox ++ sent ∧
          sent.filter (Message.isDownOf 1) = [⟨INVALID_PID, some (.down ⟨1, 3, .Killed⟩)⟩] := by
  obtain ⟨s, hs, hactors, hwatches, hfirst⟩ : ∃ s : World Unit, (system .ascending).Reachable s ∧
      s.registry.actors_ = {1, 2, 3} ∧ (3, 1) ∈ s.watches ∧
      ∀ y ∈ notifyExit .ascending 4 s.registry 1 .Killed "",
        ∃ e ∈ y.2, e.pid = 1 ∧ e.Notifies 3 ∧ e.reason = .Killed :=
    TransitionSystem.reached_by World.new [.spawn, .spawn, .spawn, .link 1 2, .monitor 3 1,
      .monitor 3 2, .monitor 3 2] rfl (by decide)
  obtain ⟨x, hx, -, hsent⟩ := notifyExit_down hs 1 .Killed ""
  obtain ⟨sent, hmail, -, hfilter⟩ := hsent 3
  have hexit := hx 4 (by rw [hactors]; decide)
  obtain ⟨e, he, hpid, hnotifies, hreason⟩ := hfirst x hexit
  have hdown := hfilter e he
  rw [hpid, if_pos ⟨hwatches, hnotifies.2⟩, Exit.downTo, hpid, hreason] at hdown
  exact ⟨s, hs, hactors, hwatches, x, hexit, sent, hmail, hdown⟩

end Actors

end Pman
