import Pman.Process.Ledger

set_option autoImplicit false

/-!
# The restart budget

When a child exits, `handleChildExit` drops the old entries of the restart history of its process,
refuses a restart if the history is full or the count of restarts has reached its limit, and else
counts one more and appends the time, with a later reading of the clock.

So the history always has the restarts of the last window before some reading of the clock. A new
restart is scheduled only if there are fewer than `maxRestartsInWindow` of them, and then no window
that ends at or after it has more than that.

## Main results

* `within_budget`: restarts within the window are limited.
-/

namespace Pman.ProcessSupervisor.Restarts

open Memory LockProgram Process

/-! ### The history of restarts -/

/-- The last reading of the clock, and the times of the restarts that were scheduled. -/
structure Schedule where
  clock : Option ℤ := none
  scheduled : List ℤ := []

def restartTimes (m : Memory) (name : String) : List ℤ :=
  ((m.find name).map ProcessState.restartTimes).getD []

/-- A restart of `name` is scheduled when an entry is appended to its restart history. -/
def recorder (name : String) : Recorder Mutex Memory Input Site Op Unit Schedule where
  call _ := ()
  note _ _ _ := ()
  watch obs _ _ past :=
    match obs with
    | .accessed _ input before after =>
      { clock := some input.now
        scheduled := past.scheduled ++
          (restartTimes after name).drop (restartTimes before name).length }
    | _ => past

def forgets : Op → String → Bool
  | .restartProcess x, name | .remove x _, name => x == name
  | _, _ => false

/-- The clock does not go back, and neither `restartProcess(name)` nor `remove(name)` is called. -/
def Regular {ι : Type*} (name : String) (obs : Observation Mutex Memory Input Site Op) (op : Op)
    (_ : Unit) (_ : Memory) (h : History ι Op Unit Schedule) : Prop :=
  match obs with
  | .started _ => forgets op name = false
  | .accessed _ input _ _ => ∀ now ∈ h.past.clock, now ≤ input.now
  | _ => True

instance {ι : Type*} (name : String) (obs : Observation Mutex Memory Input Site Op) (op : Op)
    (r : Unit) (m : Memory) (h : History ι Op Unit Schedule) :
    Decidable (Regular name obs op r m h) :=
  match obs with
  | .started _ => inferInstanceAs (Decidable (_ = _))
  | .accessed _ _ _ _ => inferInstanceAs (Decidable (∀ now ∈ h.past.clock, _))
  | .ended | .locked _ | .unlocked _ | .resumed _ => isTrue trivial

/-- How many of the times are in the closed interval of length `window` from `x`. -/
def inWindow (window x : ℤ) (times : List ℤ) : ℕ :=
  times.countP fun t => decide (x ≤ t ∧ t ≤ x + window)

variable {now t : ℤ} {state' : ProcessState}

/-- **One more restart.** If what is kept has all the times since `now - window`, for a reading
`now` of the clock before `t`, and is not full, then no window gets too full.

**Proof sketch.** A window that contains `t` begins at `now - window` or later, so all its times
are kept. -/
lemma window_append {window limit : ℤ} {times kept : List ℤ}
    (hkept : (times.filter fun s => decide (now - window ≤ s)).Sublist kept) (hnow : now ≤ t)
    (hroom : kept.length < limit) (h : ∀ x, (inWindow window x times : ℤ) ≤ max 0 limit) (x : ℤ) :
    (inWindow window x (times ++ [t]) : ℤ) ≤ max 0 limit := by
  have happend : inWindow window x (times ++ [t]) =
      inWindow window x times + if x ≤ t ∧ t ≤ x + window then 1 else 0 := by
    simp [inWindow, List.countP_append, List.countP_singleton]
  rw [happend]
  split_ifs with hin
  · have hle : inWindow window x times ≤ kept.length := by
      calc inWindow window x times
          ≤ times.countP fun s => decide (now - window ≤ s) := by
            refine List.countP_mono_left fun s _ hs => ?_
            simp only [decide_eq_true_eq] at hs ⊢
            omega
        _ = (times.filter fun s => decide (now - window ≤ s)).length := List.countP_eq_length_filter
        _ ≤ kept.length := hkept.length_le
    omega
  · simpa using h x

section Invariant

variable (name : String)

/-- What is kept in the history of the process was cleaned up at `now`, and nothing younger was
dropped. -/
structure CleanedAt (past : Schedule) (state : ProcessState) (now : ℤ) : Prop where
  recent : ∃ clock ∈ past.clock, now ≤ clock
  kept : (past.scheduled.filter fun t =>
    decide (now - state.spec.restart.maxRestartWindow ≤ t)).Sublist state.restartTimes

/-- There is room for one more restart, as far as a call is about to schedule one. -/
structure Room (past : Schedule) (state : ProcessState) (now : ℤ) : Prop where
  cleaned : CleanedAt past state now
  window : (state.restartTimes.length : ℤ) < state.spec.restart.maxRestartsInWindow
  total : 0 ≤ state.spec.restart.maxRestarts →
    (past.scheduled.length : ℤ) < state.spec.restart.maxRestarts

/-- What is known while the restart of the process is decided. -/
def Decided (past : Schedule) (state : ProcessState) : Option Phase → Prop
  | some (.cleaned x _ now) => x = name → CleanedAt past state now
  | some (.approved x now) | some (.counted x now) => x = name → Room past state now
  | _ => True

def ahead : Option Phase → ℤ
  | some (.counted x _) => if x = name then 1 else 0
  | _ => 0

/-- The restarts scheduled so far are within the budget of the process. -/
structure Within (past : Schedule) (state : ProcessState) (r : Option Phase) : Prop where
  window : ∀ x, (inWindow state.spec.restart.maxRestartWindow x past.scheduled : ℤ) ≤
    max 0 state.spec.restart.maxRestartsInWindow
  total : 0 ≤ state.spec.restart.maxRestarts →
    (past.scheduled.length : ℤ) ≤ state.spec.restart.maxRestarts
  count : state.status.restartCount = past.scheduled.length + ahead name r
  cleaned : past.scheduled = [] ∨ ∃ now, CleanedAt past state now
  decided : Decided name past state r

def Budget {ι : Type*} (m : Memory) (h : History ι Op Unit Schedule) (r : Option Phase) : Prop :=
  match m.find name with
  | none => h.past.scheduled = []
  | some state => Within name h.past state r

end Invariant

variable {name : String} {past : Schedule} {state : ProcessState} {r r' : Option Phase}

lemma CleanedAt.tick (h : CleanedAt past state now) (ht : ∀ clock ∈ past.clock, clock ≤ t) :
    CleanedAt ⟨some t, past.scheduled⟩ state now := by
  obtain ⟨clock, hclock, hle⟩ := h.recent
  exact ⟨⟨t, rfl, hle.trans (ht clock hclock)⟩, h.kept⟩

lemma CleanedAt.congr (h : CleanedAt past state now) (hspec : state'.spec = state.spec)
    (htimes : state'.restartTimes = state.restartTimes) : CleanedAt past state' now := by
  refine ⟨h.recent, ?_⟩
  rw [hspec, htimes]
  exact h.kept

lemma Room.tick (h : Room past state now) (ht : ∀ clock ∈ past.clock, clock ≤ t) :
    Room ⟨some t, past.scheduled⟩ state now :=
  ⟨h.cleaned.tick ht, h.window, h.total⟩

lemma Room.congr (h : Room past state now) (hspec : state'.spec = state.spec)
    (htimes : state'.restartTimes = state.restartTimes) : Room past state' now := by
  refine ⟨h.cleaned.congr hspec htimes, ?_, ?_⟩
  · rw [hspec, htimes]
    exact h.window
  · rw [hspec]
    exact h.total

lemma Decided.imp {past' : Schedule} (h : Decided name past state r)
    (hcleaned : ∀ now, CleanedAt past state now → CleanedAt past' state' now)
    (hroom : ∀ now, Room past state now → Room past' state' now) : Decided name past' state' r := by
  unfold Decided at h ⊢
  split
  case h_1 => exact fun hx => hcleaned _ (h hx)
  case h_2 | h_3 => exact fun hx => hroom _ (h hx)
  case h_4 => trivial

namespace Within

variable {status : ℕ}

lemma tick (h : Within name past state r) (ht : ∀ clock ∈ past.clock, clock ≤ t) :
    Within name ⟨some t, past.scheduled⟩ state r :=
  ⟨h.window, h.total, h.count, h.cleaned.imp id fun ⟨now, hc⟩ => ⟨now, hc.tick ht⟩,
    h.decided.imp (fun _ hc => hc.tick ht) fun _ hr => hr.tick ht⟩

lemma phase (h : Within name past state r) (hahead : ahead name r' = ahead name r)
    (hdecided : Decided name past state r') : Within name past state r' :=
  ⟨h.window, h.total, hahead ▸ h.count, h.cleaned, hdecided⟩

lemma congr (h : Within name past state r) (hspec : state'.spec = state.spec)
    (hcount : state'.status.restartCount = state.status.restartCount)
    (htimes : state'.restartTimes = state.restartTimes) : Within name past state' r :=
  ⟨hspec ▸ h.window, hspec ▸ h.total, hcount ▸ h.count,
    h.cleaned.imp id fun ⟨now, hc⟩ => ⟨now, hc.congr hspec htimes⟩,
    h.decided.imp (fun _ hc => hc.congr hspec htimes) fun _ hr => hr.congr hspec htimes⟩

lemma clean {x : String} (h : Within name past state (some (.exited x status)))
    (hclock : past.clock = some now) :
    Within name past (cleanupRestartHistory state now) (some (.cleaned x status now)) := by
  have hcleaned : CleanedAt past (cleanupRestartHistory state now) now := by
    refine ⟨⟨now, hclock, le_rfl⟩, ?_⟩
    rcases h.cleaned with hnil | ⟨before, hbefore⟩
    · rw [hnil]
      exact List.nil_sublist _
    · obtain ⟨clock, hmem, hle⟩ := hbefore.recent
      obtain rfl : now = clock := Option.some.inj (hclock.symm.trans hmem)
      -- What is younger than the window at `now` is younger than the one at the last cleanup.
      have hfilter := hbefore.kept.filter fun t =>
        decide (now - state.spec.restart.maxRestartWindow ≤ t)
      rw [List.filter_filter] at hfilter
      have heq : past.scheduled.filter (fun t =>
          decide (now - state.spec.restart.maxRestartWindow ≤ t)) =
          past.scheduled.filter fun t =>
            decide (now - state.spec.restart.maxRestartWindow ≤ t) &&
              decide (before - state.spec.restart.maxRestartWindow ≤ t) := by
        refine List.filter_congr fun t _ => ?_
        rw [← Bool.decide_and, decide_eq_decide]
        omega
      exact heq ▸ hfilter
  exact ⟨h.window, h.total, h.count, .inr ⟨now, hcleaned⟩, fun _ => hcleaned⟩

lemma approve (h : Within name past state (some (.cleaned name status now)))
    (hs : shouldRestart state status = true) :
    Within name past state (some (.approved name now)) := by
  refine h.phase rfl fun _ => ⟨h.decided rfl, ?_, fun hlimit => ?_⟩
  · by_contra hfull
    simp [shouldRestart, not_lt.mp hfull] at hs
  · have hcount : state.status.restartCount = past.scheduled.length := by
      simpa [ahead] using h.count
    by_contra hfull
    simp [shouldRestart, hlimit, hcount, not_lt.mp hfull] at hs

lemma counted (h : Within name past state (some (.approved name now)))
    (hspec : state'.spec = state.spec)
    (hcount : state'.status.restartCount = state.status.restartCount + 1)
    (htimes : state'.restartTimes = state.restartTimes) :
    Within name past state' (some (.counted name now)) := by
  refine ⟨hspec ▸ h.window, hspec ▸ h.total, ?_,
    h.cleaned.imp id fun ⟨now, hc⟩ => ⟨now, hc.congr hspec htimes⟩,
    fun hx => (h.decided hx).congr hspec htimes⟩
  have hold : state.status.restartCount = past.scheduled.length := by simpa [ahead] using h.count
  simp [hcount, hold, ahead]

lemma push (h : Within name past state (some (.counted name now))) (hclock : past.clock = some t) :
    Within name ⟨past.clock, past.scheduled ++ [t]⟩
      { state with restartTimes := state.restartTimes ++ [t] } (some .inside) := by
  obtain ⟨hcleaned, hwindow, htotal⟩ := h.decided rfl
  obtain ⟨clock, hmem, hle⟩ := hcleaned.recent
  obtain rfl : t = clock := Option.some.inj (hclock.symm.trans hmem)
  refine ⟨window_append hcleaned.kept hle hwindow h.window, fun hlimit => ?_, ?_,
    .inr ⟨now, ⟨t, hclock, hle⟩, ?_⟩, trivial⟩
  · simpa using Int.add_one_le_of_lt (htotal hlimit)
  · simpa [ahead] using h.count
  · rw [List.filter_append]
    exact hcleaned.kept.append (List.filter_sublist)

end Within

lemma Within.added (spec : SupervisedProcess) {clock : Option ℤ} :
    Within name ⟨clock, []⟩ { spec := spec, status := { name := spec.name } } (some .inside) := by
  refine ⟨fun x => ?_, fun h => by simpa using h, rfl, .inl rfl, trivial⟩
  simp [inWindow]

/-! ### The accesses -/

def restartData (s : ProcessState) : SupervisedProcess × ℤ × List ℤ :=
  (s.spec, s.status.restartCount, s.restartTimes)

/-- The access changes nothing that the budget of the process depends on. -/
def Quiet (name : String) (m m' : Memory) : Prop :=
  (m'.find name).map restartData = (m.find name).map restartData

lemma Quiet.modifyProcess (m : Memory) (x : String) {f : ProcessState → ProcessState}
    (hf : x = name → ∀ s, restartData (f s) = restartData s) :
    Quiet name m (m.modifyProcess x f) := by
  unfold Quiet
  rw [find_modifyProcess]
  split_ifs with hx
  · cases m.find name with
    | none => rfl
    | some s => exact congrArg some (hf hx.symm s)
  · rfl

lemma Quiet.of_find {m m' : Memory} (h : m'.find name = m.find name) : Quiet name m m' := by
  rw [Quiet, h]

section Accesses

variable {ι : Type*} [DecidableEq ι] {m m' : Memory} {h : History ι Op Unit Schedule} {t : ι}
  {op : Op} {calls : List (Op × Unit)} {site : Site} {input : Input}

lemma past_of_access (hcalls : h.calls t = (op, ()) :: calls) :
    ((recorder name).record h t (.accessed site input m m')).past =
      ⟨some input.now,
        h.past.scheduled ++ (restartTimes m' name).drop (restartTimes m name).length⟩ :=
  (recorder name).past_of_call hcalls rfl

variable {obs : Observation Mutex Memory Input Site Op} {f : ProcessState → ProcessState}

lemma past_of_step (hobs : obs.isAccess = false) :
    ((recorder name).record h t obs).past = h.past := by
  cases obs with
  | accessed => cases hobs
  | _ =>
    simp only [Recorder.record]
    split <;> rfl

lemma past_of_length_le (hcalls : h.calls t = (op, ()) :: calls)
    (hle : (restartTimes m' name).length ≤ (restartTimes m name).length) :
    ((recorder name).record h t (.accessed site input m m')).past =
      ⟨some input.now, h.past.scheduled⟩ := by
  rw [past_of_access hcalls, List.drop_eq_nil_of_le hle, List.append_nil]

lemma Budget.step (hB : Budget name m h r) (hobs : obs.isAccess = false)
    (hphase : ∀ state, Within name h.past state r → Within name h.past state r') :
    Budget name m ((recorder name).record h t obs) r' := by
  rw [Budget, past_of_step hobs]
  unfold Budget at hB
  cases hm : m.find name with
  | none => rwa [hm] at hB
  | some state =>
    rw [hm] at hB
    exact hphase state hB

variable {φ φ' : Phase}

/-- **What an access may do to the budget of a process**, unless it is forgotten: nothing; or the
process is added; or its state is changed. -/
lemma Quiet.or_of_accesses (hacc : Accesses op φ site input m m' φ')
    (hop : forgets op name = false) :
    (Quiet name m m' ∧ ∀ past state, m.find name = some state →
      Within name past state (some φ) → Within name past state (some φ')) ∨
    (∃ spec : SupervisedProcess, φ = .inside ∧ φ' = .inside ∧ m' = { m with
      processes_ := m.processes_ ++
        [(spec.name, { spec := spec, status := { name := spec.name } })] }) ∨
    ∃ f, Changes op input name φ f φ' ∧ m' = m.modifyProcess name f := by
  cases hacc with
  | look h =>
    refine .inl ⟨.of_find rfl, fun past state hfind hw => ?_⟩
    cases h with
    | stay => exact hw
    | approved x status now state' hfind' hs =>
      by_cases hx : x = name
      · subst hx
        obtain rfl := Option.some.inj (hfind.symm.trans hfind')
        exact hw.approve hs
      · exact hw.phase rfl fun hx' => absurd hx' hx
    | _ => exact hw.phase rfl trivial
  | set hm h =>
    refine .inl ⟨.of_find (by rw [Memory.find, hm.processes]; rfl), fun past state _ hw => ?_⟩
    cases h with
    | stay => exact hw
    | _ => exact hw.phase rfl trivial
  | signal _ _ h =>
    refine .inl ⟨?_, fun _ _ _ hw => hw⟩
    rcases h with rfl | ⟨_, -, rfl⟩
    · exact .of_find rfl
    · exact .of_find rfl
  | unreaped h => exact .inl ⟨.of_find (by rw [h]), fun _ _ _ hw => hw⟩
  | waited hv h =>
    refine .inl ⟨?_, fun _ _ _ hw => hw.phase rfl trivial⟩
    rw [waitpid_of_exited hv h]
    exact Quiet.modifyProcess { m with kernel := _ } _ fun _ _ => rfl
  | uncollected hφ h =>
    refine .inl ⟨.of_find (by rw [collect_of_none h]), fun _ _ _ hw => ?_⟩
    cases hφ <;> exact hw.phase rfl trivial
  | collected hφ h =>
    refine .inl ⟨.of_find (by rw [collect_of_some h]; rfl), fun _ _ _ hw => ?_⟩
    cases hφ <;> exact hw.phase rfl trivial
  | exit => exact .inl ⟨.of_find rfl, fun _ _ _ hw => hw⟩
  | launched hφ h =>
    refine .inl ⟨?_, fun _ _ _ hw => ?_⟩
    · rw [launch_of_launches h]
      exact Quiet.modifyProcess { m with kernel := _, pidToName_ := _ } _ fun _ _ => rfl
    · cases hφ <;> exact hw.phase rfl trivial
  | unlaunched hφ h =>
    refine .inl ⟨?_, fun _ _ _ hw => ?_⟩
    · obtain ⟨k, -, heq⟩ := launch_of_not_launches h _
      rw [heq]
      exact Quiet.modifyProcess { m with kernel := k } _ fun _ _ => rfl
    · cases hφ <;> exact hw.phase rfl trivial
  | @change _ _ x f _ _ h =>
    by_cases hx : x = name
    · subst hx
      exact .inr (.inr ⟨f, h, rfl⟩)
    · refine .inl ⟨.modifyProcess m _ fun hx' => absurd hx' hx, fun _ _ _ hw => ?_⟩
      cases h with
      | clean => exact hw.phase rfl fun hx' => absurd hx' hx
      | count => exact hw.phase (by simp [ahead, hx]) fun hx' => absurd hx' hx
      | push => exact hw.phase (by simp [ahead, hx]) trivial
      | _ => exact hw.phase rfl trivial
  | erase => exact .inl ⟨.of_find rfl, fun _ _ _ hw => hw.phase rfl trivial⟩
  | unlist hφ h =>
    refine .inl ⟨?_, fun _ _ _ hw => ?_⟩
    · rcases h with ⟨-, rfl⟩ | ⟨_, -, rfl⟩
      · exact .of_find rfl
      · exact .of_find rfl
    · cases hφ <;> exact hw.phase rfl trivial
  | @add spec => exact .inr (.inl ⟨spec, rfl, rfl, rfl⟩)
  | @remove x _ _ _ hx =>
    have hne : name ≠ x := by
      rintro rfl
      simp [hx, forgets] at hop
    exact .inl ⟨.of_find ((lookup_filter_ne x name m.processes_).trans (if_neg hne)),
      fun _ _ _ hw => hw.phase rfl trivial⟩

section Budget

variable (hcalls : h.calls t = (op, ()) :: calls) (hclock : ∀ now ∈ h.past.clock, now ≤ input.now)

include hcalls hclock

lemma Budget.quiet (hB : Budget name m h r) (hquiet : Quiet name m m')
    (hphase : ∀ past state, m.find name = some state → Within name past state r →
      Within name past state r') :
    Budget name m' ((recorder name).record h t (.accessed site input m m')) r' := by
  have htimes : restartTimes m' name = restartTimes m name := by
    have hmap := congrArg (Option.map fun d => d.2.2) hquiet
    simp only [Option.map_map] at hmap
    exact congrArg (Option.getD · []) hmap
  have hpast : ((recorder name).record h t (.accessed site input m m')).past =
      ⟨some input.now, h.past.scheduled⟩ :=
    past_of_length_le hcalls (le_of_eq (congrArg List.length htimes))
  unfold Budget at hB ⊢
  unfold Quiet at hquiet
  rw [hpast]
  cases hm : m.find name with
  | none =>
    rw [hm] at hB hquiet
    rw [Option.map_eq_none_iff.mp hquiet]
    exact hB
  | some state =>
    rw [hm] at hB hquiet
    obtain ⟨state', hm', heq⟩ := Option.map_eq_some_iff.mp hquiet
    rw [hm']
    obtain ⟨hspec, hrest⟩ := Prod.mk.inj heq
    obtain ⟨hcount, htimes⟩ := Prod.mk.inj hrest
    exact (hphase _ _ hm (hB.tick hclock)).congr hspec hcount htimes

lemma Budget.modify (hB : Budget name m h r)
    (hlength : ∀ s, (f s).restartTimes.length ≤ s.restartTimes.length)
    (hstep : ∀ state, Within name ⟨some input.now, h.past.scheduled⟩ state r →
      Within name ⟨some input.now, h.past.scheduled⟩ (f state) r') :
    Budget name (m.modifyProcess name f)
      ((recorder name).record h t (.accessed site input m (m.modifyProcess name f))) r' := by
  rw [Budget, past_of_length_le hcalls]
  · rw [find_modifyProcess, if_pos rfl]
    unfold Budget at hB
    cases hm : m.find name with
    | none => rwa [hm] at hB
    | some state =>
      rw [hm] at hB
      exact hstep state (hB.tick hclock)
  · unfold restartTimes
    rw [find_modifyProcess, if_pos rfl]
    cases m.find name with
    | none => exact le_rfl
    | some state => exact hlength state

lemma Budget.push (hB : Budget name m h (some (.counted name now))) :
    Budget name (m.modifyProcess name fun s =>
        { s with restartTimes := s.restartTimes ++ [input.now] })
      ((recorder name).record h t (.accessed site input m (m.modifyProcess name fun s =>
        { s with restartTimes := s.restartTimes ++ [input.now] })))
      (some .inside) := by
  rw [Budget, past_of_access hcalls]
  unfold restartTimes
  unfold Budget at hB
  rw [find_modifyProcess, if_pos rfl]
  cases hm : m.find name with
  | none =>
    rw [hm] at hB
    simpa using hB
  | some state =>
    rw [hm] at hB
    simpa using (hB.tick hclock).push rfl

lemma Budget.add {spec : SupervisedProcess} (hB : Budget name m h (some .inside))
    (hm' : m' = { m with
      processes_ := m.processes_ ++
        [(spec.name, { spec := spec, status := { name := spec.name } })] }) :
    Budget name m' ((recorder name).record h t (.accessed site input m m')) (some .inside) := by
  have hfind : m'.find name = (m.find name).or
      (if name = spec.name then some { spec := spec, status := { name := spec.name } } else none) := by
    rw [hm']
    exact lookup_append_singleton _ _ _ _
  by_cases hnew : m.find name = none ∧ name = spec.name
  · obtain ⟨hnone, rfl⟩ := hnew
    rw [hnone, Option.none_or, if_pos rfl] at hfind
    unfold Budget at hB
    rw [hnone] at hB
    rw [Budget, past_of_length_le hcalls (by simp [restartTimes, hfind]), hfind, hB]
    exact Within.added spec
  · refine hB.quiet hcalls hclock ?_ fun _ _ _ hw => hw
    unfold Quiet
    rw [hfind]
    cases hm : m.find name with
    | none => rw [Option.none_or, if_neg fun hx => hnew ⟨hm, hx⟩]
    | some state => rfl

lemma Budget.change (hB : Budget name m h (some φ)) (hchange : Changes op input name φ f φ')
    (hop : forgets op name = false) :
    Budget name (m.modifyProcess name f)
      ((recorder name).record h t (.accessed site input m (m.modifyProcess name f)))
      (some φ') := by
  cases hchange with
  | reset hop' =>
    rw [hop'] at hop
    simp [forgets] at hop
  | clean =>
    exact hB.modify hcalls hclock (fun _ => List.length_filter_le _ _) fun _ hw => hw.clean rfl
  | count =>
    exact hB.modify hcalls hclock (fun _ => le_rfl) fun _ hw => hw.counted rfl rfl rfl
  | push => exact hB.push hcalls hclock
  | pause | clear | noteExit | record =>
    exact hB.quiet hcalls hclock (.modifyProcess m _ fun _ _ => rfl)
      fun _ _ _ hw => hw.phase rfl trivial

lemma Budget.inside (hB : Budget name m h (some φ)) (hacc : Accesses op φ site input m m' φ')
    (hop : forgets op name = false) :
    Budget name m' ((recorder name).record h t (.accessed site input m m')) (some φ') := by
  rcases Quiet.or_of_accesses hacc hop with ⟨hquiet, hphase⟩ | ⟨spec, rfl, rfl, hm'⟩ |
    ⟨f, hchange, rfl⟩
  · exact hB.quiet hcalls hclock hquiet hphase
  · exact hB.add hcalls hclock hm'
  · exact hB.change hcalls hclock hchange hop

lemma Budget.outside (hφ : φ.held = false) (hB : Budget name m h r)
    (hacc : Accesses op φ site input m m' φ') (hop : forgets op name = false) :
    Budget name m' ((recorder name).record h t (.accessed site input m m')) r := by
  rcases Quiet.or_of_accesses hacc hop with ⟨hquiet, -⟩ | ⟨spec, rfl, -⟩ | ⟨f, hchange, rfl⟩
  · exact hB.quiet hcalls hclock hquiet fun _ _ _ hw => hw
  · cases hφ
  · cases hchange <;> cases hφ

end Budget

variable (name) in
lemma Budget.keeps : outline.Keeps (ι := ι) (recorder name) (Regular name) (fun _ => True)
    (fun op _ _ => forgets op name = false) (Budget name) where
  started _ hok hB := ⟨hok, hB.step rfl fun _ hw => hw⟩
  ended _ _ _ _ hB := hB.step rfl fun _ hw => hw
  entered henters _ hop _ _ hB :=
    ⟨hop, hB.step rfl fun _ hw => by cases henters <;> exact hw.phase rfl trivial⟩
  left hleaves _ hop _ _ hB :=
    ⟨hop, hB.step rfl fun _ hw => by cases hleaves <;> exact hw.phase rfl trivial⟩
  inside _ hacc hcalls hop _ hclock hB := ⟨hop, hB.inside hcalls hclock hacc hop⟩
  outside hφ hacc hcalls hop _ hclock hB := ⟨hop, hB.outside hcalls hclock hφ hacc hop⟩
  resumed _ hop _ _ hB := ⟨hop, hB.step rfl fun _ hw => hw⟩

end Accesses

/-- **The restart budget.** In every run in which the clock does not go back and neither
`restartProcess(name)` nor `remove(name)` is called, every closed interval of length
`maxRestartWindow` has at most `max 0 maxRestartsInWindow` of the restarts scheduled for `name`,
and if `maxRestarts` is not negative, at most `maxRestarts` were scheduled in all. For a process
that was never added, none was scheduled. -/
theorem within_budget {ι : Type*} [DecidableEq ι] (name : String)
    {w : Watched Mutex Memory Input Site ι Op Unit Schedule}
    (h : ((recorder name).watched ι program (· = fresh) {}).ReachableWithin
      ((recorder name).Allows (Regular name)) w) :
    (∀ state, w.config.mem.find name = some state →
      (∀ x, (inWindow state.spec.restart.maxRestartWindow x w.history.past.scheduled : ℤ) ≤
        max 0 state.spec.restart.maxRestartsInWindow) ∧
      (0 ≤ state.spec.restart.maxRestarts →
        (w.history.past.scheduled.length : ℤ) ≤ state.spec.restart.maxRestarts)) ∧
    (w.config.mem.find name = none → w.history.past.scheduled = []) := by
  obtain ⟨phases, r, hO⟩ := (Budget.keeps name).invariant follows_program
    (by rintro _ rfl; exact rfl) (fun _ _ hok => hok) (fun _ _ => trivial) h
  have hB := hO.holds
  unfold Budget at hB
  refine ⟨fun state hstate => ?_, fun hnone => ?_⟩
  · rw [hstate] at hB
    exact ⟨hB.window, hB.total⟩
  · rwa [hnone] at hB

/-- A process that is restarted at most twice, and once in ten nanoseconds. -/
def rare : SupervisedProcess :=
  { eager "a" with
    restart.maxRestarts := 2
    restart.maxRestartWindow := 10
    restart.maxRestartsInWindow := 1 }

/-- The theorem in a run in which a child exits twice in one window, and a restart is scheduled for
the first exit only. -/
theorem within_budget_rare : ∃ w : Watched Mutex Memory Input Site Bool Op Unit Schedule,
    ((recorder "a").watched Bool program (· = fresh) {}).ReachableWithin
      ((recorder "a").Allows (Regular "a")) w ∧
    w.history.past.scheduled = [0] ∧
    w.config.mem.kernel.log = [.launched 0 7, .reaped 0 .any, .launched 1 8, .reaped 1 .any] ∧
    ∃ state, w.config.mem.find "a" = some state ∧
      (∀ x, (inWindow state.spec.restart.maxRestartWindow x w.history.past.scheduled : ℤ) ≤
        max 0 state.spec.restart.maxRestartsInWindow) := by
  have hw : ((recorder "a").watched Bool program (· = fresh) {}).ReachableWithin
      ((recorder "a").Allows (Regular "a")) _ :=
    .final ⟨initial fresh, Recorder.nothing {}⟩
      ((true, .start (.add rare)) :: startRun.tail ++ exitRun 0 ++ go false 8 ++
        (false, .go { pid := 8 }) :: go false 2 ++ exitRun 1) ⟨fresh, rfl, rfl⟩ (by decide +kernel)
  exact ⟨_, hw, by decide +kernel, by decide +kernel, _,
    (Option.some_get (by decide +kernel)).symm,
    ((within_budget "a" hw).1 _ (Option.some_get _).symm).1⟩

end Pman.ProcessSupervisor.Restarts
