import Pman.Timer.Conservation

set_option autoImplicit false

/-!
# Cancelling timers

`cancel` looks for the timer in the slots only. The entries that a call of `processExpired` has
taken out are not there, neither while they wait for their callback nor while the callback runs; if
the timer is periodic, its entry will be back in a slot a moment later.

A timer is *silenced* when none of its entries will ever be run or inserted again. No step of any
thread undoes that.

## Main results

* `silent_of_cancelOk`: when a cancelled timer does not run.
-/

namespace Pman.TimerWheel

open List Calls

variable {κ : Type*} {s s' : Calls κ} {timerId : ℕ}

/-- The entry that is worked on, if there is more to come of it. -/
def Phase.upcoming : Phase κ → List (Entry κ)
  | .callback entry => if 0 < entry.period then [entry] else []
  | .rearm entry => [entry]
  | .next | .release => []

/-- The entries that a call of `processExpired` is still to start or to insert again. -/
def Activation.upcoming (a : Activation κ) : List (Entry κ) := a.phase.upcoming ++ a.rest

/-- **When `cancel` works**: the timer has been inserted, and no call of `processExpired` has it in
its list, except with its last callback running. -/
def CancelOk (s : Calls κ) : Act κ → Prop
  | .cancel timerId => timerId ∈ s.scheduled ∧
      ∀ a ∈ s.executing, ∀ entry ∈ a.upcoming, entry.id ≠ timerId
  | _ => True

instance (s : Calls κ) : DecidablePred (CancelOk s) := by
  intro a
  cases a <;> dsimp only [CancelOk] <;> infer_instance

/-- **Nothing will be heard of the timer**: its entries are cancelled, and no call of
`processExpired` has any of them before it. -/
structure Silenced (s : Calls κ) (timerId : ℕ) : Prop where
  scheduled : timerId ∈ s.scheduled
  stock : ∀ entry ∈ s.wheel.stock, entry.id = timerId → entry.cancelled = true
  upcoming : ∀ a ∈ s.executing, ∀ entry ∈ a.upcoming, entry.id ≠ timerId

lemma silenced_cancel (h : Conserved s) (hok : CancelOk s (.cancel timerId)) :
    Silenced (s.cancel timerId) timerId := by
  refine ⟨hok.1, fun entry hentry hid => ?_, hok.2⟩
  rcases s.wheel.stock_cancel timerId with
    ⟨-, marked, rest, hmarked, -, hstock, hstock', -⟩ | ⟨-, hsame, hnone⟩
  · have hentry : entry ∈ (s.wheel.cancel timerId).1.stock := hentry
    rw [hstock'] at hentry
    rcases Multiset.mem_cons.mp hentry with rfl | hentry
    · rfl
    · -- the timer would have two entries
      have hroster := h.lists
      rw [roster_of_stock hstock, tag, hmarked] at hroster
      have hmem : (timerId, entry.cancelled) ∈ rest.map tag :=
        hid ▸ Multiset.mem_map_of_mem tag hentry
      exact absurd (Multiset.mem_add.mpr (.inl hmem)) (hroster.notMem_rest _)
  · have hentry : entry ∈ (s.wheel.cancel timerId).1.stock := hentry
    rw [hsame] at hentry
    exact hnone entry hentry hid

variable {a : Activation κ} {entry : Entry κ} {i : ℕ}

namespace Silenced

variable (h : Silenced s timerId)

include h

lemma mono (hscheduled : s.scheduled ⊆ s'.scheduled)
    (hstock : ∀ entry ∈ s'.wheel.stock, entry.id = timerId → entry.cancelled = false →
      entry ∈ s.wheel.stock)
    (hupcoming : ∀ a ∈ s'.executing, ∀ entry ∈ a.upcoming, entry.id ≠ timerId) :
    Silenced s' timerId := by
  refine ⟨hscheduled h.scheduled, fun entry hentry hid => ?_, hupcoming⟩
  by_contra hlive
  have hlive : entry.cancelled = false := by simpa using hlive
  have hcancelled := h.stock entry (hstock entry hentry hid hlive) hid
  simp [hlive] at hcancelled

lemma enqueue (hs : Conserved s)
    (hi : s.scheduling[i]? = some entry) (now : ℤ) : Silenced (s.enqueue now i entry) timerId := by
  have hnew := (hs.queued entry (mem_of_getElem? hi)).2.1
  refine h.mono (Finset.subset_insert _ _) (fun e he hid _ => ?_) h.upcoming
  have he : e ∈ (s.wheel.insert now entry).stock := he
  rw [Wheel.stock_insert hs.turning.toWellFormed] at he
  rcases Multiset.mem_cons.mp he with rfl | he
  · exact absurd (hid ▸ h.scheduled) hnew
  · exact he

lemma cancel (other : ℕ) : Silenced (s.cancel other) timerId := by
  refine h.mono subset_rfl (fun e he _ hlive => ?_) h.upcoming
  have he : e ∈ (s.wheel.cancel other).1.stock := he
  rcases s.wheel.stock_cancel other with ⟨-, marked, rest, -, -, hstock, hstock', -⟩ | ⟨-, hsame, -⟩
  · rw [hstock'] at he
    rcases Multiset.mem_cons.mp he with rfl | he
    · cases hlive
    · exact hstock ▸ Multiset.mem_cons_of_mem he
  · exact hsame ▸ he

lemma advance (hs : Conserved s) (now elapsed : ℤ) : Silenced (s.advance now elapsed) timerId := by
  obtain ⟨dropped, hstock, -⟩ := (Wheel.rearranged_advance hs.turning now elapsed).stock
  refine h.mono subset_rfl (fun e he _ _ => ?_) h.upcoming
  exact hstock ▸ Multiset.mem_add.mpr (.inr he)

lemma processExpired (hs : Conserved s) (now : ℤ) : Silenced (s.processExpired now) timerId := by
  obtain ⟨dropped, hstock, -, hlive⟩ := Wheel.stock_takeExpired hs.turning now
  refine h.mono subset_rfl (fun e he _ _ => ?_) fun a ha e he hid => ?_
  · exact hstock ▸ Multiset.mem_add.mpr (.inr (Multiset.mem_add.mpr (.inr he)))
  · rcases mem_concat.mp ha with ha | rfl
    · exact h.upcoming a ha e he hid
    · -- what is taken was in the slots, and is not cancelled
      have hmem : e ∈ s.wheel.stock :=
        hstock ▸ Multiset.mem_add.mpr (.inr (Multiset.mem_add.mpr (.inl he)))
      have hcancelled := h.stock e hmem hid
      simp [hlive e he] at hcancelled

lemma goOn {b : Activation κ} (hi : s.executing[i]? = some a)
    (hexecuting : s'.executing = s.executing.set i b) (hscheduled : s'.scheduled = s.scheduled)
    (hstock : ∀ entry ∈ s'.wheel.stock, entry.id = timerId → entry ∈ s.wheel.stock)
    (hsub : ∀ entry ∈ b.upcoming, ∃ entry' ∈ a.upcoming, entry'.id = entry.id) :
    Silenced s' timerId := by
  refine h.mono hscheduled.symm.subset (fun entry hentry hid _ => hstock entry hentry hid) ?_
  intro a' ha' entry hentry hid
  rw [hexecuting] at ha'
  rcases mem_or_eq_of_mem_set ha' with ha' | rfl
  · exact h.upcoming a' ha' entry hentry hid
  · obtain ⟨entry', hentry', heq⟩ := hsub entry hentry
    exact h.upcoming a (mem_of_getElem? hi) entry' hentry' (heq.trans hid)

lemma go (hs : Conserved s)
    (hi : s.executing[i]? = some a) (now : ℤ) : Silenced (s.go i now a) timerId := by
  obtain ⟨phase, rest⟩ := a
  cases phase with
  | next =>
    cases rest with
    | nil =>
      refine h.mono subset_rfl (fun _ he _ _ => he) fun a' ha' => ?_
      exact h.upcoming a' (mem_of_mem_eraseIdx ha')
    | cons entry rest =>
      simp only [Calls.go]
      split
      · refine h.goOn hi rfl rfl (fun _ he _ => he) fun e he => ?_
        exact ⟨e, mem_cons_of_mem _ he, rfl⟩
      · refine h.goOn hi rfl rfl (fun _ he _ => he) fun e he => ?_
        refine ⟨e, ?_, rfl⟩
        rcases mem_append.mp he with he | he
        · simp only [Phase.upcoming] at he
          split at he
          · rw [mem_singleton.mp he]
            exact mem_cons_self
          · cases he
        · exact mem_cons_of_mem _ he
  | callback entry =>
    simp only [Calls.go]
    split
    case isTrue hperiod =>
      refine h.goOn hi rfl rfl (fun _ he _ => he) fun e he => ?_
      have hupcoming : (⟨.callback entry, rest⟩ : Activation κ).upcoming = entry :: rest := by
        simp [Activation.upcoming, Phase.upcoming, hperiod.1]
      rw [hupcoming]
      rcases mem_cons.mp he with rfl | he
      · exact ⟨entry, mem_cons_self, rfl⟩
      · exact ⟨e, mem_cons_of_mem _ he, rfl⟩
    case isFalse =>
      refine h.goOn hi rfl rfl (fun _ he _ => he) fun e he => ?_
      exact ⟨e, mem_append_right _ he, rfl⟩
  | rearm entry =>
    have hother : entry.id ≠ timerId := h.upcoming _ (mem_of_getElem? hi) entry mem_cons_self
    refine h.goOn hi rfl rfl (fun e he hid => ?_) fun e he => ?_
    · have he : e ∈ (s.wheel.insert now entry).stock := he
      rw [Wheel.stock_insert hs.turning.toWellFormed] at he
      rcases Multiset.mem_cons.mp he with rfl | he
      · exact absurd hid hother
      · exact he
    · exact ⟨e, mem_cons_of_mem _ he, rfl⟩
  | release =>
    refine h.goOn hi rfl rfl (fun _ he _ => he) fun e he => ?_
    exact ⟨e, he, rfl⟩

end Silenced

lemma silenced_step {a : Act κ} (h : Silenced s timerId) (hs : Conserved s)
    (hst : step s a = some s') : Silenced s' timerId := by
  cases effect_of_step hst with
  | thrown => exact h
  | numbered | returned => exact ⟨h.scheduled, h.stock, h.upcoming⟩
  | enqueued i now entry hi => exact h.enqueue hs hi now
  | cancelled other => exact h.cancel other
  | advanced _ now elapsed => exact h.advance hs now elapsed
  | taken now => exact h.processExpired hs now
  | went i now a hi => exact h.go hs hi now

/-- The timers for which `cancel` is through with the lock are silenced, and nothing came late. -/
structure Silent (s : Calls κ) : Prop where
  silenced : ∀ timerId, timerId ∈ s.cancelling ∨ timerId ∈ s.returned → Silenced s timerId
  lateStarts : s.lateStarts = []
  lateRearms : s.lateRearms = []

lemma Silent.whenReturned (h : Silent s) (hi : s.executing[i]? = some a)
    (hentry : entry ∈ a.upcoming) : s.whenReturned entry.id = [] := by
  refine if_neg fun hreturned => ?_
  exact (h.silenced _ (.inr hreturned)).upcoming a (mem_of_getElem? hi) entry hentry rfl

lemma Silent.late_go (h : Silent s) (hi : s.executing[i]? = some a)
    (now : ℤ) : (s.go i now a).lateStarts = [] ∧ (s.go i now a).lateRearms = [] := by
  obtain ⟨phase, rest⟩ := a
  cases phase with
  | next =>
    cases rest with
    | nil => exact ⟨h.lateStarts, h.lateRearms⟩
    | cons entry rest =>
      simp only [Calls.go]
      split
      · exact ⟨h.lateStarts, h.lateRearms⟩
      · refine ⟨?_, h.lateRearms⟩
        rw [h.lateStarts, h.whenReturned hi mem_cons_self]
        rfl
  | callback entry =>
    simp only [Calls.go]
    split
    · exact ⟨h.lateStarts, h.lateRearms⟩
    · exact ⟨h.lateStarts, h.lateRearms⟩
  | rearm entry =>
    refine ⟨h.lateStarts, ?_⟩
    simp only [Calls.go]
    rw [h.lateRearms, h.whenReturned hi mem_cons_self]
    rfl
  | release => exact ⟨h.lateStarts, h.lateRearms⟩

lemma going_go (s : Calls κ) (i : ℕ) (now : ℤ) (a : Activation κ) :
    (s.go i now a).cancelling = s.cancelling ∧ (s.go i now a).returned = s.returned := by
  obtain ⟨phase, rest⟩ := a
  cases phase with
  | next =>
    cases rest with
    | nil => exact ⟨rfl, rfl⟩
    | cons entry rest =>
      simp only [Calls.go]
      split <;> exact ⟨rfl, rfl⟩
  | callback entry =>
    simp only [Calls.go]
    split <;> exact ⟨rfl, rfl⟩
  | rearm entry | release => exact ⟨rfl, rfl⟩

lemma silent_step {a : Act κ} (h : Silent s) (hs : Conserved s) (hok : CancelOk s a)
    (hst : step s a = some s') : Silent s' := by
  have hkeep : ∀ timerId, timerId ∈ s.cancelling ∨ timerId ∈ s.returned → Silenced s' timerId :=
    fun timerId hmem => silenced_step (h.silenced timerId hmem) hs hst
  cases effect_of_step hst with
  | thrown => exact h
  | numbered | enqueued | advanced | taken => exact ⟨hkeep, h.lateStarts, h.lateRearms⟩
  | cancelled timerId =>
    refine ⟨fun other hmem => ?_, h.lateStarts, h.lateRearms⟩
    rcases hmem with hmem | hmem
    · rcases mem_concat.mp hmem with hmem | rfl
      · exact hkeep other (.inl hmem)
      · exact silenced_cancel hs hok
    · exact hkeep other (.inr hmem)
  | returned i timerId hi =>
    refine ⟨fun other hmem => ?_, h.lateStarts, h.lateRearms⟩
    rcases hmem with hmem | hmem
    · exact hkeep other (.inl (mem_of_mem_eraseIdx hmem))
    · rcases Finset.mem_insert.mp hmem with rfl | hmem
      · exact hkeep other (.inl (mem_of_getElem? hi))
      · exact hkeep other (.inr hmem)
  | went i now a hi =>
    obtain ⟨hcancelling, hreturned⟩ := going_go s i now a
    obtain ⟨hstarts, hrearms⟩ := h.late_go hi now
    refine ⟨fun timerId hmem => hkeep timerId ?_, hstarts, hrearms⟩
    rwa [hcancelling, hreturned] at hmem

/-- The last callback of the timer has started: it is over, or a call of `processExpired` is running
it and the timer is not periodic. -/
def LastStarted (s : Calls κ) (timerId : ℕ) : Prop :=
  timerId ∈ s.completed ∨ ∃ a ∈ s.executing, ∃ entry, a.phase = .callback entry ∧
    entry.id = timerId ∧ entry.period ≤ 0

/-- **When `cancel` does not find the timer**, it was already cancelled or its last callback has
started.

**Proof sketch.** Otherwise the timer is active, so it stands on the roster. Its entry is not in the
slots, and in the list of a call of `processExpired` it could only be upcoming. -/
lemma lastStarted_of_missed (h : Conserved s) (hok : CancelOk s (.cancel timerId))
    (hmissed : (s.wheel.cancel timerId).2 = false) :
    timerId ∈ s.cancelled ∨ LastStarted s timerId := by
  by_contra hnot
  obtain ⟨hcancelled, hlast⟩ := not_or.mp hnot
  obtain ⟨hcompleted, hrunning⟩ := not_or.mp hlast
  have hactive : timerId ∈ s.active := by
    simp [Calls.active, hok.1, hcancelled, hcompleted]
  have hmem := (h.lists.mem_iff timerId).mp hactive
  rw [roster, ← coe_expired] at hmem
  rcases Multiset.mem_add.mp hmem with hmem | hmem
  · obtain ⟨entry, hentry, htag⟩ := Multiset.mem_map.mp hmem
    obtain ⟨hid, hlive⟩ := Prod.mk.inj htag
    rcases s.wheel.stock_cancel timerId with ⟨hfound, -⟩ | ⟨-, -, hnone⟩
    · simp [hmissed] at hfound
    · simp [hnone entry hentry hid] at hlive
  · obtain ⟨entry, hentry, htag⟩ := Multiset.mem_map.mp hmem
    obtain ⟨hid, -⟩ := Prod.mk.inj htag
    obtain ⟨a, ha, hentry⟩ := mem_flatMap.mp (Multiset.mem_coe.mp hentry)
    have hover : entry ∉ a.upcoming := fun hin => hok.2 a ha entry hin hid
    rcases mem_append.mp hentry with hphase | hrest
    · cases hcase : a.phase with
      | next | release => simp [hcase, Phase.entries] at hphase
      | rearm entry' =>
        exact hover (mem_append_left _ (hcase ▸ hphase))
      | callback entry' =>
        rw [hcase] at hphase
        obtain rfl : entry = entry' := mem_singleton.mp hphase
        by_cases hperiod : 0 < entry.period
        · refine hover (mem_append_left _ ?_)
          simp [hcase, Phase.upcoming, hperiod]
        · exact hrunning ⟨a, ha, entry, hcase, hid, not_lt.mp hperiod⟩
    · exact hover (mem_append_right _ hrest)

/-- **A cancelled timer is silent**, in every run in which `cancel` is called for timers that have
been inserted and that no call of `processExpired` is still to start or to insert again: once
`cancel` has returned, no callback of the timer is started and the timer is not inserted again; and
`cancel` answers `false` only for a timer that is already cancelled or whose last callback has
started. -/
theorem silent_of_cancelOk (hs : (system κ).ReachableWithin CancelOk s) :
    s.lateStarts = [] ∧ s.lateRearms = [] ∧
      ∀ timerId, CancelOk s (.cancel timerId) → (s.wheel.cancel timerId).2 = false →
        timerId ∈ s.cancelled ∨ LastStarted s timerId := by
  have hconserved := conserved_of_reachable hs
  have hsilent : Silent s := by
    refine hs.invariant_of (fun _ h => conserved_of_reachable h) ?_
      fun _ _ _ hs h hok hst => silent_step h hs hok hst
    rintro _ ⟨config, now, wheel, -, rfl⟩
    exact ⟨by simp [Calls.new], rfl, rfl⟩
  exact ⟨hsilent.lateStarts, hsilent.lateRearms,
    fun timerId hok hmissed => lastStarted_of_missed hconserved hok hmissed⟩

/-- A timer is cancelled in its slot before it is due, and its slot comes round. -/
theorem silent_of_cancelOk_slot :
    ∃ s : Calls Unit, (system Unit).ReachableWithin CancelOk s ∧ 1 ∈ s.returned ∧
      s.lateStarts = [] ∧ s.lateRearms = [] ∧
      ((s.wheel.cancel 1).2 = false → 1 ∈ s.cancelled ∨ LastStarted s 1) := by
  have hs : (system Unit).ReachableWithin CancelOk _ := .final (Calls.new (Wheel.new ⟨1, 4, 1⟩ 0))
      [.schedulePeriodic 1 (some ()) 0, .enqueue 0 0, .cancel 1, .cancelReturns 0, .tick 1,
        .processExpired 1, .go 0 1] ⟨⟨1, 4, 1⟩, 0, _, rfl, rfl⟩ (by decide +kernel)
  obtain ⟨hstarts, hrearms, hmissed⟩ := silent_of_cancelOk hs
  exact ⟨_, hs, by decide +kernel, hstarts, hrearms, hmissed 1 (by decide +kernel)⟩

/-- **`cancel` misses what has expired.** A periodic timer is cancelled in its own callback:
`cancel` does not find it and returns, the timer is inserted again, and its callback runs again. And
a timer is cancelled after `processExpired` has taken it and before its callback: the callback is
started. -/
theorem cancel_missed :
    (∃ s : Calls Unit, (system Unit).Reachable s ∧ s.lateRearms = [1] ∧ s.lateStarts = [1]) ∧
      ∃ s : Calls Unit, (system Unit).Reachable s ∧ s.lateStarts = [1] := by
  constructor
  · exact TransitionSystem.reached_by (Calls.new (Wheel.new ⟨1, 4, 1⟩ 0))
      [.schedulePeriodic 1 (some ()) 0, .enqueue 0 0, .tick 1, .processExpired 1, .go 0 1,
        .cancel 1, .cancelReturns 0, .go 0 1, .go 0 1, .go 0 1, .tick 2, .processExpired 2,
        .go 0 2] ⟨⟨1, 4, 1⟩, 0, _, rfl, rfl⟩ (by decide +kernel)
  · exact TransitionSystem.reached_by (Calls.new (Wheel.new ⟨1, 4, 1⟩ 0))
      [.schedule 1 (some ()) 0, .enqueue 0 0, .tick 1, .processExpired 1, .cancel 1,
        .cancelReturns 0, .go 0 1] ⟨⟨1, 4, 1⟩, 0, _, rfl, rfl⟩ (by decide +kernel)

end Pman.TimerWheel
