import Mathlib.Algebra.Order.Ring.Int
import Pman.Lib.Roster
import Pman.Lib.Signed64
import Pman.Lib.TransitionSystem
import Pman.Timer.WheelStock

set_option autoImplicit false

/-!
# No timer is lost

Any number of threads call the member functions of a `TimerWheel` that is not running; so may the
callbacks. A region under `mutex_` is one step. `schedule` numbers its entry before it locks, and
`processExpired` works through the entries it has taken without the lock: it looks at the flag of an
entry, runs the callback, and inserts a periodic entry again or decrements `activeCount_`, each in a
step of its own.

The entries in the slots and in the lists of expired entries form a roster (`Pman.Lib.Roster`), on
which a timer that was scheduled and has neither completed nor been cancelled stands exactly once.

## Main results

* `active_timers`: every live timer is kept once.
* `arithmetic_safe_iff`: when no arithmetic of the wheel goes wrong.
-/

namespace Pman.TimerWheel

open List Tally Signed64

variable {κ : Type*}

inductive Phase (κ : Type*)
  | next
  | callback (entry : Entry κ)
  /-- The callback of a periodic entry is over, and the entry is to be inserted again. -/
  | rearm (entry : Entry κ)
  /-- The entry is done with, and `activeCount_` is to be decremented. -/
  | release

def Phase.entries : Phase κ → List (Entry κ)
  | .callback entry | .rearm entry => [entry]
  | .next | .release => []

def Phase.pending : Phase κ → ℕ
  | .release => 1
  | .next | .callback _ | .rearm _ => 0

/-- A call of `processExpired` past its locked part. -/
structure Activation (κ : Type*) where
  phase : Phase κ
  rest : List (Entry κ)

def Activation.entries (a : Activation κ) : List (Entry κ) := a.phase.entries ++ a.rest

structure Calls (κ : Type*) where
  wheel : Wheel κ
  /-- The entries that `schedule` and `schedulePeriodic` have numbered and not yet inserted. -/
  scheduling : List (Entry κ)
  executing : List (Activation κ)
  /-- The calls of `cancel` that are through with the lock and have not returned. -/
  cancelling : List ℕ
  scheduled : Finset ℕ
  completed : Finset ℕ
  /-- The timers for which `cancel` answers `true`. -/
  cancelled : Finset ℕ
  /-- The timers for which a call of `cancel` has returned. -/
  returned : Finset ℕ
  /-- The callbacks that were started for a timer in `returned`. -/
  lateStarts : List ℕ
  /-- The timers in `returned` that were inserted again. -/
  lateRearms : List ℕ

variable {s s' : Calls κ}

namespace Calls

def new (wheel : Wheel κ) : Calls κ := ⟨wheel, [], [], [], ∅, ∅, ∅, ∅, [], []⟩

def number (s : Calls κ) (expiry period : ℤ) (callback : κ) : Calls κ :=
  { s with
    wheel := { s.wheel with nextId_ := s.wheel.nextId_ + 1 }
    scheduling := s.scheduling ++ [⟨s.wheel.nextId_, expiry, period, callback, false⟩] }

/-- The locked part of `schedule` and `schedulePeriodic`. -/
def enqueue (s : Calls κ) (now : ℤ) (i : ℕ) (entry : Entry κ) : Calls κ :=
  { s with
    wheel := { s.wheel.insert now entry with activeCount_ := s.wheel.activeCount_ + 1 }
    scheduling := s.scheduling.eraseIdx i
    scheduled := insert entry.id s.scheduled }

def cancel (s : Calls κ) (timerId : ℕ) : Calls κ :=
  { s with
    wheel := (s.wheel.cancel timerId).1
    cancelling := s.cancelling ++ [timerId]
    cancelled := if (s.wheel.cancel timerId).2 then insert timerId s.cancelled
      else s.cancelled }

def cancelReturns (s : Calls κ) (i timerId : ℕ) : Calls κ :=
  { s with
    cancelling := s.cancelling.eraseIdx i
    returned := insert timerId s.returned }

def advance (s : Calls κ) (now elapsed : ℤ) : Calls κ :=
  { s with wheel := s.wheel.advance now elapsed }

def processExpired (s : Calls κ) (now : ℤ) : Calls κ :=
  { s with
    wheel := (s.wheel.takeExpired now).1
    executing := s.executing ++ [⟨.next, (s.wheel.takeExpired now).2⟩] }

def whenReturned (s : Calls κ) (timerId : ℕ) : List ℕ :=
  if timerId ∈ s.returned then [timerId] else []

def go (s : Calls κ) (i : ℕ) (now : ℤ) : Activation κ → Calls κ
  | ⟨.next, []⟩ => { s with executing := s.executing.eraseIdx i }
  | ⟨.next, entry :: rest⟩ =>
    if entry.cancelled then { s with executing := s.executing.set i ⟨.release, rest⟩ }
    else
      { s with
        executing := s.executing.set i ⟨.callback entry, rest⟩
        lateStarts := s.lateStarts ++ s.whenReturned entry.id }
  | ⟨.callback entry, rest⟩ =>
    if 0 < entry.period ∧ entry.cancelled = false then
      { s with
        executing := s.executing.set i
          ⟨.rearm { entry with expiry := wrap (now + entry.period) }, rest⟩ }
    else
      { s with
        executing := s.executing.set i ⟨.release, rest⟩
        completed := insert entry.id s.completed }
  | ⟨.rearm entry, rest⟩ =>
    { s with
      wheel := s.wheel.insert now entry
      executing := s.executing.set i ⟨.next, rest⟩
      lateRearms := s.lateRearms ++ s.whenReturned entry.id }
  | ⟨.release, rest⟩ =>
    { s with
      wheel := { s.wheel with activeCount_ := s.wheel.activeCount_ - 1 }
      executing := s.executing.set i ⟨.next, rest⟩ }

/-- A step of some thread. The callback of `schedule` is `none` when it is null. -/
inductive Act (κ : Type*)
  | schedule (delay : ℤ) (callback : Option κ) (now : ℤ)
  | schedulePeriodic (period : ℤ) (callback : Option κ) (now : ℤ)
  /-- The locked part of the call that has numbered the entry with this index. -/
  | enqueue (i : ℕ) (now : ℤ)
  | cancel (timerId : ℕ)
  | cancelReturns (i : ℕ)
  | advance (elapsed now : ℤ)
  | tick (now : ℤ)
  /-- `processExpired`, up to the end of its locked part. -/
  | processExpired (now : ℤ)
  /-- The call of `processExpired` with this index goes on. -/
  | go (i : ℕ) (now : ℤ)

/-- A call with a null callback, or with a period that is not positive, throws. -/
def step (s : Calls κ) : Act κ → Option (Calls κ)
  | .schedule delay callback now =>
    match callback with
    | some callback => some (s.number (wrap (now + delay)) 0 callback)
    | none => some s
  | .schedulePeriodic period callback now =>
    match callback with
    | some callback =>
      if period ≤ 0 then some s else some (s.number (wrap (now + period)) period callback)
    | none => some s
  | .enqueue i now => (s.scheduling[i]?).map (s.enqueue now i)
  | .cancel timerId => some (s.cancel timerId)
  | .cancelReturns i => (s.cancelling[i]?).map (s.cancelReturns i)
  | .advance elapsed now => some (s.advance now elapsed)
  | .tick now => some (s.advance now s.wheel.config_.tickDuration)
  | .processExpired now => some (s.processExpired now)
  | .go i now => (s.executing[i]?).map (s.go i now)

/-- What a step does to the wheel and the calls. -/
inductive Effect (s : Calls κ) : Act κ → Calls κ → Prop
  | thrown (a : Act κ) : Effect s a s
  | numbered (a : Act κ) (expiry period : ℤ) (callback : κ) :
      Effect s a (s.number expiry period callback)
  | enqueued (i : ℕ) (now : ℤ) (entry : Entry κ) (hi : s.scheduling[i]? = some entry) :
      Effect s (.enqueue i now) (s.enqueue now i entry)
  | cancelled (timerId : ℕ) : Effect s (.cancel timerId) (s.cancel timerId)
  | returned (i timerId : ℕ) (hi : s.cancelling[i]? = some timerId) :
      Effect s (.cancelReturns i) (s.cancelReturns i timerId)
  | advanced (a : Act κ) (now elapsed : ℤ) : Effect s a (s.advance now elapsed)
  | taken (now : ℤ) : Effect s (.processExpired now) (s.processExpired now)
  | went (i : ℕ) (now : ℤ) (a : Activation κ) (hi : s.executing[i]? = some a) :
      Effect s (.go i now) (s.go i now a)

lemma effect_of_step {a : Act κ} (hst : step s a = some s') : Effect s a s' := by
  cases a with
  | schedule delay callback =>
    cases callback <;> cases hst
    · exact .thrown _
    · exact .numbered _ _ _ _
  | schedulePeriodic period callback =>
    simp only [step] at hst
    split at hst
    · split_ifs at hst <;> cases hst
      · exact .thrown _
      · exact .numbered _ _ _ _
    · cases hst
      exact .thrown _
  | enqueue i now =>
    obtain ⟨entry, hi, rfl⟩ := Option.map_eq_some_iff.mp hst
    exact .enqueued i now entry hi
  | cancel timerId =>
    cases hst
    exact .cancelled timerId
  | cancelReturns i =>
    obtain ⟨timerId, hi, rfl⟩ := Option.map_eq_some_iff.mp hst
    exact .returned i timerId hi
  | advance elapsed now =>
    cases hst
    exact .advanced _ now _
  | tick now =>
    cases hst
    exact .advanced _ now _
  | processExpired now =>
    cases hst
    exact .taken now
  | go i now =>
    obtain ⟨a, hi, rfl⟩ := Option.map_eq_some_iff.mp hst
    exact .went i now a hi

def system (κ : Type*) : TransitionSystem (Calls κ) (Act κ) where
  init s := ∃ config now wheel, Wheel.create config now true = .ok wheel ∧ s = Calls.new wheel
  step := step

/-! ### The roster -/

def expired (s : Calls κ) : List (Entry κ) := s.executing.flatMap Activation.entries

/-- The timers that were scheduled and have neither completed nor been cancelled. -/
def active (s : Calls κ) : Finset ℕ := s.scheduled \ (s.completed ∪ s.cancelled)

/-- What the roster says of an entry: its number, and whether it is cancelled. -/
def tag (entry : Entry κ) : ℕ × Bool := (entry.id, entry.cancelled)

/-- The entries of a call of `processExpired`, on the roster. -/
def tags (a : Activation κ) : Multiset (ℕ × Bool) := (a.entries : Multiset (Entry κ)).map tag

/-- The pending decrements of a call of `processExpired`. -/
def releases (a : Activation κ) : ℕ := a.phase.pending

def pending (s : Calls κ) : ℕ := total releases s.executing

/-- The entries in the slots and in the lists of expired entries. -/
def roster (s : Calls κ) : Multiset (ℕ × Bool) :=
  s.wheel.stock.map tag + total tags s.executing

lemma roster_of_stock {entry : Entry κ} {rest : Multiset (Entry κ)}
    (h : s.wheel.stock = entry ::ₘ rest) :
    s.roster = tag entry ::ₘ (rest.map tag + total tags s.executing) := by
  rw [roster, h, Multiset.map_cons, Multiset.cons_add]

section Tags

variable (entry : Entry κ) (rest : List (Entry κ))

lemma tags_next : tags ⟨.next, rest⟩ = (rest : Multiset (Entry κ)).map tag := rfl

lemma tags_release : tags ⟨.release, rest⟩ = (rest : Multiset (Entry κ)).map tag := rfl

lemma tags_callback :
    tags ⟨.callback entry, rest⟩ = tag entry ::ₘ (rest : Multiset (Entry κ)).map tag := rfl

lemma tags_rearm :
    tags ⟨.rearm entry, rest⟩ = tag entry ::ₘ (rest : Multiset (Entry κ)).map tag := rfl

end Tags

lemma coe_expired (s : Calls κ) :
    (s.expired : Multiset (Entry κ)).map tag = total tags s.executing := by
  unfold expired
  induction s.executing with
  | nil => rfl
  | cons a l ih =>
    rw [flatMap_cons, ← Multiset.coe_add, Multiset.map_add, ih, total_cons]
    rfl

end Calls

open Calls

/-- The invariant: the entries that are kept form a roster of the timers. -/
structure Conserved (s : Calls κ) : Prop where
  turning : s.wheel.Turning
  lists : Roster.Lists s.roster s.active
  scheduled : ∀ x ∈ s.roster, x.1 ∈ s.scheduled
  /-- What has happened, happened to timers that were inserted. -/
  past : s.completed ∪ s.cancelled ⊆ s.scheduled
  numbered : ∀ id ∈ s.scheduled, id < s.wheel.nextId_
  /-- Entries that are numbered and not inserted have numbers of their own. -/
  queued : ∀ entry ∈ s.scheduling,
    entry.id < s.wheel.nextId_ ∧ entry.id ∉ s.scheduled ∧ entry.cancelled = false
  queued_nodup : (s.scheduling.map Entry.id).Nodup
  /-- `cancel` does not find entries that have expired. -/
  expired : ∀ a ∈ s.executing, ∀ entry ∈ a.entries, entry.cancelled = false
  count : s.wheel.activeCount_ = s.active.card + s.pending

namespace Conserved

variable {s s' : Calls κ}

lemma new {config : Config} {now : ℤ} {wheel : Wheel κ}
    (h : Wheel.create config now true = .ok wheel) : Conserved (Calls.new wheel) := by
  unfold Wheel.create at h
  split at h
  case isTrue => cases h
  case isFalse hpos =>
    obtain rfl : Wheel.new config now = wheel := by simpa using h
    have hstock : (Wheel.new config now : Wheel κ).stock = 0 := by
      refine Multiset.eq_zero_of_forall_notMem fun entry hentry => ?_
      rw [← Wheel.mem_entries] at hentry
      simp [Wheel.entries, Wheel.new] at hentry
    have hroster : (Calls.new (Wheel.new config now : Wheel κ)).roster = 0 := by
      simp [roster, Calls.new, hstock]
    refine ⟨.new (by omega) (by omega) now, ?_, ?_, by simp [Calls.new], by simp [Calls.new],
      by simp [Calls.new], by simp [Calls.new], by simp [Calls.new], ?_⟩
    · rw [hroster]
      exact .empty
    · simp [hroster]
    · simp [Calls.new, Calls.active, Calls.pending, Wheel.new]

lemma moved (h : Conserved s) (hturning : s'.wheel.Turning)
    (hroster : ∃ dropped, s.roster = dropped + s'.roster ∧ ∀ x ∈ dropped, x.2 = true)
    (hnext : s'.wheel.nextId_ = s.wheel.nextId_) (hscheduling : s'.scheduling = s.scheduling)
    (hscheduled : s'.scheduled = s.scheduled) (hcompleted : s'.completed = s.completed)
    (hcancelled : s'.cancelled = s.cancelled)
    (hexpired : ∀ a ∈ s'.executing, ∀ entry ∈ a.entries, entry.cancelled = false)
    (hcount : s'.wheel.activeCount_ - s'.pending = s.wheel.activeCount_ - s.pending) :
    Conserved s' := by
  obtain ⟨dropped, hdrop, hstruck⟩ := hroster
  have hactive : s'.active = s.active := by
    unfold Calls.active
    rw [hscheduled, hcompleted, hcancelled]
  refine ⟨hturning, ?_, fun x hx => ?_, ?_, ?_, ?_, ?_, hexpired, ?_⟩
  · rw [hactive]
    exact (hdrop ▸ h.lists).drop hstruck
  · rw [hscheduled]
    exact h.scheduled x (hdrop ▸ Multiset.mem_add.mpr (.inr hx))
  · rw [hcompleted, hcancelled, hscheduled]
    exact h.past
  · rw [hscheduled, hnext]
    exact h.numbered
  · rw [hscheduling, hnext, hscheduled]
    exact h.queued
  · rw [hscheduling]
    exact h.queued_nodup
  · have := h.count
    rw [hactive]
    omega

lemma number (h : Conserved s) (expiry period : ℤ) (callback : κ) :
    Conserved (s.number expiry period callback) := by
  refine ⟨h.turning.congr rfl rfl rfl, h.lists, h.scheduled, h.past,
    fun id hid => Nat.lt_succ_of_lt (h.numbered id hid), fun entry hentry => ?_, ?_, h.expired,
    h.count⟩
  · rcases mem_concat.mp hentry with hentry | rfl
    · obtain ⟨hlt, hrest⟩ := h.queued entry hentry
      exact ⟨Nat.lt_succ_of_lt hlt, hrest⟩
    · exact ⟨Nat.lt_succ_self _, fun hmem => lt_irrefl _ (h.numbered _ hmem), rfl⟩
  · rw [Calls.number, map_append, nodup_append]
    refine ⟨h.queued_nodup, by simp, ?_⟩
    rintro a ha b hb rfl
    obtain ⟨entry, hentry, rfl⟩ := mem_map.mp ha
    have hlt := (h.queued entry hentry).1
    rw [mem_map] at hb
    obtain ⟨entry', hentry', heq⟩ := hb
    rw [mem_singleton.mp hentry'] at heq
    exact absurd heq (Nat.ne_of_gt hlt)

variable {i : ℕ} {entry : Entry κ} {a : Activation κ}

variable (h : Conserved s)

include h

lemma enqueue (hi : s.scheduling[i]? = some entry) (now : ℤ) :
    Conserved (s.enqueue now i entry) := by
  have hmem : entry ∈ s.scheduling := List.mem_of_getElem? hi
  obtain ⟨hlt, hnew, hlive⟩ := h.queued entry hmem
  have hroster : (s.enqueue now i entry).roster = (entry.id, false) ::ₘ s.roster := by
    have hstock := Wheel.stock_insert h.turning.toWellFormed now entry
    rw [roster_of_stock (s := s.enqueue now i entry) hstock, tag, hlive]
    rfl
  have hactive : (s.enqueue now i entry).active = insert entry.id s.active := by
    have hpast : entry.id ∉ s.completed ∪ s.cancelled := fun hin => hnew (h.past hin)
    exact Finset.insert_sdiff_of_notMem _ hpast
  have hfresh : entry.id ∉ s.roster.map Prod.fst := by
    intro hin
    obtain ⟨x, hx, heq⟩ := Multiset.mem_map.mp hin
    exact hnew (heq ▸ h.scheduled x hx)
  have hqueue : s.scheduling.Perm (entry :: s.scheduling.eraseIdx i) := by
    obtain ⟨hlength, rfl⟩ := List.getElem?_eq_some_iff.mp hi
    exact (List.getElem_cons_eraseIdx_perm hlength).symm
  have hqueued : entry.id ∉ (s.scheduling.eraseIdx i).map Entry.id :=
    (List.nodup_cons.mp ((hqueue.map Entry.id).nodup_iff.mp h.queued_nodup)).1
  have hnext : (s.wheel.insert now entry).nextId_ = s.wheel.nextId_ := Wheel.nextId_insert _ _ _
  refine ⟨(h.turning.insert now entry).congr rfl rfl rfl, ?_, fun x hx => ?_, ?_, fun id hid => ?_,
    fun e he => ?_, ?_, h.expired, ?_⟩
  · rw [hroster, hactive]
    exact h.lists.enter hfresh
  · rw [hroster] at hx
    rcases Multiset.mem_cons.mp hx with rfl | hx
    · exact Finset.mem_insert_self _ _
    · exact Finset.mem_insert_of_mem (h.scheduled x hx)
  · exact h.past.trans (Finset.subset_insert _ _)
  · show id < (s.wheel.insert now entry).nextId_
    rw [hnext]
    rcases Finset.mem_insert.mp hid with rfl | hid
    · exact hlt
    · exact h.numbered id hid
  · show e.id < (s.wheel.insert now entry).nextId_ ∧ _
    rw [hnext]
    obtain ⟨helt, henew, helive⟩ := h.queued e (List.mem_of_mem_eraseIdx he)
    refine ⟨helt, fun hin => ?_, helive⟩
    rcases Finset.mem_insert.mp hin with heq | hin
    · exact hqueued (heq ▸ List.mem_map_of_mem he)
    · exact henew hin
  · exact h.queued_nodup.sublist ((List.eraseIdx_sublist _ _).map _)
  · have hcount := h.count
    have hcard := Finset.card_insert_of_notMem (h.lists.notMem_active hfresh)
    show s.wheel.activeCount_ + 1 = ((s.enqueue now i entry).active.card : ℤ) + s.pending
    rw [hactive, hcard]
    omega

lemma cancel (timerId : ℕ) : Conserved (s.cancel timerId) := by
  have hturning := h.turning.cancel timerId
  have hnext := Wheel.nextId_cancel h.turning timerId
  rcases s.wheel.stock_cancel timerId with
    ⟨hresult, entry, rest, hid, hlive, hstock, hstock', hcount'⟩ | ⟨hresult, hsame, -⟩
  · let others := rest.map tag + total tags s.executing
    have hroster : s.roster = (timerId, false) ::ₘ others := by
      rw [roster_of_stock hstock, tag, hid, hlive]
    have hroster' : (s.cancel timerId).roster = (timerId, true) ::ₘ others := by
      rw [roster_of_stock (s := s.cancel timerId) hstock', tag]
      simp only [hid]
      rfl
    have hlists := hroster ▸ h.lists
    have hactive : (s.cancel timerId).active = s.active.erase timerId := by
      unfold Calls.active Calls.cancel
      simp only [hresult, if_true, Finset.union_insert, Finset.sdiff_insert]
    have hmem : timerId ∈ s.scheduled :=
      h.scheduled (timerId, false) (hroster ▸ Multiset.mem_cons_self _ _)
    refine ⟨hturning, ?_, fun x hx => ?_, ?_, fun id hid => ?_, fun e he => ?_, h.queued_nodup,
      h.expired, ?_⟩
    · rw [hroster', hactive]
      exact hlists.strike
    · rw [hroster'] at hx
      rcases Multiset.mem_cons.mp hx with rfl | hx
      · exact hmem
      · exact h.scheduled x (hroster ▸ Multiset.mem_cons_of_mem hx)
    · simp only [Calls.cancel, hresult, if_true, Finset.union_insert]
      exact Finset.insert_subset hmem h.past
    · exact hnext ▸ h.numbered id hid
    · exact hnext ▸ h.queued e he
    · have hcount := h.count
      have hcard := Finset.card_erase_add_one hlists.mem_active
      show (s.wheel.cancel timerId).1.activeCount_ =
        ((s.cancel timerId).active.card : ℤ) + s.pending
      rw [hactive, hcount']
      omega
  · refine h.moved (by exact hturning) ⟨0, ?_, by simp⟩ hnext rfl rfl rfl ?_ h.expired ?_
    · rw [zero_add]
      unfold roster Calls.cancel
      rw [hsame]
    · simp [Calls.cancel, hresult]
    · show (s.wheel.cancel timerId).1.activeCount_ - _ = _
      rw [hsame]
      rfl

lemma advance (now elapsed : ℤ) : Conserved (s.advance now elapsed) := by
  obtain ⟨hturning, -, hnext, hcount, dropped, hstock, hdropped⟩ :=
    Wheel.rearranged_advance h.turning now elapsed
  refine h.moved hturning ⟨dropped.map tag, ?_, fun x hx => ?_⟩ hnext rfl rfl rfl rfl
    h.expired ?_
  · unfold roster Calls.advance
    rw [hstock, Multiset.map_add, add_assoc]
  · obtain ⟨entry, hentry, rfl⟩ := Multiset.mem_map.mp hx
    exact hdropped entry hentry
  · show (s.wheel.advance now elapsed).activeCount_ - _ = _
    rw [hcount]
    rfl

lemma processExpired (now : ℤ) : Conserved (s.processExpired now) := by
  obtain ⟨dropped, hstock, hdropped, hlive⟩ := Wheel.stock_takeExpired h.turning now
  refine h.moved (h.turning.takeExpired now) ⟨dropped.map tag, ?_, fun x hx => ?_⟩
    rfl rfl rfl rfl rfl (fun a ha => ?_) ?_
  · unfold roster Calls.processExpired
    rw [hstock, total_append, total_cons, total_nil, Multiset.map_add, Multiset.map_add]
    rw [tags_next]
    abel
  · obtain ⟨entry, hentry, rfl⟩ := Multiset.mem_map.mp hx
    exact hdropped entry hentry
  · rcases mem_concat.mp ha with ha | rfl
    · exact h.expired a ha
    · exact hlive
  · simp [pending, Calls.processExpired, releases, Phase.pending, Wheel.takeExpired]

lemma goMoved {b : Activation κ} (hi : s.executing[i]? = some a)
    (hexecuting : s'.executing = s.executing.set i b) (hturning : s'.wheel.Turning)
    (htags : s'.wheel.stock.map tag + tags b = s.wheel.stock.map tag + tags a)
    (hlive : ∀ entry ∈ b.entries, entry.cancelled = false)
    (hcount : s'.wheel.activeCount_ - releases b = s.wheel.activeCount_ - releases a)
    (hnext : s'.wheel.nextId_ = s.wheel.nextId_) (hscheduling : s'.scheduling = s.scheduling)
    (hscheduled : s'.scheduled = s.scheduled) (hcompleted : s'.completed = s.completed)
    (hcancelled : s'.cancelled = s.cancelled) : Conserved s' := by
  obtain ⟨others, hroster, hset, -⟩ := exists_rest tags hi
  obtain ⟨count, hpending, hset', -⟩ := exists_rest releases hi
  refine h.moved hturning ⟨0, ?_, by simp⟩ hnext hscheduling hscheduled hcompleted hcancelled
    (fun a' ha' => ?_) ?_
  · rw [zero_add, roster, roster, hexecuting, hset, hroster, ← add_assoc, ← htags, add_assoc]
  · rw [hexecuting] at ha'
    rcases mem_or_eq_of_mem_set ha' with ha' | rfl
    · exact h.expired a' ha'
    · exact hlive
  · rw [pending, pending, hexecuting, hset', hpending]
    omega

lemma complete {rest : List (Entry κ)} (hi : s.executing[i]? = some ⟨.callback entry, rest⟩) :
    Conserved { s with
      executing := s.executing.set i ⟨.release, rest⟩
      completed := insert entry.id s.completed } := by
  obtain ⟨others, htotal, hset, -⟩ := exists_rest tags hi
  obtain ⟨count, hpending, hset', -⟩ := exists_rest releases hi
  have hlive : entry.cancelled = false := h.expired _ (mem_of_getElem? hi) entry mem_cons_self
  let left := s.wheel.stock.map tag + ((rest : Multiset (Entry κ)).map tag + others)
  have hroster : s.roster = (entry.id, false) ::ₘ left := by
    rw [roster, htotal, tags_callback, tag, hlive, Multiset.cons_add, Multiset.add_cons]
  have hroster' :
      s.wheel.stock.map tag + total tags (s.executing.set i ⟨.release, rest⟩) = left := by
    rw [hset, tags_release]
  have hlists := hroster ▸ h.lists
  have hmem : entry.id ∈ s.scheduled :=
    h.scheduled (entry.id, false) (hroster ▸ Multiset.mem_cons_self _ _)
  have hactive : s.scheduled \ (insert entry.id s.completed ∪ s.cancelled) =
      s.active.erase entry.id := by
    rw [Finset.insert_union, Finset.sdiff_insert]
    rfl
  refine ⟨h.turning, ?_, fun x hx => ?_, ?_, h.numbered, h.queued, h.queued_nodup,
    fun a ha => ?_, ?_⟩
  · unfold roster Calls.active
    rw [hroster', hactive]
    exact hlists.leave
  · unfold roster at hx
    rw [hroster'] at hx
    exact h.scheduled x (hroster ▸ Multiset.mem_cons_of_mem hx)
  · rw [Finset.insert_union]
    exact Finset.insert_subset hmem h.past
  · rcases mem_or_eq_of_mem_set ha with ha | rfl
    · exact h.expired a ha
    · exact fun e he => h.expired _ (mem_of_getElem? hi) e (mem_cons_of_mem _ he)
  · have hcount := h.count
    have hcard := Finset.card_erase_add_one hlists.mem_active
    unfold pending at hcount ⊢
    unfold Calls.active
    rw [hactive, hset']
    rw [hpending] at hcount
    simp only [releases, Phase.pending] at hcount ⊢
    omega

/-- **A call of `processExpired` goes on.**

**Proof sketch.** By its place in the loop. -/
lemma go (hi : s.executing[i]? = some a) (now : ℤ) : Conserved (s.go i now a) := by
  have hlive := h.expired a (mem_of_getElem? hi)
  obtain ⟨phase, rest⟩ := a
  cases phase with
  | next =>
    cases rest with
    | nil =>
      obtain ⟨others, hroster, -, -, herase⟩ := exists_rest tags hi
      obtain ⟨count, hpending, -, -, herase'⟩ := exists_rest releases hi
      refine h.moved h.turning ⟨0, ?_, by simp⟩ rfl rfl rfl rfl rfl
        (fun a' ha' => h.expired a' (mem_of_mem_eraseIdx ha')) ?_
      · simp only [roster, Calls.go, hroster, herase, tags_next]
        simp
      · simp [Calls.go, pending, hpending, herase', releases, Phase.pending]
    | cons entry rest =>
      have hentry : entry.cancelled = false := hlive entry mem_cons_self
      have hgo : s.go i now ⟨.next, entry :: rest⟩ =
          { s with
            executing := s.executing.set i ⟨.callback entry, rest⟩
            lateStarts := s.lateStarts ++ s.whenReturned entry.id } := by
        simp [Calls.go, hentry]
      rw [hgo]
      exact h.goMoved hi rfl h.turning rfl hlive rfl rfl rfl rfl rfl rfl
  | callback entry =>
    have hentry : entry.cancelled = false := hlive entry mem_cons_self
    by_cases hperiod : 0 < entry.period
    · have hgo : s.go i now ⟨.callback entry, rest⟩ =
          { s with executing :=
            s.executing.set i ⟨.rearm { entry with expiry := wrap (now + entry.period) }, rest⟩ } := by
        simp [Calls.go, hentry, hperiod]
      rw [hgo]
      refine h.goMoved hi rfl h.turning rfl (fun e he => ?_) rfl rfl rfl rfl rfl rfl
      rcases mem_cons.mp he with rfl | he
      · exact hentry
      · exact hlive e (mem_cons_of_mem _ he)
    · have hgo : s.go i now ⟨.callback entry, rest⟩ =
          { s with
            executing := s.executing.set i ⟨.release, rest⟩
            completed := insert entry.id s.completed } := by
        simp [Calls.go, hperiod]
      rw [hgo]
      exact h.complete hi
  | rearm entry =>
    refine h.goMoved hi rfl (h.turning.insert now entry) ?_
      (fun e he => hlive e (mem_cons_of_mem _ he)) ?_ (Wheel.nextId_insert _ _ _)
      rfl rfl rfl rfl
    · show (s.wheel.insert now entry).stock.map tag + _ = _
      rw [Wheel.stock_insert h.turning.toWellFormed, Multiset.map_cons, tags_next, tags_rearm,
        Multiset.cons_add, Multiset.add_cons]
    · show (s.wheel.insert now entry).activeCount_ - _ = _
      rw [Wheel.activeCount_insert h.turning.toWellFormed]
      rfl
  | release =>
    refine h.goMoved hi rfl (h.turning.congr rfl rfl rfl) rfl hlive ?_ rfl rfl rfl rfl rfl
    show s.wheel.activeCount_ - 1 - ((0 : ℕ) : ℤ) = s.wheel.activeCount_ - ((1 : ℕ) : ℤ)
    simp

end Conserved

lemma conserved_step {a : Act κ} (h : Conserved s) (hst : step s a = some s') : Conserved s' := by
  cases effect_of_step hst with
  | thrown => exact h
  | numbered _ expiry period callback => exact h.number expiry period callback
  | enqueued i now entry hi => exact h.enqueue hi now
  | cancelled timerId => exact h.cancel timerId
  | returned i timerId hi =>
    exact ⟨h.turning, h.lists, h.scheduled, h.past, h.numbered, h.queued, h.queued_nodup, h.expired,
      h.count⟩
  | advanced _ now elapsed => exact h.advance now elapsed
  | taken now => exact h.processExpired now
  | went i now a hi => exact h.go hi now

/-- No entry is lost in any run. -/
theorem conserved_of_reachable {ok : Calls κ → Act κ → Prop}
    (hs : (system κ).ReachableWithin ok s) : Conserved s := by
  refine hs.invariant ?_ fun _ _ _ h _ hst => conserved_step h hst
  rintro _ ⟨config, now, wheel, hcreate, rfl⟩
  exact .new hcreate

/-- **No timer is lost or duplicated.** In every state that calls of `schedule`, `schedulePeriodic`,
`cancel`, `advance`, `tick` and `processExpired` can reach, an active timer has exactly one entry in
the slots and the lists of expired entries together, and that entry is not cancelled;
`activeCount_` is the number of active timers, and of the finished ones whose decrement is pending,
so it is never negative. -/
theorem active_timers {s : Calls κ} (hs : (system κ).Reachable s) :
    (∀ id ∈ s.active, ((s.wheel.entries ++ s.expired).map Entry.id).count id = 1 ∧
      ∀ entry ∈ s.wheel.entries ++ s.expired, entry.id = id → entry.cancelled = false) ∧
    s.wheel.activeCount_ = s.active.card + s.pending ∧ 0 ≤ s.wheel.activeCount_ := by
  have h := conserved_of_reachable hs
  have hroster : ((s.wheel.entries ++ s.expired : List (Entry κ)) : Multiset (Entry κ)).map tag =
      s.roster := by
    rw [← Multiset.coe_add, Multiset.map_add, Wheel.coe_entries, coe_expired]
    rfl
  refine ⟨fun id hid => ⟨?_, fun entry hentry heq => ?_⟩, h.count, ?_⟩
  · have hone := h.lists.count_eq_one hid
    rwa [← hroster, Multiset.map_coe, Multiset.map_coe, Multiset.coe_count, map_map] at hone
  · have hmem : tag entry ∈ s.roster :=
      hroster ▸ Multiset.mem_map_of_mem tag (Multiset.mem_coe.mpr hentry)
    exact h.lists.not_struck hid (heq ▸ hmem)
  · have hcount := h.count
    omega

/-- A periodic timer is in its callback while another timer is cancelled in its slot. -/
theorem active_timers_callback :
    ∃ s : Calls Unit, (system Unit).Reachable s ∧ s.active = {1} ∧
      ((s.wheel.entries ++ s.expired).map Entry.id).count 1 = 1 ∧ 0 ≤ s.wheel.activeCount_ := by
  have hs : (system Unit).Reachable _ := .final (Calls.new (Wheel.new ⟨1, 4, 1⟩ 0))
      [.schedulePeriodic 1 (some ()) 0, .schedule 2 (some ()) 0, .enqueue 0 0, .enqueue 0 0,
        .tick 1, .processExpired 1, .cancel 2, .go 0 1] ⟨⟨1, 4, 1⟩, 0, _, rfl, rfl⟩
      (by decide +kernel)
  exact ⟨_, hs, by decide +kernel, ((active_timers hs).1 1 (by decide +kernel)).1,
    (active_timers hs).2.2⟩

/-! ### Arithmetic -/

/-- The arithmetic of `advance` and of `insert` for one expiry is safe: nothing is divided by zero,
no product of the loop of `computeSlot` overflows in a wheel that `insert` comes to, and all indices
of wheels and slots are in bounds. -/
structure ArithmeticSafe (d : Wheel κ) (now expiry : ℤ) : Prop where
  tick : d.config_.tickDuration ≠ 0
  product : ∀ w ≤ (d.home now expiry).1,
    Wheel.ticksPerSlot d.config_ w ≠ 0 ∧ Fits (Wheel.ticksPerSlot d.config_ w)
  level : (d.home now expiry).1 < d.wheels_.length
  slot : ∀ wheel ∈ d.wheels_, (d.home now expiry).2 < wheel.length
  current : ∀ w < d.wheels_.length, ∀ wheel ∈ d.wheels_, d.currentSlot w < wheel.length

/-- What the constructor checks, and what the types and the allocation of the slots give. -/
structure Accepted (c : Config) : Prop where
  size_pos : 0 < c.wheelSize
  size_lt : c.wheelSize < 2 ^ 63
  wheels_pos : 0 < c.numWheels
  tick : Fits c.tickDuration

/-- The duration of a tick is positive; or it is negative, and no slot distance is in range and
followed by one that is not. -/
def TickOk (c : Config) : Prop :=
  0 < c.tickDuration ∨ c.tickDuration < 0 ∧ ∀ w, w + 1 < c.numWheels →
    -2 ^ 63 < c.tickDuration * (c.wheelSize : ℤ) ^ w →
      -2 ^ 63 ≤ c.tickDuration * (c.wheelSize : ℤ) ^ (w + 1)

instance : DecidablePred TickOk := fun c => by
  have hbounded : (∀ w, w + 1 < c.numWheels → -2 ^ 63 < c.tickDuration * (c.wheelSize : ℤ) ^ w →
      -2 ^ 63 ≤ c.tickDuration * (c.wheelSize : ℤ) ^ (w + 1)) ↔
      ∀ w < c.numWheels - 1, -2 ^ 63 < c.tickDuration * (c.wheelSize : ℤ) ^ w →
        -2 ^ 63 ≤ c.tickDuration * (c.wheelSize : ℤ) ^ (w + 1) :=
    forall_congr' fun w => by rw [Nat.lt_sub_iff_add_lt]
  exact decidable_of_iff' _ (or_congr_right (and_congr_right' hbounded))

section Arithmetic

variable {c : Config} {delay : ℤ}

/-- With a negative tick `insert` passes over a wheel exactly if the delay is at least the distance
of its slots. -/
lemma wheelSize_le_computeSlot (hc : Accepted c) (htick : c.tickDuration < 0) (h0 : 0 ≤ delay)
    (hlt : delay < 2 ^ 63) (w : ℕ) : c.wheelSize ≤ Wheel.computeSlot c delay w ↔
      -(c.tickDuration * (c.wheelSize : ℤ) ^ w) ≤ delay := by
  have hsize := hc.size_lt
  have hpos := hc.size_pos
  set P := c.tickDuration * (c.wheelSize : ℤ) ^ w with hP
  have hneg : P < 0 := mul_neg_of_neg_of_pos htick (pow_pos (by exact_mod_cast hpos) w)
  rw [Wheel.computeSlot, Wheel.ticksPerSlot_eq, ← hP, ← neg_neg P, Int.tdiv_neg,
    Int.tdiv_eq_ediv_of_nonneg h0, neg_neg, toSize]
  have hle : delay / -P ≤ delay := Int.ediv_le_self _ h0
  have hnonneg : 0 ≤ delay / -P := Int.ediv_nonneg h0 (by omega)
  have hquot : 1 ≤ delay / -P ↔ -P ≤ delay := by
    rw [Int.le_ediv_iff_mul_le (by omega), one_mul]
  omega

/-- The products in the wheels that `insert` comes to are in range. -/
lemma TickOk.fits (h : TickOk c) (hc : Accepted c) (h0 : 0 ≤ delay) (hlt : delay < 2 ^ 63) {w : ℕ}
    (hw : w ≤ Wheel.levelFrom c (Wheel.computeSlot c delay) c.numWheels 0) :
    Wheel.ticksPerSlot c w ≠ 0 ∧ Fits (Wheel.ticksPerSlot c w) := by
  have hmax := hc.tick.2
  rcases h with htick | ⟨htick, hnext⟩
  · obtain ⟨hpos, hle⟩ := Wheel.ticksPerSlot_le hc.size_pos htick h0 hlt hw
    exact ⟨hpos.ne', by omega, by omega⟩
  · have hneg : ∀ v : ℕ, c.tickDuration * (c.wheelSize : ℤ) ^ v < 0 := fun v =>
      mul_neg_of_neg_of_pos htick (pow_pos (by exact_mod_cast hc.size_pos) v)
    rw [Wheel.ticksPerSlot_eq]
    refine ⟨(hneg w).ne, ?_, (hneg w).trans (by decide)⟩
    cases w with
    | zero => simpa using hc.tick.1
    | succ w =>
      have hlevel := Wheel.levelFrom_lt (Wheel.computeSlot c delay) (add_zero _) hc.wheels_pos
      have hpass := (wheelSize_le_computeSlot hc htick h0 hlt w).mp
        (Wheel.le_slotOf_of_lt_levelFrom (Nat.zero_le w) hw)
      exact hnext w (by omega) (by omega)

/-- With the greatest delay `insert` comes to every wheel that follows one in range. -/
lemma TickOk.of_fits (hc : Accepted c) (htick : c.tickDuration ≠ 0)
    (h : ∀ w ≤ Wheel.levelFrom c (Wheel.computeSlot c (2 ^ 63 - 1)) c.numWheels 0,
      Fits (Wheel.ticksPerSlot c w)) : TickOk c := by
  rcases htick.lt_or_gt with hneg | hpos
  · refine .inr ⟨hneg, fun w hw hin => ?_⟩
    have hreach : w + 1 ≤ Wheel.levelFrom c (Wheel.computeSlot c (2 ^ 63 - 1)) c.numWheels 0 := by
      by_contra hlt
      set l := Wheel.levelFrom c (Wheel.computeSlot c (2 ^ 63 - 1)) c.numWheels 0 with hl
      have hpow : (c.wheelSize : ℤ) ^ l ≤ (c.wheelSize : ℤ) ^ w :=
        pow_le_pow_right₀ (by exact_mod_cast hc.size_pos) (by omega)
      have hmul := mul_le_mul_of_nonpos_left hpow hneg.le
      have hpass : c.wheelSize ≤ Wheel.computeSlot c (2 ^ 63 - 1) l :=
        (wheelSize_le_computeSlot hc hneg (by decide) (by decide) l).mpr (by omega)
      have hstops :=
        Wheel.levelFrom_stops (Wheel.computeSlot c (2 ^ 63 - 1)) (add_zero _) hc.wheels_pos
      rw [← hl] at hstops
      omega
    have hfits := (h (w + 1) hreach).1
    rwa [Wheel.ticksPerSlot_eq] at hfits
  · exact .inl hpos

end Arithmetic

/-- **The arithmetic of the wheel is safe** in every state and for every delay that 64 bits hold, for
exactly the configurations whose tick is `TickOk`. -/
theorem arithmetic_safe_iff {c : Config} (hc : Accepted c) :
    (∀ s : Calls κ, (system κ).Reachable s → s.wheel.config_ = c → ∀ now expiry,
      expiry - now < 2 ^ 63 → ArithmeticSafe s.wheel now expiry) ↔ TickOk c := by
  constructor
  · intro h
    have hs : (system κ).Reachable (Calls.new (Wheel.new c 0)) := by
      refine .init ⟨c, 0, _, ?_, rfl⟩
      have hpos := hc.size_pos
      have hwheels := hc.wheels_pos
      rw [Wheel.create, if_neg (by omega), if_pos rfl]
    have hsafe := h _ hs rfl 0 (2 ^ 63 - 1) (by decide)
    exact .of_fits hc hsafe.tick fun w hw => (hsafe.product w hw).2
  · rintro hok s hs rfl now expiry hdelay
    have h := (conserved_of_reachable hs).turning
    obtain ⟨hlevel, hslot⟩ := Wheel.home_lt h.toWellFormed now expiry
    have htick : s.wheel.config_.tickDuration ≠ 0 :=
      hok.elim (fun hpos => hpos.ne') fun hneg => hneg.1.ne
    refine ⟨htick, fun w hw => ?_, h.wheels ▸ hlevel, fun wheel hwheel => ?_,
      fun w hw wheel hwheel => ?_⟩
    · exact hok.fits hc (Wheel.delayAt_nonneg now expiry) (Wheel.delayAt_lt (by omega)) hw
    · rw [h.slots wheel hwheel]
      exact hslot
    · rw [h.slots wheel hwheel]
      exact h.current_lt w (h.wheels ▸ hw)

/-- The default wheel, and one with a single wheel and a negative tick. -/
theorem arithmetic_safe_default :
    (∀ s : Calls Unit, (system Unit).Reachable s → s.wheel.config_ = {} → ∀ now expiry,
      expiry - now < 2 ^ 63 → ArithmeticSafe s.wheel now expiry) ∧
    ∀ s : Calls Unit, (system Unit).Reachable s → s.wheel.config_ = ⟨-2, 4, 1⟩ → ∀ now expiry,
      expiry - now < 2 ^ 63 → ArithmeticSafe s.wheel now expiry :=
  ⟨(arithmetic_safe_iff ⟨by decide, by decide, by decide, by decide⟩).mpr (by decide),
    (arithmetic_safe_iff ⟨by decide, by decide, by decide, by decide⟩).mpr (by decide)⟩

/-- The constructor accepts a tick of no duration, which `advance` and `computeSlot` divide by; and
a negative one, where a delay of 28 hours makes `insert` come to a wheel whose slot distance is out
of range. -/
theorem arithmetic_unsafe :
    (∃ s : Calls Unit, (system Unit).Reachable s ∧ s.wheel.config_.tickDuration = 0 ∧
      Wheel.ticksPerSlot s.wheel.config_ 0 = 0) ∧
    ∃ s : Calls Unit, (system Unit).Reachable s ∧ (s.wheel.home 0 100000000000000).1 = 2 ∧
      Wheel.ticksPerSlot s.wheel.config_ 2 < -2 ^ 63 :=
  ⟨⟨Calls.new (Wheel.new ⟨0, 256, 4⟩ 0), .init ⟨⟨0, 256, 4⟩, 0, _, rfl, rfl⟩, rfl, rfl⟩,
    Calls.new (Wheel.new ⟨-1000000000, 100000, 3⟩ 0),
    .init ⟨⟨-1000000000, 100000, 3⟩, 0, _, rfl, rfl⟩, by decide +kernel, by decide +kernel⟩

end Pman.TimerWheel
