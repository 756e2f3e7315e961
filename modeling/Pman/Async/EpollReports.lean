import Pman.Async.EpollDescriptors

set_option autoImplicit false

/-!
# Which registration an event reaches

`run` and `runOnce` take up to 64 events from `epoll_wait` and look up the callback of each by the
number of the descriptor, when timers and the callbacks of earlier events have run. These may remove
descriptors, close them, and add others that get the same numbers; and they may run the loop again,
so batches of events nest.

A registration is known by the time of its `addFd`, and a batch by the time of its `epoll_wait`.

## Main results

* `Pman.EpollLoop.Reports.invoked_for_own_event`: runs in which no number is added while a batch
  still has an event of it.
* `Pman.EpollLoop.Reports.invoked_for_old_event`: a number that is used again within a batch.
-/

namespace Pman.EpollLoop

open Function

/-- The descriptors of a loop, with what is needed to tell registrations and reports apart. -/
structure Reports (κ : Type*) extends Descriptors κ where
  /-- The batches in progress, innermost first: the time of the report, and the events left. -/
  batches : List (ℕ × List (ℤ × BitVec 32))
  /-- The number of steps so far. -/
  time : ℕ
  /-- The time of the `addFd` that has installed the callback of a number. -/
  since : ℤ → ℕ
  /-- The callbacks that were invoked: the time of the report, and that of the `addFd`. -/
  invoked : List (ℕ × ℕ)
  /-- The callbacks that `removeFd` has removed: the time of the `addFd`, and that of the removal. -/
  removed : List (ℕ × ℕ)

namespace Reports

variable {κ : Type*}

/-- What the loop, its callbacks and the rest of the process do. -/
inductive Act (κ : Type*)
  | addFd (fd : ℤ) (events : EventLoop.Event) (callback : κ) (fails : Bool)
  | modifyFd (fd : ℤ) (events : EventLoop.Event)
  | removeFd (fd : ℤ)
  /-- The descriptor is closed; the kernel forgets its entry, the loop keeps the callback. -/
  | close (fd : ℤ)
  | wait (ready : ℤ → Readiness)
  /-- The next event of the innermost batch. -/
  | dispatch
  /-- The innermost batch is over, or an exception leaves it. -/
  | leave

/-- What an action does, apart from the time that it takes. -/
def effect (s : Reports κ) : Act κ → Option (Reports κ)
  | .addFd fd events callback fails =>
    match s.addFd fd events callback fails with
    | .ok d => some { s with toDescriptors := d, since := update s.since fd s.time }
    | .error _ => some s
  | .modifyFd fd events => some { s with toDescriptors := s.modifyFd fd events }
  | .removeFd fd =>
    some { s with
      toDescriptors := s.removeFd fd
      removed := s.removed ++ if (s.fdCallbacks_ fd).isSome then [(s.since fd, s.time)] else [] }
  | .close fd => some { s with epoll := s.epoll.filter fun e => e.1 != fd }
  | .wait ready =>
    match s.epollWait ready with
    | (d, events) => some { s with toDescriptors := d, batches := (s.time, events) :: s.batches }
  | .dispatch =>
    match s.batches with
    | (reported, (fd, _) :: events) :: rest =>
      let called := decide (fd ≠ s.eventFd_) && (s.fdCallbacks_ fd).isSome
      some { s with
        batches := (reported, events) :: rest
        invoked := s.invoked ++ if called then [(reported, s.since fd)] else [] }
    | _ => none
  | .leave => some { s with batches := s.batches.tail }

/-- An action, and the time that it takes. -/
def step (s : Reports κ) (a : Act κ) : Option (Reports κ) :=
  (s.effect a).map fun s => { s with time := s.time + 1 }

/-- A new loop; its own descriptor is there from the beginning. -/
def new (eventFd : ℤ) : Reports κ := ⟨.new eventFd, [], 1, fun _ => 0, [], []⟩

/-- The loop, driven by any callbacks. -/
def system (κ : Type*) : TransitionSystem (Reports κ) (Act κ) where
  init s := ∃ eventFd, s = new eventFd
  step := step

/-- No descriptor is added while a batch has an event of its number left. -/
def Apart (s : Reports κ) : Act κ → Prop
  | .addFd fd _ _ _ => ∀ b ∈ s.batches, ∀ e ∈ b.2, e.1 ≠ fd
  | _ => True

instance (s : Reports κ) (a : Act κ) : Decidable (Apart s a) := by
  cases a <;> dsimp only [Apart] <;> infer_instance

/-- Registrations and removals are in the past; a callback that is installed was not removed, and
different ones were installed at different times. -/
structure Dated (s : Reports κ) : Prop where
  since : ∀ fd, s.since fd < s.time
  removed : ∀ x ∈ s.removed, x.1 < s.time
  installed : ∀ fd, (s.fdCallbacks_ fd).isSome → ∀ x ∈ s.removed, x.1 ≠ s.since fd
  apart : ∀ fd fd', (s.fdCallbacks_ fd).isSome → (s.fdCallbacks_ fd').isSome →
    s.since fd = s.since fd' → fd = fd'

/-- Events that are left were reported after the registration they will reach, and those that were
invoked before its removal. -/
structure Older (s : Reports κ) : Prop where
  reported : ∀ b ∈ s.batches, b.1 < s.time ∧ ∀ e ∈ b.2, s.since e.1 < b.1
  past : ∀ c ∈ s.invoked, c.1 < s.time
  invoked : ∀ c ∈ s.invoked, c.2 < c.1 ∧ ∀ x ∈ s.removed, x.1 = c.2 → c.1 < x.2

variable {s s' : Reports κ} {a : Act κ}

lemma Dated.effect (h : Dated s) (hst : s.effect a = some s') :
    Dated { s' with time := s'.time + 1 } := by
  have hsince (fd : ℤ) : s.since fd < s.time + 1 := Nat.lt_succ_of_lt (h.since fd)
  have hremoved : ∀ x ∈ s.removed, x.1 < s.time + 1 := fun x hx =>
    Nat.lt_succ_of_lt (h.removed x hx)
  cases a with
  | addFd fd events callback fails =>
    simp only [Reports.effect, Descriptors.addFd] at hst
    split_ifs at hst <;> cases hst
    · exact ⟨hsince, hremoved, h.installed, h.apart⟩
    · -- The new registration is younger than everything recorded.
      have hnew : ∀ x, s.since x ≠ s.time := fun x => Nat.ne_of_lt (h.since x)
      refine ⟨fun x => ?_, hremoved, fun x hx y hy => ?_, fun x y hx hy hxy => ?_⟩
      · by_cases hfd : x = fd
        · simp [hfd]
        · simpa [hfd] using hsince x
      · by_cases hfd : x = fd
        · simpa [hfd] using Nat.ne_of_lt (h.removed y hy)
        · simpa [hfd] using h.installed x (by simpa [hfd] using hx) y hy
      · by_cases hxfd : x = fd <;> by_cases hyfd : y = fd
        · rw [hxfd, hyfd]
        · exact absurd (by simpa [hxfd, hyfd] using hxy.symm) (hnew y)
        · exact absurd (by simpa [hxfd, hyfd] using hxy) (hnew x)
        · exact h.apart x y (by simpa [hxfd] using hx) (by simpa [hyfd] using hy)
            (by simpa [hxfd, hyfd] using hxy)
  | removeFd fd =>
    cases hst
    have hother : ∀ x, ((s.removeFd fd).fdCallbacks_ x).isSome →
        x ≠ fd ∧ (s.fdCallbacks_ x).isSome := by
      intro x hx
      by_cases hfd : x = fd
      · simp [Descriptors.removeFd, hfd] at hx
      · exact ⟨hfd, by simpa [Descriptors.removeFd, hfd] using hx⟩
    refine ⟨hsince, fun x hx => ?_, fun x hx y hy => ?_, fun x y hx hy => ?_⟩
    · rcases List.mem_append.mp hx with hx | hx
      · exact hremoved x hx
      · split_ifs at hx
        · rw [List.mem_singleton.mp hx]
          exact hsince fd
        · cases hx
    · obtain ⟨hne, hsome⟩ := hother x hx
      rcases List.mem_append.mp hy with hy | hy
      · exact h.installed x hsome y hy
      · split_ifs at hy with hfd
        · rw [List.mem_singleton.mp hy]
          exact fun heq => hne (h.apart x fd hsome hfd heq.symm)
        · cases hy
    · exact h.apart x y (hother x hx).2 (hother y hy).2
  | dispatch =>
    simp only [Reports.effect] at hst
    split at hst <;> cases hst
    exact ⟨hsince, hremoved, h.installed, h.apart⟩
  | modifyFd | close | wait | leave =>
    cases hst
    exact ⟨hsince, hremoved, h.installed, h.apart⟩

lemma Older.effect (h : Older s) (hd : Dated s) (hok : Apart s a) (hst : s.effect a = some s') :
    Older { s' with time := s'.time + 1 } := by
  have hpast : ∀ c ∈ s.invoked, c.1 < s.time + 1 := fun c hc => Nat.lt_succ_of_lt (h.past c hc)
  have hbatches : ∀ b ∈ s.batches, b.1 < s.time + 1 ∧ ∀ e ∈ b.2, s.since e.1 < b.1 :=
    fun b hb => ⟨Nat.lt_succ_of_lt (h.reported b hb).1, (h.reported b hb).2⟩
  cases a with
  | addFd fd events callback fails =>
    simp only [Reports.effect] at hst
    split at hst <;> cases hst
    · refine ⟨fun b hb => ⟨(hbatches b hb).1, fun e he => ?_⟩, hpast, h.invoked⟩
      simpa only [update_of_ne (hok b hb e he)] using (hbatches b hb).2 e he
    · exact ⟨hbatches, hpast, h.invoked⟩
  | removeFd fd =>
    cases hst
    refine ⟨hbatches, hpast, fun c hc => ⟨(h.invoked c hc).1, fun x hx hxc => ?_⟩⟩
    rcases List.mem_append.mp hx with hx | hx
    · exact (h.invoked c hc).2 x hx hxc
    · split_ifs at hx
      · rw [List.mem_singleton.mp hx]
        exact h.past c hc
      · cases hx
  | wait ready =>
    cases hst
    refine ⟨fun b hb => ?_, hpast, h.invoked⟩
    rcases List.mem_cons.mp hb with rfl | hb
    · exact ⟨Nat.lt_succ_self _, fun e _ => hd.since e.1⟩
    · exact hbatches b hb
  | dispatch =>
    simp only [Reports.effect] at hst
    split at hst <;> cases hst
    case h_1 reported fd bits events rest hb =>
      rw [hb] at hbatches
      obtain ⟨hreported, hsince⟩ := hbatches _ List.mem_cons_self
      have hall : ∀ c ∈ s.invoked ++ if decide (fd ≠ s.eventFd_) && (s.fdCallbacks_ fd).isSome
          then [(reported, s.since fd)] else [],
          c.1 < s.time + 1 ∧ c.2 < c.1 ∧ ∀ x ∈ s.removed, x.1 = c.2 → c.1 < x.2 := by
        intro c hc
        rcases List.mem_append.mp hc with hc | hc
        · exact ⟨hpast c hc, h.invoked c hc⟩
        · split_ifs at hc with hcalled
          · rw [List.mem_singleton.mp hc]
            -- The callback is installed, so it was not removed.
            exact ⟨hreported, hsince (fd, bits) List.mem_cons_self, fun x hx hxc =>
              absurd hxc (hd.installed fd (Bool.and_eq_true_iff.mp hcalled).2 x hx)⟩
          · cases hc
      refine ⟨fun b hb => ?_, fun c hc => (hall c hc).1, fun c hc => (hall c hc).2⟩
      rcases List.mem_cons.mp hb with rfl | hb
      · exact ⟨hreported, fun e he => hsince e (List.mem_cons_of_mem _ he)⟩
      · exact hbatches b (List.mem_cons_of_mem _ hb)
  | leave =>
    cases hst
    exact ⟨fun b hb => hbatches b (List.mem_of_mem_tail hb), hpast, h.invoked⟩
  | modifyFd | close =>
    cases hst
    exact ⟨hbatches, hpast, h.invoked⟩

/-- **Events reach the registration they were reported for**: whenever a callback was invoked for an
event, it was installed by an `addFd` before the `epoll_wait` that has reported the event, and every
`removeFd` that has removed it came later than that. -/
theorem invoked_for_own_event {s : Reports κ} (h : (system κ).ReachableWithin Apart s) :
    ∀ c ∈ s.invoked, c.2 < c.1 ∧ ∀ x ∈ s.removed, x.1 = c.2 → c.1 < x.2 := by
  have hinv : Dated s ∧ Older s := by
    refine h.invariant (I := fun s => Dated s ∧ Older s) ?_ fun s a s' hs hok hst => ?_
    · rintro _ ⟨eventFd, rfl⟩
      exact ⟨⟨fun _ => Nat.zero_lt_one, by simp [new], by simp [new],
        by simp [new, Descriptors.new]⟩, ⟨by simp [new], by simp [new], by simp [new]⟩⟩
    · obtain ⟨t, ht, rfl⟩ := Option.map_eq_some_iff.mp hst
      exact ⟨hs.1.effect ht, hs.2.effect hs.1 hok ht⟩
  exact hinv.2.invoked

/-- The descriptors that are ready to be read. -/
def readableAt (fds : List ℤ) : ℤ → Readiness := fun fd => { readable := fds.contains fd }

/-- A descriptor is removed in its own callback and added again, and is reported anew. -/
theorem invoked_for_own_event_twice :
    ∃ s : Reports Unit, (system Unit).ReachableWithin Apart s ∧ s.invoked = [(2, 1), (7, 5)] ∧
      s.removed = [(1, 4)] ∧
      ∀ c ∈ s.invoked, c.2 < c.1 ∧ ∀ x ∈ s.removed, x.1 = c.2 → c.1 < x.2 := by
  have hs : (system Unit).ReachableWithin Apart _ := .final (new 3)
      [.addFd 5 .read () false, .wait (readableAt [5]), .dispatch, .removeFd 5,
        .addFd 5 .read () false, .leave, .wait (readableAt [5]), .dispatch] ⟨3, rfl⟩ (by decide)
  exact ⟨_, hs, by decide, by decide, invoked_for_own_event hs⟩

/-- **An event reaches a registration that is younger than its report**: two descriptors are
reported, and the callback of the first closes the second and adds another one with its number. -/
theorem invoked_for_old_event :
    ∃ s : Reports Unit, (system Unit).Reachable s ∧ ∃ c ∈ s.invoked, c.1 < c.2 :=
  TransitionSystem.reached_by (new 3)
    [.addFd 5 .read () false, .addFd 6 .read () false, .wait (readableAt [5, 6]), .dispatch,
      .removeFd 6, .addFd 6 .read () false, .dispatch] ⟨3, rfl⟩ (by decide)

end Reports

end Pman.EpollLoop
