import Pman.Pool.TaskFlow

set_option autoImplicit false

/-!
# The order in which the enhanced pool takes its tasks

`TaskEntry::operator<` says that the entry with the greater priority number is the smaller one, and
`std::priority_queue` has its greatest entry on top. So the workers take the entry with the least
priority number first, and among equals the one that was submitted first. The pool's test names the
other order: a higher number is a higher priority. The two agree on a queue exactly when all its
entries have the same priority.

## Main results

* `dequeues_highest_iff`: when a worker takes the task it should take.
-/

namespace Pman

namespace EnhancedThreadPool

namespace TaskEntry

lemma lt_iff {a b : TaskEntry} :
    a.lt b = true ↔ b.priority < a.priority ∨
      a.priority = b.priority ∧ b.sequenceNumber < a.sequenceNumber := by
  unfold lt
  split_ifs with hne
  · rw [decide_eq_true_iff]
    omega
  · rw [decide_eq_true_iff]
    omega

lemma lt_eq_false_iff {a b : TaskEntry} :
    a.lt b = false ↔ a.priority < b.priority ∨
      a.priority = b.priority ∧ a.sequenceNumber ≤ b.sequenceNumber := by
  rw [← Bool.not_eq_true, lt_iff]
  omega

instance : IsTrans TaskEntry fun a b => a.lt b = false where
  trans a b c hab hbc := by
    rw [lt_eq_false_iff] at hab hbc ⊢
    omega

instance : Std.Total fun a b : TaskEntry => a.lt b = false where
  total a b := by
    rw [lt_eq_false_iff, lt_eq_false_iff]
    omega

end TaskEntry

/-- The queue is in the order in which its entries are popped. -/
def Sorted (queue : List TaskEntry) : Prop := queue.Pairwise fun a b => a.lt b = false

lemma Sorted.step {s s' : State} (h : Sorted s.queue_) {a : Act}
    (hst : EnhancedThreadPool.step s a = some s') : Sorted s'.queue_ := by
  cases a with
  | worker i throws =>
    cases flow_of_workerStep hst with
    | quiet _ _ _ hqueue | count _ _ _ _ hqueue => exact hqueue ▸ h
    | pop _ _ _ hqueue =>
      rw [hqueue] at h
      exact (List.pairwise_cons.mp h).2
  | submit i k =>
    obtain ⟨c, c', ht⟩ := turn_of_submitStep hst
    cases flow_of_submitStep hst ht with
    | quiet _ _ _ hqueue | count _ _ hqueue => exact hqueue ▸ h
    | push _ _ hqueue =>
      rw [hqueue]
      exact List.Pairwise.orderedInsert _ _ h
  | cancelAll =>
    cases move_of_step hst with
    | cancelAll => exact List.Pairwise.nil
    | flags => exact h
    | unpark => exact h
  | _ => cases move_of_step hst <;> exact h

/-- The queue is sorted in every run. -/
theorem sorted_of_reachable {s : State} (h : system.Reachable s) : Sorted s.queue_ := by
  refine h.invariant (I := fun s => Sorted s.queue_) ?_ fun _ _ _ hs _ hst => hs.step hst
  rintro s ⟨workerCount, -, rfl⟩
  exact List.Pairwise.nil

/-- The entry of the queue with the highest number as its priority, and among those the one that
was submitted first. -/
def HighestFirst (queue : List TaskEntry) (entry : TaskEntry) : Prop :=
  entry ∈ queue ∧ ∀ e ∈ queue, e.priority ≤ entry.priority ∧
    (e.priority = entry.priority → entry.sequenceNumber ≤ e.sequenceNumber)

def SamePriority (queue : List TaskEntry) : Prop :=
  ∀ a ∈ queue, ∀ b ∈ queue, a.priority = b.priority

/-- **The top of a queue is the entry that should be taken only if there is no choice of
priorities.**

**Proof sketch.** The top has the least number, so if it also has the greatest one all are equal.
Among equals the top is the one with the least sequence number. -/
lemma highestFirst_top_iff {entry : TaskEntry} {rest : List TaskEntry}
    (h : Sorted (entry :: rest)) :
    HighestFirst (entry :: rest) entry ↔ SamePriority (entry :: rest) := by
  have htop : ∀ e ∈ entry :: rest, entry.priority < e.priority ∨
      entry.priority = e.priority ∧ entry.sequenceNumber ≤ e.sequenceNumber := by
    intro e he
    rcases List.mem_cons.mp he with rfl | hrest
    · exact .inr ⟨rfl, le_rfl⟩
    · exact TaskEntry.lt_eq_false_iff.mp ((List.pairwise_cons.mp h).1 e hrest)
  constructor
  · rintro ⟨-, hmax⟩ a ha b hb
    have hamax := (hmax a ha).1
    have hbmax := (hmax b hb).1
    have hamin := htop a ha
    have hbmin := htop b hb
    omega
  · intro hsame
    refine ⟨List.mem_cons_self, fun e he => ?_⟩
    have heq := hsame e he entry List.mem_cons_self
    have hmin := htop e he
    exact ⟨heq.le, fun _ => by omega⟩

/-- **A worker that takes a task takes the one it should take exactly when all queued entries have
the same priority.** -/
theorem dequeues_highest_iff {s s' : State} (h : system.Reachable s) {i : ℕ} {throws : Bool}
    (hst : system.step s (.worker i throws) = some s') {entry : TaskEntry}
    (hcheck : s.workers[i]? = some .check) (htaken : s'.workers[i]? = some (.taken entry)) :
    HighestFirst s.queue_ entry ↔ SamePriority s.queue_ := by
  have hi := (List.getElem?_eq_some_iff.mp hcheck).1
  have hsorted := sorted_of_reachable h
  cases flow_of_workerStep hst with
  | quiet found workers _ _ _ uncounted =>
    -- nothing is popped, so nothing is taken
    rw [workers, List.getElem?_set_self hi] at htaken
    rw [hcheck] at found
    cases found
    cases htaken
    cases uncounted
  | pop _ workers _ queue =>
    rw [workers, List.getElem?_set_self hi] at htaken
    cases htaken
    rw [queue] at hsorted ⊢
    exact highestFirst_top_iff hsorted
  | count found counts =>
    rw [hcheck] at found
    cases found
    cases counts

/-- A `submitWithPriority` that is not disturbed, the `i`th one. -/
def submitAlone (i : ℕ) (priority : ℤ) : List Act :=
  [.submitWithPriority priority, .submit i 0, .submit i 0, .submit i 0, .submit i 0]

/-- With the priorities `1` and `100` in the queue the only worker takes the task with `1`. -/
theorem dequeues_lowest_first :
    ∃ s s' entry, system.Reachable s ∧ system.step s (.worker 0 false) = some s' ∧
      s.workers[0]? = some .check ∧ s'.workers[0]? = some (.taken entry) ∧
      ¬ HighestFirst s.queue_ entry := by
  refine ⟨_, _, ⟨1, 1, 0⟩, .final (new 1)
    (submitAlone 0 1 ++ submitAlone 1 100 ++ [.worker 0 false, .worker 0 false])
    ⟨1, by decide, rfl⟩ (by decide +kernel), rfl, by decide +kernel, by decide +kernel, ?_⟩
  rintro ⟨-, hmax⟩
  exact absurd (hmax ⟨2, 100, 1⟩ (by decide +kernel)).1 (by decide)

theorem dequeues_highest_iff_equal :
    ∃ s s' entry, system.Reachable s ∧ system.step s (.worker 0 false) = some s' ∧
      s.workers[0]? = some .check ∧ s'.workers[0]? = some (.taken entry) ∧
      s.queue_.length = 3 ∧ HighestFirst s.queue_ entry := by
  have hs : system.Reachable _ :=
    .final (new 1) (submitAlone 0 7 ++ submitAlone 1 7 ++ submitAlone 2 7 ++
      [.worker 0 false, .worker 0 false]) ⟨1, by decide, rfl⟩ (by decide +kernel)
  exact ⟨_, _, ⟨1, 7, 0⟩, hs, rfl, rfl, rfl, rfl,
    (@dequeues_highest_iff _ _ hs 0 false rfl _ rfl rfl).mpr (by unfold SamePriority; decide)⟩

end EnhancedThreadPool

end Pman
