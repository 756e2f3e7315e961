import Mathlib.Algebra.Group.Nat.Defs
import Pman.Futex.WaitStages
import Pman.Lib.History

set_option autoImplicit false

/-!
# No notification is lost

A thread that waits on a `FutexCondVar` loads the sequence word before it releases the mutex, and
the kernel parks it only while the word still has that value. So a notification that starts when the
thread has released the mutex cannot pass unseen: it changes the word before it wakes sleepers.

The waits of a thread are numbered. A history keeps which waits were in progress when a notification
started, which of them had loaded the word by then, and for which of these a `notify_all` has
returned. The word has 32 bits; the runs considered are those in which no comparison is deceived by
a wrap-around, as is the case with fewer than `2 ^ 32` notifications.

`notify_one` wakes one sleeper, which may be a thread that began to wait after the word was
incremented.

## Main results

* `no_lost_notification`: waiters of a `notify_all` are woken.
* `unbounded_of_lt`: fewer than `2 ^ 32` notifications deceive nobody.
-/

namespace Pman.FutexCondVar

open Function

variable {M : Monitor} {ι : Type*}

/-! ### What is written down -/

structure Log (M : Monitor) (ι : Type*) where
  /-- How often the word of a condition variable was incremented. -/
  count : M.Cv → ℕ
  loads : ι → ℕ
  calls : ι → ℕ
  /-- For a thread in `notify_one` or `notify_all`: the number of the wait of another thread that
  was in progress on the same condition variable when it started. -/
  begun : ι → ι → Option ℕ
  past : ι → ι → Option ℕ
  /-- The waits that had loaded the word when a `notify_all` started that has returned. -/
  notified : ι → ℕ → Bool

def Stage.hasLoaded [DecidableEq M.Cv] (cv : M.Cv) : Stage M → Bool
  | .loaded cv' _ _ => cv' = cv
  | _ => false

variable {x x' : State M ι × Log M ι} {a : ι × Choice M ι}

section Log

variable [DecidableEq ι] [DecidableEq M.Cv]

/-- What a step of thread `t` adds, when the threads were in these stages and it went to the stage
`after`. -/
def Log.record (h : Log M ι) (stages : ι → Stage M) (t : ι) (after : Stage M) : Log M ι where
  count :=
    match stages t with
    | .adding cv _ => update h.count cv (h.count cv + 1)
    | _ => h.count
  loads :=
    match stages t with
    | .loading cv => update h.loads t (h.count cv)
    | _ => h.loads
  calls :=
    match after with
    | .loading _ => update h.calls t (h.calls t + 1)
    | _ => h.calls
  begun :=
    match after with
    | .adding cv _ => update h.begun t fun u =>
        if (stages u).cv? = some cv then some (h.calls u) else none
    | _ => h.begun
  past :=
    match after with
    | .adding cv _ => update h.past t fun u =>
        if (stages u).hasLoaded cv then some (h.calls u) else none
    | _ => h.past
  notified :=
    match stages t with
    | .waking _ true => fun u c => h.notified u c || decide (h.past t u = some c)
    | _ => h.notified

def Log.empty : Log M ι :=
  ⟨fun _ => 0, fun _ => 0, fun _ => 0, fun _ _ => none, fun _ _ => none, fun _ _ => false⟩

variable [Fintype ι]

def log : History (State M ι) (ι × Choice M ι) (Log M ι) where
  start _ := .empty
  note s a h := ((step s a).map fun s' => h.record s.stages a.1 (s'.stages a.1)).getD h

def logged (M : Monitor) (ι : Type*) [DecidableEq ι] [Fintype ι] [DecidableEq M.Cv] :
    TransitionSystem (State M ι × Log M ι) (ι × Choice M ι) :=
  (system M ι).withHistory log

lemma logged_step (hst : (logged M ι).step x a = some x') :
    step x.1 a = some x'.1 ∧ x'.2 = x.2.record x.1.stages a.1 (x'.1.stages a.1) := by
  obtain ⟨hstep, hnote⟩ := TransitionSystem.withHistory_step.mp hst
  change step x.1 a = some x'.1 at hstep
  refine ⟨hstep, hnote.trans ?_⟩
  simp [log, hstep]

end Log

/-- The word and the value that the kernel is about to compare for a thread. -/
def Pc.compares : Pc M → Option (M.Cv × BitVec 32)
  | .futexWait cv _ seq _ => some (cv, seq)
  | _ => none

/-- **The counter is as good as unbounded**: where the kernel compares the word with the value that
a thread has loaded and finds them equal, it was not incremented in between. -/
def Unbounded (x : State M ι × Log M ι) (a : ι × Choice M ι) : Prop :=
  ∀ p ∈ (x.1.pc a.1).compares, x.1.seq_ p.1 = p.2 → x.2.loads a.1 = x.2.count p.1
  deriving Decidable

/-! ### What happens to one thread -/

/-- What a step can do to the stage of a thread, to the number of its waits and to its last load,
when the words are `seq_` and were incremented `count` times. -/
inductive Change (seq_ : M.Cv → BitVec 32) (count : M.Cv → ℕ) :
    Stage M → ℕ → ℕ → Stage M → ℕ → ℕ → Prop
  | same (stage : Stage M) (calls loads : ℕ) :
      Change seq_ count stage calls loads stage calls loads
  | begin (cv : M.Cv) (calls loads : ℕ) :
      Change seq_ count .away calls loads (.loading cv) (calls + 1) loads
  | load (cv : M.Cv) (calls loads : ℕ) :
      Change seq_ count (.loading cv) calls loads (.loaded cv (seq_ cv) false) calls (count cv)
  | park (cv : M.Cv) (seq : BitVec 32) (calls loads : ℕ) (hloads : loads = count cv) :
      Change seq_ count (.loaded cv seq false) calls loads (.loaded cv seq true) calls loads
  | unpark (cv : M.Cv) (seq : BitVec 32) (parked : Bool) (calls loads : ℕ) :
      Change seq_ count (.loaded cv seq parked) calls loads (.loaded cv seq false) calls loads
  | leave (stage stage' : Stage M) (hcv : stage'.cv? = none) (calls loads : ℕ) :
      Change seq_ count stage calls loads stage' calls loads

/-- The change of thread `u` between two states of a run. -/
def ChangeOf (x x' : State M ι × Log M ι) (u : ι) : Prop :=
  Change x.1.seq_ x.2.count (x.1.stages u) (x.2.calls u) (x.2.loads u) (x'.1.stages u)
    (x'.2.calls u) (x'.2.loads u)

variable {seq_ : M.Cv → BitVec 32} {count count' : M.Cv → ℕ}
  {c calls loads calls' loads' : ℕ} {stage stage' : Stage M}

/-! ### What is known of a wait -/

/-- As long as the wait number `c` of a thread lasts, its stage and its last load are as `A` says;
and the thread has begun that many waits. -/
def Knows (A : Stage M → ℕ → Prop) (c : ℕ) (stage : Stage M) (calls loads : ℕ) : Prop :=
  c ≤ calls ∧ (calls = c → A stage loads)

def On (cv : M.Cv) (stage : Stage M) (_ : ℕ) : Prop := ∀ cv', stage.cv? = some cv' → cv' = cv

def Loaded (stage : Stage M) (_ : ℕ) : Prop :=
  ∀ cv, stage.cv? = some cv → ∃ seq parked, stage = .loaded cv seq parked

/-- The word was incremented since the wait has loaded it, and whether the thread is parked is as
`B` says. -/
def Late (B : Bool → Prop) (count : M.Cv → ℕ) (stage : Stage M) (loads : ℕ) : Prop :=
  ∀ cv, stage.cv? = some cv →
    (∃ seq parked, stage = .loaded cv seq parked ∧ B parked) ∧ loads < count cv

variable {cv : M.Cv}

section

variable (h : Change seq_ count stage calls loads stage' calls' loads')

include h

/-- **The rule for what is known of a wait**: a new wait has a new number, so that only changes
within a wait matter. -/
lemma Change.knows {A A' : Stage M → ℕ → Prop}
    (hA : Knows A c stage calls loads) (hmono : ∀ stage loads, A stage loads → A' stage loads)
    (haway : ∀ stage loads, stage.cv? = none → A' stage loads)
    (hload : ∀ cv seq loads, A (.loading cv) loads → A' (.loaded cv seq false) (count cv))
    (hpark : ∀ cv seq loads, loads = count cv → A (.loaded cv seq false) loads →
      A' (.loaded cv seq true) loads)
    (hunpark : ∀ cv seq parked loads, A (.loaded cv seq parked) loads →
      A' (.loaded cv seq false) loads) : Knows A' c stage' calls' loads' := by
  obtain ⟨hle, hA⟩ := hA
  cases h with
  | same => exact ⟨hle, fun heq => hmono _ _ (hA heq)⟩
  | begin => exact ⟨Nat.le_succ_of_le hle, fun heq => absurd heq (by omega)⟩
  | load => exact ⟨hle, fun heq => hload _ _ _ (hA heq)⟩
  | park _ _ _ _ hloads => exact ⟨hle, fun heq => hpark _ _ _ hloads (hA heq)⟩
  | unpark => exact ⟨hle, fun heq => hunpark _ _ _ _ (hA heq)⟩
  | leave _ _ hcv => exact ⟨hle, fun heq => haway _ _ hcv⟩

lemma Change.on (hA : Knows (On cv) c stage calls loads) : Knows (On cv) c stage' calls' loads' :=
  h.knows hA (fun _ _ => id) (fun _ _ hcv cv' => by simp [hcv]) (fun _ _ _ h => h)
    (fun _ _ _ _ h => h) fun _ _ _ _ h => h

lemma Change.loaded
    (hA : Knows Loaded c stage calls loads) : Knows Loaded c stage' calls' loads' := by
  refine h.knows hA (fun _ _ => id) (fun _ _ hcv cv' => by simp [hcv]) ?_ ?_ ?_
  · rintro cv seq _ - _ ⟨⟩
    exact ⟨seq, false, rfl⟩
  · rintro cv seq _ - - _ ⟨⟩
    exact ⟨seq, true, rfl⟩
  · rintro cv seq _ _ - _ ⟨⟩
    exact ⟨seq, false, rfl⟩

end

lemma Change.late {B : Bool → Prop} (hB : B false)
    (h : Change seq_ count stage calls loads stage' calls' loads')
    (hcount : ∀ cv, count cv ≤ count' cv) (hA : Knows (Late B count) c stage calls loads) :
    Knows (Late B count') c stage' calls' loads' := by
  refine h.knows hA ?_ (fun _ _ hcv cv' => by simp [hcv]) ?_ ?_ ?_
  · exact fun _ _ hb cv hcv => ⟨(hb cv hcv).1, (hb cv hcv).2.trans_le (hcount cv)⟩
  · intro cv seq _ hb
    obtain ⟨⟨_, _, hfalse, -⟩, -⟩ := hb cv rfl
    cases hfalse
  · intro cv seq _ heq hb
    have hlt := (hb cv rfl).2
    omega
  · rintro cv seq parked _ hb _ ⟨⟩
    exact ⟨⟨seq, false, rfl, hB⟩, (hb cv rfl).2.trans_le (hcount cv)⟩

variable {seq : BitVec 32} {parked : Bool}

lemma Change.loads_le (h : Change seq_ count stage calls loads stage' calls' loads')
    (hwords : ∀ cv, seq_ cv = BitVec.ofNat 32 (count cv))
    (hstage : ∀ cv seq parked, stage = .loaded cv seq parked →
      seq = BitVec.ofNat 32 loads ∧ loads ≤ count cv)
    (hstage' : stage' = .loaded cv seq parked) :
    seq = BitVec.ofNat 32 loads' ∧ loads' ≤ count cv := by
  cases h with
  | same => exact hstage cv seq parked hstage'
  | begin => cases hstage'
  | load =>
    cases hstage'
    exact ⟨hwords cv, le_rfl⟩
  | park | unpark =>
    cases hstage'
    exact hstage _ _ _ rfl
  | leave _ _ hcv =>
    rw [hstage'] at hcv
    cases hcv

section Steps

variable [DecidableEq ι] [DecidableEq M.Cv]

lemma Change.wakeUp (cv : M.Cv) (stage : Stage M) (calls loads : ℕ) :
    Change seq_ count stage calls loads (stage.wakeUp cv) calls loads := by
  cases stage with
  | loaded cv' seq parked =>
    simp only [Stage.wakeUp]
    split
    · exact .unpark cv' seq parked calls loads
    · exact .same _ calls loads
  | _ => exact .same _ calls loads

variable {s s' : State M ι} {t u : ι} {h : Log M ι} {stages : ι → Stage M} {cv : M.Cv}

lemma Effect.other (h : Effect s s' t) (hu : u ≠ t) :
    s'.stages u = s.stages u ∨ ∃ cv, s'.stages u = (s.stages u).wakeUp cv := by
  cases h with
  | wakeAll cv _ _ hstages => exact .inr ⟨cv, by rw [hstages, update_of_ne hu]⟩
  | wakeOne cv v _ _ _ hstages =>
    rw [hstages]
    by_cases huv : u = v
    · subst huv
      exact .inr ⟨cv, update_self ..⟩
    · exact .inl (by rw [update_of_ne huv, update_of_ne hu])
  | move _ _ _ hstages | park _ _ _ _ _ _ _ hstages | add _ _ _ _ hstages
  | wakeNone _ _ _ _ hstages => exact .inl (by rw [hstages, update_of_ne hu])

lemma Log.record_of_ne (h : Log M ι) (stages : ι → Stage M) (after : Stage M) (hu : u ≠ t) :
    (h.record stages t after).calls u = h.calls u ∧
      (h.record stages t after).loads u = h.loads u := by
  simp only [Log.record]
  constructor
  · cases after with
    | loading cv => exact update_of_ne hu _ _
    | _ => rfl
  · cases stages t with
    | loading cv => exact update_of_ne hu _ _
    | _ => rfl

lemma change_self (h : Log M ι) (heff : Effect s s' t)
    (hok : ∀ p ∈ (s.pc t).compares, s.seq_ p.1 = p.2 → h.loads t = h.count p.1) :
    Change s.seq_ h.count (s.stages t) (h.calls t) (h.loads t) (s'.stages t)
      ((h.record s.stages t (s'.stages t)).calls t)
      ((h.record s.stages t (s'.stages t)).loads t) := by
  simp only [Log.record]
  cases heff with
  | move stage hmove _ hstages =>
    rw [hstages, update_self]
    generalize s.stages t = before at hmove
    cases hmove with
    | stay _ hrest => cases stage <;> first | exact .same _ _ _ | cases hrest
    | begin cv => simpa using Change.begin cv (h.calls t) (h.loads t)
    | load cv => simpa using Change.load cv (h.calls t) (h.loads t)
    | unpark cv seq => exact .unpark cv seq true _ _
    | leave cv seq | notify cv all => exact .leave _ _ rfl _ _
  | park cv timeout seq caller hpc heq _ hstages =>
    have hstage : s.stages t = .loaded cv seq false := by rw [State.stages, hpc]; rfl
    rw [hstages, update_self, hstage]
    exact .park cv seq _ _ (hok (cv, seq) (by rw [hpc]; rfl) heq)
  | add cv all hstage _ hstages | wakeAll cv hstage _ hstages | wakeNone cv hstage _ _ hstages =>
    rw [hstages, update_self, hstage]
    exact .leave _ _ rfl _ _
  | wakeOne cv v hstage hparked _ hstages =>
    have hv : t ≠ v := fun heq => by simp [heq ▸ hstage, Stage.parkedOn] at hparked
    rw [hstages, update_of_ne hv, update_self, hstage]
    exact .leave _ _ rfl _ _

def Stage.Notifies (cv : M.Cv) (stage : Stage M) : Prop :=
  ∃ all, stage = .adding cv all ∨ stage = .waking cv all

lemma Log.count_le_record (h : Log M ι) (stages : ι → Stage M) (t : ι) (after : Stage M)
    (cv : M.Cv) : h.count cv ≤ (h.record stages t after).count cv := by
  simp only [Log.record]
  cases stages t with
  | adding cv' all =>
    by_cases hcv : cv = cv'
    · subst hcv
      simp
    · simp [update_of_ne hcv]
  | _ => exact le_rfl

lemma Effect.words (heff : Effect s s' t)
    (hwords : ∀ cv, s.seq_ cv = BitVec.ofNat 32 (h.count cv)) (cv : M.Cv) :
    s'.seq_ cv = BitVec.ofNat 32 ((h.record s.stages t (s'.stages t)).count cv) := by
  simp only [Log.record]
  cases heff with
  | move stage hmove hseq _ =>
    rw [hseq, hwords cv]
    generalize s.stages t = before at hmove
    cases hmove with
    | stay _ hrest => cases stage <;> first | rfl | cases hrest
    | _ => rfl
  | park cv' timeout seq caller hpc _ hseq _ =>
    have hstage : s.stages t = .loaded cv' seq false := by rw [State.stages, hpc]; rfl
    rw [hseq, hwords cv, hstage]
  | add cv' all hstage hseq _ =>
    rw [hseq, hstage]
    by_cases hcv : cv = cv'
    · subst hcv
      simp only [update_self, hwords cv, BitVec.ofNat_add]
      rfl
    · simp only [update_of_ne hcv, hwords cv]
  | wakeAll cv' hstage hseq _ | wakeNone cv' hstage _ hseq _ =>
    rw [hseq, hwords cv, hstage]
  | wakeOne cv' v hstage _ hseq _ => rw [hseq, hwords cv, hstage]

variable {n : ι} {after : Stage M} {all : Bool}

lemma Log.record_records (hn : n = t → ∀ cv all, after ≠ .adding cv all) :
    (h.record stages t after).begun n = h.begun n ∧
      (h.record stages t after).past n = h.past n := by
  cases after with
  | adding cv all =>
    have hnt : n ≠ t := fun heq => hn heq cv all rfl
    exact ⟨update_of_ne hnt _ _, update_of_ne hnt _ _⟩
  | _ => exact ⟨rfl, rfl⟩

lemma Effect.notifies_self (heff : Effect s s' t) (hn : (s'.stages t).Notifies cv) :
    ∃ all, (s.stages t = .adding cv all ∧
        s'.stages = update s.stages t (.waking cv all)) ∨
      s.stages t = .away ∧ s'.stages = update s.stages t (.adding cv all) := by
  obtain ⟨all, hn⟩ := hn
  cases heff with
  | move stage hmove _ hstages =>
    rw [hstages, update_self] at hn
    generalize s.stages t = before at hmove
    cases hmove with
    | notify cv' all' =>
      rcases hn with hn | hn <;> cases hn
      exact ⟨all, .inr ⟨rfl, hstages⟩⟩
    | stay _ hrest => rcases hn with rfl | rfl <;> cases hrest
    | _ => rcases hn with hn | hn <;> cases hn
  | park _ _ _ _ _ _ _ hstages | wakeAll _ _ _ hstages | wakeNone _ _ _ _ hstages =>
    rw [hstages, update_self] at hn
    rcases hn with hn | hn <;> cases hn
  | add cv' all' hstage _ hstages =>
    rw [hstages, update_self] at hn
    rcases hn with hn | hn <;> cases hn
    exact ⟨all, .inl ⟨hstage, hstages⟩⟩
  | wakeOne cv' v hstage hparked _ hstages =>
    have hv : t ≠ v := fun heq => by simp [heq ▸ hstage, Stage.parkedOn] at hparked
    rw [hstages, update_of_ne hv, update_self] at hn
    rcases hn with hn | hn <;> cases hn

lemma Effect.notifies_other (heff : Effect s s' t) (hnt : n ≠ t) (hn : (s'.stages n).Notifies cv) :
    s.stages n = s'.stages n := by
  rcases heff.other hnt with hsame | ⟨cv', hwake⟩
  · exact hsame.symm
  · obtain ⟨all, hn⟩ := hn
    rw [hwake] at hn ⊢
    generalize s.stages n = stage at hn ⊢
    cases stage with
    | loaded => rcases hn with hn | hn <;> cases hn
    | _ => rfl

lemma Effect.records (heff : Effect s s' t) (h : Log M ι) (hn : (s'.stages n).Notifies cv) :
    ((s.stages n).Notifies cv ∧ (h.record s.stages t (s'.stages t)).begun n = h.begun n ∧
      (h.record s.stages t (s'.stages t)).past n = h.past n) ∨
    n = t ∧ s.stages t = .away ∧
      ∃ all, s'.stages = update s.stages t (.adding cv all) := by
  by_cases hnt : n = t
  · subst hnt
    obtain ⟨all, ⟨hstage, hstages⟩ | ⟨hstage, hstages⟩⟩ := heff.notifies_self hn
    · refine .inl ⟨⟨all, .inl hstage⟩, Log.record_records fun _ cv' all' => ?_⟩
      rw [hstages, update_self]
      simp
    · exact .inr ⟨rfl, hstage, all, hstages⟩
  · refine .inl ⟨?_, Log.record_records fun heq => absurd heq hnt⟩
    rwa [heff.notifies_other hnt hn]

omit [DecidableEq M.Cv] [DecidableEq ι] in
lemma On.of_cv? (h : stage.cv? = some cv) (loads : ℕ) : On cv stage loads := by
  intro cv' hcv'
  rw [h] at hcv'
  exact (Option.some.inj hcv').symm

lemma hasLoaded_iff : stage.hasLoaded cv = true ↔ ∃ seq parked, stage = .loaded cv seq parked := by
  cases stage <;> simp [Stage.hasLoaded, eq_comm]

lemma Log.record_adding :
    ((h.record stages t (.adding cv all)).begun t u = some c →
      (stages u).cv? = some cv ∧ h.calls u = c) ∧
    ((h.record stages t (.adding cv all)).past t u = some c →
      (∃ seq parked, stages u = .loaded cv seq parked) ∧ h.calls u = c ∧
        (h.record stages t (.adding cv all)).begun t u = some c) := by
  simp only [Log.record, update_self]
  refine ⟨fun hu => ?_, fun hu => ?_⟩
  · split_ifs at hu with hcv
    exact ⟨hcv, Option.some.inj hu⟩
  · split_ifs at hu with hloaded
    obtain ⟨seq, parked, hstage⟩ := hasLoaded_iff.mp hloaded
    rw [if_pos (by rw [hstage]; rfl)]
    exact ⟨⟨seq, parked, hstage⟩, Option.some.inj hu, hu⟩

lemma Log.notified_record (hu : (h.record stages t after).notified u c = true) :
    h.notified u c = true ∨ ∃ cv, stages t = .waking cv true ∧ h.past t u = some c := by
  simp only [Log.record] at hu
  generalize stages t = stage at hu ⊢
  cases stage with
  | waking cv all =>
    cases all with
    | false => exact .inl hu
    | true =>
      rw [Bool.or_eq_true, decide_eq_true_eq] at hu
      exact hu.imp_right fun hpast => ⟨cv, rfl, hpast⟩
  | _ => exact .inl hu

lemma Effect.of_waking (heff : Effect s s' t) (hstage : s.stages t = .waking cv all) :
    match all with
    | true => s'.stages = update (fun u => (s.stages u).wakeUp cv) t .away
    | false => ((∀ u, (s.stages u).parkedOn cv = false) ∧
          s'.stages = update s.stages t .away) ∨
        ∃ v, (s.stages v).parkedOn cv = true ∧ s'.stages v = (s.stages v).wakeUp cv := by
  cases heff with
  | wakeAll cv' hstage' _ hstages =>
    cases hstage.symm.trans hstage'
    exact hstages
  | wakeNone cv' hstage' hnone _ hstages =>
    cases hstage.symm.trans hstage'
    exact .inl ⟨hnone, hstages⟩
  | wakeOne cv' v hstage' hparked _ hstages =>
    cases hstage.symm.trans hstage'
    exact .inr ⟨v, hparked, by rw [hstages, update_self]⟩
  | move stage hmove =>
    rw [hstage] at hmove
    cases hmove with
    | stay _ hrest => cases hrest
  | park cv' timeout seq' caller hpc =>
    rw [State.stages, hpc] at hstage
    cases hstage
  | add _ _ hstage' => cases hstage.symm.trans hstage'

lemma Effect.parked_eq_false (heff : Effect s s' t) (hstage : s.stages t = .waking cv true)
    (hu : s'.stages u = .loaded cv seq parked) : parked = false := by
  rw [heff.of_waking hstage, update_apply] at hu
  split_ifs at hu
  generalize s.stages u = stage at hu
  cases stage with
  | loaded cv' seq' parked' =>
    simp only [Stage.wakeUp, Stage.loaded.injEq] at hu
    rw [← hu.2.2, if_pos hu.1]
  | _ => cases hu

omit [DecidableEq ι] in
lemma Stage.parkedOn_iff : stage.parkedOn cv = true ↔ ∃ seq, stage = .loaded cv seq true := by
  cases stage with
  | loaded cv' seq parked => simp [Stage.parkedOn, and_comm]
  | _ => simp [Stage.parkedOn]

omit [DecidableEq ι] in
lemma State.parkedOn_iff :
    (s.pc u).parkedOn cv = true ↔ ∃ seq, s.stages u = .loaded cv seq true := by
  rw [← Pc.parkedOn_stage, Stage.parkedOn_iff]
  rfl

lemma Effect.of_waking_one (heff : Effect s s' t) (hstage : s.stages t = .waking cv false) :
    (∀ u, (s'.stages u).parkedOn cv = false) ∨
      ∃ v seq, s.stages v = .loaded cv seq true ∧ s'.stages v = .loaded cv seq false := by
  rcases heff.of_waking hstage with ⟨hnone, hstages⟩ | ⟨v, hparked, hstages⟩
  · refine .inl fun u => ?_
    rw [hstages, update_apply]
    split_ifs
    · rfl
    · exact hnone u
  · obtain ⟨seq, hv⟩ := Stage.parkedOn_iff.mp hparked
    refine .inr ⟨v, seq, hv, ?_⟩
    rw [hstages, hv]
    simp [Stage.wakeUp]

variable [Fintype ι]

lemma changeOf_of_step (hok : Unbounded x a)
    (hst : (logged M ι).step x a = some x') (u : ι) : ChangeOf x x' u := by
  obtain ⟨hstep, hlog⟩ := logged_step hst
  obtain ⟨t, c⟩ := a
  have heff := effect_of_step hstep
  unfold ChangeOf
  rw [hlog]
  by_cases hu : u = t
  · subst hu
    exact change_self x.2 heff hok
  · obtain ⟨hcalls, hloads⟩ := x.2.record_of_ne x.1.stages (x'.1.stages t) hu
    rw [hcalls, hloads]
    rcases heff.other hu with hsame | ⟨cv, hwake⟩
    · rw [hsame]
      exact .same _ _ _
    · rw [hwake]
      exact .wakeUp cv _ _ _

/-- **The invariant**: the log agrees with the words and the loads, and the waits that a
notification found are known to be on its condition variable, to have loaded the word, to be behind
after its increment, and to have passed after `notify_all`. -/
structure Sound (x : State M ι × Log M ι) : Prop where
  words : ∀ cv, x.1.seq_ cv = BitVec.ofNat 32 (x.2.count cv)
  loads : ∀ u cv seq parked, x.1.stages u = .loaded cv seq parked →
    seq = BitVec.ofNat 32 (x.2.loads u) ∧ x.2.loads u ≤ x.2.count cv
  begun : ∀ n cv, (x.1.stages n).Notifies cv → ∀ u c, x.2.begun n u = some c →
    Knows (On cv) c (x.1.stages u) (x.2.calls u) (x.2.loads u)
  past : ∀ n cv, (x.1.stages n).Notifies cv → ∀ u c, x.2.past n u = some c →
    x.2.begun n u = some c ∧ Knows Loaded c (x.1.stages u) (x.2.calls u) (x.2.loads u)
  behind : ∀ n cv all, x.1.stages n = .waking cv all → ∀ u c, x.2.past n u = some c →
    Knows (Late (fun _ => True) x.2.count) c (x.1.stages u) (x.2.calls u) (x.2.loads u)
  notified : ∀ u c, x.2.notified u c = true →
    Knows (Late (· = false) x.2.count) c (x.1.stages u) (x.2.calls u) (x.2.loads u)

section Preservation

variable (hx : Sound x) (hok : Unbounded x a) (hst : (logged M ι).step x a = some x')

include hx hok hst

lemma Sound.begun_step (hn : (x'.1.stages n).Notifies cv) (hbegun : x'.2.begun n u = some c) :
    Knows (On cv) c (x'.1.stages u) (x'.2.calls u) (x'.2.loads u) := by
  refine (changeOf_of_step hok hst u).on ?_
  obtain ⟨hstep, hlog⟩ := logged_step hst
  rw [hlog] at hbegun
  rcases (effect_of_step hstep).records x.2 hn with ⟨hn', hkept, -⟩ | ⟨rfl, -, all, hstages⟩
  · rw [hkept] at hbegun
    exact hx.begun n cv hn' u c hbegun
  · rw [hstages, update_self] at hbegun
    obtain ⟨hcv, hcalls⟩ := Log.record_adding.1 hbegun
    exact ⟨hcalls.ge, fun _ => .of_cv? hcv _⟩

lemma Sound.past_step (hn : (x'.1.stages n).Notifies cv) (hpast : x'.2.past n u = some c) :
    x'.2.begun n u = some c ∧
      Knows Loaded c (x'.1.stages u) (x'.2.calls u) (x'.2.loads u) := by
  have hchange := changeOf_of_step hok hst u
  suffices x'.2.begun n u = some c ∧
      Knows Loaded c (x.1.stages u) (x.2.calls u) (x.2.loads u) from
    ⟨this.1, hchange.loaded this.2⟩
  obtain ⟨hstep, hlog⟩ := logged_step hst
  rw [hlog] at hpast ⊢
  rcases (effect_of_step hstep).records x.2 hn with ⟨hn', hkept, hkept'⟩ | ⟨rfl, -, all, hstages⟩
  · rw [hkept'] at hpast
    rw [hkept]
    exact hx.past n cv hn' u c hpast
  · rw [hstages, update_self] at hpast ⊢
    obtain ⟨⟨seq, parked, hstage⟩, hcalls, hbegun⟩ := Log.record_adding.2 hpast
    refine ⟨hbegun, hcalls.ge, fun _ cv' hcv' => ?_⟩
    rw [hstage] at hcv' ⊢
    cases hcv'
    exact ⟨seq, parked, rfl⟩

lemma Sound.behind_step (hn : x'.1.stages n = .waking cv all)
    (hpast : x'.2.past n u = some c) :
    Knows (Late (fun _ => True) x'.2.count) c (x'.1.stages u) (x'.2.calls u) (x'.2.loads u) := by
  have hchange := changeOf_of_step hok hst u
  have hnotifies : (x'.1.stages n).Notifies cv := ⟨all, .inr hn⟩
  obtain ⟨hbegun, hloaded⟩ := hx.past_step hok hst hnotifies hpast
  have hon := hx.begun_step hok hst hnotifies hbegun
  obtain ⟨hstep, hlog⟩ := logged_step hst
  have heff := effect_of_step hstep
  by_cases hna : n = a.1
  · subst hna
    obtain ⟨all', ⟨hadd, -⟩ | ⟨-, hstages⟩⟩ := heff.notifies_self hnotifies
    · have hcount : x'.2.count cv = x.2.count cv + 1 := by
        rw [hlog]
        simp [Log.record, hadd]
      refine ⟨hon.1, fun heq cv' hcv' => ?_⟩
      obtain rfl := hon.2 heq cv' hcv'
      obtain ⟨seq, parked, hstage⟩ := hloaded.2 heq cv' hcv'
      have hle := (hchange.loads_le hx.words (hx.loads u) hstage).2
      exact ⟨⟨seq, parked, hstage, trivial⟩, by omega⟩
    · simp [hstages, update_self] at hn
  · rw [← heff.notifies_other hna hnotifies] at hn
    rw [hlog, (Log.record_records fun heq => absurd heq hna).2] at hpast
    refine hchange.late trivial (fun cv' => ?_) (hx.behind n cv all hn u c hpast)
    rw [hlog]
    exact x.2.count_le_record _ _ _ _

lemma Sound.notified_step (hu : x'.2.notified u c = true) :
    Knows (Late (· = false) x'.2.count) c (x'.1.stages u) (x'.2.calls u) (x'.2.loads u) := by
  have hchange := changeOf_of_step hok hst u
  obtain ⟨hstep, hlog⟩ := logged_step hst
  have hcount : ∀ cv, x.2.count cv ≤ x'.2.count cv := by
    rw [hlog]
    exact x.2.count_le_record _ _ _
  rw [hlog] at hu
  rcases Log.notified_record hu with hold | ⟨cv, hstage, hpast⟩
  · exact hchange.late rfl hcount (hx.notified u c hold)
  · have hnotifies : (x.1.stages a.1).Notifies cv := ⟨true, .inr hstage⟩
    have hon := hchange.on (hx.begun _ cv hnotifies u c (hx.past _ cv hnotifies u c hpast).1)
    have hbehind := hchange.late trivial hcount (hx.behind _ cv true hstage u c hpast)
    refine ⟨hon.1, fun heq cv' hcv' => ?_⟩
    obtain rfl := hon.2 heq cv' hcv'
    obtain ⟨⟨seq, parked, hstage', -⟩, hlt⟩ := hbehind.2 heq cv' hcv'
    obtain rfl := (effect_of_step hstep).parked_eq_false hstage hstage'
    exact ⟨⟨seq, false, hstage', rfl⟩, hlt⟩

lemma Sound.step : Sound x' where
  words := by
    obtain ⟨hstep, hlog⟩ := logged_step hst
    rw [hlog]
    exact (effect_of_step hstep).words hx.words
  loads u cv seq parked hstage := by
    obtain ⟨hseq, hle⟩ := (changeOf_of_step hok hst u).loads_le hx.words (hx.loads u) hstage
    refine ⟨hseq, hle.trans ?_⟩
    rw [(logged_step hst).2]
    exact x.2.count_le_record _ _ _ _
  begun _ _ hn _ _ hbegun := hx.begun_step hok hst hn hbegun
  past _ _ hn _ _ hpast := hx.past_step hok hst hn hpast
  behind _ _ _ hn _ _ hpast := hx.behind_step hok hst hn hpast
  notified _ _ hu := hx.notified_step hok hst hu

end Preservation

/-- The history is sound in every run. -/
theorem sound_of_reachable (h : (logged M ι).ReachableWithin Unbounded x) : Sound x := by
  refine h.invariant ?_ fun x a x' hx hok hst => hx.step hok hst
  rintro ⟨s, h⟩ ⟨⟨data, -, hs⟩, hstart⟩
  dsimp only at hs hstart
  subst hs hstart
  refine ⟨fun _ => rfl, ?_, ?_, ?_, ?_, ?_⟩
  · rintro u cv seq parked ⟨⟩
  · rintro n cv - u c ⟨⟩
  · rintro n cv - u c ⟨⟩
  · rintro n cv all ⟨⟩
  · rintro u c ⟨⟩

omit [DecidableEq ι] [DecidableEq M.Cv] [Fintype ι] in
lemma Sound.unbounded (h : Sound x) (hlt : ∀ cv, x.2.count cv < 2 ^ 32) (a : ι × Choice M ι) :
    Unbounded x a := by
  rintro ⟨cv, seq⟩ hp heq
  have hstage : x.1.stages a.1 = .loaded cv seq false := by
    unfold State.stages
    generalize x.1.pc a.1 = p at hp
    cases p <;> simp_all [Pc.compares, Pc.stage]
  obtain ⟨hseq, hle⟩ := h.loads a.1 cv seq false hstage
  rw [h.words cv, hseq] at heq
  have hmod := congrArg BitVec.toNat heq
  rw [BitVec.toNat_ofNat, BitVec.toNat_ofNat, Nat.mod_eq_of_lt (hlt cv),
    Nat.mod_eq_of_lt (hle.trans_lt (hlt cv))] at hmod
  exact hmod.symm

/-- **With fewer than `2 ^ 32` notifications no comparison is deceived.** -/
theorem unbounded_of_lt (h : (logged M ι).Reachable x) (hlt : ∀ cv, x.2.count cv < 2 ^ 32) :
    (logged M ι).ReachableWithin Unbounded x := by
  induction h with
  | init hi => exact .init hi
  | @step x x' a _ _ hst ih =>
    have hlt' : ∀ cv, x.2.count cv < 2 ^ 32 := by
      intro cv
      refine lt_of_le_of_lt ?_ (hlt cv)
      rw [(logged_step hst).2]
      exact x.2.count_le_record _ _ _ _
    have hx := ih hlt'
    exact hx.step ((sound_of_reachable hx).unbounded hlt' a) hst

/-! ### Notifications -/

def ParkedIn (x : State M ι × Log M ι) (u : ι) (c : ℕ) : Prop :=
  (∃ cv, (x.1.pc u).parkedOn cv = true) ∧ x.2.calls u = c

/-- **No notification is lost.** A wait that had loaded the word, and so in particular a wait that
had released the mutex, when a `notify_all` started is not parked once this `notify_all` has
returned. And when `notify_one` returns that has found waits, one of them is not parked, or the
thread it has woken began to wait only after `notify_one` had started.

**Proof sketch.** A wait that a `notify_all` has passed is not parked, by the invariant. If
`FUTEX_WAKE` of `notify_one` releases nobody then nobody is parked on the word, and the waits that
were found are on this word. If it releases a thread, then that thread is not parked. -/
theorem no_lost_notification {x : State M ι × Log M ι}
    (h : (logged M ι).ReachableWithin Unbounded x) :
    (∀ u c, x.2.notified u c = true → ¬ ParkedIn x u c) ∧
    ∀ n cv caller choice x', x.1.pc n = .notifyWake cv false caller →
      (logged M ι).step x (n, choice) = some x' → (∃ u c, x.2.begun n u = some c) →
      (∃ u c, x.2.begun n u = some c ∧ ¬ ParkedIn x' u c) ∨
        ∃ v, (x.1.pc v).parkedOn cv = true ∧ (x'.1.pc v).parkedOn cv = false ∧
          x.2.begun n v ≠ some (x.2.calls v) := by
  have hx := sound_of_reachable h
  refine ⟨?_, ?_⟩
  · rintro u c hu ⟨⟨cv, hparked⟩, hcalls⟩
    obtain ⟨seq, hstage⟩ := State.parkedOn_iff.mp hparked
    obtain ⟨⟨_, _, hstage', rfl⟩, -⟩ := (hx.notified u c hu).2 hcalls cv (by rw [hstage]; rfl)
    rw [hstage] at hstage'
    cases hstage'
  · rintro n cv caller choice x' hpc hst ⟨u, c, hbegun⟩
    have hstage : x.1.stages n = .waking cv false := congrArg Pc.stage hpc
    have hok : Unbounded x (n, choice) := by
      intro p hp
      rw [hpc] at hp
      cases hp
    rcases (effect_of_step (logged_step hst).1).of_waking_one hstage with
      hnone | ⟨v, seq, hv, hwoken⟩
    · refine .inl ⟨u, c, hbegun, ?_⟩
      rintro ⟨⟨cv', hparked⟩, hcalls⟩
      obtain ⟨seq, hu⟩ := State.parkedOn_iff.mp hparked
      have hon := (changeOf_of_step hok hst u).on (hx.begun n cv ⟨false, .inr hstage⟩ u c hbegun)
      obtain rfl := hon.2 hcalls cv' (by rw [hu]; rfl)
      have hfalse := hnone u
      rw [Stage.parkedOn_iff.mpr ⟨seq, hu⟩] at hfalse
      cases hfalse
    · have hawake : ∀ cv', (x'.1.pc v).parkedOn cv' = false := by
        intro cv'
        rw [← Bool.not_eq_true, State.parkedOn_iff, hwoken]
        rintro ⟨_, ⟨⟩⟩
      by_cases hfound : x.2.begun n v = some (x.2.calls v)
      · refine .inl ⟨v, _, hfound, ?_⟩
        rintro ⟨⟨cv', hparked⟩, -⟩
        rw [hawake cv'] at hparked
        cases hparked
      · exact .inr ⟨v, State.parkedOn_iff.mpr ⟨seq, hv⟩, hawake cv, hfound⟩

end Steps

def bare : Monitor where
  Cv := Unit
  Data := Unit
  Input := Empty
  Outer := Empty
  Inner := Empty
  Result := Empty
  fresh _ := True
  outer p := p.elim
  inner p := p.elim

instance : DecidableEq bare.Cv := inferInstanceAs (DecidableEq Unit)

def bareStart (ι : Type*) [DecidableEq ι] : State bare ι × Log bare ι :=
  (⟨⟨.unlocked, fun _ => .idle, fun _ => false⟩, fun _ => 0, (), fun _ => .outside⟩, .empty)

def waits {ι : Type*} (t : ι) : List (ι × Choice bare ι) :=
  [.mutex .lock, .mutex .go, .wait () none, .go, .mutex .go, .go].map (t, ·)

theorem no_lost_notification_pair :
    ∃ x, (logged bare (Fin 2)).ReachableWithin Unbounded x ∧ x.2.notified 0 1 = true ∧
      ¬ ParkedIn x 0 1 := by
  have hx : (logged bare (Fin 2)).ReachableWithin Unbounded _ :=
    .final (bareStart (Fin 2)) (waits 0 ++ [(1, .notify () true), (1, .go), (1, .go)])
      ⟨⟨(), trivial, rfl⟩, rfl⟩ (by decide +kernel)
  exact ⟨_, hx, by decide +kernel, (no_lost_notification hx).1 0 1 (by decide +kernel)⟩

theorem unbounded_of_lt_pair : ∃ x, (logged bare (Fin 2)).Reachable x ∧ x.2.count () = 1 ∧
    (logged bare (Fin 2)).ReachableWithin Unbounded x := by
  have hx : (logged bare (Fin 2)).Reachable _ :=
    .final (bareStart (Fin 2)) (waits 0 ++ [(1, .notify () true), (1, .go), (1, .go)])
      ⟨⟨(), trivial, rfl⟩, rfl⟩ (by decide +kernel)
  exact ⟨_, hx, by decide +kernel, unbounded_of_lt hx fun () => by decide +kernel⟩

/-- **The wake-up of `notify_one` can go to a thread that came later.** Thread 0 is parked. Thread 1
calls `notify_one` and increments the word. Thread 2 waits, loads the new value and parks.
`FUTEX_WAKE 1` releases thread 2, and `notify_one` returns. It was the only notification, and
the only wait that was in progress when it started is still parked. -/
theorem notify_one_wakes_latecomer :
    ∃ x x', (logged bare (Fin 3)).ReachableWithin Unbounded x ∧
      (logged bare (Fin 3)).step x (1, .wake (some 2)) = some x' ∧ x'.2.count () = 1 ∧
      (∀ u, x.2.begun 1 u = if u = 0 then some 1 else none) ∧ ParkedIn x' 0 1 := by
  exact ⟨_, _, .final (bareStart (Fin 3)) (waits 0 ++ [(1, .notify () false), (1, .go)] ++ waits 2)
    ⟨⟨(), trivial, rfl⟩, rfl⟩ (by decide +kernel), rfl, by decide +kernel, by decide +kernel,
    ⟨(), by decide +kernel⟩, by decide +kernel⟩

end Pman.FutexCondVar
