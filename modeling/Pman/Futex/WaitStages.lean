import Pman.Futex.CondVar

set_option autoImplicit false

/-!
# The stages of a condition wait and of a notification

Seen from the sequence word of a condition variable, a thread that waits is about to load the word,
or has loaded it and is parked or not, and a thread that notifies is about to increment the word or
about to wake sleepers. Everything else that threads do, in particular the releases and the
acquisitions of the mutex, leaves the word and these stages alone.
-/

namespace Pman.FutexCondVar

open Function

variable {M : Monitor} {ι : Type*}

inductive Stage (M : Monitor)
  | away
  | loading (cv : M.Cv)
  | loaded (cv : M.Cv) (seq : BitVec 32) (parked : Bool)
  /-- In `notify_one` or `notify_all`, before the increment of `seq_`. -/
  | adding (cv : M.Cv) (all : Bool)
  /-- In `notify_one` or `notify_all`, before `FUTEX_WAKE`. -/
  | waking (cv : M.Cv) (all : Bool)

def Pc.stage : Pc M → Stage M
  | .waitLoad cv _ _ => .loading cv
  | .unlocking cv _ seq _ | .futexWait cv _ seq _ | .answered cv _ seq _ _ | .relocking cv seq _
  | .reload cv seq _ => .loaded cv seq false
  | .parked cv _ seq _ => .loaded cv seq true
  | .notifyAdd cv all _ => .adding cv all
  | .notifyWake cv all _ => .waking cv all
  | _ => .away

def Stage.cv? : Stage M → Option M.Cv
  | .loading cv | .loaded cv _ _ => some cv
  | _ => none

/-- The stage after the sleep on the word of `cv` has ended. -/
def Stage.wakeUp [DecidableEq M.Cv] (cv : M.Cv) : Stage M → Stage M
  | .loaded cv' seq parked => .loaded cv' seq (if cv' = cv then false else parked)
  | stage => stage

def Stage.parkedOn [DecidableEq M.Cv] (cv : M.Cv) : Stage M → Bool
  | .loaded cv' _ parked => parked && decide (cv' = cv)
  | _ => false

@[simp] lemma Pc.stage_wakeUp [DecidableEq M.Cv] (cv : M.Cv) (p : Pc M) :
    (p.wakeUp cv).stage = p.stage.wakeUp cv := by
  cases p with
  | parked cv' timeout seq caller =>
    simp only [Pc.wakeUp, Pc.stage, Stage.wakeUp]
    split_ifs <;> rfl
  | _ => simp [Pc.wakeUp, Pc.stage, Stage.wakeUp]

lemma Pc.parkedOn_stage [DecidableEq M.Cv] (cv : M.Cv) (p : Pc M) :
    p.stage.parkedOn cv = p.parkedOn cv := by
  cases p <;> simp [Pc.stage, Stage.parkedOn, Pc.parkedOn]

lemma Pc.stage_back (caller : Option M.Inner) : (Pc.back caller : Pc M).stage = .away := by
  cases caller <;> rfl

/-- The stages in which a thread may take steps that do not concern the words. -/
def Stage.resting : Stage M → Bool
  | .away | .loaded _ _ false => true
  | _ => false

variable {p q : Pc M}

lemma Pc.stage_afterMutex (h : p.afterMutex = some q) :
    p.stage.resting = true ∧ q.stage = p.stage := by
  cases p <;> simp only [Pc.afterMutex, Option.some.injEq, reduceCtorEq] at h <;> subst h <;>
    exact ⟨rfl, rfl⟩

/-- A move of one thread between stages, when the words are `seq_`. -/
inductive Stage.Move (seq_ : M.Cv → BitVec 32) : Stage M → Stage M → Prop
  | stay (stage : Stage M) (hrest : stage.resting = true) : Move seq_ stage stage
  | begin (cv : M.Cv) : Move seq_ .away (.loading cv)
  | load (cv : M.Cv) : Move seq_ (.loading cv) (.loaded cv (seq_ cv) false)
  | unpark (cv : M.Cv) (seq : BitVec 32) : Move seq_ (.loaded cv seq true) (.loaded cv seq false)
  | leave (cv : M.Cv) (seq : BitVec 32) : Move seq_ (.loaded cv seq false) .away
  | notify (cv : M.Cv) (all : Bool) : Move seq_ .away (.adding cv all)

section Steps

variable [DecidableEq ι] [DecidableEq M.Cv]

def State.stages (s : State M ι) (u : ι) : Stage M := (s.pc u).stage

/-- **What a step of thread `t` can do** to the stages and to the words. -/
inductive Effect (s s' : State M ι) (t : ι) : Prop
  | move (stage : Stage M) (hmove : Stage.Move s.seq_ (s.stages t) stage)
      (hseq : s'.seq_ = s.seq_) (hstages : s'.stages = update s.stages t stage)
  | park (cv : M.Cv) (timeout : Option Timespec) (seq : BitVec 32) (caller : Option M.Inner)
      (hpc : s.pc t = .futexWait cv timeout seq caller) (heq : s.seq_ cv = seq)
      (hseq : s'.seq_ = s.seq_)
      (hstages : s'.stages = update s.stages t (.loaded cv seq true))
  | add (cv : M.Cv) (all : Bool) (hstage : s.stages t = .adding cv all)
      (hseq : s'.seq_ = update s.seq_ cv (s.seq_ cv + 1))
      (hstages : s'.stages = update s.stages t (.waking cv all))
  | wakeAll (cv : M.Cv) (hstage : s.stages t = .waking cv true) (hseq : s'.seq_ = s.seq_)
      (hstages : s'.stages = update (fun u => (s.stages u).wakeUp cv) t .away)
  | wakeNone (cv : M.Cv) (hstage : s.stages t = .waking cv false)
      (hnone : ∀ u, (s.stages u).parkedOn cv = false) (hseq : s'.seq_ = s.seq_)
      (hstages : s'.stages = update s.stages t .away)
  | wakeOne (cv : M.Cv) (v : ι) (hstage : s.stages t = .waking cv false)
      (hparked : (s.stages v).parkedOn cv = true) (hseq : s'.seq_ = s.seq_)
      (hstages : s'.stages =
        update (update s.stages t .away) v ((s.stages v).wakeUp cv))

omit [DecidableEq M.Cv] in
lemma State.stages_goto (s : State M ι) (t : ι) (p : Pc M) :
    (s.goto t p).stages = update s.stages t p.stage := by
  funext u
  simp only [State.stages, State.goto, update_apply]
  split <;> rfl

variable {s s' : State M ι} {t : ι}

lemma Effect.goto (hpc : s.pc t = q) (hpc' : s'.pc = update s.pc t p)
    (hseq : s'.seq_ = s.seq_) (hmove : Stage.Move s.seq_ q.stage p.stage) : Effect s s' t := by
  subst hpc
  refine .move p.stage hmove hseq ?_
  rw [← State.stages_goto]
  exact funext fun u => by rw [State.stages, hpc']; rfl

variable [Fintype ι]

lemma Effect.call {s₁ : State M ι} {c : MutexChoice ι} (hpc : s.pc t = q)
    (hst : s₁.call t c p = some s') (hpc₁ : s₁.pc = s.pc) (hseq : s₁.seq_ = s.seq_)
    (hmove : Stage.Move s.seq_ q.stage p.stage) : Effect s s' t := by
  obtain ⟨m, -, rfl⟩ := Option.map_eq_some_iff.mp hst
  exact .goto hpc (by simp [State.goto, hpc₁]) hseq hmove

lemma effect_of_step {a : ι × Choice M ι} (hst : FutexCondVar.step s a = some s') :
    Effect s s' a.1 := by
  revert hst
  fun_cases FutexCondVar.step s a <;> intro hst <;> try cases hst
  case case1 hpc _ | case18 hpc => exact .call hpc hst rfl rfl (.stay _ rfl)
  case case3 hpc _ => exact .goto hpc rfl rfl (.begin _)
  case case5 hpc => exact .goto hpc rfl rfl (.notify _ _)
  case case7 hpc _ | case17 hpc => exact .goto hpc rfl rfl (.stay _ rfl)
  case case8 hpc =>
    simp only [State.runOuter] at hst
    split at hst <;> try cases hst
    · exact .goto hpc rfl rfl (.stay _ rfl)
    · exact .call hpc hst rfl rfl (.stay _ rfl)
    · exact .goto hpc rfl rfl (.stay _ rfl)
  case case9 hpc =>
    simp only [State.runInner] at hst
    split at hst <;> try cases hst
    · exact .goto hpc rfl rfl (.stay _ rfl)
    · exact .goto hpc rfl rfl (.begin _)
    · exact .goto hpc rfl rfl (.notify _ _)
    · exact .call hpc hst rfl rfl (.stay _ rfl)
  case case10 hpc => exact .call hpc hst rfl rfl (.load _)
  case case11 cv timeout seq caller hpc =>
    split_ifs with heq
    · exact .park cv timeout seq caller hpc heq rfl (State.stages_goto _ _ _)
    · exact .goto hpc rfl rfl (.stay _ rfl)
  case case12 hpc _ => exact .goto hpc rfl rfl (.unpark _ _)
  case case14 hpc =>
    unfold State.classify at hst
    split at hst <;> try cases hst
    · exact .call hpc hst rfl rfl (.stay _ rfl)
    · exact .goto hpc rfl rfl (.stay _ rfl)
    · exact .goto hpc rfl rfl (.leave _ _)
  case case15 hpc => exact .goto hpc rfl rfl (.leave _ _)
  case case16 hpc => exact .goto hpc rfl rfl (by rw [Pc.stage_back]; exact .stay _ rfl)
  case case19 t cv all caller hpc =>
    exact .add cv all (congrArg Pc.stage hpc) rfl (State.stages_goto s t _)
  case case20 cv caller hpc =>
    refine .wakeAll cv (congrArg Pc.stage hpc) rfl (funext fun u => ?_)
    simp only [State.stages, update_apply]
    split
    · exact Pc.stage_back caller
    · exact Pc.stage_wakeUp cv _
  case case21 cv caller hpc hnone =>
    refine .wakeNone cv (congrArg Pc.stage hpc) (fun u => ?_) rfl ?_
    · rw [State.stages, Pc.parkedOn_stage]
      exact hnone u
    · rw [State.stages_goto, Pc.stage_back]
  case case23 cv caller v hpc hparked =>
    refine .wakeOne cv v (congrArg Pc.stage hpc) ?_ rfl ?_
    · rw [State.stages, Pc.parkedOn_stage]
      exact hparked
    · rw [State.stages_goto, State.stages_goto, Pc.stage_back, Pc.stage_wakeUp]
      rfl
  case case25 hq =>
    obtain ⟨m, -, rfl⟩ := Option.map_eq_some_iff.mp hst
    obtain ⟨hrest, hstage⟩ := Pc.stage_afterMutex hq
    refine .goto rfl rfl rfl ?_
    split
    · rw [hstage]
      exact .stay _ hrest
    · exact .stay _ hrest

end Steps

end Pman.FutexCondVar
