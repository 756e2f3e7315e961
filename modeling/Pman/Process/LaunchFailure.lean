import Pman.Process.PidMap

set_option autoImplicit false

/-!
# Launches that fail

The supervisor's thread launches the pending restarts in one loop over all processes. The exception
of a launch that fails leaves the whole of `supervisorLoop`: the processes later in the table are
not restarted, and no exit is collected any more. Likewise an exception in `start`, which launches
its thread last, leaves the children launched before without a supervisor.

As long as the launches of the thread succeed, and `start` does not fail once it has launched a
child, every process whose restart is due is launched in the next turn of the loop, the thread ends
only after `running_` was found to be false, and `start` throws only if it has launched nothing.

## Main results

* `supervision_goes_on`: supervision goes on while the launches succeed.
-/

namespace Pman.ProcessSupervisor.Failures

open LockProgram Process Reaping

/-! ### What is written down -/

structure Call where
  clock : ℤ := 0
  hand : Bool := false
  inside : Bool := false
  /-- The call goes through the pending restarts, inside of `mutex_`. -/
  scanning : Bool := false
  idle : Bool := false
  launched : ℕ := 0
deriving DecidableEq

structure Record where
  /-- The clock with which the pending restarts are about to be gone through. -/
  scan : Option ℤ := none
  /-- The processes whose restart is due, and which are not launched yet. -/
  due : List String := []
  /-- The processes that were due, and were not launched. -/
  missed : List String := []
  /-- For each thread that has ended, whether it has found `running_` false, and its exception. -/
  finished : List (Bool × Option Error) := []
  /-- For each call of `start` that has thrown, the children that it has launched. -/
  stranded : List ℕ := []
deriving DecidableEq

def isDue (m : Memory) (now : ℤ) (name : String) : Bool :=
  (m.find name).any fun state => state.pendingRestart && decide (state.scheduledRestartTime ≤ now)

def finishedBy (op : Op) (r : Call) (before after : Memory) : List (Bool × Option Error) :=
  match op with
  | .supervisorLoop i _ =>
    match after.loops[i]? with
    | some (.finished error) => if before.loops[i]? = after.loops[i]? then [] else [(r.idle, error)]
    | _ => []
  | _ => []

def strandedBy (op : Op) (r : Call) (before after : Memory) : List ℕ :=
  match op with
  | .start => if after.thrown.length = before.thrown.length then [] else [r.launched]
  | _ => []

/-- The call is about to go through the pending restarts when it locks `mutex_`. -/
def Call.scans (r : Call) (op : Op) : Bool := op.isLoop && !r.hand

def recorder : Recorder Mutex Memory Input Site Op Call Record where
  call _ := {}
  note obs op r :=
    match obs with
    | .accessed _ input before after =>
      { r with
        clock := input.now
        hand := (PidMap.collectedBy before after).isSome
        idle := r.idle || !before.running_
        launched := r.launched + (after.kernel.launches - before.kernel.launches) }
    | .locked _ => { r with hand := false, inside := true, scanning := r.scans op }
    | .unlocked _ => { r with inside := false, scanning := false }
    | _ => r
  watch obs op r past :=
    match obs with
    | .accessed _ _ before after =>
      let due :=
        match past.scan with
        | some now => (before.processes_.map Prod.fst).filter (isDue before now)
        | none => past.due
      { past with
        scan := if r.scanning then none else past.scan
        due := if r.scanning then due.filter (fun x => !launchesFor before after x) else past.due
        finished := past.finished ++ finishedBy op r before after
        stranded := past.stranded ++ strandedBy op r before after }
    | .locked _ => if r.scans op then { past with scan := some r.clock, due := [] } else past
    | .unlocked _ =>
      if r.scanning then { past with missed := past.missed ++ past.due, due := [] } else past
    | _ => past

def isStart : Op → Bool
  | .start => true
  | _ => false

/-- The condition on the steps. While the supervisor's thread goes through the pending restarts, a
child that is to be launched is launched; its `poll` does not fail, but for interrupts. A launch of
`start` that fails leaves no child behind, and nothing fails in `start` after it has launched a
child. -/
def Succeeds {ι : Type*} (obs : Observation Mutex Memory Input Site Op) (op : Op) (r : Call)
    (m : Memory) (_ : History ι Op Call Record) : Prop :=
  match obs with
  | .accessed _ input _ _ =>
    (op.isLoop = true → input.poll ≠ .failed) ∧
    (r.scanning = true → launches m input = true) ∧
    (isStart op = true → input.launch ≠ .orphaned ∧
      (0 < r.launched → input.errno = none ∧ (r.inside = true → launches m input = true)))
  | _ => True

instance {ι : Type*} (obs : Observation Mutex Memory Input Site Op) (op : Op) (r : Call)
    (m : Memory) (h : History ι Op Call Record) : Decidable (Succeeds obs op r m h) :=
  match obs with
  | .accessed _ _ _ _ => inferInstanceAs (Decidable (_ ∧ _ ∧ _))
  | .started _ | .ended | .locked _ | .unlocked _ | .resumed _ => isTrue trivial

/-- The phases in which a call goes through the pending restarts. -/
def scanPhase : Phase → Bool
  | .surveying _ | .scanning _ _ | .due _ _ _ | .restarting _ _ _ | .failed => true
  | _ => false

structure Known (op : Op) (φ : Phase) (r : Call) : Prop where
  inside : r.inside = φ.held
  hand : r.hand = φ.hand.isSome
  scanning : r.scanning = scanPhase φ
  timed : ∀ now, φ = .timed now → op.isLoop = true ∧ r.clock = now
  idle : ∀ hand, φ = .draining hand → r.idle = true
  failed : φ ≠ .failed ∧ φ ≠ .failing
  start : isStart op = true → φ = .raising ∨ φ = .throwing → r.launched = 0

def Left (m : Memory) (past : Record) (now : ℤ) (names : List String) : Prop :=
  past.scan = none ∧ ∀ x ∈ past.due, x ∈ names ∧ isDue m now x = true

def Scan (m : Memory) (past : Record) : Option Phase → Prop
  | some (.surveying now) =>
    past.scan = some now ∨ Left m past now (m.processes_.map Prod.fst)
  | some (.scanning now names) => Left m past now names
  | some (.due now name names) => Left m past now (name :: names) ∧ (m.find name).isSome = true
  | some (.restarting now name names) =>
    past.scan = none ∧ (m.find name).isSome = true ∧
      ∀ x ∈ past.due, x = name ∨ x ∈ names ∧ isDue m now x = true
  | _ => past.scan = none ∧ past.due = []

/-- The invariant of the supervision. -/
structure Supervised (m : Memory) (past : Record) (r : Option Phase) : Prop where
  scan : Scan m past r
  missed : past.missed = []
  finished : ∀ p ∈ past.finished, p = (true, none)
  stranded : ∀ n ∈ past.stranded, n = 0

section Phases

variable {op : Op} {φ φ' : Phase} {site : Site} {input : Input} {m m' : Memory} {past : Record}
  {k : Call}

variable {now : ℤ} {names : List String}

variable {x name : String} {r : Option Phase}

lemma isDue_iff : isDue m now x = true ↔ ∃ state, m.find x = some state ∧
    state.pendingRestart = true ∧ state.scheduledRestartTime ≤ now := by
  simp [isDue, Option.any_eq_true]

lemma isDue_congr (h : m'.find x = m.find x) : isDue m' now x = isDue m now x := by
  rw [isDue, isDue, h]

lemma Scan.congr (h : Scan m past r) (hprocesses : m'.processes_ = m.processes_) :
    Scan m' past r := by
  have hfind := Memory.find_congr hprocesses
  unfold Scan Left at h ⊢
  simpa only [isDue_congr (hfind _), hfind, hprocesses] using h

lemma Scan.of_eq {past' : Record} (h : Scan m past r) (hscan : past'.scan = past.scan)
    (hdue : past'.due = past.due) : Scan m past' r := by
  unfold Scan Left at h ⊢
  rw [hscan, hdue]
  exact h

lemma left_watch (hS : Left m past now names) (hk : k.scanning = true)
    (hsub : ∀ x ∈ past.due, launchesFor m m' x = false → isDue m' now x = true)
    {names' : List String} (hnames : ∀ x ∈ past.due, launchesFor m m' x = false → x ∈ names') :
    Left m' (recorder.watch (.accessed site input m m') op k past) now names' := by
  obtain ⟨hscan, hdue⟩ := hS
  refine ⟨by simp [recorder, hk], fun x hx => ?_⟩
  obtain ⟨hmem, hnot⟩ : x ∈ past.due ∧ launchesFor m m' x = false := by
    simpa [recorder, hk, hscan] using hx
  exact ⟨hnames x hmem hnot, hsub x hmem hnot⟩

lemma left_of_scan (hscan : past.scan = some now) (hk : k.scanning = true)
    (hprocesses : m'.processes_ = m.processes_) :
    Left m' (recorder.watch (.accessed site input m m') op k past) now
      (m.processes_.map Prod.fst) := by
  have hfind := Memory.find_congr hprocesses
  refine ⟨by simp [recorder, hk], fun x hx => ?_⟩
  have hmem : x ∈ ((m.processes_.map Prod.fst).filter (isDue m now)).filter
      fun x => !launchesFor m m' x := by
    simpa only [recorder, hk, hscan, if_true] using hx
  obtain ⟨hkey, hdue⟩ := List.mem_filter.mp (List.mem_of_mem_filter hmem)
  rw [isDue_congr (hfind x)]
  exact ⟨hkey, hdue⟩

lemma Scan.restarting (hS : Scan m past (some (.restarting now name names)))
    (hk : k.scanning = true) (hprocesses : m'.processes_ = m.processes_) :
    Scan m' (recorder.watch (.accessed site input m m') op k past)
      (some (.restarting now name names)) := by
  have hfind := Memory.find_congr hprocesses
  obtain ⟨hscan, hsome, hdue⟩ := hS
  refine ⟨by simp [recorder, hk], (hfind name).symm ▸ hsome, fun x hx => ?_⟩
  rw [isDue_congr (hfind x)]
  obtain ⟨hmem, -⟩ : x ∈ past.due ∧ launchesFor m m' x = false := by
    simpa [recorder, hk, hscan] using hx
  exact hdue x hmem

lemma Scan.stay (hS : Scan m past (some φ)) (hφ : scanPhase φ = true) (hfailed : φ ≠ .failed)
    (hk : k.scanning = true) (hprocesses : m'.processes_ = m.processes_) :
    Scan m' (recorder.watch (.accessed site input m m') op k past) (some φ) := by
  have hfind := Memory.find_congr hprocesses
  have hleft : ∀ {now names}, Left m past now names →
      Left m' (recorder.watch (.accessed site input m m') op k past) now names := by
    intro now names hL
    refine left_watch hL hk (fun x hx _ => ?_) fun x hx _ => (hL.2 x hx).1
    rw [isDue_congr (hfind x)]
    exact (hL.2 x hx).2
  cases φ with
  | surveying now =>
    refine .inr ?_
    rw [hprocesses]
    rcases hS with hscan | hL
    · exact left_of_scan hscan hk hprocesses
    · exact hleft hL
  | scanning now names => exact hleft hS
  | due now name names => exact ⟨hleft hS.1, (hfind name).symm ▸ hS.2⟩
  | restarting now name names => exact hS.restarting hk hprocesses
  | failed => exact absurd rfl hfailed
  | _ => cases hφ

lemma scanPhase_of_accesses (h : Accesses op φ site input m m' φ') :
    scanPhase φ' = scanPhase φ := by
  cases h with
  | look h | set _ h | uncollected h | collected h | launched h | unlaunched h | change h
  | unlist h => cases h <;> rfl
  | signal | unreaped | waited | exit | erase | add | remove => rfl

lemma Scan.launched (hS : Scan m past (some (.restarting now name names)))
    (hk : k.scanning = true) (h : launches m input = true) :
    Scan (m.launch name input)
      (recorder.watch (.accessed site input m (m.launch name input)) op k past)
      (some (.scanning now names)) := by
  obtain ⟨hscan, hsome, hdue⟩ := hS
  have hfor : launchesFor m (m.launch name input) name = true := by
    rw [launchesFor, Memory.handleOf_launch h hsome]
    simp
  refine ⟨by simp [recorder, hk], fun x hx => ?_⟩
  obtain ⟨hmem, hnot⟩ : x ∈ past.due ∧ launchesFor m (m.launch name input) x = false := by
    simpa [recorder, hk, hscan] using hx
  rcases hdue x hmem with rfl | ⟨hnames, hx⟩
  · simp [hfor] at hnot
  · refine ⟨hnames, ?_⟩
    have hne : x ≠ name := by
      rintro rfl
      simp [hfor] at hnot
    rw [isDue_congr (m := m)]
    · exact hx
    · rw [Memory.launch_of_launches h, Memory.find_modifyProcess, if_neg hne]
      rfl

lemma Scan.accesses (hL : Known op φ k) (hφ : φ.held = true) (hS : Scan m past (some φ))
    (hlaunch : k.scanning = true → launches m input = true)
    (h : Accesses op φ site input m m' φ') :
    Scan m' (recorder.watch (.accessed site input m m') op k past) (some φ') := by
  have hsame := scanPhase_of_accesses h
  cases hscan : scanPhase φ with
  | false =>
    have hk : k.scanning = false := hL.scanning.trans hscan
    have hnone : ∀ {m : Memory} {past : Record} {φ : Phase}, scanPhase φ = false →
        (Scan m past (some φ) ↔ past.scan = none ∧ past.due = []) := by
      intro m past φ hφ
      cases φ <;> first | exact Iff.rfl | cases hφ
    rw [hnone hscan] at hS
    rw [hnone (hsame.trans hscan)]
    simpa [recorder, hk] using hS
  | true =>
    have hk : k.scanning = true := hL.scanning.trans hscan
    cases h with
    | look h =>
      cases h with
      | stay => exact hS.stay hscan hL.failed.1 hk rfl
      | surveyed now =>
        rcases hS with hs | hS
        · exact left_of_scan hs hk rfl
        · exact left_watch hS hk (fun x hx _ => (hS.2 x hx).2) fun x hx _ => (hS.2 x hx).1
      | skip now name names h =>
        refine left_watch hS hk (fun x hx _ => (hS.2 x hx).2) fun x hx _ => ?_
        obtain ⟨hmem, hdue⟩ := hS.2 x hx
        refine (List.mem_cons.mp hmem).resolve_left ?_
        rintro rfl
        obtain ⟨state, hstate, hdue⟩ := isDue_iff.mp hdue
        exact h state hstate hdue
      | due now name names state h =>
        refine ⟨left_watch hS hk (fun x hx _ => (hS.2 x hx).2) fun x hx _ => (hS.2 x hx).1, ?_⟩
        simp [h]
      | _ => cases hscan
    | set _ h =>
      cases h with
      | stay _ hφ => rcases hφ with rfl | rfl <;> cases hscan
      | _ => cases hscan
    | signal _ _ h =>
      refine hS.stay hscan hL.failed.1 hk ?_
      rcases h with rfl | ⟨_, -, rfl⟩ <;> rfl
    | uncollected h | collected h => cases h <;> cases hφ
    | launched hφ' h =>
      cases hφ' with
      | start => cases hscan
      | restart => exact hS.launched hk h
    | unlaunched _ h =>
      simp [hlaunch hk] at h
    | @change _ _ name _ _ _ h =>
      cases h with
      | clear now names =>
        obtain ⟨⟨hs, hdue⟩, hsome⟩ := hS
        refine ⟨by simp [recorder, hk], by rwa [PidMap.isSome_find_modifyProcess], fun x hx => ?_⟩
        obtain ⟨hmem, -⟩ : x ∈ past.due ∧ _ := by simpa [recorder, hk, hs] using hx
        obtain ⟨hmem, hx⟩ := hdue x hmem
        by_cases hne : x = name
        · exact .inl hne
        · refine .inr ⟨(List.mem_cons.mp hmem).resolve_left hne, ?_⟩
          rwa [isDue_congr (m := m)]
          rw [Memory.find_modifyProcess, if_neg hne]
      | _ => cases hscan
    | unlist h => cases h <;> cases hscan
    | unreaped | waited | exit | erase | add | remove => cases hscan

/-- How a call comes to the phases in which it is timed, drains, fails or throws. -/
def Reaches (op : Op) (input : Input) (m m' : Memory) (φ : Phase) : Phase → Prop
  | .timed now => op.isLoop = true ∧ input.now = now
  | .draining _ => (∃ hand, φ = .draining hand) ∨
    op.isLoop = true ∧ (m.running_ = false ∨ input.poll = .failed)
  | .failed => φ = .failed ∨ scanPhase φ = true ∧ launches m input = false
  | .failing => φ = .failing
  | .raising => (φ = .raising ∨ φ.held = true ∧ launches m input = false) ∧
    (m'.kernel.launches = m.kernel.launches ∨ input.launch = .orphaned)
  | .throwing => (φ = .throwing ∨ (op = .start → input.errno.isSome = true)) ∧
    m'.kernel.launches = m.kernel.launches
  | _ => True

lemma reaches_of_accesses (h : Accesses op φ site input m m' φ') :
    Reaches op input m m' φ φ' := by
  cases h with
  | look h =>
    cases h with
    | stay φ hstay =>
      cases φ with
      | timed | draining => cases hstay
      | failed => exact .inl rfl
      | failing => rfl
      | raising => exact ⟨.inl rfl, .inl rfl⟩
      | throwing => exact ⟨.inl rfl, rfl⟩
      | _ => trivial
    | fail h => exact ⟨.inr h, rfl⟩
    | time hop => exact ⟨hop, rfl⟩
    | leave hop h => exact .inr ⟨hop, h⟩
    | _ => trivial
  | set hm h =>
    cases h with
    | stay _ hφ => rcases hφ with rfl | rfl <;> trivial
    | fail h => exact ⟨.inr h, by rw [hm.kernel]⟩
    | _ => trivial
  | @signal φ _ _ _ _ sig hφ h =>
    have hlaunches : m'.kernel.launches = m.kernel.launches := by
      rcases h with rfl | ⟨_, -, rfl⟩ <;> rfl
    cases φ with
    | timed | draining | throwing | failing => cases hφ
    | failed => exact .inl rfl
    | raising => exact ⟨.inl rfl, .inl hlaunches⟩
    | _ => trivial
  | uncollected hφ h | collected hφ h =>
    cases hφ with
    | handle => trivial
    | drain hand => exact .inl ⟨hand, rfl⟩
  | launched hφ => cases hφ <;> trivial
  | unlaunched hφ h =>
    cases hφ with
    | start =>
      refine ⟨.inr ⟨rfl, h⟩, ?_⟩
      obtain ⟨k, hk, heq⟩ := Memory.launch_of_not_launches h _
      rw [heq]
      rcases hk with rfl | ⟨-, horphaned, -⟩
      · exact .inl rfl
      · exact .inr horphaned
    | restart => exact .inr ⟨rfl, h⟩
  | change h | unlist h => cases h <;> trivial
  | unreaped | waited | exit | erase | add | remove => trivial

lemma Known.accesses {ι : Type*} {hist : History ι Op Call Record} (hl : Ledger m)
    (hL : Known op φ k) (h : Accesses op φ site input m m' φ')
    (hok : Succeeds (.accessed site input m m') op k m hist) :
    Known op φ' (recorder.note (.accessed site input m m') op k) := by
  obtain ⟨hpoll, hscan, hstart⟩ := hok
  have hreaches := reaches_of_accesses h
  refine ⟨hL.inside.trans (outline.held_of_accesses h).symm, ?_,
    hL.scanning.trans (scanPhase_of_accesses h).symm, ?_, ?_, ⟨?_, ?_⟩, ?_⟩
  · exact congrArg Option.isSome (PidMap.collectedBy_of_accesses hl h)
  · rintro now rfl
    exact hreaches
  · rintro hand rfl
    rcases hreaches with ⟨hand, rfl⟩ | ⟨hop, hrunning⟩
    · simp [recorder, hL.idle hand rfl]
    · simp [recorder, hrunning.resolve_right (hpoll hop)]
  · rintro rfl
    rcases hreaches with rfl | ⟨hφ, hnot⟩
    · exact hL.failed.1 rfl
    · simp [hscan (hL.scanning.trans hφ)] at hnot
  · rintro rfl
    exact hL.failed.2 hreaches
  · intro hop hφ'
    obtain ⟨horphaned, hlaunched⟩ := hstart hop
    have hzero : k.launched = 0 := by
      by_contra hne
      obtain ⟨herrno, hlaunches⟩ := hlaunched (Nat.pos_of_ne_zero hne)
      rcases hφ' with rfl | rfl
      · rcases hreaches.1 with rfl | ⟨hheld, hnot⟩
        · exact hne (hL.start hop (.inl rfl))
        · simp [hlaunches (hL.inside.trans hheld)] at hnot
      · rcases hreaches.1 with rfl | hsome
        · exact hne (hL.start hop (.inr rfl))
        · cases op with
          | start => simp [herrno] at hsome
          | _ => cases hop
    have hsame : m'.kernel.launches = m.kernel.launches := by
      rcases hφ' with rfl | rfl
      · exact hreaches.2.resolve_right horphaned
      · exact hreaches.2
    simp [recorder, hzero, hsame]

lemma mem_finishedBy {p : Bool × Option Error} (hp : p ∈ finishedBy op k m m') :
    ∃ i turns error, op = .supervisorLoop i turns ∧ m'.loops[i]? = some (.finished error) ∧
      m.loops[i]? ≠ m'.loops[i]? ∧ p = (k.idle, error) := by
  unfold finishedBy at hp
  split at hp
  case h_1 i turns =>
    split at hp <;> try cases hp
    case h_1 error hend =>
      split_ifs at hp with hsame
      · cases hp
      · exact ⟨i, turns, error, rfl, hend, hsame, List.mem_singleton.mp hp⟩
  case h_2 => cases hp

lemma Known.finishedBy (hL : Known op φ k) (h : Accesses op φ site input m m' φ') :
    ∀ p ∈ finishedBy op k m m', p = (true, none) := by
  intro p hp
  obtain ⟨i, turns, error, hop, hend, hne, rfl⟩ := mem_finishedBy hp
  rcases h.loops_cases with hsame | ⟨j, turns', error', hop', hloops, hφ⟩
  · exact absurd ((hsame i error hend).trans hend.symm) hne
  · obtain ⟨rfl, -⟩ := Op.supervisorLoop.inj (hop.symm.trans hop')
    rcases hφ with ⟨⟨hand, rfl⟩, rfl⟩ | ⟨rfl, -⟩
    · rw [hloops, List.getElem?_set_self'] at hend
      obtain ⟨_, -, heq⟩ := Option.map_eq_some_iff.mp hend
      rw [← LoopState.finished.inj heq, hL.idle hand rfl]
    · exact absurd rfl hL.failed.2

lemma Known.strandedBy (hL : Known op φ k) (h : Accesses op φ site input m m' φ') :
    ∀ n ∈ strandedBy op k m m', n = 0 := by
  intro n hn
  unfold Failures.strandedBy at hn
  split at hn
  · split_ifs at hn with hthrown
    · cases hn
    · rcases h.thrown_cases with heq | rfl
      · exact absurd (congrArg List.length heq) hthrown
      · rw [List.mem_singleton.mp hn]
        exact hL.start rfl (.inr rfl)
  · cases hn

end Phases

section Steps

variable {ι : Type*} [DecidableEq ι] {m m' : Memory} {h : History ι Op Call Record} {t : ι}
  {op : Op} {k : Call} {calls : List (Op × Call)} {site : Site} {input : Input} {φ φ' : Phase}
  {past : Record} {r r' : Option Phase}

section

variable (hL : Known op φ k)

include hL

lemma Known.scans_eq (henters : Enters op φ φ') :
    k.scans op = scanPhase φ' := by
  cases henters with
  | inside hop =>
    cases op with
    | supervisorLoop => cases hop
    | _ => rfl
  | stopping name restart hop =>
    rw [hop]
    cases restart <;> rfl
  | exiting child status =>
    rw [Call.scans, hL.hand]
    exact Bool.and_false _
  | surveying now =>
    rw [Call.scans, hL.hand, (hL.timed now rfl).1]
    rfl

lemma Known.enters (henters : Enters op φ φ') :
    Known op φ' (recorder.note (.locked outline.mutex) op k) := by
  refine ⟨(outline.held_of_enters henters).2.symm, ?_, hL.scans_eq henters, ?_, ?_, ?_, ?_⟩
  · rw [Phase.hand_of_held (outline.held_of_enters henters).2]
    rfl
  all_goals cases henters
  all_goals simp

lemma Supervised.enters (hS : Supervised m past none)
    (henters : Enters op φ φ') :
    Supervised m (recorder.watch (.locked outline.mutex) op k past) (some φ') := by
  have hscans := hL.scans_eq henters
  cases henters with
  | surveying now =>
    have hwatch : recorder.watch (.locked outline.mutex) op k past =
        { past with scan := some k.clock, due := [] } := if_pos hscans
    rw [hwatch]
    exact { hS with scan := .inl (congrArg some (hL.timed now rfl).2) }
  | inside | stopping | exiting =>
    have hwatch : recorder.watch (.locked outline.mutex) op k past = past :=
      if_neg (by rw [hscans]; exact Bool.false_ne_true)
    rw [hwatch]
    exact ⟨hS.scan, hS.missed, hS.finished, hS.stranded⟩

lemma Known.leaves (hleaves : Leaves op φ φ') :
    Known op φ' (recorder.note (.unlocked outline.mutex) op k) := by
  have hhand : k.hand = false := by
    rw [hL.hand, Phase.hand_of_held (outline.held_of_leaves hleaves).1]
    rfl
  refine ⟨(outline.held_of_leaves hleaves).2.symm, ?_, ?_, ?_, ?_, ?_, ?_⟩
  · cases hleaves <;> exact hhand
  · cases hleaves <;> rfl
  · cases hleaves <;> nofun
  · cases hleaves <;> nofun
  · cases hleaves with
    | failed => exact absurd rfl hL.failed.1
    | _ => exact ⟨nofun, nofun⟩
  · intro hop hφ'
    cases hleaves with
    | raising => exact hL.start hop (.inl rfl)
    | throwing h | haltedThrowing _ _ h =>
      cases op with
      | start => exact absurd rfl h
      | _ => cases hop
    | _ => rcases hφ' with hφ' | hφ' <;> cases hφ'

lemma Supervised.leaves (hS : Supervised m past (some φ))
    (hleaves : Leaves op φ φ') :
    Supervised m (recorder.watch (.unlocked outline.mutex) op k past) none := by
  have hother : k.scanning = false → Scan m past none →
      Supervised m (recorder.watch (.unlocked outline.mutex) op k past) none := by
    intro hk hscan
    have hwatch : recorder.watch (.unlocked outline.mutex) op k past = past :=
      if_neg (by rw [hk]; exact Bool.false_ne_true)
    rw [hwatch]
    exact { hS with scan := hscan }
  cases hleaves with
  | scanned now =>
    obtain ⟨hscan, hdue⟩ := hS.scan
    have hnil : past.due = [] :=
      List.eq_nil_iff_forall_not_mem.mpr fun x hx => nomatch (hdue x hx).1
    have hwatch : recorder.watch (.unlocked outline.mutex) op k past =
        { past with missed := past.missed ++ past.due, due := [] } := if_pos hL.scanning
    rw [hwatch, hnil, List.append_nil]
    exact { hS with scan := ⟨hscan, rfl⟩ }
  | failed => exact absurd rfl hL.failed.1
  | inside | throwing | started | raising | halted | haltedThrowing =>
    exact hother hL.scanning hS.scan

lemma Supervised.access (hS : Supervised m past r)
    (hacc : Accesses op φ site input m m' φ')
    (hscan : Scan m' (recorder.watch (.accessed site input m m') op k past) r') :
    Supervised m' (recorder.watch (.accessed site input m m') op k past) r' := by
  refine ⟨hscan, hS.missed, fun p hp => ?_, fun n hn => ?_⟩
  · rcases List.mem_append.mp hp with hp | hp
    · exact hS.finished p hp
    · exact hL.finishedBy hacc p hp
  · rcases List.mem_append.mp hn with hn | hn
    · exact hS.stranded n hn
    · exact hL.strandedBy hacc n hn

end

lemma Supervised.keeps : outline.Keeps (ι := ι) recorder Succeeds Ledger Known
    fun m h r => Supervised m h.past r where
  started {t op s h r} _ _ hS := by
    refine ⟨⟨rfl, rfl, rfl, nofun, nofun, ⟨nofun, nofun⟩, fun _ _ => rfl⟩, ?_⟩
    exact hS
  ended hcalls _ _ _ hS := by
    rw [recorder.past_of_call hcalls rfl]
    exact hS
  entered {t op k calls φ φ' s h} henters hcalls hL _ _ hS := by
    rw [recorder.past_of_call hcalls rfl]
    refine ⟨hL.enters henters, hS.enters hL henters⟩
  left {t op k calls φ φ' s h} hleaves hcalls hL _ _ hS := by
    rw [recorder.past_of_call hcalls rfl]
    exact ⟨hL.leaves hleaves, hS.leaves hL hleaves⟩
  inside {t op k calls φ φ' site input s s' h} hφ hacc hcalls hL hl hok hS := by
    rw [recorder.past_of_call hcalls rfl]
    refine ⟨hL.accesses hl hacc hok, hS.access hL hacc ?_⟩
    exact hS.scan.accesses hL hφ hok.2.1 hacc
  outside {t op k calls φ φ' site input s s' h r} hφ hacc hcalls hL hl hok hS := by
    rw [recorder.past_of_call hcalls rfl]
    refine ⟨hL.accesses hl hacc hok, hS.access hL hacc ?_⟩
    have hk : k.scanning = false := by
      rw [hL.scanning]
      cases φ <;> first | rfl | cases hφ
    have hscan := hS.scan.congr (hacc.same_of_not_held hφ).1
    simp only [recorder, hk, Bool.false_eq_true, if_false]
    exact hscan.of_eq rfl rfl
  resumed hcalls hL _ _ hS := by
    refine ⟨hL, ?_⟩
    rw [recorder.past_of_call hcalls rfl]
    exact hS

end Steps

end Pman.ProcessSupervisor.Failures
