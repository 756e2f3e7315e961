import Pman.Process.Reaping

set_option autoImplicit false

/-!
# The map from numbers to processes

`pidToName_` says which process the number of a child belongs to. `handleChildExit` looks up the
number of a child that was collected. The kernel may give the number to another child as soon as the
child is reaped.

The entries are exact as long as each of them is erased with its child: a launch for a process that
has an entry already leaves the old one behind, and so do a `waitpid` through a handle, which
forgets the number before it is erased, and a child that is collected and dropped. Also, between the
`waitpid` of the supervisor's thread and `handleChildExit` the number must not be given to another
child.

## Main results

* `exact_of_careful`: when every entry names the child of its process.
-/

namespace Pman.ProcessSupervisor.PidMap

open Memory List LockProgram Process Reaping

/-! ### Children in hand -/

def collectedBy (before after : Memory) : Option Child :=
  before.kernel.children.find? fun child => decide (.reaped child.launch .any ∈ after.kernel.log)

lemma collectedBy_of_accesses {op : Op} {φ φ' : Phase} {site : Site} {input : Input}
    {m m' : Memory} (hl : Ledger m) (h : Accesses op φ site input m m' φ') :
    collectedBy m m' = φ'.hand := by
  have hold : ∀ child ∈ m.kernel.children, .reaped child.launch .any ∉ m.kernel.log :=
    fun child hc hr => hl.kernel.unreaped child hc ⟨_, hr⟩
  have hnone : (∀ launch, .reaped launch .any ∈ m'.kernel.log →
      .reaped launch .any ∈ m.kernel.log) → collectedBy m m' = none := by
    intro hsame
    refine find?_eq_none.mpr fun child hc hr => ?_
    exact hold child hc (hsame _ (of_decide_eq_true hr))
  rcases Waits.reaps_cases h with ⟨hreaps, hhand⟩ | ⟨_, f, child, status, hφ, rfl, hany, rfl⟩ |
    ⟨name, hdl, child, status, -, hv, hw, rfl, -, rfl⟩
  · rw [hhand]
    refine hnone fun launch hr => ?_
    rwa [← mem_reaps, hreaps, mem_reaps] at hr
  · have hhand : (f child status).hand = some child := by cases hφ <;> rfl
    have hchild := Kernel.mem_of_waitAny hany
    rw [hhand]
    cases hfind : collectedBy m { m with kernel := m.kernel.reap child .any } with
    | none =>
      refine absurd (find?_eq_none.mp hfind child hchild) (not_not.mpr ?_)
      simp [Kernel.reap]
    | some c =>
      have hc := mem_of_find?_eq_some hfind
      have hreaped : .reaped c.launch .any ∈ m.kernel.log ∨ c.launch = child.launch := by
        simpa [Kernel.reap] using find?_some hfind
      rw [inj_on_of_nodup_map hl.kernel.launches hc hchild (hreaped.resolve_left (hold c hc))]
  · refine hnone fun launch hr => ?_
    rw [waitpid_of_exited hv hw] at hr
    simpa [Memory.modifyProcess, Kernel.reap] using hr

/-- What is known about a call: the child that it has collected and neither handled nor dropped, and
the child that `handleChildExit` is about to look up. -/
structure Call where
  hand : Option Child := none
  handling : Option Child := none
deriving DecidableEq

/-- The launch of a child that `handleChildExit` looks up, and the launch that the process was last
started with for which its exit is taken. -/
def looksUp (m : Memory) (child : Option Child) : List (ℕ × Option ℕ) :=
  (child.bind fun child => (m.pidToName_.lookup child.pid).map fun name =>
    (child.launch, (m.handleOf name).map ProcessHandle.launch)).toList

/-- The first access of `handleChildExit` inside of `mutex_` looks up the child. -/
def recorder : Recorder Mutex Memory Input Site Op Call (List (ℕ × Option ℕ)) where
  call _ := {}
  note obs _ r :=
    match obs with
    | .accessed _ _ before after => { hand := collectedBy before after }
    | .locked _ => { handling := r.hand }
    | .unlocked _ => {}
    | _ => r
  watch obs _ r past :=
    match obs with
    | .accessed _ _ before _ => past ++ looksUp before r.handling
    | _ => past

def hasExited : Process.WaitResult → Bool
  | .exited _ _ => true
  | _ => false

/-- A `waitpid` through a handle reaps only children whose number was erased. -/
def WaitsUnmapped : Site → Memory → Prop
  | .waitpid name, m => ∀ hdl ∈ m.validHandle name, hasExited (m.kernel.waitpid hdl.pid_) = true →
    m.pidToName_.lookup hdl.pid_ = none
  | _, _ => True

instance : ∀ site m, Decidable (WaitsUnmapped site m)
  | .waitpid _, _ | .access, _ | .signal _, _ | .callback, _ => by
    dsimp only [WaitsUnmapped]; infer_instance

def DropsUnmapped (r : Call) (m : Memory) : Prop :=
  ∀ child ∈ r.hand, m.pidToName_.lookup child.pid = none
  deriving Decidable

/-- A new child is not launched under the number of a child that waits for `handleChildExit`. -/
def LaunchesApart {ι : Type*} (input : Input) (before after : Memory)
    (h : History ι Op Call (List (ℕ × Option ℕ))) : Prop :=
  after.kernel.launches ≠ before.kernel.launches →
    ¬ h.Any fun call => ∃ child ∈ call.hand, child.pid = input.pid

/-- The condition on the steps. A new child does not get the number of a child that waits for
`handleChildExit`, nor is it launched for a process that has an entry; a `waitpid` through a handle
reaps only children without an entry; and so are the children that are collected but not handled. -/
def Careful {ι : Type*} (obs : Observation Mutex Memory Input Site Op) (_ : Op) (r : Call)
    (m : Memory) (h : History ι Op Call (List (ℕ × Option ℕ))) : Prop :=
  match obs with
  | .accessed site input before after =>
    LaunchesApart input before after h ∧
    (∀ e ∈ before.pidToName_, launchesFor before after e.2 = false) ∧
    WaitsUnmapped site before ∧ DropsUnmapped r m
  | .ended => DropsUnmapped r m
  | _ => True

instance {ι : Type*} [Fintype ι] (input : Input) (before after : Memory)
    (h : History ι Op Call (List (ℕ × Option ℕ))) :
    Decidable (LaunchesApart input before after h) :=
  inferInstanceAs (Decidable (_ → ¬ ∃ t, ∃ call ∈ h.calls t, ∃ child ∈ call.2.hand, _))

instance {ι : Type*} [Fintype ι] (obs : Observation Mutex Memory Input Site Op) (op : Op) (r : Call)
    (m : Memory) (h : History ι Op Call (List (ℕ × Option ℕ))) :
    Decidable (Careful obs op r m h) :=
  match obs with
  | .accessed _ _ _ _ => inferInstanceAs (Decidable (_ ∧ _ ∧ _ ∧ _))
  | .ended => inferInstanceAs (Decidable (DropsUnmapped r m))
  | .started _ | .locked _ | .unlocked _ | .resumed _ => isTrue trivial

/-! ### Exact maps -/

/-- The entries are those of the children of the processes; a child that was reaped is one of the
children `W` that wait for `handleChildExit`. -/
structure Exact (m : Memory) (W : Child → Prop) : Prop where
  entry : ∀ e ∈ m.pidToName_, ∃ hdl, m.validHandle e.2 = some hdl ∧ hdl.pid_ = e.1 ∧
    (Reaped m.kernel.log hdl.launch →
      ∃ child, W child ∧ child.launch = hdl.launch ∧ child.pid = e.1)
  /-- A number that waits leads to the process of its child. -/
  right : ∀ child, W child → ∀ e ∈ m.pidToName_, e.1 = child.pid →
    ∃ hdl, m.validHandle e.2 = some hdl ∧ hdl.launch = child.launch
  apart : ∀ child, W child → ∀ c ∈ m.kernel.children, c.pid ≠ child.pid

namespace Exact

variable {m m' : Memory} {W W' : Child → Prop} {name : String}

variable (hE : Exact m W)

include hE

lemma frame (hpids : ∀ e ∈ m'.pidToName_, e ∈ m.pidToName_)
    (hhandle : ∀ e ∈ m'.pidToName_, ∀ hdl, m.handleOf e.2 = some hdl →
      m'.handleOf e.2 = some hdl)
    (hreaped : ∀ e ∈ m'.pidToName_, ∀ hdl, m.validHandle e.2 = some hdl → hdl.pid_ = e.1 →
      Reaped m'.kernel.log hdl.launch → Reaped m.kernel.log hdl.launch)
    (hapart : ∀ child, W' child → ∀ c ∈ m'.kernel.children, c.pid ≠ child.pid)
    (hsub : ∀ child, W' child → W child)
    (hkeep : ∀ child, W child → W' child ∨ ∀ e ∈ m'.pidToName_, e.1 ≠ child.pid) :
    Exact m' W' := by
  have hvalid : ∀ e ∈ m'.pidToName_, ∀ hdl, m.validHandle e.2 = some hdl →
      m'.validHandle e.2 = some hdl := by
    intro e he hdl hv
    obtain ⟨hh, hvalid⟩ := handleOf_of_validHandle hv
    exact Option.filter_eq_some_iff.mpr ⟨hhandle e he hdl hh, hvalid⟩
  refine ⟨fun e he => ?_, fun child hchild e he hpid => ?_, hapart⟩
  · obtain ⟨hdl, hv, hpid, hwaits⟩ := hE.entry e (hpids e he)
    refine ⟨hdl, hvalid e he hdl hv, hpid, fun hr => ?_⟩
    obtain ⟨child, hW, hlaunch, hchild⟩ := hwaits (hreaped e he hdl hv hpid hr)
    rcases hkeep child hW with hW | hnone
    · exact ⟨child, hW, hlaunch, hchild⟩
    · exact absurd hchild.symm (hnone e he)
  · obtain ⟨hdl, hv, hlaunch⟩ := hE.right child (hsub child hchild) e (hpids e he) hpid
    exact ⟨hdl, hvalid e he hdl hv, hlaunch⟩

lemma waits (hsub : ∀ child, W' child → W child)
    (hkeep : ∀ child, W child → W' child ∨ ∀ e ∈ m.pidToName_, e.1 ≠ child.pid) : Exact m W' :=
  hE.frame (fun _ h => h) (fun _ _ _ h => h) (fun _ _ _ _ _ h => h)
    (fun child hW => hE.apart child (hsub child hW)) hsub hkeep

lemma congr (h : ∀ child, W' child ↔ W child) : Exact m W' :=
  hE.waits (fun child => (h child).mp) fun child hW => .inl ((h child).mpr hW)

variable {hdl : ProcessHandle} {child : Child} {input : Input}

lemma eq_of_handle (hh : m.handleOf name = some hdl) :
    ∀ e ∈ m.pidToName_, e.2 = name → e.1 = hdl.pid_ := by
  intro e he hname
  obtain ⟨hdl', hv, hpid, -⟩ := hE.entry e he
  rw [hname] at hv
  rw [← hpid, Option.some.inj ((handleOf_of_validHandle hv).1.symm.trans hh)]

lemma unmapped (hv : m.validHandle name = none) :
    ∀ e ∈ m.pidToName_, e.2 ≠ name := by
  rintro e he rfl
  obtain ⟨hdl, hsome, -⟩ := hE.entry e he
  simp [hv] at hsome

/-- A child is collected.

**Proof sketch.** If an entry has the number of the child, then the child of its process was not
reaped, since otherwise it would wait under the number of this one; so it is this child. -/
lemma collect (hl : Ledger m) (hchild : child ∈ m.kernel.children) :
    Exact { m with kernel := m.kernel.reap child .any } fun c => child = c ∨ W c := by
  refine ⟨fun e he => ?_, ?_, ?_⟩
  · obtain ⟨hdl, hv, hpid, hwaits⟩ := hE.entry e he
    refine ⟨hdl, hv, hpid, fun hr => ?_⟩
    rcases Kernel.reaped_reap.mp hr with hr | hlaunch
    · obtain ⟨c, hW, hc⟩ := hwaits hr
      exact ⟨c, .inr hW, hc⟩
    · refine ⟨child, .inl rfl, hlaunch.symm, ?_⟩
      have hlaunched := hl.launched e.2 hdl hv
      rw [hlaunch] at hlaunched
      rw [← hpid]
      exact hl.single _ _ _ (hl.kernel.launched child hchild) hlaunched
  · rintro c (rfl | hW) e he hpid
    · obtain ⟨hdl, hv, hpid', hwaits⟩ := hE.entry e he
      refine ⟨hdl, hv, (hl.kernel.eq_of_pid ?_ (fun hr => ?_) hchild).symm⟩
      · rw [← hpid, ← hpid']
        exact hl.launched e.2 hdl hv
      · obtain ⟨c, hW, -, hc⟩ := hwaits hr
        exact hE.apart c hW child hchild (hpid.symm.trans hc.symm)
    · exact hE.right c hW e he hpid
  · rintro c (rfl | hW) c' hc'
    · obtain ⟨hmem, hne⟩ := mem_filter.mp hc'
      intro hpid
      rw [inj_on_of_nodup_map hl.kernel.pids hmem hchild hpid] at hne
      simp at hne
    · exact hE.apart c hW c' (mem_of_mem_filter hc')

lemma launch (hl : Ledger m) (h : launches m input = true)
    (hfind : (m.find name).isSome = true) (hname : ∀ e ∈ m.pidToName_, e.2 ≠ name)
    (hwaits : ∀ child, W child → child.pid ≠ input.pid) : Exact (m.launch name input) W := by
  have hnew : (m.launch name input).validHandle name =
      some ⟨input.pid, input.pidfd, m.kernel.launches⟩ :=
    Option.filter_eq_some_iff.mpr ⟨handleOf_launch h hfind,
      by simpa [ProcessHandle.valid] using pos_of_launches h⟩
  rw [launch_of_launches h] at hnew ⊢
  set m₁ : Memory := { m with
    kernel := m.kernel.launch input.pid
    pidToName_ := (m.erasePid input.pid).pidToName_ ++ [(input.pid, name)] }
  set hdl₀ : ProcessHandle := ⟨input.pid, input.pidfd, m.kernel.launches⟩
  have hold : ∀ x, x ≠ name →
      (m₁.modifyProcess name fun s => s.started hdl₀ input.now).validHandle x = m.validHandle x :=
    fun x hx => validHandle_modifyProcess_of_ne (m := m₁) hx _
  have hreaped : ∀ launch, Reaped (m.kernel.launch input.pid).log launch →
      Reaped m.kernel.log launch := by
    intro launch hr
    simpa [Kernel.launch, reaped_concat] using hr
  have hentry : ∀ e ∈ m₁.pidToName_, (e ∈ m.pidToName_ ∧ e.2 ≠ name) ∨ e = (input.pid, name) := by
    intro e he
    rcases mem_concat.mp he with he | he
    · exact .inl ⟨mem_of_mem_filter he, hname e (mem_of_mem_filter he)⟩
    · exact .inr he
  refine ⟨fun e he => ?_, fun child hW e he hpid => ?_, fun child hW c hc => ?_⟩
  · rcases hentry e he with ⟨hmem, hne⟩ | rfl
    · rw [hold e.2 hne]
      obtain ⟨hdl, hv, hpid, hwait⟩ := hE.entry e hmem
      exact ⟨hdl, hv, hpid, fun hr => hwait (hreaped _ hr)⟩
    · refine ⟨hdl₀, hnew, rfl, fun hr => ?_⟩
      exact absurd (hl.kernel.reaped _ (hreaped _ hr)) (lt_irrefl _)
  · rcases hentry e he with ⟨hmem, hne⟩ | rfl
    · rw [hold e.2 hne]
      exact hE.right child hW e hmem hpid
    · exact absurd hpid.symm (hwaits child hW)
  · rcases mem_concat.mp hc with hc | rfl
    · exact hE.apart child hW c hc
    · exact (hwaits child hW).symm

lemma unlaunched (h : launches m input = false)
    (hwaits : (m.launch name input).kernel.launches ≠ m.kernel.launches →
      ∀ child, W child → child.pid ≠ input.pid) : Exact (m.launch name input) W := by
  obtain ⟨k, hk, heq⟩ := launch_of_not_launches h name
  rw [heq] at hwaits ⊢
  have hhandle : ∀ x, (({ m with kernel := k } : Memory).modifyProcess name .stopped).handleOf x =
      m.handleOf x :=
    fun x => handleOf_modifyProcess { m with kernel := k } name x fun _ => rfl
  refine hE.frame (fun _ h => h) (fun e _ hdl hh => (hhandle e.2).trans hh)
    (fun _ _ hdl _ _ hr => ?_) (fun child hW c hc => ?_) (fun _ h => h) (fun _ h => .inl h)
  · rcases hk with rfl | ⟨-, -, rfl⟩
    · exact hr
    · simpa [Memory.modifyProcess, Kernel.launch, reaped_concat] using hr
  · rcases hk with rfl | ⟨-, -, rfl⟩
    · exact hE.apart child hW c hc
    · rcases mem_concat.mp hc with hc | rfl
      · exact hE.apart child hW c hc
      · exact (hwaits (Nat.succ_ne_self _) child hW).symm

lemma waitpid (hl : Ledger m) {status : ℕ} (hv : m.validHandle name = some hdl)
    (hw : m.kernel.waitpid hdl.pid_ = .exited child status)
    (hnone : ∀ e ∈ m.pidToName_, e.1 ≠ hdl.pid_) : Exact (m.waitpid name) W := by
  obtain ⟨hchild, hpid⟩ := Kernel.mem_of_waitpid hw
  rw [waitpid_of_exited hv hw]
  refine hE.frame (fun _ h => h) (fun e he hdl' hh => ?_) (fun e he hdl' hv' hpid' hr => ?_)
    (fun c hW c' hc' => hE.apart c hW c' (mem_of_mem_filter hc')) (fun _ h => h)
    (fun _ h => .inl h)
  · rw [Ledger.handleOf_forget, if_neg]
    · exact hh
    · intro hname
      exact hnone e he (hE.eq_of_handle (handleOf_of_validHandle hv).1 e he hname)
  · rcases Kernel.reaped_reap.mp hr with hr | hlaunch
    · exact hr
    · -- The entry would have the number of the child that is reaped.
      have hlaunched := hl.launched e.2 hdl' hv'
      rw [hlaunch, hpid'] at hlaunched
      have hsame := hl.single _ _ _ hlaunched (hl.kernel.launched child hchild)
      exact absurd (hsame.trans hpid) (hnone e he)

end Exact

/-- The child whose exit the call inside of `mutex_` handles, until its number is erased. -/
def handled : Option Phase → Option Child
  | some (.exiting child _) | some (.found child _ _) => some child
  | _ => none

/-- The processes that are to be launched are there, and one that is about to be erased has no
entry. -/
def Ready (m : Memory) : Option Phase → Prop
  | some (.starting names) | some (.scanning _ names) =>
    ∀ x ∈ names, (m.find x).isSome = true
  | some (.due _ name names) | some (.restarting _ name names) =>
    ∀ x ∈ name :: names, (m.find x).isSome = true
  | some (.unlisted name) => ∀ e ∈ m.pidToName_, e.2 ≠ name
  | _ => True

section Phases

variable {op : Op} {φ φ' : Phase} {site : Site} {input : Input} {m m' : Memory}
  {W V : Child → Prop}

lemma Ready.congr {r : Option Phase} (h : Ready m r)
    (hfind : ∀ x, (m.find x).isSome = true → (m'.find x).isSome = true)
    (hpids : m'.pidToName_ = m.pidToName_) : Ready m' r := by
  unfold Ready at h ⊢
  split
  case h_1 | h_2 | h_3 | h_4 => exact fun x hx => hfind x (h x hx)
  case h_5 => rwa [hpids]
  case h_6 => trivial

lemma isSome_find_modifyProcess (m : Memory) (name x : String) (f : ProcessState → ProcessState) :
    ((m.modifyProcess name f).find x).isSome = (m.find x).isSome := by
  rw [find_modifyProcess]
  split_ifs
  · exact Option.isSome_map
  · rfl

lemma isSome_find_of_mem {x : String} (h : x ∈ m.processes_.map Prod.fst) :
    (m.find x).isSome = true := by
  obtain ⟨e, he, rfl⟩ := mem_map.mp h
  rw [Memory.find, lookup_isSome_iff]
  exact ⟨e, he, by simp⟩

lemma isSome_find_launch (name x : String) :
    ((m.launch name input).find x).isSome = (m.find x).isSome := by
  cases h : launches m input with
  | true =>
    rw [launch_of_launches h, isSome_find_modifyProcess]
    rfl
  | false =>
    obtain ⟨k, -, heq⟩ := launch_of_not_launches h name
    rw [heq, isSome_find_modifyProcess]
    rfl

lemma Ready.accesses (hE : Exact m W) (hr : Ready m (some φ))
    (h : Accesses op φ site input m m' φ') : Ready m' (some φ') := by
  cases h with
  | look h =>
    cases h with
    | stay => exact hr
    | startAll | surveyed => exact fun x hx => isSome_find_of_mem hx
    | startOne name h =>
      intro x hx
      rwa [mem_singleton.mp hx]
    | unlisted name h => exact hE.unmapped h
    | skip => exact fun x hx => hr x (mem_cons_of_mem _ hx)
    | due => exact hr
    | _ => trivial
  | set hm h =>
    cases h with
    | stay _ hφ => rcases hφ with rfl | rfl <;> trivial
    | _ => trivial
  | signal _ _ h =>
    rcases h with rfl | ⟨_, -, rfl⟩
    · exact hr
    · exact hr.congr (fun _ h => h) rfl
  | launched hφ h =>
    cases hφ with
    | start | restart =>
      intro x hx
      rw [isSome_find_launch]
      exact hr x (mem_cons_of_mem _ hx)
  | unlaunched hφ | uncollected hφ | collected hφ => cases hφ <;> trivial
  | change h =>
    cases h with
    | clear | reset =>
      intro x hx
      rw [isSome_find_modifyProcess]
      exact hr x hx
    | _ => trivial
  | unlist hφ h =>
    have hnone : ∀ {name : String}, (m.handleOf name = none ∧ m' = m ∨
        ∃ hdl, m.handleOf name = some hdl ∧ m' = m.erasePid hdl.pid_) →
        ∀ e ∈ m'.pidToName_, e.2 ≠ name := by
      rintro name (⟨hh, rfl⟩ | ⟨hdl, hh, rfl⟩)
      · exact hE.unmapped (validHandle_eq_none_iff.mpr fun hdl hsome => by
          rw [hh] at hsome
          cases hsome)
      · intro e he hname
        obtain ⟨hmem, hne⟩ := mem_filter.mp he
        simp [hE.eq_of_handle hh e hmem hname] at hne
    cases hφ with
    | halt => trivial
    | remove | waited => exact hnone h
  | unreaped | waited | exit | erase | add | remove => trivial

lemma handled_cases (h : Accesses op φ site input m m' φ') (hφ : φ.held = true) :
    (∀ child, handled (some φ') = some child → handled (some φ) = some child) ∧
      ∀ child, handled (some φ) = some child →
        handled (some φ') = some child ∨ ∀ e ∈ m'.pidToName_, e.1 ≠ child.pid := by
  cases h with
  | look h =>
    cases h with
    | unmapped child status h =>
      refine ⟨nofun, fun c hc => .inr ?_⟩
      cases hc
      exact ne_of_lookup h
    | _ => exact ⟨fun _ => id, fun _ => .inl⟩
  | set _ h | launched h | unlaunched h | change h | unlist h =>
    cases h <;> exact ⟨fun _ => id, fun _ => .inl⟩
  | erase =>
    refine ⟨nofun, fun c hc => .inr fun e he hpid => ?_⟩
    cases hc
    obtain ⟨-, hne⟩ := mem_filter.mp he
    simp [hpid] at hne
  | uncollected h | collected h => cases h <;> cases hφ
  | signal | unreaped | waited | add | remove => exact ⟨fun _ => id, fun _ => .inl⟩
  | exit => cases hφ

lemma Exact.inside (hl : Ledger m) (hφ : φ.held = true)
    (hE : Exact m fun child => V child ∨ handled (some φ) = some child) (hr : Ready m (some φ))
    (h : Accesses op φ site input m m' φ')
    (hapart : m'.kernel.launches ≠ m.kernel.launches → ∀ child, V child → child.pid ≠ input.pid)
    (hfor : ∀ e ∈ m.pidToName_, launchesFor m m' e.2 = false) (hwait : WaitsUnmapped site m) :
    Exact m' fun child => V child ∨ handled (some φ') = some child := by
  obtain ⟨hsub, hkeep⟩ := handled_cases h hφ
  replace hsub := fun child => Or.imp_right (a := V child) (hsub child)
  replace hkeep : ∀ child, V child ∨ handled (some φ) = some child →
      (V child ∨ handled (some φ') = some child) ∨ ∀ e ∈ m'.pidToName_, e.1 ≠ child.pid := by
    rintro child (hV | hhandled)
    · exact .inl (.inl hV)
    · exact (hkeep child hhandled).imp_left .inr
  have hframe : (∀ e ∈ m'.pidToName_, e ∈ m.pidToName_) →
      (∀ e ∈ m'.pidToName_, ∀ hdl, m.handleOf e.2 = some hdl → m'.handleOf e.2 = some hdl) →
      (∀ launch, Reaped m'.kernel.log launch → Reaped m.kernel.log launch) →
      m'.kernel.children = m.kernel.children →
      Exact m' fun child => V child ∨ handled (some φ') = some child := by
    intro hpids hhandle hreaped hchildren
    refine hE.frame hpids hhandle (fun _ _ hdl _ _ => hreaped hdl.launch) ?_ hsub hkeep
    intro child hW
    rw [hchildren]
    exact hE.apart child (hsub child hW)
  cases h with
  | look => exact hE.waits hsub hkeep
  | set hm =>
    refine hframe (fun e he => hm.pids ▸ he) (fun e _ hdl hh => ?_) (fun _ hr => hm.kernel ▸ hr)
      (by rw [hm.kernel])
    rw [Memory.handleOf, Memory.find, hm.processes]
    exact hh
  | signal _ _ h =>
    rcases h with rfl | ⟨_, -, rfl⟩
    · exact hE
    · refine hframe (fun _ h => h) (fun _ _ _ h => h) (fun launch hr => ?_) rfl
      simpa [Kernel.signal, reaped_concat] using hr
  | unreaped h => exact h.symm ▸ hE
  | waited hv hw =>
    exact hE.waitpid hl hv hw (ne_of_lookup (hwait _ hv (by rw [hw]; rfl)))
  | uncollected h | collected h => cases h <;> cases hφ
  | exit => cases hφ
  | @launched _ _ _ name _ _ hφ' h =>
    have hfind : (m.find name).isSome = true := by
      cases hφ' with
      | start | restart => exact hr name mem_cons_self
    have hname : ∀ e ∈ m.pidToName_, e.2 ≠ name := by
      rintro e he rfl
      have hnot := hfor e he
      rw [launchesFor, handleOf_launch h hfind] at hnot
      simp at hnot
    have hne : (m.launch name input).kernel.launches ≠ m.kernel.launches := by
      rw [launch_of_launches h]
      exact Nat.succ_ne_self _
    cases hφ' with
    | start | restart =>
      exact hE.launch hl h hfind hname fun child hW =>
        hapart hne child (hW.resolve_right (by simp [handled]))
  | unlaunched hφ' h =>
    cases hφ' with
    | start | restart =>
      exact hE.unlaunched h fun hne child hW =>
        hapart hne child (hW.resolve_right (by simp [handled]))
  | @change _ _ name f _ _ h =>
    refine hframe (fun _ h => h) (fun e _ hdl hh => ?_) (fun _ h => h) rfl
    rw [handleOf_modifyProcess]
    · exact hh
    · cases h <;> exact fun _ => rfl
  | erase =>
    exact hframe (fun _ h => mem_of_mem_filter h) (fun _ _ _ h => h) (fun _ h => h) rfl
  | unlist _ h =>
    rcases h with ⟨-, rfl⟩ | ⟨_, -, rfl⟩
    · exact hE.waits hsub hkeep
    · exact hframe (fun _ h => mem_of_mem_filter h) (fun _ _ _ h => h) (fun _ h => h) rfl
  | add =>
    refine hframe (fun _ h => h) (fun e _ hdl hh => ?_) (fun _ h => h) rfl
    obtain ⟨s, hs, hhandle⟩ := Option.bind_eq_some_iff.mp hh
    refine Option.bind_eq_some_iff.mpr ⟨s, ?_, hhandle⟩
    rw [Memory.find, lookup_append_singleton]
    exact Option.or_eq_some_iff.mpr (.inl hs)
  | remove =>
    refine hframe (fun _ h => h) (fun e he hdl hh => ?_) (fun _ h => h) rfl
    rw [Memory.handleOf, Memory.find, lookup_filter_ne, if_neg (hr e he)]
    exact hh

lemma children_of_not_held (h : Accesses op φ site input m m' φ') (hφ : φ.held = false) :
    ∀ c ∈ m'.kernel.children, ∃ c' ∈ m.kernel.children, c'.pid = c.pid := by
  intro c hc
  cases h with
  | look => exact ⟨c, hc, rfl⟩
  | set hm =>
    rw [hm.kernel] at hc
    exact ⟨c, hc, rfl⟩
  | uncollected _ h =>
    rw [collect_of_none h] at hc
    exact ⟨c, hc, rfl⟩
  | collected _ h =>
    rw [collect_of_some h] at hc
    exact ⟨c, mem_of_mem_filter hc, rfl⟩
  | exit =>
    obtain ⟨c', hc', rfl⟩ := mem_map.mp hc
    refine ⟨c', hc', ?_⟩
    split_ifs <;> rfl
  | signal _ hheld => rw [hφ] at hheld; cases hheld
  | launched h | unlaunched h | change h | unlist h => cases h <;> cases hφ
  | unreaped | waited | erase | add | remove => cases hφ

/-- **An access outside of `mutex_` keeps the map exact**; `V` are the other children that wait, and
a child is dropped only if it has no entry. -/
lemma Exact.outside (hl : Ledger m) (hφ : φ.held = false)
    (hE : Exact m fun child => φ.hand = some child ∨ V child)
    (h : Accesses op φ site input m m' φ')
    (hdrop : ∀ child, φ.hand = some child → ∀ e ∈ m.pidToName_, e.1 ≠ child.pid) :
    Exact m' fun child => φ'.hand = some child ∨ V child := by
  have hV : Exact m V := by
    refine hE.waits (fun _ => .inr) ?_
    rintro child (hhand | hV)
    · exact .inr (hdrop child hhand)
    · exact .inl hV
  rcases Waits.reaps_cases h with ⟨hreaps, hhand⟩ |
    ⟨_, f, child, status, hcollects, rfl, hany, rfl⟩ | ⟨_, _, _, _, -, -, -, -, rfl, -⟩
  · obtain ⟨hprocesses, hpids⟩ := h.same_of_not_held hφ
    refine Exact.congr (W := V) ?_ fun child => by simp [hhand]
    refine hV.frame (fun e he => hpids ▸ he) (fun e _ hdl hh => ?_) (fun _ _ hdl _ _ hr => ?_)
      (fun child hW c hc => ?_) (fun _ h => h) (fun _ h => .inl h)
    · rw [Memory.handleOf, Memory.find, hprocesses]
      exact hh
    · obtain ⟨reaper, hr⟩ := hr
      exact ⟨reaper, by rwa [← mem_reaps, hreaps, mem_reaps] at hr⟩
    · obtain ⟨c', hc', hpid⟩ := children_of_not_held h hφ c hc
      rw [← hpid]
      exact hV.apart child hW c' hc'
  · have hhand : (f child status).hand = some child := by cases hcollects <;> rfl
    rw [hhand]
    exact (hV.collect hl (Kernel.mem_of_waitAny hany)).congr fun c => by simp
  · cases hφ

end Phases

section Steps

variable {ι : Type*} {m m' : Memory} {h : History ι Op Call (List (ℕ × Option ℕ))} {t : ι}
  {op : Op} {k : Call} {calls : List (Op × Call)} {φ φ' : Phase} {r r' : Option Phase}

/-- The child waits for `handleChildExit`: a call has it in hand, or handles it. -/
def Waiting (h : History ι Op Call (List (ℕ × Option ℕ))) (r : Option Phase) (child : Child) :
    Prop :=
  h.Any (fun k => k.hand = some child) ∨ handled r = some child

/-- The invariant of the map. -/
structure Mapped (m : Memory) (h : History ι Op Call (List (ℕ × Option ℕ))) (r : Option Phase) :
    Prop where
  map : Exact m (Waiting h r)
  ready : Ready m r
  taken : ∀ p ∈ h.past, p.2 = some p.1

def Holds (_ : Op) (φ : Phase) (k : Call) : Prop :=
  k.hand = φ.hand ∧ ∀ child, k.handling = some child → ∃ status, φ = .exiting child status

lemma waiting_iff (hcalls : h.calls t = (op, k) :: calls) (child : Child) :
    Waiting h r child ↔ (k.hand = some child ∨ h.Others (fun k => k.hand = some child) t calls) ∨
      handled r = some child := by
  rw [Waiting, History.any_iff hcalls, History.others_cons]

lemma watchesAccesses : recorder.WatchesAccesses := by
  intro obs op k past hobs
  cases obs with
  | accessed => cases hobs
  | _ => rfl

variable [DecidableEq ι]

variable {obs : Observation Mutex Memory Input Site Op}

lemma waiting_record (hcalls : h.calls t = (op, k) :: calls) (hobs : obs.goesOn = true)
    (child : Child) :
    Waiting (recorder.record h t obs) r child ↔
      ((recorder.note obs op k).hand = some child ∨
        h.Others (fun k => k.hand = some child) t calls) ∨ handled r = some child := by
  rw [Waiting, recorder.any_goesOn hcalls hobs]

lemma Mapped.step (hM : Mapped m h r) (hcalls : h.calls t = (op, k) :: calls)
    (hobs : obs.goesOn = true) (haccess : obs.isAccess = false)
    (hwaits : ∀ child, (recorder.note obs op k).hand = some child ∨ handled r' = some child ↔
      k.hand = some child ∨ handled r = some child) (hready : Ready m r') :
    Mapped m (recorder.record h t obs) r' := by
  refine ⟨hM.map.congr fun child => ?_, hready, ?_⟩
  · rw [waiting_record hcalls hobs, waiting_iff hcalls, or_right_comm, hwaits child, or_right_comm]
  · rw [recorder.past_of_watchesAccesses watchesAccesses hcalls
      (Observation.isStart_of_goesOn hobs) haccess]
    exact hM.taken

lemma Mapped.taken_record (hM : Mapped m h r) (hcalls : h.calls t = (op, k) :: calls)
    (hhandling : ∀ child, k.handling = some child → handled r = some child) (site : Site)
    (input : Input) :
    ∀ p ∈ (recorder.record h t (.accessed site input m m')).past, p.2 = some p.1 := by
  rw [recorder.past_of_call hcalls rfl]
  intro p hp
  rcases mem_append.mp hp with hp | hp
  · exact hM.taken p hp
  · obtain ⟨child, hchild, hlookup⟩ := Option.bind_eq_some_iff.mp (Option.mem_toList.mp hp)
    obtain ⟨name, hname, rfl⟩ := Option.map_eq_some_iff.mp hlookup
    obtain ⟨hdl, hv, hlaunch⟩ := hM.map.right child (.inr (hhandling child hchild))
      (child.pid, name) (mem_of_lookup hname) rfl
    simp [(handleOf_of_validHandle hv).1, hlaunch]

lemma Mapped.keeps : outline.Keeps (ι := ι) recorder Careful Ledger Holds Mapped where
  started _ _ hM := by
    refine ⟨⟨rfl, nofun⟩, hM.map.congr fun child => ?_, hM.ready, ?_⟩
    · rw [Waiting, recorder.any_started]
      simp [recorder, Waiting]
    · exact hM.taken
  ended hcalls hL _ hok hM := by
    refine ⟨hM.map.waits (fun child hW => ?_) (fun child hW => ?_), hM.ready, ?_⟩
    · rw [Waiting, recorder.any_ended hcalls] at hW
      rw [waiting_iff hcalls]
      exact hW.imp_left .inr
    · rw [waiting_iff hcalls] at hW
      rw [Waiting, recorder.any_ended hcalls]
      rcases hW with (hhand | hothers) | hhandled
      · exact .inr (ne_of_lookup (hok child hhand))
      · exact .inl (.inl hothers)
      · exact .inl (.inr hhandled)
    · rw [recorder.past_of_watchesAccesses watchesAccesses hcalls rfl rfl]
      exact hM.taken
  entered henters hcalls hL _ _ hM := by
    cases henters with
    | exiting child status =>
      refine ⟨⟨rfl, fun c hc => ⟨status, ?_⟩⟩, hM.step hcalls rfl rfl (fun c => ?_) trivial⟩
      · obtain rfl : child = c := Option.some.inj (hL.1.symm.trans hc)
        rfl
      · simp [recorder, handled, hL.1, Phase.hand]
    | inside | stopping | surveying =>
      refine ⟨⟨rfl, fun c hc => ?_⟩, hM.step hcalls rfl rfl (fun c => ?_) trivial⟩
      · cases hL.1.symm.trans hc
      · simp [recorder, handled, hL.1, Phase.hand]
  left hleaves hcalls hL _ _ hM := by
    refine ⟨⟨by cases hleaves <;> rfl, nofun⟩, hM.step hcalls rfl rfl (fun c => ?_) trivial⟩
    cases hleaves <;> simp [recorder, handled, hL.1, Phase.hand]
  inside {t op k calls φ φ' site input s s' h} hφ hacc hcalls hL hl hok hM := by
    obtain ⟨hapart, hfor, hwait, -⟩ := hok
    have hhand := collectedBy_of_accesses hl hacc
    have hφ' : φ'.hand = none :=
      Phase.hand_of_held ((outline.held_of_accesses hacc).trans hφ)
    refine ⟨⟨hhand, nofun⟩, ?_, hM.ready.accesses hM.map hacc,
      hM.taken_record hcalls (fun child hc => ?_) site input⟩
    · have hE : Exact s fun child => h.Others (fun k => k.hand = some child) t calls ∨
          handled (some φ) = some child := by
        refine hM.map.congr fun child => ?_
        rw [waiting_iff hcalls, hL.1, Phase.hand_of_held hφ]
        simp
      refine (hE.inside hl hφ hM.ready hacc (fun hne child hV hpid => ?_) hfor hwait).congr
        fun child => ?_
      · obtain ⟨u, call, hmem, hc⟩ :=
          (History.any_iff hcalls).mpr (History.others_cons.mpr (.inr hV))
        exact hapart hne ⟨u, call, hmem, child, hc, hpid⟩
      · rw [waiting_record hcalls rfl]
        simp [recorder, hhand, hφ']
    · obtain ⟨status, rfl⟩ := hL.2 child hc
      rfl
  outside {t op k calls φ φ' site input s s' h r} hφ hacc hcalls hL hl hok hM := by
    obtain ⟨-, -, -, hdrop⟩ := hok
    have hhand := collectedBy_of_accesses hl hacc
    obtain ⟨hprocesses, hpids⟩ := hacc.same_of_not_held hφ
    refine ⟨⟨hhand, nofun⟩, ?_, hM.ready.congr (fun x hx => ?_) hpids,
      hM.taken_record hcalls (fun child hc => ?_) site input⟩
    · have hE : Exact s fun child => φ.hand = some child ∨
          (h.Others (fun k => k.hand = some child) t calls ∨ handled r = some child) := by
        refine hM.map.congr fun child => ?_
        rw [waiting_iff hcalls, hL.1, or_assoc]
      refine (hE.outside hl hφ hacc fun child hc => ?_).congr fun child => ?_
      · exact ne_of_lookup (hdrop child (hL.1.trans hc))
      · rw [waiting_record hcalls rfl, or_assoc]
        simp [recorder, hhand]
    · rw [Memory.find, hprocesses]
      exact hx
    · obtain ⟨status, rfl⟩ := hL.2 child hc
      cases hφ
  resumed hcalls hL _ _ hM := by
    exact ⟨hL, hM.step hcalls rfl rfl (fun _ => Iff.rfl) hM.ready⟩

end Steps

/-- **The map is exact.** In every run whose steps are careful, if nobody owns `mutex_`, every entry
names a process whose valid handle has the number, and its child was not reaped, or it was collected
and waits for `handleChildExit`. Every exit is taken for the process whose child has exited. -/
theorem exact_of_careful {ι : Type*} [DecidableEq ι]
    {w : Watched Mutex Memory Input Site ι Op Call (List (ℕ × Option ℕ))}
    (h : (recorder.watched ι program (· = fresh) []).ReachableWithin (recorder.Allows Careful) w) :
    (w.config.owner .supervisor = none → ∀ e ∈ w.config.mem.pidToName_,
      ∃ hdl, w.config.mem.validHandle e.2 = some hdl ∧ hdl.pid_ = e.1 ∧
        (¬ Reaped w.config.mem.kernel.log hdl.launch ∨
          w.history.Any fun call => ∃ child ∈ call.hand, child.launch = hdl.launch)) ∧
    ∀ p ∈ w.history.past, p.2 = some p.1 := by
  have hinit : Mapped fresh (Recorder.nothing (ι := ι) []) none :=
    ⟨⟨fun _ he => absurd he not_mem_nil, fun _ _ _ he => absurd he not_mem_nil,
      fun _ _ _ hc => absurd hc not_mem_nil⟩, trivial, fun _ hp => absurd hp not_mem_nil⟩
  obtain ⟨_, r, hO⟩ := Mapped.keeps.invariant follows_program (by rintro _ rfl; exact hinit)
    (fun _ _ hok => hok) (fun _ hw => ledger_of_reachable hw) h
  refine ⟨fun hfree e he => ?_, hO.holds.taken⟩
  obtain rfl := hO.free hfree
  obtain ⟨hdl, hv, hpid, hwaits⟩ := hO.holds.map.entry e he
  refine ⟨hdl, hv, hpid, or_iff_not_imp_left.mpr fun hr => ?_⟩
  obtain ⟨child, hW, hlaunch, -⟩ := hwaits (not_not.mp hr)
  obtain ⟨t, call, hmem, hhand⟩ := hW.resolve_right nofun
  exact ⟨t, call, hmem, child, hhand, hlaunch⟩

theorem exact_of_careful_restart :
    ∃ w : Watched Mutex Memory Input Site Bool Op Call (List (ℕ × Option ℕ)),
    (recorder.watched Bool program (· = fresh) []).ReachableWithin (recorder.Allows Careful) w ∧
    w.config.mem.kernel.log = [.launched 0 7, .reaped 0 .any, .launched 1 7] ∧
    w.config.owner .supervisor = none ∧ w.config.mem.pidToName_ = [(7, "a")] ∧
    w.history.past = [(0, some 0)] ∧
    (∃ hdl, w.config.mem.validHandle "a" = some hdl ∧ hdl.pid_ = 7 ∧
      (¬ Reaped w.config.mem.kernel.log hdl.launch ∨
        w.history.Any fun call => ∃ child ∈ call.hand, child.launch = hdl.launch)) ∧
    ∀ p ∈ w.history.past, p.2 = some p.1 := by
  have hw : (recorder.watched Bool program (· = fresh) []).ReachableWithin
      (recorder.Allows Careful) _ :=
    .final ⟨initial fresh, Recorder.nothing []⟩
      ((true, .start (.add (eager "a"))) :: startRun.tail ++ exitRun 0 ++ go false 8 ++
        [(false, .go { pid := 7 })] ++ go false 3) ⟨fresh, rfl, rfl⟩ (by decide +kernel)
  obtain ⟨hexact, htaken⟩ := exact_of_careful hw
  exact ⟨_, hw, by decide +kernel, by decide +kernel, by decide +kernel, by decide +kernel,
    hexact (by decide +kernel) (7, "a") (by decide +kernel), htaken⟩

/-- **An entry stays behind, and an exit is taken for the wrong process.** In the first run a child
exits, and `remove` reaps it through the handle, which forgets the number `7` before it is erased:
the process is gone, and the entry is still there. In the second run the supervisor's thread
collects the child `7` of `"a"`; before it locks `mutex_`, a child of `"b"` is launched under the
number `7`, and the exit is taken for `"b"`. -/
theorem stale_and_wrong :
    (∃ w : Watched Mutex Memory Input Site Bool Op Call (List (ℕ × Option ℕ)),
      (recorder.watched Bool program (· = fresh) []).Reachable w ∧
      w.config.owner .supervisor = none ∧ w.config.mem.pidToName_ = [(7, "a")] ∧
      (w.config.mem.find "a").isSome = false ∧
      w.config.mem.kernel.log = [.launched 0 7, .signalled .term 7 0, .reaped 0 .handle] ∧
      ∀ t, ∀ call ∈ w.history.calls t, call.2.hand = none) ∧
    ∃ w : Watched Mutex Memory Input Site Bool Op Call (List (ℕ × Option ℕ)),
      (recorder.watched Bool program (· = fresh) []).Reachable w ∧
      w.config.mem.kernel.log = [.launched 0 7, .reaped 0 .any, .launched 1 7] ∧
      w.history.past = [(0, some 1)] := by
  constructor
  · exact TransitionSystem.reached_by ⟨initial fresh, Recorder.nothing []⟩
      (startRun ++ [(true, .start (.childExit 0 0)), (true, .go {}), (true, .go {})] ++
        (true, .start (.remove "a" 1)) :: go true 9) ⟨fresh, rfl, rfl⟩ (by decide +kernel)
  · exact TransitionSystem.reached_by ⟨initial fresh, Recorder.nothing []⟩
      (startRun ++ (true, .start (.add (plain "b"))) :: go true 5 ++
        [(true, .start (.childExit 0 0)), (true, .go {}), (true, .go {}), (false, .go {}),
          (false, .go { poll := .readable }), (false, .go {})] ++
        (true, .start (.startProcess "b")) :: go true 2 ++ (true, .go { pid := 7 }) ::
          go true 3 ++ go false 2) ⟨fresh, rfl, rfl⟩ (by decide +kernel)

end Pman.ProcessSupervisor.PidMap
