import Pman.Process.Signals

set_option autoImplicit false

/-!
# What the handles know, in every run

Whatever the operations do, the table of children is the one that the log tells, a launch has one
number, every handle was made for a launch of its own, and a valid handle has the number of its
launch. A handle that was forgotten keeps its launch, so it still tells which child was the last one
of a process.
-/

namespace Pman.ProcessSupervisor

open Option Memory LockProgram Process

/-! ### The operations on the memory -/

namespace Memory

variable {m : Memory} {name : String} {input : Input}

lemma handleOf_modifyProcess (m : Memory) (name x : String) {f : ProcessState → ProcessState}
    (hf : ∀ s, (f s).handle = s.handle) : (m.modifyProcess name f).handleOf x = m.handleOf x := by
  unfold handleOf
  rw [find_modifyProcess]
  split_ifs
  · cases m.find x with
    | none => rfl
    | some s => exact hf s
  · rfl

lemma lookup_append_singleton (l : List (String × ProcessState)) (y x : String)
    (s : ProcessState) :
    (l ++ [(y, s)]).lookup x = (l.lookup x).or (if x = y then some s else none) := by
  rw [List.lookup_append, List.lookup_cons]
  by_cases hxy : x = y
  · simp [hxy]
  · have hne : (x == y) = false := by simpa using hxy
    simp [hxy, hne]

variable {pid : ℤ} {hdl : ProcessHandle} {child : Child} {status : ℕ}

lemma mem_of_lookup (h : m.pidToName_.lookup pid = some name) : (pid, name) ∈ m.pidToName_ := by
  obtain ⟨_, _, heq, -⟩ := List.lookup_eq_some_iff.mp h
  simp [heq]

section

variable (h : launches m input = true)

include h

lemma launch_of_launches (name : String) :
    m.launch name input =
      ({ m with
        kernel := m.kernel.launch input.pid
        pidToName_ := (m.erasePid input.pid).pidToName_ ++ [(input.pid, name)] } :
        Memory).modifyProcess name fun s =>
          s.started ⟨input.pid, input.pidfd, m.kernel.launches⟩ input.now := by
  obtain ⟨hfree, hok⟩ : m.kernel.free input.pid = true ∧ input.launch = .ok := by
    simpa [launches] using h
  rw [launch, if_pos hfree, hok]

lemma handleOf_launch (hfind : (m.find name).isSome = true) :
    (m.launch name input).handleOf name =
      some ⟨input.pid, input.pidfd, m.kernel.launches⟩ := by
  obtain ⟨s, hs⟩ := isSome_iff_exists.mp hfind
  rw [launch_of_launches h, handleOf, find_modifyProcess, if_pos rfl]
  show (Option.map _ (m.find name)).bind _ = _
  rw [hs]
  rfl

lemma free_of_launches : m.kernel.free input.pid = true := by
  obtain ⟨hfree, -⟩ : m.kernel.free input.pid = true ∧ input.launch = .ok := by
    simpa [launches] using h
  exact hfree

lemma pos_of_launches : 0 < input.pid := by
  simpa using (Bool.and_eq_true_iff.mp (free_of_launches h)).1

end

lemma launch_of_not_launches (h : launches m input = false) (name : String) :
    ∃ k, (k = m.kernel ∨ m.kernel.free input.pid = true ∧ input.launch = .orphaned ∧
        k = m.kernel.launch input.pid) ∧
      m.launch name input = ({ m with kernel := k } : Memory).modifyProcess name .stopped := by
  unfold launch
  split_ifs with hfree
  · cases hl : input.launch with
    | ok => simp [launches, hfree, hl] at h
    | failed => exact ⟨m.kernel, .inl rfl, rfl⟩
    | orphaned => exact ⟨m.kernel.launch input.pid, .inr ⟨hfree, rfl, rfl⟩, rfl⟩
  · exact ⟨m.kernel, .inl rfl, rfl⟩

lemma waitpid_of_exited (hv : m.validHandle name = some hdl)
    (h : m.kernel.waitpid hdl.pid_ = .exited child status) :
    m.waitpid name =
      ({ m with kernel := m.kernel.reap child .handle } : Memory).modifyProcess name fun s =>
        { s with handle := s.handle.map ProcessHandle.forget } := by
  simp only [waitpid, hv, h]

lemma collect_of_none (h : m.kernel.waitAny input.pid = none) : m.collect input = m := by
  simp only [collect, h]

lemma collect_of_some (h : m.kernel.waitAny input.pid = some (child, status)) :
    m.collect input = { m with kernel := m.kernel.reap child .any } := by
  simp only [collect, h]

lemma ne_of_lookup (h : m.pidToName_.lookup pid = none) : ∀ e ∈ m.pidToName_, e.1 ≠ pid := by
  rintro e he rfl
  simpa using List.lookup_eq_none_iff.mp h e he

lemma handleOf_of_validHandle (h : m.validHandle name = some hdl) :
    m.handleOf name = some hdl ∧ hdl.valid = true :=
  filter_eq_some_iff.mp h

lemma validHandle_eq_none_iff :
    m.validHandle name = none ↔ ∀ hdl, m.handleOf name = some hdl → hdl.valid = false := by
  show (m.handleOf name).filter _ = none ↔ _
  rw [filter_eq_none_iff]
  constructor
  · intro h hdl hh
    simpa using h hdl hh
  · intro h hdl hh
    simpa using h hdl hh

end Memory

def launchesFor (before after : Memory) (name : String) : Bool :=
  (after.handleOf name).any fun hdl => hdl.launch == before.kernel.launches

/-! ### The facts -/

/-- What always holds between the handles, the children and the log. -/
structure Ledger (m : Memory) : Prop where
  kernel : m.kernel.Consistent
  single : ∀ launch p p', .launched launch p ∈ m.kernel.log → .launched launch p' ∈ m.kernel.log →
    p = p'
  positive : ∀ launch p, .launched launch p ∈ m.kernel.log → 0 < p
  launched : ∀ name hdl, m.validHandle name = some hdl → .launched hdl.launch hdl.pid_ ∈ m.kernel.log
  fresh : ∀ name hdl, m.handleOf name = some hdl → hdl.launch < m.kernel.launches
  distinct : ∀ name name' hdl hdl', m.handleOf name = some hdl → m.handleOf name' = some hdl' →
    hdl.launch = hdl'.launch → name = name'

namespace Ledger

variable {m m' : Memory} {name : String}

/-- The handles of the processes, by the one they had before: a handle may have been forgotten, but
it is for the same launch. -/
def HandlesFrom (m m' : Memory) : Prop :=
  ∀ x hdl', m'.handleOf x = some hdl' →
    ∃ hdl, m.handleOf x = some hdl ∧ hdl'.launch = hdl.launch ∧ (hdl'.valid = true → hdl' = hdl)

lemma HandlesFrom.of_imp (h : ∀ x hdl, m'.handleOf x = some hdl → m.handleOf x = some hdl) :
    HandlesFrom m m' :=
  fun x hdl hx => ⟨hdl, h x hdl hx, rfl, fun _ => rfl⟩

lemma handles (hl : Ledger m) (hk : m'.kernel = m.kernel) (hh : HandlesFrom m m') : Ledger m' := by
  refine ⟨hk ▸ hl.kernel, hk ▸ hl.single, hk ▸ hl.positive, fun x hdl' hv => ?_,
    fun x hdl' hx => ?_, fun x y hdl' hdl'' hx hy heq => ?_⟩
  · obtain ⟨hx, hvalid⟩ := handleOf_of_validHandle hv
    obtain ⟨hdl, hold, -, hsame⟩ := hh x hdl' hx
    obtain rfl := hsame hvalid
    rw [hk]
    exact hl.launched x hdl' (filter_eq_some_iff.mpr ⟨hold, hvalid⟩)
  · obtain ⟨hdl, hold, hlaunch, -⟩ := hh x hdl' hx
    rw [hk, hlaunch]
    exact hl.fresh x hdl hold
  · obtain ⟨hdl₁, h₁, heq₁, -⟩ := hh x hdl' hx
    obtain ⟨hdl₂, h₂, heq₂, -⟩ := hh y hdl'' hy
    exact hl.distinct x y hdl₁ hdl₂ h₁ h₂ (heq₁.symm.trans (heq.trans heq₂))

lemma withKernel (hl : Ledger m) {k : Kernel} (hk : k.Consistent)
    (hlog : ∀ launch p, .launched launch p ∈ k.log ↔ .launched launch p ∈ m.kernel.log)
    (hlaunches : k.launches = m.kernel.launches) : Ledger { m with kernel := k } := by
  refine ⟨hk, fun launch p p' hp hp' => ?_, fun launch p hp => ?_, fun x hdl hv => ?_,
    fun x hdl hx => ?_, hl.distinct⟩
  · exact hl.single launch p p' ((hlog _ _).mp hp) ((hlog _ _).mp hp')
  · exact hl.positive launch p ((hlog _ _).mp hp)
  · exact (hlog _ _).mpr (hl.launched x hdl hv)
  · rw [hlaunches]
    exact hl.fresh x hdl hx

lemma kernelLaunch (hl : Ledger m) {pid : ℤ} (hfree : m.kernel.free pid = true) :
    Ledger { m with kernel := m.kernel.launch pid } := by
  have hpos : 0 < pid := by
    simpa using (Bool.and_eq_true_iff.mp hfree).1
  have hcases : ∀ launch p, .launched launch p ∈ (m.kernel.launch pid).log →
      .launched launch p ∈ m.kernel.log ∨ launch = m.kernel.launches ∧ p = pid := by
    intro launch p h
    simpa [Kernel.launch] using h
  have hold : ∀ launch p, .launched launch p ∈ m.kernel.log → launch < m.kernel.launches :=
    hl.kernel.fresh
  refine ⟨hl.kernel.launch hfree, fun launch p p' hp hp' => ?_, fun launch p hp => ?_,
    fun x hdl hv => List.mem_append_left _ (hl.launched x hdl hv),
    fun x hdl hx => Nat.lt_succ_of_lt (hl.fresh x hdl hx), hl.distinct⟩
  · rcases hcases _ _ hp with h | ⟨rfl, rfl⟩
    · rcases hcases _ _ hp' with h' | ⟨rfl, rfl⟩
      · exact hl.single launch p p' h h'
      · exact absurd (hold _ _ h) (lt_irrefl _)
    · rcases hcases _ _ hp' with h' | ⟨-, rfl⟩
      · exact absurd (hold _ _ h') (lt_irrefl _)
      · rfl
  · rcases hcases _ _ hp with hp | ⟨-, rfl⟩
    · exact hl.positive launch p hp
    · exact hpos

variable {x : String} {hdl : ProcessHandle} {input : Input} {op : Op} {φ φ' : Phase} {site : Site}

lemma handleOf_started {pid now : ℤ} {pidfd : Bool} {launch : ℕ}
    (h : (m.modifyProcess name fun s => s.started ⟨pid, pidfd, launch⟩ now).handleOf x = some hdl) :
    x = name ∧ hdl = ⟨pid, pidfd, launch⟩ ∨ x ≠ name ∧ m.handleOf x = some hdl := by
  unfold Memory.handleOf at h
  rw [find_modifyProcess] at h
  split_ifs at h with hx
  · cases hfind : m.find x with
    | none => simp [hfind] at h
    | some s =>
      rw [hfind] at h
      exact .inl ⟨hx, (some.inj h).symm⟩
  · exact .inr ⟨hx, h⟩

lemma launch (hl : Ledger m) (h : launches m input = true) (name : String) :
    Ledger (m.launch name input) := by
  have hkernel := hl.kernelLaunch (free_of_launches h)
  rw [launch_of_launches h]
  refine ⟨hkernel.kernel, hkernel.single, hkernel.positive, fun x hdl hv => ?_,
    fun x hdl hx => ?_, fun x y hdl hdl' hx hy heq => ?_⟩
  · obtain ⟨hx, hvalid⟩ := handleOf_of_validHandle hv
    rcases handleOf_started hx with ⟨-, rfl⟩ | ⟨-, hold⟩
    · exact List.mem_append_right _ (List.mem_singleton_self _)
    · exact hkernel.launched x hdl (filter_eq_some_iff.mpr ⟨hold, hvalid⟩)
  · rcases handleOf_started hx with ⟨-, rfl⟩ | ⟨-, hold⟩
    · exact Nat.lt_succ_self _
    · exact hkernel.fresh x hdl hold
  · rcases handleOf_started hx with ⟨rfl, rfl⟩ | ⟨-, hold⟩
    · rcases handleOf_started hy with ⟨rfl, -⟩ | ⟨-, hold'⟩
      · rfl
      · exact absurd heq.symm ((hl.fresh y hdl' hold').ne)
    · rcases handleOf_started hy with ⟨rfl, rfl⟩ | ⟨-, hold'⟩
      · exact absurd heq ((hl.fresh x hdl hold).ne)
      · exact hl.distinct x y hdl hdl' hold hold' heq

lemma handleOf_forget (m : Memory) (name x : String) :
    (m.modifyProcess name fun s =>
      { s with handle := s.handle.map ProcessHandle.forget }).handleOf x =
      if x = name then (m.handleOf x).map ProcessHandle.forget else m.handleOf x := by
  unfold Memory.handleOf
  rw [find_modifyProcess]
  split_ifs
  · cases m.find x <;> rfl
  · rfl

lemma handlesFrom_forget (m : Memory) (name : String) :
    HandlesFrom m (m.modifyProcess name fun s =>
      { s with handle := s.handle.map ProcessHandle.forget }) := by
  intro x hdl' hx
  rw [handleOf_forget] at hx
  split_ifs at hx
  · obtain ⟨hdl, hm, rfl⟩ := map_eq_some_iff.mp hx
    refine ⟨hdl, hm, rfl, fun hvalid => ?_⟩
    simp [ProcessHandle.valid_forget] at hvalid
  · exact ⟨hdl', hx, rfl, fun _ => rfl⟩

lemma handleOf_of_add {spec : SupervisedProcess}
    (h : ({ m with
      processes_ := m.processes_ ++
        [(spec.name, { spec := spec, status := { name := spec.name } })] } : Memory).handleOf x =
      some hdl) : m.handleOf x = some hdl := by
  rw [Memory.handleOf, Memory.find, lookup_append_singleton] at h
  obtain ⟨s, hs, hhdl⟩ := bind_eq_some_iff.mp h
  rcases or_eq_some_iff.mp hs with hs | ⟨-, hs⟩
  · rw [Memory.handleOf, Memory.find, hs]
    exact hhdl
  · split_ifs at hs
    cases hs
    cases hhdl

lemma handleOf_of_remove
    (h : ({ m with processes_ := m.processes_.filter fun e => e.1 != name } : Memory).handleOf x =
      some hdl) : m.handleOf x = some hdl := by
  rw [Memory.handleOf, Memory.find, lookup_filter_ne] at h
  split_ifs at h
  · cases h
  · exact h

/-- **What an access may do to the handles**: nothing but drop one; or a `waitpid` forgets one; or a
launch makes one. -/
lemma handles_cases (h : Accesses op φ site input m m' φ') :
    (∀ x hdl, m'.handleOf x = some hdl → m.handleOf x = some hdl) ∨
    (∃ name hdl child status, site = .waitpid name ∧ m.validHandle name = some hdl ∧
      m.kernel.waitpid hdl.pid_ = .exited child status ∧ m' = m.waitpid name) ∨
    ∃ name φ'', Launches op name φ φ' φ'' ∧ launches m input = true ∧ m' = m.launch name input := by
  have hsame : (∀ x, m'.handleOf x = m.handleOf x) →
      ∀ x hdl, m'.handleOf x = some hdl → m.handleOf x = some hdl :=
    fun hsame x hdl hx => (hsame x).symm.trans hx
  cases h with
  | look | exit | erase => exact .inl fun _ _ hx => hx
  | set hm =>
    refine .inl (hsame fun x => ?_)
    rw [Memory.handleOf, Memory.find, hm.processes]
    rfl
  | signal _ _ h =>
    rcases h with rfl | ⟨_, -, rfl⟩
    · exact .inl fun _ _ hx => hx
    · exact .inl fun _ _ hx => hx
  | unreaped h => exact .inl (hsame fun x => by rw [h])
  | waited hv h => exact .inr (.inl ⟨_, _, _, _, rfl, hv, h, rfl⟩)
  | uncollected _ h => exact .inl (hsame fun x => by rw [collect_of_none h])
  | collected _ h => exact .inl (hsame fun x => by rw [collect_of_some h]; rfl)
  | launched hφ h => exact .inr (.inr ⟨_, _, hφ, h, rfl⟩)
  | unlaunched _ h =>
    obtain ⟨k, -, heq⟩ := launch_of_not_launches h _
    refine .inl (hsame fun x => ?_)
    rw [heq]
    exact handleOf_modifyProcess { m with kernel := k } _ x fun _ => rfl
  | change h =>
    refine .inl (hsame fun x => m.handleOf_modifyProcess _ x fun s => ?_)
    cases h <;> rfl
  | unlist _ h =>
    rcases h with ⟨-, rfl⟩ | ⟨_, -, rfl⟩
    · exact .inl fun _ _ hx => hx
    · exact .inl fun _ _ hx => hx
  | add => exact .inl fun _ _ hx => handleOf_of_add hx
  | remove => exact .inl fun _ _ hx => handleOf_of_remove hx

lemma reap (hl : Ledger m) {child : Child} (h : child ∈ m.kernel.children) (reaper : Reaper) :
    Ledger { m with kernel := m.kernel.reap child reaper } :=
  hl.withKernel (hl.kernel.reap h reaper) (fun launch p => by simp [Kernel.reap]) rfl

lemma kernel_of_accesses (hl : Ledger m) (h : Accesses op φ site input m m' φ') :
    Ledger { m with kernel := m'.kernel } ∨
      ∃ name, launches m input = true ∧ m' = m.launch name input := by
  cases h with
  | look | change | erase | add | remove => exact .inl hl
  | set hm => exact .inl (by rwa [hm.kernel])
  | signal sig _ h =>
    rcases h with rfl | ⟨hdl, -, rfl⟩
    · exact .inl hl
    · exact .inl
        (hl.withKernel (hl.kernel.signal _ _ _) (fun launch p => by simp [Kernel.signal]) rfl)
  | unreaped h => exact .inl (by rwa [h])
  | waited hv h =>
    rw [waitpid_of_exited hv h]
    exact .inl (hl.reap (Kernel.mem_of_waitpid h).1 .handle)
  | uncollected _ h => exact .inl (by rwa [collect_of_none h])
  | collected _ h =>
    rw [collect_of_some h]
    exact .inl (hl.reap (Kernel.mem_of_waitAny h) .any)
  | exit => exact .inl (hl.withKernel (hl.kernel.exit _ _) (fun _ _ => Iff.rfl) rfl)
  | launched _ h => exact .inr ⟨_, h, rfl⟩
  | unlaunched _ h =>
    obtain ⟨k, hk, heq⟩ := launch_of_not_launches h _
    rw [heq]
    rcases hk with rfl | ⟨hfree, -, rfl⟩
    · exact .inl hl
    · exact .inl (hl.kernelLaunch hfree)
  | unlist _ h =>
    rcases h with ⟨-, rfl⟩ | ⟨hdl, -, rfl⟩
    · exact .inl hl
    · exact .inl hl

lemma accesses (h : Accesses op φ site input m m' φ') (hl : Ledger m) : Ledger m' := by
  rcases handles_cases h with hsub | ⟨name, hdl, child, status, -, hv, hw, rfl⟩ |
    ⟨name, _, -, hlaunches, rfl⟩
  · rcases hl.kernel_of_accesses h with hkernel | ⟨name, hlaunches, rfl⟩
    · exact hkernel.handles rfl (.of_imp hsub)
    · exact hl.launch hlaunches name
  · rw [waitpid_of_exited hv hw]
    exact (hl.reap (Kernel.mem_of_waitpid hw).1 .handle).handles rfl (handlesFrom_forget _ _)
  · exact hl.launch hlaunches name

end Ledger

lemma ledger_of_reachable {ι κ γ : Type*} [DecidableEq ι]
    {R : Recorder Mutex Memory Input Site Op κ γ} {past : γ}
    {ok : Watched Mutex Memory Input Site ι Op κ γ → ι × Choice Input Op → Prop}
    {w : Watched Mutex Memory Input Site ι Op κ γ}
    (h : (R.watched ι program (· = fresh) past).ReachableWithin ok w) : Ledger w.config.mem := by
  refine Outline.mem_invariant (O := outline) (B := fun _ _ _ => True) follows_program ?_
    (fun haccess _ hl => hl.accesses haccess) (fun _ _ _ _ _ _ _ _ => trivial) h
  rintro _ rfl
  exact ⟨Kernel.Consistent.init, nofun, nofun, nofun, nofun, nofun⟩

end Pman.ProcessSupervisor
