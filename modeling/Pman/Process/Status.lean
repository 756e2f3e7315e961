import Pman.Process.PidMap

set_option autoImplicit false

/-!
# The reported status

`status` of a process says whether its child runs, and what the last one has exited with. An exit
gets there in two ways: `handleChildExit` looks up the process of a child that was collected, and
`stopGracefully` notes the status of a child that it has reaped through its handle.

Both can miss: `stopProcess` erases the number of a process whose child still runs, and the children
that are collected after the loop of the supervisor's thread are dropped. The status is right as
long as the number of a collected child leads to its process when `handleChildExit` locks `mutex_`,
no child of a process is dropped, and a `waitpid` through a handle reaps the child that the handle
was made for.

## Main results

* `status_truthful`: when the status tells the exit of the child.
-/

namespace Pman.ProcessSupervisor.Statuses

open Memory List LockProgram Process Reaping

/-! ### Children that were reaped -/

def reapedBy (before after : Memory) : List Child :=
  before.kernel.children.filter fun child =>
    decide (child.launch ∈ (reaps after.kernel.log).map Prod.fst)

/-- What is known about a call: the child that it has collected and neither handled nor dropped.
What is known about the run: all children that were reaped. -/
def recorder : Recorder Mutex Memory Input Site Op (Option Child) (List Child) where
  call _ := none
  note obs _ hand :=
    match obs with
    | .accessed _ _ before after => PidMap.collectedBy before after
    | .locked _ | .unlocked _ => none
    | _ => hand
  watch obs _ _ past :=
    match obs with
    | .accessed _ _ before after => past ++ reapedBy before after
    | _ => past

section Reaped

variable {m m' : Memory} {child : Child} {reaper : Reaper}

lemma reapedBy_of_same (hl : Ledger m) (h : reaps m'.kernel.log = reaps m.kernel.log) :
    reapedBy m m' = [] := by
  refine filter_eq_nil_iff.mpr fun c hc hr => ?_
  rw [decide_eq_true_eq, h] at hr
  obtain ⟨⟨_, reaper⟩, hmem, rfl⟩ := mem_map.mp hr
  exact hl.kernel.unreaped c hc ⟨reaper, mem_reaps.mp hmem⟩

lemma mem_reapedBy (hl : Ledger m) (hchild : child ∈ m.kernel.children)
    (h : m'.kernel.log = m.kernel.log ++ [.reaped child.launch reaper]) (c : Child) :
    c ∈ reapedBy m m' ↔ c = child := by
  have hreaps : (reaps m'.kernel.log).map Prod.fst =
      (reaps m.kernel.log).map Prod.fst ++ [child.launch] := by
    rw [h]
    simp [reaps, filterMap_append]
  rw [reapedBy, mem_filter, decide_eq_true_eq, hreaps, mem_append, mem_singleton]
  constructor
  · rintro ⟨hc, hr | heq⟩
    · obtain ⟨⟨_, reaper⟩, hmem, rfl⟩ := mem_map.mp hr
      exact absurd ⟨reaper, mem_reaps.mp hmem⟩ (hl.kernel.unreaped c hc)
    · exact inj_on_of_nodup_map hl.kernel.launches hc hchild heq
  · rintro rfl
    exact ⟨hchild, .inr rfl⟩

end Reaped

def Current (m : Memory) (name : String) (launch : ℕ) : Prop :=
  ∃ hdl ∈ m.handleOf name, hdl.launch = launch
  deriving Decidable

/-- The number of the child leads to the process that was last started with it, and to no other. -/
def Leads (m : Memory) (child : Child) : Prop :=
  (∀ e ∈ m.processes_, Current m e.1 child.launch → m.pidToName_.lookup child.pid = some e.1) ∧
  ∀ x ∈ m.pidToName_.lookup child.pid, (m.find x).isSome = true → Current m x child.launch
  deriving Decidable

def Former (m : Memory) (child : Child) : Prop := ∀ e ∈ m.processes_, ¬ Current m e.1 child.launch
  deriving Decidable

def exitedChild : Process.WaitResult → Option Child
  | .exited child _ => some child
  | _ => none

/-- A `waitpid` through a handle reaps the child that the handle was made for. -/
def WaitsOwn : Site → Memory → Prop
  | .waitpid name, m => ∀ hdl ∈ m.validHandle name,
    ∀ child ∈ exitedChild (m.kernel.waitpid hdl.pid_), child.launch = hdl.launch
  | _, _ => True

instance : ∀ site m, Decidable (WaitsOwn site m)
  | .waitpid name, m => inferInstanceAs (Decidable (∀ hdl ∈ m.validHandle name, _))
  | .access, _ | .signal _, _ | .callback, _ => isTrue trivial

/-- The condition on the steps. When `handleChildExit` locks `mutex_` for a child, its number leads
to its process; a child that is dropped is the last one of no process; and a `waitpid` through a
handle reaps the child of the handle. -/
def Faithful {ι : Type*} (obs : Observation Mutex Memory Input Site Op) (_ : Op)
    (hand : Option Child) (m : Memory) (_ : History ι Op (Option Child) (List Child)) : Prop :=
  match obs with
  | .locked _ => ∀ child ∈ hand, Leads m child
  | .accessed site _ _ _ => WaitsOwn site m ∧ ∀ child ∈ hand, Former m child
  | .ended => ∀ child ∈ hand, Former m child
  | _ => True

instance {ι : Type*} (obs : Observation Mutex Memory Input Site Op) (op : Op) (hand : Option Child)
    (m : Memory) (h : History ι Op (Option Child) (List Child)) :
    Decidable (Faithful obs op hand m h) :=
  match obs with
  | .locked _ => inferInstanceAs (Decidable (∀ child ∈ hand, _))
  | .accessed _ _ _ _ => inferInstanceAs (Decidable (_ ∧ ∀ child ∈ hand, _))
  | .ended => inferInstanceAs (Decidable (∀ child ∈ hand, _))
  | .started _ | .unlocked _ | .resumed _ => isTrue trivial

/-! ### Processes that tell the exits of their children -/

/-- The status says that no child runs, and what the child has exited with. -/
def Tells (s : ProcessState) (child : Child) : Prop :=
  s.status.running = false ∧ child.exited = some s.status.lastExitStatus

/-- Every process tells the exit of its child, if the child is among the children `past` that were
reaped, and `E` does not excuse it. -/
structure Told (m : Memory) (past : List Child) (E : String → Child → Prop) : Prop where
  once : ∀ c ∈ past, ∀ c' ∈ past, c.launch = c'.launch → c = c'
  reaped : ∀ c ∈ past, Reaped m.kernel.log c.launch
  told : ∀ name state, m.find name = some state → ∀ c ∈ past, Current m name c.launch →
    E name c ∨ Tells state c

variable {f : ProcessState → ProcessState}

section Memory

variable {m m' : Memory} {past past' : List Child} {E E' : String → Child → Prop} {name x : String}
  {child : Child} {n : ℕ}

lemma Current.congr (hfind : m'.find x = m.find x) : Current m' x n ↔ Current m x n := by
  rw [Current, Current, Memory.handleOf, Memory.handleOf, hfind]

lemma Current.isSome_find (h : Current m x n) : (m.find x).isSome = true := by
  obtain ⟨hdl, hh, -⟩ := h
  obtain ⟨s, hs, -⟩ := Option.bind_eq_some_iff.mp hh
  simp [hs]

lemma mem_keys_of_isSome (h : (m.find x).isSome = true) : ∃ e ∈ m.processes_, e.1 = x := by
  obtain ⟨s, hs⟩ := Option.isSome_iff_exists.mp h
  obtain ⟨_, _, heq, -⟩ := lookup_eq_some_iff.mp hs
  exact ⟨(x, s), by simp [heq], rfl⟩

lemma Leads.lookup (h : Leads m child) (hx : Current m x child.launch) :
    m.pidToName_.lookup child.pid = some x := by
  obtain ⟨e, he, rfl⟩ := mem_keys_of_isSome hx.isSome_find
  exact h.1 e he hx

lemma Former.not_current (h : Former m child) : ¬ Current m x child.launch := by
  intro hx
  obtain ⟨e, he, rfl⟩ := mem_keys_of_isSome hx.isSome_find
  exact h e he hx

lemma Told.frame (hT : Told m past E)
    (hreaped : ∀ launch, Reaped m.kernel.log launch → Reaped m'.kernel.log launch)
    (hstep : ∀ x state', m'.find x = some state' → ∀ c ∈ past, Current m' x c.launch →
      ∃ state, m.find x = some state ∧ Current m x c.launch ∧
        (E x c ∨ Tells state c → E' x c ∨ Tells state' c)) : Told m' past E' := by
  refine ⟨hT.once, fun c hc => hreaped _ (hT.reaped c hc), fun x state' hfind c hc hcur => ?_⟩
  obtain ⟨state, hs, hcur', himp⟩ := hstep x state' hfind c hc hcur
  exact himp (hT.told x state hs c hc hcur')

lemma Told.same (hT : Told m past E)
    (hreaped : ∀ launch, Reaped m.kernel.log launch → Reaped m'.kernel.log launch)
    (hfind : ∀ x, m'.find x = m.find x)
    (hE : ∀ x, ∀ c ∈ past, Current m x c.launch → E x c → E' x c) : Told m' past E' := by
  refine hT.frame hreaped fun x state' hstate c hc hcur => ?_
  rw [hfind] at hstate
  rw [Current.congr (hfind x)] at hcur
  exact ⟨state', hstate, hcur, Or.imp_left (hE x c hc hcur)⟩

lemma Told.modify (hT : Told m past E)
    (hf : ∀ s, (f s).handle = s.handle)
    (hE : ∀ x, x ≠ name → ∀ c ∈ past, Current m x c.launch → E x c → E' x c)
    (hstep : ∀ s, ∀ c ∈ past, Current m name c.launch → E name c ∨ Tells s c →
      E' name c ∨ Tells (f s) c) : Told (m.modifyProcess name f) past E' := by
  refine hT.frame (fun _ h => h) fun x state' hstate c hc hcur => ?_
  rw [Current, m.handleOf_modifyProcess name x hf] at hcur
  rw [find_modifyProcess] at hstate
  split_ifs at hstate with hx
  · subst hx
    obtain ⟨s, hs, rfl⟩ := Option.map_eq_some_iff.mp hstate
    exact ⟨s, hs, hcur, hstep s c hc hcur⟩
  · exact ⟨state', hstate, hcur, Or.imp_left (hE x hx c hc hcur)⟩

lemma Told.launch (hl : Ledger m) (hT : Told m past E) {input : Input}
    (h : launches m input = true) : Told (m.launch name input) past E := by
  rw [launch_of_launches h]
  refine hT.frame (fun launch hr => ?_) fun x state' hstate c hc hcur => ?_
  · obtain ⟨reaper, hr⟩ := hr
    exact ⟨reaper, mem_append_left _ hr⟩
  · obtain ⟨hdl, hh, hlaunch⟩ := hcur
    rcases Ledger.handleOf_started hh with ⟨-, rfl⟩ | ⟨hx, hold⟩
    · -- The new launch was not reaped.
      exact absurd (hl.kernel.reaped _ (hT.reaped c hc)) (by rw [← hlaunch]; exact lt_irrefl _)
    · rw [find_modifyProcess, if_neg hx] at hstate
      exact ⟨state', hstate, ⟨hdl, hold, hlaunch⟩, id⟩

lemma Told.reap (hl : Ledger m) (hT : Told m past E) (hchild : child ∈ m.kernel.children)
    (hreaped : ∀ launch, Reaped m'.kernel.log launch ↔
      Reaped m.kernel.log launch ∨ launch = child.launch)
    (hstep : ∀ x state', m'.find x = some state' → ∀ c, Current m' x c.launch →
      ∃ state, m.find x = some state ∧ Current m x c.launch ∧
        (Tells state c → Tells state' c))
    (hE : ∀ x, ∀ c ∈ past, E x c → E' x c) (hnew : ∀ x, Current m' x child.launch → E' x child)
    (hpast : ∀ c, c ∈ past' ↔ c ∈ past ∨ c = child) : Told m' past' E' := by
  have hne : ∀ c ∈ past, c.launch ≠ child.launch :=
    fun c hc heq => hl.kernel.unreaped child hchild (heq ▸ hT.reaped c hc)
  refine ⟨fun c hc c' hc' heq => ?_, fun c hc => ?_, fun x state' hstate c hc hcur => ?_⟩
  · rcases (hpast c).mp hc with hc | rfl <;> rcases (hpast c').mp hc' with hc' | rfl
    · exact hT.once c hc c' hc' heq
    · exact absurd heq (hne c hc)
    · exact absurd heq.symm (hne c' hc')
    · rfl
  · rw [hreaped]
    rcases (hpast c).mp hc with hc | rfl
    · exact .inl (hT.reaped c hc)
    · exact .inr rfl
  · rcases (hpast c).mp hc with hc | rfl
    · obtain ⟨state, hs, hcur', himp⟩ := hstep x state' hstate c hcur
      exact (hT.told x state hs c hc hcur').imp (hE x c hc) himp
    · exact .inl (hnew x hcur)

end Memory

/-- The exit of the child is about to be told by the call inside of `mutex_`, or the process is
about to be erased. -/
def Excuses : Option Phase → String → Child → Prop
  | some (.exiting c _), _, child | some (.found c _ _), _, child
  | some (.erased c _ _), _, child => c = child
  | some (.waited x _), name, _ | some (.unlisted x), name, _ => x = name
  | _, _, _ => False

/-- The child was reaped with the status, and `name` is the process to tell it, if there is one. -/
structure Found (m : Memory) (past : List Child) (child : Child) (status : ℕ) (name : String) :
    Prop where
  mem : child ∈ past
  exited : child.exited = some status
  only : ∀ x, Current m x child.launch → x = name
  current : (m.find name).isSome = true → Current m name child.launch

def Knows (m : Memory) (past : List Child) : Option Phase → Prop
  | some (.exiting child status) => child ∈ past ∧ child.exited = some status ∧ Leads m child
  | some (.found child status name) | some (.erased child status name) =>
    Found m past child status name
  | some (.waited x status) => m.validHandle x = none ∧
    ∃ child ∈ past, Current m x child.launch ∧ child.exited = some status
  | _ => True

section Phases

variable {op : Op} {φ φ' : Phase} {site : Site} {input : Input} {m m' : Memory}
  {past past' : List Child} {V : Child → Prop}

variable {child : Child} {status : ℕ} {name : String}

lemma Found.congr (h : Found m past child status name) (hfind : ∀ x, m'.find x = m.find x)
    (hpast : ∀ c ∈ past, c ∈ past') : Found m' past' child status name := by
  refine ⟨hpast child h.mem, h.exited, fun x hx => ?_, fun hsome => ?_⟩
  · exact h.only x ((Current.congr (hfind x)).mp hx)
  · rw [hfind] at hsome
    exact (Current.congr (hfind name)).mpr (h.current hsome)

lemma Knows.congr {r : Option Phase} (h : Knows m past r)
    (hprocesses : m'.processes_ = m.processes_) (hpids : m'.pidToName_ = m.pidToName_)
    (hpast : ∀ c ∈ past, c ∈ past') : Knows m' past' r := by
  have hfind := find_congr hprocesses
  unfold Knows at h ⊢
  split
  case h_1 child status =>
    obtain ⟨hmem, hexited, hleads⟩ := h
    refine ⟨hpast child hmem, hexited, ?_⟩
    unfold Leads at hleads ⊢
    rw [hprocesses, hpids]
    simpa only [Current.congr (hfind _), hfind] using hleads
  case h_2 | h_3 => exact h.congr hfind hpast
  case h_4 x status =>
    obtain ⟨hv, child, hmem, hcur, hexited⟩ := h
    rw [Memory.validHandle, hfind]
    exact ⟨hv, child, hpast child hmem, (Current.congr (hfind x)).mpr hcur, hexited⟩
  case h_5 => trivial

lemma Knows.accesses (hK : Knows m past (some φ)) (h : Accesses op φ site input m m' φ')
    (hreaps : reaps m'.kernel.log = reaps m.kernel.log) : Knows m' past (some φ') := by
  cases h with
  | look h =>
    cases h with
    | stay => exact hK
    | found child status name h =>
      obtain ⟨hmem, hexited, hleads⟩ := hK
      refine ⟨hmem, hexited, fun x hx => ?_, hleads.2 name h⟩
      exact Option.some.inj ((hleads.lookup hx).symm.trans h)
    | _ => trivial
  | set _ h =>
    cases h with
    | stay _ hφ => rcases hφ with rfl | rfl <;> trivial
    | _ => trivial
  | signal _ _ h =>
    rcases h with rfl | ⟨_, -, rfl⟩
    · exact hK
    · exact hK.congr rfl rfl fun _ h => h
  | waited hv h =>
    rw [waitpid_of_exited hv h] at hreaps
    simp [reaps, Memory.modifyProcess, Kernel.reap, filterMap_append] at hreaps
  | erase => exact Found.congr hK (fun _ => rfl) fun _ h => h
  | uncollected h | launched h | unlaunched h | change h | unlist h | collected h =>
    cases h <;> trivial
  | unreaped | exit | add | remove => trivial

lemma Excuses.looks {x : String} {c : Child} (hK : Knows m past (some φ))
    (h : Looks op input m φ φ') (hcur : Current m x c.launch) (hex : Excuses (some φ) x c) :
    Excuses (some φ') x c := by
  cases h with
  | stay | found => exact hex
  | unmapped child status h =>
    obtain rfl : child = c := hex
    simp [hK.2.2.lookup hcur] at h
  | gone child status name h =>
    obtain rfl : child = c := hex
    have hsome := hcur.isSome_find
    simp [hK.only x hcur, h] at hsome
  | valid name status h =>
    simp [hK.1] at h
  | _ => exact hex.elim

lemma Told.changes (hT : Told m past fun x c => V c ∨ Excuses (some φ) x c)
    (hK : Knows m past (some φ)) (h : Changes op input name φ f φ') :
    Told (m.modifyProcess name f) past fun x c => V c ∨ Excuses (some φ') x c := by
  have hsame : (∀ s, (f s).handle = s.handle) → (∀ s c, Tells s c → Tells (f s) c) →
      (∀ x c, Excuses (some φ) x c → Excuses (some φ') x c) →
      Told (m.modifyProcess name f) past fun x c => V c ∨ Excuses (some φ') x c := by
    intro hf htells hex
    refine hT.modify hf (fun x _ c _ _ => Or.imp_right (hex x c)) fun s c _ _ hor => ?_
    exact hor.imp (Or.imp_right (hex name c)) (htells s c)
  cases h with
  | pause | clear | reset | clean | count | push =>
    exact hsame (fun _ => rfl) (fun _ _ h => h) fun _ _ h => h
  | noteExit status =>
    obtain ⟨-, child, hmem, ⟨hdl, hh, hlaunch⟩, hexited⟩ := hK
    refine hT.modify (fun _ => rfl) (fun x hx c _ _ => Or.imp_right fun heq => hx heq.symm)
      fun s c hc hcur _ => .inr ⟨rfl, ?_⟩
    -- It is the child that was waited for.
    obtain ⟨hdl', hh', hlaunch'⟩ := hcur
    obtain rfl := Option.some.inj (hh.symm.trans hh')
    rw [hT.once c hc child hmem (hlaunch'.symm.trans hlaunch)]
    exact hexited
  | record child status =>
    refine hT.modify (fun _ => rfl) (fun x hx c _ hcur => Or.imp_right fun heq => ?_)
      fun s c hc hcur _ => .inr ⟨rfl, ?_⟩
    · obtain rfl : child = c := heq
      exact hx (hK.only x hcur)
    · obtain ⟨hdl, hh, hlaunch⟩ := hcur
      obtain ⟨hdl', hh', hlaunch'⟩ := hK.current (Current.isSome_find ⟨hdl, hh, rfl⟩)
      obtain rfl := Option.some.inj (hh.symm.trans hh')
      rw [hT.once c hc child hK.mem (hlaunch.symm.trans hlaunch')]
      exact hK.exited

lemma Told.accesses (hl : Ledger m) (hφ : φ.held = true)
    (hT : Told m past fun x c => V c ∨ Excuses (some φ) x c) (hK : Knows m past (some φ))
    (h : Accesses op φ site input m m' φ') (hreaps : reaps m'.kernel.log = reaps m.kernel.log) :
    Told m' past fun x c => V c ∨ Excuses (some φ') x c := by
  have hreaped : ∀ launch, Reaped m.kernel.log launch → Reaped m'.kernel.log launch := by
    rintro launch ⟨reaper, hr⟩
    exact ⟨reaper, by rwa [← mem_reaps, hreaps, mem_reaps]⟩
  cases h with
  | look h =>
    exact hT.same hreaped (fun _ => rfl) fun x c _ hcur => Or.imp_right (Excuses.looks hK h hcur)
  | set hm h =>
    cases h with
    | stay =>
      refine hT.same hreaped (fun x => ?_) fun _ _ _ _ h => h
      rw [Memory.find, hm.processes]
      rfl
    | _ => cases hφ
  | signal _ _ h =>
    rcases h with rfl | ⟨_, -, rfl⟩
    · exact hT
    · exact hT.same hreaped (fun _ => rfl) fun _ _ _ _ h => h
  | unreaped h => exact h.symm ▸ hT
  | waited hv h =>
    rw [waitpid_of_exited hv h] at hreaps
    simp [reaps, Memory.modifyProcess, Kernel.reap, filterMap_append] at hreaps
  | uncollected h | collected h => cases h <;> cases hφ
  | exit => cases hφ
  | launched hφ' h => cases hφ' <;> exact hT.launch hl h
  | @unlaunched _ _ _ name _ _ hφ' h =>
    obtain ⟨k, hk, heq⟩ := launch_of_not_launches h name
    rw [heq] at hreaped ⊢
    have hkernel : Told { m with kernel := k } past fun x c => V c ∨ Excuses (some φ) x c :=
      hT.same hreaped (fun _ => rfl) fun _ _ _ _ h => h
    cases hφ' <;> exact hkernel.modify (fun _ => rfl) (fun _ _ _ _ _ h => h)
      fun s c _ _ => Or.imp_right fun htells => ⟨rfl, htells.2⟩
  | change h => exact hT.changes hK h
  | erase => exact hT.same hreaped (fun _ => rfl) fun _ _ _ _ h => h
  | unlist hφ' h =>
    have hfind : ∀ x, m'.find x = m.find x := by
      rcases h with ⟨-, rfl⟩ | ⟨_, -, rfl⟩ <;> exact fun _ => rfl
    refine hT.same hreaped hfind fun x c _ _ => Or.imp_right ?_
    cases hφ' with
    | halt | remove => exact False.elim
    | waited => exact id
  | add =>
    refine hT.frame hreaped fun x state' hstate c _ hcur => ?_
    obtain ⟨hdl, hh, hlaunch⟩ := hcur
    have hold := Ledger.handleOf_of_add hh
    obtain ⟨s, hs, -⟩ := Option.bind_eq_some_iff.mp hold
    rw [Memory.find, lookup_append_singleton, show m.processes_.lookup x = some s from hs]
      at hstate
    obtain rfl := Option.some.inj hstate
    exact ⟨s, hs, ⟨hdl, hold, hlaunch⟩, id⟩
  | remove =>
    refine hT.frame hreaped fun x state' hstate c _ hcur => ?_
    obtain ⟨hdl, hh, hlaunch⟩ := hcur
    rw [Memory.find, lookup_filter_ne] at hstate
    split_ifs at hstate with hx
    exact ⟨state', hstate, ⟨hdl, Ledger.handleOf_of_remove hh, hlaunch⟩,
      Or.imp_left (Or.imp_right fun heq => absurd (Eq.symm heq) hx)⟩

lemma Told.waitpid (hl : Ledger m) (hT : Told m past fun _ c => V c) {hdl : ProcessHandle}
    (hv : m.validHandle name = some hdl) (hw : m.kernel.waitpid hdl.pid_ = .exited child status)
    (hown : child.launch = hdl.launch) :
    Told (m.waitpid name) (past ++ reapedBy m (m.waitpid name))
        (fun x c => V c ∨ Excuses (some (.waited name status)) x c) ∧
      Knows (m.waitpid name) (past ++ reapedBy m (m.waitpid name))
        (some (.waited name status)) := by
  obtain ⟨hchild, -⟩ := Kernel.mem_of_waitpid hw
  have hhandle : m.handleOf name = some hdl := (handleOf_of_validHandle hv).1
  rw [waitpid_of_exited hv hw]
  set m' := ({ m with kernel := m.kernel.reap child .handle } : Memory).modifyProcess name fun s =>
    { s with handle := s.handle.map ProcessHandle.forget }
  have hmem : ∀ c, c ∈ past ++ reapedBy m m' ↔ c ∈ past ∨ c = child := by
    intro c
    rw [mem_append, mem_reapedBy hl hchild rfl]
  have hcurrent : ∀ x n, Current m' x n → Current m x n := by
    rintro x n ⟨hdl', hh, hlaunch⟩
    obtain ⟨hdl, hold, heq, -⟩ := Ledger.handlesFrom_forget _ name x hdl' hh
    exact ⟨hdl, hold, heq.symm.trans hlaunch⟩
  refine ⟨hT.reap hl hchild (fun launch => ?_) (fun x state' hstate c hcur => ?_)
    (fun _ _ _ h => .inl h) (fun x hcur => .inr ?_) hmem, ?_, child, ?_, ?_, ?_⟩
  · exact Kernel.reaped_reap
  · have hfind := find_modifyProcess { m with kernel := m.kernel.reap child .handle } name x
      fun s => { s with handle := s.handle.map ProcessHandle.forget }
    rw [hfind] at hstate
    split_ifs at hstate
    · obtain ⟨s, hs, rfl⟩ := Option.map_eq_some_iff.mp hstate
      exact ⟨s, hs, hcurrent x _ hcur, id⟩
    · exact ⟨state', hstate, hcurrent x _ hcur, id⟩
  · obtain ⟨hdl', hh, hlaunch⟩ := hcurrent x _ hcur
    exact hl.distinct name x hdl hdl' hhandle hh (hown.symm.trans hlaunch.symm)
  · exact validHandle_of_forgotten name
  · exact (hmem child).mpr (.inr rfl)
  · refine ⟨hdl.forget, ?_, hown.symm⟩
    refine (Ledger.handleOf_forget _ name name).trans ?_
    rw [if_pos rfl]
    exact congrArg (Option.map _) hhandle
  · exact Kernel.exited_of_waitpid hw

lemma Told.inside (hl : Ledger m) (hφ : φ.held = true)
    (hT : Told m past fun x c => V c ∨ Excuses (some φ) x c) (hK : Knows m past (some φ))
    (h : Accesses op φ site input m m' φ') (hwait : WaitsOwn site m) :
    Told m' (past ++ reapedBy m m') (fun x c => V c ∨ Excuses (some φ') x c) ∧
      Knows m' (past ++ reapedBy m m') (some φ') := by
  rcases Waits.reaps_cases h with ⟨hreaps, -⟩ | ⟨_, _, _, _, hcollects, -⟩ |
    ⟨name, hdl, child, status, rfl, hv, hw, rfl, rfl, rfl⟩
  · rw [reapedBy_of_same hl hreaps, append_nil]
    exact ⟨hT.accesses hl hφ hK h hreaps, hK.accesses h hreaps⟩
  · cases hcollects <;> cases hφ
  · refine Told.waitpid hl ?_ hv hw (hwait hdl hv child (by rw [hw]; rfl))
    exact hT.same (fun _ h => h) (fun _ => rfl) fun _ _ _ _ => Or.rec id False.elim

/-- **An access outside of `mutex_`**; `E` are the other excuses, and no child of a process is
dropped. -/
lemma Told.outside {E : String → Child → Prop} (hl : Ledger m) (hφ : φ.held = false)
    (hT : Told m past fun x c => φ.hand = some c ∨ E x c) (h : Accesses op φ site input m m' φ')
    (hdrop : ∀ child, φ.hand = some child → Former m child) :
    Told m' (past ++ reapedBy m m') fun x c => φ'.hand = some c ∨ E x c := by
  have hE : Told m past E := by
    refine hT.same (fun _ h => h) (fun _ => rfl) fun x c _ hcur => ?_
    rintro (hhand | hE)
    · exact absurd hcur (hdrop c hhand).not_current
    · exact hE
  obtain ⟨hprocesses, -⟩ := h.same_of_not_held hφ
  have hfind := find_congr hprocesses
  rcases Waits.reaps_cases h with ⟨hreaps, -⟩ | ⟨_, f, child, status, hcollects, rfl, hany, rfl⟩ |
    ⟨_, _, _, _, -, -, -, -, rfl, -⟩
  · rw [reapedBy_of_same hl hreaps, append_nil]
    refine hE.same ?_ hfind fun _ _ _ _ => .inr
    rintro launch ⟨reaper, hr⟩
    exact ⟨reaper, by rwa [← mem_reaps, hreaps, mem_reaps]⟩
  · obtain ⟨hchild, -⟩ := Kernel.exited_of_waitAny hany
    have hhand : (f child status).hand = some child := by cases hcollects <;> rfl
    refine hE.reap hl hchild (fun _ => Kernel.reaped_reap) (fun x state' hstate c hcur => ?_)
      (fun _ _ _ => .inr) (fun _ _ => .inl hhand) fun c => ?_
    · exact ⟨state', hstate, hcur, id⟩
    · rw [mem_append, mem_reapedBy hl hchild rfl]
  · cases hφ

end Phases

section Steps

variable {ι : Type*} {m m' : Memory} {h : History ι Op (Option Child) (List Child)} {t : ι}
  {op : Op} {k : Option Child} {calls : List (Op × Option Child)} {r r' : Option Phase}

def Excused (h : History ι Op (Option Child) (List Child)) (r : Option Phase) (x : String)
    (child : Child) : Prop :=
  h.Any (· = some child) ∨ Excuses r x child

/-- The invariant of the status. -/
structure Truthful (m : Memory) (h : History ι Op (Option Child) (List Child)) (r : Option Phase) :
    Prop where
  told : Told m h.past (Excused h r)
  knows : Knows m h.past r
  held : ∀ child, h.Any (· = some child) → child ∈ h.past

def Holds (_ : Op) (φ : Phase) (k : Option Child) : Prop :=
  k = φ.hand ∧ ∀ child status, φ = .collected child status → child.exited = some status

lemma excused_iff (hcalls : h.calls t = (op, k) :: calls) (x : String) (child : Child) :
    Excused h r x child ↔ (k = some child ∨ h.Others (· = some child) t calls) ∨
      Excuses r x child := by
  rw [Excused, History.any_iff hcalls, History.others_cons]

lemma watchesAccesses : recorder.WatchesAccesses := by
  intro obs op k past hobs
  cases obs with
  | accessed => cases hobs
  | _ => rfl

variable [DecidableEq ι]

variable {obs : Observation Mutex Memory Input Site Op}

lemma excused_record (hcalls : h.calls t = (op, k) :: calls) (hobs : obs.goesOn = true)
    (x : String) (child : Child) :
    Excused (recorder.record h t obs) r x child ↔
      (recorder.note obs op k = some child ∨ h.Others (· = some child) t calls) ∨
        Excuses r x child := by
  rw [Excused, recorder.any_goesOn hcalls hobs]

lemma Truthful.step (hT : Truthful m h r) (hcalls : h.calls t = (op, k) :: calls)
    (hobs : obs.goesOn = true) (haccess : obs.isAccess = false)
    (hhand : ∀ child, recorder.note obs op k = some child → k = some child)
    (hexcuse : ∀ x child, k = some child ∨ Excuses r x child →
      recorder.note obs op k = some child ∨ Excuses r' x child) (hknows : Knows m h.past r') :
    Truthful m (recorder.record h t obs) r' := by
  have hpast := recorder.past_of_watchesAccesses watchesAccesses hcalls
    (Observation.isStart_of_goesOn hobs) haccess
  refine ⟨?_, hpast ▸ hknows, fun child hany => ?_⟩
  · rw [hpast]
    refine hT.told.same (fun _ h => h) (fun _ => rfl) fun x c _ _ hex => ?_
    rw [excused_iff hcalls, or_right_comm] at hex
    rw [excused_record hcalls hobs, or_right_comm]
    exact hex.imp_left (hexcuse x c)
  · rw [recorder.any_goesOn hcalls hobs] at hany
    rw [hpast]
    refine hT.held child ?_
    rw [History.any_iff hcalls, History.others_cons]
    exact hany.imp_left (hhand child)

variable {φ φ' : Phase} {site : Site} {input : Input}

lemma note_accessed (hl : Ledger m) (hacc : Accesses op φ site input m m' φ') (k : Option Child) :
    recorder.note (.accessed site input m m') op k = φ'.hand :=
  PidMap.collectedBy_of_accesses hl hacc

lemma holds_of_accesses (hl : Ledger m) (hacc : Accesses op φ site input m m' φ')
    (k : Option Child) : Holds op φ' (recorder.note (.accessed site input m m') op k) := by
  refine ⟨note_accessed hl hacc k, fun child status hφ' => ?_⟩
  rcases Waits.reaps_cases hacc with ⟨-, hhand⟩ | ⟨_, _, c, st, hcollects, rfl, hany, -⟩ |
    ⟨_, _, _, _, -, -, -, -, -, rfl⟩
  · rw [hφ'] at hhand
    cases hhand
  · cases hcollects with
    | handle =>
      obtain ⟨rfl, rfl⟩ := Phase.collected.inj hφ'
      exact (Kernel.exited_of_waitAny hany).2
    | drain => cases hφ'
  · cases hφ'

lemma held_record (hl : Ledger m) (hacc : Accesses op φ site input m m' φ')
    (hcalls : h.calls t = (op, k) :: calls)
    (hheld : ∀ child, h.Any (· = some child) → child ∈ h.past) (child : Child)
    (hany : (recorder.record h t (.accessed site input m m')).Any (· = some child)) :
    child ∈ h.past ++ reapedBy m m' := by
  rw [recorder.any_goesOn hcalls rfl, note_accessed hl hacc] at hany
  rcases hany with hhand | hothers
  · refine mem_append_right _ ?_
    rcases Waits.reaps_cases hacc with ⟨-, hnone⟩ | ⟨_, f, c, st, hcollects, rfl, hany, rfl⟩ |
      ⟨_, _, _, _, -, -, -, -, -, rfl⟩
    · simp [hnone] at hhand
    · have hc : (f c st).hand = some c := by cases hcollects <;> rfl
      obtain rfl : c = child := Option.some.inj (hc.symm.trans hhand)
      exact (mem_reapedBy hl (Kernel.mem_of_waitAny hany) rfl c).mpr rfl
    · cases hhand
  · refine mem_append_left _ (hheld child ?_)
    rw [History.any_iff hcalls, History.others_cons]
    exact .inr hothers

lemma Truthful.keeps : outline.Keeps (ι := ι) recorder Faithful Ledger Holds Truthful where
  started {t op s h r} _ _ hT := by
    have hany : ∀ child, (recorder.record h t (.started op)).Any (· = some child) ↔
        h.Any (· = some child) := by
      intro child
      rw [recorder.any_started]
      simp [recorder]
    have hpast : (recorder.record h t (.started op)).past = h.past := recorder.past_record rfl
    refine ⟨⟨rfl, nofun⟩, ?_, hpast ▸ hT.knows, fun child hchild => ?_⟩
    · refine hT.told.same (fun _ h => h) (fun _ => rfl) fun x c _ _ => ?_
      rw [Excused, Excused, hany]
      exact id
    · exact hT.held child ((hany child).mp hchild)
  ended {t op k calls φ s h r} hcalls hL _ hok hT := by
    have hpast : (recorder.record h t .ended).past = h.past :=
      recorder.past_of_watchesAccesses watchesAccesses hcalls rfl rfl
    refine ⟨?_, hpast ▸ hT.knows, fun child hany => ?_⟩
    · rw [hpast]
      refine hT.told.same (fun _ h => h) (fun _ => rfl) fun x c _ hcur hex => ?_
      rw [excused_iff hcalls] at hex
      rw [Excused, recorder.any_ended hcalls]
      rcases hex with (hhand | hothers) | hex
      · exact absurd hcur (hok c hhand).not_current
      · exact .inl hothers
      · exact .inr hex
    · rw [recorder.any_ended hcalls] at hany
      rw [hpast]
      refine hT.held child ?_
      rw [History.any_iff hcalls, History.others_cons]
      exact .inr hany
  entered {t op k calls φ φ' s h} henters hcalls hL _ hok hT := by
    cases henters with
    | exiting child status =>
      have hmem : child ∈ h.past := by
        refine hT.held child ?_
        rw [History.any_iff hcalls, History.others_cons]
        exact .inl hL.1
      refine ⟨⟨rfl, nofun⟩, hT.step hcalls rfl rfl nofun ?_
        ⟨hmem, hL.2 child status rfl, hok child hL.1⟩⟩
      rintro x c (hhand | hex)
      · exact .inr (Option.some.inj (hL.1.symm.trans hhand))
      · exact hex.elim
    | inside | stopping | surveying =>
      refine ⟨⟨rfl, nofun⟩, hT.step hcalls rfl rfl nofun ?_ trivial⟩
      rintro x c (hhand | hex)
      · cases hL.1.symm.trans hhand
      · exact hex.elim
  left {t op k calls φ φ' s h} hleaves hcalls hL _ _ hT := by
    have hnone : k = none := hL.1.trans (Phase.hand_of_held (outline.held_of_leaves hleaves).1)
    refine ⟨⟨by cases hleaves <;> rfl, by cases hleaves <;> nofun⟩,
      hT.step hcalls rfl rfl nofun ?_ trivial⟩
    rintro x c (hhand | hex)
    · simp [hnone] at hhand
    · cases hleaves <;> exact hex.elim
  inside {t op k calls φ φ' site input s s' h} hφ hacc hcalls hL hl hok hT := by
    have hpast : (recorder.record h t (.accessed site input s s')).past =
        h.past ++ reapedBy s s' := recorder.past_of_call hcalls rfl
    have hnone : k = none := hL.1.trans (Phase.hand_of_held hφ)
    have htold : Told s h.past fun x c => h.Others (· = some c) t calls ∨
        Excuses (some φ) x c := by
      refine hT.told.same (fun _ h => h) (fun _ => rfl) fun x c _ _ hex => ?_
      rw [excused_iff hcalls, hnone] at hex
      simpa using hex
    obtain ⟨htold', hknows'⟩ := htold.inside hl hφ hT.knows hacc hok.1
    refine ⟨holds_of_accesses hl hacc k, ?_, hpast ▸ hknows', ?_⟩
    · rw [hpast]
      refine htold'.same (fun _ h => h) (fun _ => rfl) fun x c _ _ hex => ?_
      rw [excused_record hcalls rfl]
      exact hex.imp_left .inr
    · rw [hpast]
      exact held_record hl hacc hcalls hT.held
  outside {t op k calls φ φ' site input s s' h r} hφ hacc hcalls hL hl hok hT := by
    have hpast : (recorder.record h t (.accessed site input s s')).past =
        h.past ++ reapedBy s s' := recorder.past_of_call hcalls rfl
    obtain ⟨hprocesses, hpids⟩ := hacc.same_of_not_held hφ
    have htold : Told s h.past fun x c => φ.hand = some c ∨
        (h.Others (· = some c) t calls ∨ Excuses r x c) := by
      refine hT.told.same (fun _ h => h) (fun _ => rfl) fun x c _ _ hex => ?_
      rwa [excused_iff hcalls, hL.1, or_assoc] at hex
    have htold' := htold.outside hl hφ hacc fun child hhand => hok.2 child (hL.1.trans hhand)
    refine ⟨holds_of_accesses hl hacc k, ?_, ?_, ?_⟩
    · rw [hpast]
      refine htold'.same (fun _ h => h) (fun _ => rfl) fun x c _ _ hex => ?_
      rwa [excused_record hcalls rfl, note_accessed hl hacc, or_assoc]
    · rw [hpast]
      exact hT.knows.congr hprocesses hpids fun _ => mem_append_left _
    · rw [hpast]
      exact held_record hl hacc hcalls hT.held
  resumed hcalls hL _ _ hT :=
    ⟨hL, hT.step hcalls rfl rfl (fun _ h => h) (fun _ _ h => h) hT.knows⟩

end Steps

/-- **The status of a process tells the exit of its child.** In every run whose steps are faithful,
if nobody owns `mutex_` and the child that a process was last started with was reaped and is not in
hand, then the status says that no child runs, and what the child has exited with. -/
theorem status_truthful {ι : Type*} [DecidableEq ι]
    {w : Watched Mutex Memory Input Site ι Op (Option Child) (List Child)}
    (h : (recorder.watched ι program (· = fresh) []).ReachableWithin (recorder.Allows Faithful) w)
    (hfree : w.config.owner .supervisor = none) (name : String) (state : ProcessState)
    (hfind : w.config.mem.find name = some state) (child : Child) (hreaped : child ∈ w.history.past)
    (hcurrent : Current w.config.mem name child.launch)
    (hhand : ¬ w.history.Any (· = some child)) :
    state.status.running = false ∧ child.exited = some state.status.lastExitStatus := by
  have hinit : Truthful fresh (Recorder.nothing (ι := ι) []) none := by
    refine ⟨⟨fun _ hc => absurd hc not_mem_nil, fun _ hc => absurd hc not_mem_nil,
      fun _ _ _ _ hc => absurd hc not_mem_nil⟩, trivial, ?_⟩
    rintro child ⟨t, call, hmem, -⟩
    exact absurd hmem not_mem_nil
  obtain ⟨_, r, hO⟩ := Truthful.keeps.invariant follows_program (by rintro _ rfl; exact hinit)
    (fun _ _ hok => hok) (fun _ hw => ledger_of_reachable hw) h
  obtain rfl := hO.free hfree
  rcases hO.holds.told.told name state hfind child hreaped hcurrent with (hany | hex) | htells
  · exact absurd hany hhand
  · exact hex.elim
  · exact htells

/-- The child `0` exits with `status`, and the supervisor's thread collects it and takes `n` more
steps. -/
def collectRun (status n : ℕ) : List (Bool × Choice Input Op) :=
  [(true, .start (.childExit 0 status)), (true, .go {}), (true, .go {}), (false, .go {}),
    (false, .go { poll := .readable })] ++ go false n

theorem status_truthful_exit :
    ∃ w : Watched Mutex Memory Input Site Bool Op (Option Child) (List Child),
    (recorder.watched Bool program (· = fresh) []).ReachableWithin (recorder.Allows Faithful) w ∧
    w.config.owner .supervisor = none ∧ ⟨7, 0, some 256⟩ ∈ w.history.past ∧
    ∃ state, w.config.mem.find "a" = some state ∧
      state.status.running = false ∧ some 256 = some state.status.lastExitStatus := by
  have hw : (recorder.watched Bool program (· = fresh) []).ReachableWithin
      (recorder.Allows Faithful) _ :=
    .final ⟨initial fresh, Recorder.nothing []⟩ (startRun ++ collectRun 256 10) ⟨fresh, rfl, rfl⟩
      (by decide +kernel)
  exact ⟨_, hw, by decide +kernel, by decide +kernel, _, (Option.some_get (by decide +kernel)).symm,
    status_truthful hw (by decide +kernel) "a" _ (Option.some_get _).symm ⟨7, 0, some 256⟩
      (by decide +kernel) (by decide +kernel) (by unfold History.Any; decide +kernel)⟩

/-- **The exit is not told.** In the first run the child of a process that was stopped by
`stopProcess` exits; the supervisor's thread collects it, and finds no process for its number. In
the second run a child exits, and `stop` makes the supervisor's thread leave its loop, which
collects the child and drops it; all calls are over. In both runs the status still says that the
child runs. -/
theorem running_after_exit :
    (∃ w : Watched Mutex Memory Input Site Bool Op (Option Child) (List Child),
      (recorder.watched Bool program (· = fresh) []).Reachable w ∧
      w.config.mem.kernel.log = [.launched 0 7, .signalled .term 7 0, .reaped 0 .any] ∧
      w.config.owner .supervisor = none ∧ w.history.past = [⟨7, 0, some 15⟩] ∧
      (∀ t, ∀ call ∈ w.history.calls t, call.2 = none) ∧ Current w.config.mem "a" 0 ∧
      (w.config.mem.find "a").map (fun s => s.status.running) = some true) ∧
    ∃ w : Watched Mutex Memory Input Site Bool Op (Option Child) (List Child),
      (recorder.watched Bool program (· = fresh) []).Reachable w ∧
      w.config.mem.kernel.log = [.launched 0 7, .signalled .kill 7 0, .reaped 0 .any] ∧
      w.config.owner .supervisor = none ∧ w.history.past = [⟨7, 0, some 9⟩] ∧
      (∀ t, w.history.calls t = []) ∧ Current w.config.mem "a" 0 ∧
      (w.config.mem.find "a").map (fun s => s.status.running) = some true := by
  constructor
  · exact TransitionSystem.reached_by ⟨initial fresh, Recorder.nothing []⟩
      (startRun ++ (true, .start (.stopProcess "a")) :: go true 8 ++ collectRun 15 4)
      ⟨fresh, rfl, rfl⟩ (by decide +kernel)
  · refine ⟨_, .final ⟨initial fresh, Recorder.nothing []⟩
      (startRun ++ [(true, .start (.childExit 0 9)), (true, .go {}), (true, .go {})] ++
        (true, .start .stop) :: go true 6 ++ go false 5 ++ go true 4) ⟨fresh, rfl, rfl⟩
      (by decide +kernel), by decide +kernel, by decide +kernel, by decide +kernel,
      fun t => isEmpty_iff.mp ?_, by decide +kernel⟩
    revert t
    decide +kernel

end Pman.ProcessSupervisor.Statuses
