import Mathlib.Data.Finset.Insert
import Mathlib.Data.Int.Order.Basic
import Mathlib.Data.List.Destutter
import Mathlib.Data.List.Sort

set_option autoImplicit false

/-!
# The cores of the system topology

`SystemTopology::load` goes through the directories of the CPUs and collects their siblings in
`coreToCpu_` under the core id. Core ids are unique within a package only, and the package is not
part of the key: on a machine with two packages the CPUs of two cores come under one id.

A directory is taken with its numbers and its list of siblings read and parsed.

## Main definitions

* `load`, `siblingsForCore`, `maskForCore`: the functions of the source.
* `Consistent`, `CoreIdsApart`: the topologies, and those where a core id names one core.

## Main results

* `siblings_of_one_core`: the siblings of every core are of one core if and only if the core ids of
  the packages are apart.
-/

namespace Pman.SystemTopology

open List Function

/-- The directory of a CPU below `kCpuBasePath`; what cannot be read is `-1`, or empty. -/
structure CpuDir where
  cpuId : ℤ
  coreId : ℤ
  packageId : ℤ
  threadSiblings : List ℤ

/-- The siblings of a CPU, itself where no list can be read. -/
def CpuDir.siblings (e : CpuDir) : List ℤ :=
  if e.threadSiblings.isEmpty then [e.cpuId] else e.threadSiblings

/-- `list.insert(list.end(), …)` for the list of a core, which is made if there is none. -/
def append (coreToCpu_ : ℤ → Option (List ℤ)) (coreId : ℤ) (cpus : List ℤ) : ℤ → Option (List ℤ) :=
  update coreToCpu_ coreId (some ((coreToCpu_ coreId).getD [] ++ cpus))

/-- One directory in the loop of `load`. -/
def addCpu (coreToCpu_ : ℤ → Option (List ℤ)) (e : CpuDir) : ℤ → Option (List ℤ) :=
  if 0 ≤ e.coreId then append coreToCpu_ e.coreId e.siblings else coreToCpu_

/-- `std::sort`, then `std::unique`. -/
def sortUnique (l : List ℤ) : List ℤ := (l.insertionSort (· ≤ ·)).destutter (· ≠ ·)

/-- `coreToCpu_` as `load` makes it. Without directories of CPUs, every CPU of the nodes is a core
of its own. -/
def load (nodeCpus : List ℤ) (dirs : List CpuDir) : ℤ → Option (List ℤ) :=
  let coreToCpu_ :=
    if dirs.isEmpty then nodeCpus.foldl (fun m cpu => append m cpu [cpu]) fun _ => none
    else dirs.foldl addCpu fun _ => none
  fun coreId => (coreToCpu_ coreId).map sortUnique

/-- `SystemTopology::siblingsForCore`. -/
def siblingsForCore (coreToCpu_ : ℤ → Option (List ℤ)) (coreId : ℤ) : Except String (List ℤ) :=
  match coreToCpu_ coreId with
  | none => .error "unknown core id"
  | some list => .ok list

/-- `CpuSet::add`. -/
def add (set : Finset ℤ) (cpu : ℤ) : Except String (Finset ℤ) :=
  if cpu < 0 ∨ 1024 ≤ cpu then .error "cpu index out of range" else .ok (insert cpu set)

/-- `mask_for_core`. -/
def maskForCore (coreToCpu_ : ℤ → Option (List ℤ)) (coreId : ℤ) : Except String (Finset ℤ) := do
  (← siblingsForCore coreToCpu_ coreId).foldlM add ∅

/-- A consistent topology: a CPU has one directory, and its siblings are the CPUs with its package
and core id. -/
structure Consistent (dirs : List CpuDir) : Prop where
  unique : ∀ e ∈ dirs, ∀ f ∈ dirs, e.cpuId = f.cpuId → e = f
  siblings : ∀ e ∈ dirs, ∀ cpu, cpu ∈ e.threadSiblings ↔
    ∃ f ∈ dirs, f.cpuId = cpu ∧ f.packageId = e.packageId ∧ f.coreId = e.coreId

/-- A CPU of the core with this id in this package. -/
def OnCore (dirs : List CpuDir) (package coreId cpu : ℤ) : Prop :=
  ∃ e ∈ dirs, e.cpuId = cpu ∧ e.packageId = package ∧ e.coreId = coreId

/-- No two packages have a core under the same id. -/
def CoreIdsApart (dirs : List CpuDir) : Prop :=
  ∀ e ∈ dirs, ∀ f ∈ dirs, 0 ≤ e.coreId → e.coreId = f.coreId → e.packageId = f.packageId

variable {dirs : List CpuDir} {coreId cpu : ℤ} {list : List ℤ}

/-- Sorting and dropping repetitions keeps the members. -/
lemma mem_sortUnique : cpu ∈ sortUnique list ↔ cpu ∈ list := by
  rw [sortUnique, (pairwise_insertionSort (· ≤ ·) list).destutter_eq_dedup, mem_dedup,
    mem_insertionSort]

/-- A directory adds its siblings to the list of its core. -/
lemma mem_addCpu {m : ℤ → Option (List ℤ)} {e : CpuDir} :
    cpu ∈ (addCpu m e coreId).getD [] ↔
      cpu ∈ (m coreId).getD [] ∨ 0 ≤ e.coreId ∧ e.coreId = coreId ∧ cpu ∈ e.siblings := by
  unfold addCpu append
  split_ifs with hcore
  · by_cases heq : coreId = e.coreId
    · simp [heq, hcore]
    · simp [update_of_ne heq, Ne.symm heq]
  · simp [hcore]

/-- What is collected for a core are the siblings in the directories with its id. -/
lemma mem_foldl_addCpu {m : ℤ → Option (List ℤ)} :
    cpu ∈ (dirs.foldl addCpu m coreId).getD [] ↔
      cpu ∈ (m coreId).getD [] ∨
        ∃ e ∈ dirs, 0 ≤ e.coreId ∧ e.coreId = coreId ∧ cpu ∈ e.siblings := by
  induction dirs generalizing m with
  | nil => simp
  | cons e dirs ih => simp [ih, mem_addCpu, or_assoc]

/-- The list of a core has the siblings in the directories with its id. -/
lemma mem_siblingsForCore (hdirs : dirs ≠ []) {nodeCpus : List ℤ}
    (h : siblingsForCore (load nodeCpus dirs) coreId = .ok list) :
    cpu ∈ list ↔ ∃ e ∈ dirs, 0 ≤ e.coreId ∧ e.coreId = coreId ∧ cpu ∈ e.siblings := by
  unfold siblingsForCore load at h
  rw [if_neg (by simpa using hdirs)] at h
  have hmem : cpu ∈ (dirs.foldl addCpu (fun _ => none) coreId).getD [] ↔ _ := mem_foldl_addCpu
  cases hm : dirs.foldl addCpu (fun _ => none) coreId with
  | none => simp [hm] at h
  | some l =>
    simp only [hm, Option.map_some] at h
    obtain rfl := Except.ok.inj h
    simpa [hm, mem_sortUnique] using hmem

/-- A core id that a directory has is known. -/
lemma exists_siblingsForCore (nodeCpus : List ℤ) {e : CpuDir} (he : e ∈ dirs)
    (hcore : 0 ≤ e.coreId) (hsib : cpu ∈ e.siblings) :
    ∃ list, siblingsForCore (load nodeCpus dirs) e.coreId = .ok list := by
  have hmem : cpu ∈ (dirs.foldl addCpu (fun _ => none) e.coreId).getD [] :=
    mem_foldl_addCpu.mpr (.inr ⟨e, he, hcore, rfl, hsib⟩)
  unfold siblingsForCore load
  rw [if_neg (by simpa using ne_nil_of_mem he)]
  cases hm : dirs.foldl addCpu (fun _ => none) e.coreId with
  | none => simp [hm] at hmem
  | some l => exact ⟨sortUnique l, by simp⟩

/-- The mask of a list has no CPUs but those of the list. -/
lemma mem_of_foldlM {set set' : Finset ℤ} (h : list.foldlM add set = .ok set') (hcpu : cpu ∈ set') :
    cpu ∈ set ∨ cpu ∈ list := by
  induction list generalizing set with
  | nil => exact .inl (Except.ok.inj h ▸ hcpu)
  | cons x list ih =>
    rw [foldlM_cons, add] at h
    split_ifs at h
    · cases h
    · rcases ih h with hmem | hmem
      · rcases Finset.mem_insert.mp hmem with rfl | hmem
        · exact .inr mem_cons_self
        · exact .inl hmem
      · exact .inr (mem_cons_of_mem _ hmem)

/-- In a consistent topology the siblings of a CPU are the CPUs of its core. -/
lemma Consistent.mem_siblings (hcons : Consistent dirs) {e : CpuDir} (he : e ∈ dirs) :
    cpu ∈ e.siblings ↔ OnCore dirs e.packageId e.coreId cpu := by
  have hown : e.cpuId ∈ e.threadSiblings := (hcons.siblings e he _).mpr ⟨e, he, rfl, rfl, rfl⟩
  rw [CpuDir.siblings, if_neg (by simpa using ne_nil_of_mem hown), hcons.siblings e he]
  rfl

/-- **The siblings of a core are CPUs of one core**, and so are those of its mask, on exactly the
machines where no two packages have a core id in common. -/
theorem siblings_of_one_core {dirs : List CpuDir} (hdirs : dirs ≠ []) (hcons : Consistent dirs)
    (nodeCpus : List ℤ) :
    (∀ coreId list, siblingsForCore (load nodeCpus dirs) coreId = .ok list →
      ∃ package, (∀ cpu ∈ list, OnCore dirs package coreId cpu) ∧
        ∀ set, maskForCore (load nodeCpus dirs) coreId = .ok set →
          ∀ cpu ∈ set, OnCore dirs package coreId cpu) ↔
      CoreIdsApart dirs := by
  constructor
  · -- the CPUs of the two directories are in the list of the core, so they are of one package
    intro h e he f hf hcore heq
    have hsib : ∀ g ∈ dirs, g.cpuId ∈ g.siblings := fun g hg =>
      (hcons.mem_siblings hg).mpr ⟨g, hg, rfl, rfl, rfl⟩
    obtain ⟨list, hlist⟩ := exists_siblingsForCore nodeCpus he hcore (hsib e he)
    obtain ⟨package, hall, -⟩ := h _ list hlist
    have hpackage : ∀ g ∈ dirs, g.coreId = e.coreId → g.packageId = package := by
      intro g hg hge
      have hmem := (mem_siblingsForCore hdirs hlist).mpr ⟨g, hg, hge ▸ hcore, hge, hsib g hg⟩
      obtain ⟨k, hk, hcpu, rfl, -⟩ := hall _ hmem
      rw [hcons.unique k hk g hg hcpu]
    rw [hpackage e he rfl, hpackage f hf heq.symm]
  · intro hapart coreId list h
    suffices hlist : ∃ package, ∀ cpu ∈ list, OnCore dirs package coreId cpu by
      obtain ⟨package, hlist⟩ := hlist
      refine ⟨package, hlist, fun set hset cpu hcpu => hlist cpu ?_⟩
      rw [maskForCore, h] at hset
      exact (mem_of_foldlM hset hcpu).resolve_left (Finset.notMem_empty _)
    by_cases hcore : ∃ e ∈ dirs, e.coreId = coreId
    · obtain ⟨e, he, rfl⟩ := hcore
      refine ⟨e.packageId, fun cpu hcpu => ?_⟩
      obtain ⟨f, hf, hpos, hfe, hsib⟩ := (mem_siblingsForCore hdirs h).mp hcpu
      have hon := (hcons.mem_siblings hf).mp hsib
      rwa [hfe, hapart f hf e he hpos hfe] at hon
    · refine ⟨0, fun cpu hcpu => ?_⟩
      obtain ⟨e, he, -, heq, -⟩ := (mem_siblingsForCore hdirs h).mp hcpu
      exact absurd ⟨e, he, heq⟩ hcore

/-- A package with a core of two CPUs and one of one, and a second package with a core of its own
and a CPU whose core id cannot be read; such a CPU is in the first package too. -/
def apart : List CpuDir :=
  [⟨0, 0, 0, [0, 2]⟩, ⟨1, 1, 0, [1]⟩, ⟨2, 0, 0, [0, 2]⟩, ⟨3, 2, 1, [3]⟩, ⟨4, -1, 1, [4]⟩,
    ⟨5, -1, 0, [5]⟩]

theorem siblings_of_one_core_apart :
    siblingsForCore (load [] apart) 0 = .ok [0, 2] ∧
      ∃ package, ∀ cpu ∈ [0, 2], OnCore apart package 0 cpu := by
  have hlist : siblingsForCore (load [] apart) 0 = .ok [0, 2] := by rfl
  have hcons : Consistent apart :=
    ⟨by simp [apart], by simp [apart, eq_comm]⟩
  obtain ⟨package, hcore, -⟩ := (siblings_of_one_core (by simp [apart]) hcons []).mpr
    (by simp [CoreIdsApart, apart]) 0 _ hlist
  exact ⟨hlist, package, hcore⟩

/-- Two packages with one core each, of the same id. -/
def twoSockets : List CpuDir := [⟨0, 0, 0, [0]⟩, ⟨1, 0, 1, [1]⟩]

/-- **Two cores under one id**: the siblings and the mask of core `0` are the CPUs of both
packages. -/
theorem siblings_of_two_cores :
    Consistent twoSockets ∧ siblingsForCore (load [] twoSockets) 0 = .ok [0, 1] ∧
      maskForCore (load [] twoSockets) 0 = .ok {1, 0} ∧
      ¬ ∃ package, ∀ cpu ∈ [0, 1], OnCore twoSockets package 0 cpu := by
  refine ⟨⟨by simp [twoSockets], by simp [twoSockets, eq_comm]⟩, by rfl, by rfl, ?_⟩
  rintro ⟨package, h⟩
  simp [OnCore, twoSockets] at h
  omega

end Pman.SystemTopology
