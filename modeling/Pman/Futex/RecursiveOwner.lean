import Pman.Futex.RecursiveMutex

set_option autoImplicit false

/-!
# Who owns a `FutexRecursiveMutex`

`lock`, `try_lock`, `unlock` and `recursion_depth` compare `owner_` with the caller without holding
the lock. Other threads write their own ids or `0` there, so the comparison is right for each
caller: it succeeds exactly if the caller is inside.

A nesting depth that reaches `2 ^ 32` wraps the count around; the results are about runs in which it
does not.

## Main results

* `ownership`: `owner_` and the count are right for every caller.
-/

namespace Pman.FutexRecursiveMutex

open Function

variable {ι : Type*} [DecidableEq ι]

/-- What `recursion_depth` returns to thread `t`, which reads `owner_` in the state `s` and
`recursion_count_` in the state `s'`. -/
def recursionDepth (s s' : State ι) (t : ι) : ℕ :=
  if s.owner_ = some t then s'.recursion_count_ else 0

omit [DecidableEq ι] in
def DepthOk (s : State ι) (a : ι × MutexChoice ι) : Prop :=
  s.pc a.1 = .lockOwner ∨ s.pc a.1 = .tryOwner → s.depth a.1 + 1 < 2 ^ 32
  deriving Decidable

/-! ## The account of the owner -/

/-- A thread has taken the word and is not inside yet, or is no longer inside and has not released
the word. -/
def Pc.hands : Pc → Bool
  | .storeOwner | .clearOwner | .unlockExchange => true
  | _ => false

omit [DecidableEq ι] in
def State.Holds (s : State ι) (t : ι) : Prop := 0 < s.depth t ∨ (s.pc t).hands = true

omit [DecidableEq ι] in
/-- **What the word, the owner and the count say about the threads.** -/
structure Owns (s : State ι) : Prop where
  single : ∀ t u, s.Holds t → s.Holds u → t = u
  taken : ∀ t, s.Holds t → s.futex_state_ ≠ .unlocked
  owner : ∀ t, s.owner_ = some t ↔ 0 < s.depth t ∨ s.pc t = .clearOwner
  count : ∀ t, 0 < s.depth t → s.recursion_count_ = s.depth t ∧ s.depth t < 2 ^ 32
  level : ∀ t, (s.pc t).hands = true → s.depth t = 0

variable {a : ι × MutexChoice ι}

namespace Owns

variable {s : State ι} {t : ι} {p : Pc}

lemma goto (h : Owns s) {q : Pc} (hpc : s.pc t = q) (hfrom : q.hands = false)
    (hto : p.hands = false) : Owns (s.goto t p) := by
  subst hpc
  have hhands : ∀ u, ((s.goto t p).pc u).hands = (s.pc u).hands := by
    intro u
    by_cases hut : u = t
    · simp [State.goto, hut, hfrom, hto]
    · simp [State.goto, update_of_ne hut]
  have hholds : ∀ u, (s.goto t p).Holds u ↔ s.Holds u := by
    intro u
    rw [State.Holds, hhands u]
    rfl
  have hclear : ∀ u, (s.goto t p).pc u = .clearOwner ↔ s.pc u = .clearOwner := by
    intro u
    by_cases hut : u = t
    · subst hut
      simp only [State.goto, update_self]
      constructor <;> intro heq <;> simp [heq, Pc.hands] at hto hfrom
    · simp [State.goto, update_of_ne hut]
  refine ⟨fun u v => ?_, fun u => ?_, fun u => ?_, h.count, fun u => ?_⟩
  · rw [hholds, hholds]
    exact h.single u v
  · rw [hholds]
    exact h.taken u
  · rw [hclear]
    exact h.owner u
  · rw [hhands]
    exact h.level u

omit [DecidableEq ι] in
lemma mark (h : Owns s) {w : LockWord} (hw : w ≠ .unlocked) :
    Owns { s with futex_state_ := w } :=
  { h with taken := fun _ _ => hw }

omit [DecidableEq ι] in
lemma alone (h : Owns s) (ht : s.Holds t ∨ s.futex_state_ = .unlocked) {u : ι} (hut : u ≠ t) :
    s.depth u = 0 ∧ (s.pc u).hands = false := by
  have hu : ¬ s.Holds u := by
    intro hu
    rcases ht with ht | hw
    · exact hut (h.single u t hu ht)
    · exact h.taken u hu hw
  simpa [State.Holds] using hu

lemma become (h : Owns s) (ht : s.Holds t ∨ s.futex_state_ = .unlocked) (p : Pc) (d : ℕ)
    (owner : Option ι) (count : ℕ) (w : LockWord)
    (hw : 0 < d ∨ p.hands = true → w ≠ .unlocked)
    (howner : owner = if 0 < d ∨ p = .clearOwner then some t else none)
    (hcount : 0 < d → count = d ∧ d < 2 ^ 32) (hlevel : p.hands = true → d = 0) :
    Owns ⟨owner, count, w, update s.pc t p, update s.depth t d⟩ := by
  have halone : ∀ u, u ≠ t → update s.depth t d u = 0 ∧
      (update s.pc t p u).hands = false := by
    intro u hut
    rw [update_of_ne hut, update_of_ne hut]
    exact h.alone ht hut
  have hholds : ∀ u, State.Holds ⟨owner, count, w, update s.pc t p,
      update s.depth t d⟩ u → u = t := by
    intro u hu
    by_contra hut
    obtain ⟨hdepth, hhands⟩ := halone u hut
    simp [State.Holds, hdepth, hhands] at hu
  refine ⟨fun u v hu hv => (hholds u hu).trans (hholds v hv).symm, fun u hu => ?_, fun u => ?_,
    fun u hu => ?_, fun u hu => ?_⟩
  · obtain rfl := hholds u hu
    exact hw (by simpa [State.Holds] using hu)
  · by_cases hut : u = t
    · subst hut
      simp only [howner, update_self]
      split_ifs with hcase
      · simpa using hcase
      · simpa using hcase
    · obtain ⟨hdepth, hhands⟩ := halone u hut
      have hclear : update s.pc t p u ≠ .clearOwner := by
        intro hu
        simp [hu, Pc.hands] at hhands
      have hne : owner ≠ some u := by
        rw [howner]
        split_ifs
        · simpa using fun htu : t = u => hut htu.symm
        · simp
      simp [hdepth, hclear, hne]
  · obtain rfl := hholds u (.inl hu)
    simpa using hcount (by simpa using hu)
  · obtain rfl := hholds u (.inr hu)
    simpa using hlevel (by simpa using hu)

omit [DecidableEq ι] in
lemma holds (h : Owns s) (howner : s.owner_ = some t) : s.Holds t :=
  ((h.owner t).mp howner).imp_right fun hu => by rw [hu]; rfl

lemma take (h : Owns s) (hw : s.futex_state_ = .unlocked) {w : LockWord} (hw' : w ≠ .unlocked) :
    Owns { s.goto t .storeOwner with futex_state_ := w } := by
  have hzero : s.depth t = 0 := by
    by_contra hpos
    exact h.taken t (.inl (Nat.pos_of_ne_zero hpos)) hw
  have hnone : s.owner_ = none :=
    Option.eq_none_iff_forall_ne_some.mpr fun u howner => h.taken u (h.holds howner) hw
  have hbecome := h.become (t := t) (.inr hw) .storeOwner 0 none s.recursion_count_ w
    (fun _ => hw') (by simp) (by simp) (by simp)
  rwa [← hnone, ← hzero, update_eq_self] at hbecome

lemma enter (h : Owns s) (hpc : s.pc t = .storeOwner) :
    Owns { s.goto t .idle with
      owner_ := some t
      recursion_count_ := 1
      depth := update s.depth t (s.depth t + 1) } := by
  have hhands : (s.pc t).hands = true := by rw [hpc]; rfl
  have hzero := h.level t hhands
  refine h.become (.inl (.inr hhands)) _ _ _ _ _ (fun _ => h.taken t (.inr hhands)) ?_ ?_ ?_
  · simp
  · simp [hzero]
  · simp [Pc.hands]

omit [DecidableEq ι] in
lemma inside (h : Owns s) (howner : s.owner_ = some t) (hpc : s.pc t ≠ .clearOwner) :
    0 < s.depth t := by
  rcases (h.owner t).mp howner with hdepth | hclear
  · exact hdepth
  · exact absurd hclear hpc

lemma reenter (h : Owns s) (howner : s.owner_ = some t) (hpc : s.pc t ≠ .clearOwner)
    (hlt : s.depth t + 1 < 2 ^ 32) : Owns (s.reenter t) := by
  have hpos := h.inside howner hpc
  have hcount := (h.count t hpos).1
  refine h.become (.inl (.inl hpos)) _ _ _ _ _ (fun _ => h.taken t (.inl hpos)) ?_ ?_ ?_
  · simp [howner]
  · intro _
    rw [hcount, Nat.mod_eq_of_lt hlt]
    exact ⟨rfl, hlt⟩
  · simp [Pc.hands]

lemma leave (h : Owns s) (howner : s.owner_ = some t) (hpc : s.pc t ≠ .clearOwner) :
    Owns (s.leave t) := by
  have hpos := h.inside howner hpc
  obtain ⟨hcount, hlt⟩ := h.count t hpos
  have hless : (s.recursion_count_ + (2 ^ 32 - 1)) % 2 ^ 32 = s.depth t - 1 := by
    rw [hcount]
    omega
  simp only [State.leave, hless]
  refine h.become (.inl (.inl hpos)) _ _ _ _ _ (fun _ => h.taken t (.inl hpos)) ?_ ?_ ?_
  · rw [howner]
    by_cases hmore : 0 < s.depth t - 1 <;> simp [hmore]
  · exact fun _ => ⟨rfl, by omega⟩
  · intro hhands
    split_ifs at hhands with hmore
    · cases hhands
    · omega

lemma clear (h : Owns s) (hpc : s.pc t = .clearOwner) :
    Owns { s.goto t .unlockExchange with owner_ := none } := by
  have hhands : (s.pc t).hands = true := by rw [hpc]; rfl
  have hbecome := h.become (t := t) (.inl (.inr hhands)) .unlockExchange 0 none
    s.recursion_count_ s.futex_state_ (fun _ => h.taken t (.inr hhands)) (by simp) (by simp)
    (by simp)
  rwa [← h.level t hhands, update_eq_self] at hbecome

lemma release (h : Owns s) (hpc : s.pc t = .unlockExchange) (hp : p.hands = false) :
    Owns { s.goto t p with futex_state_ := .unlocked } := by
  have hhands : (s.pc t).hands = true := by rw [hpc]; rfl
  have hzero := h.level t hhands
  have hnone : s.owner_ = none := by
    cases howner : s.owner_ with
    | none => rfl
    | some u =>
      obtain rfl := h.single u t (h.holds howner) (.inr hhands)
      simpa [hzero, hpc] using (h.owner u).mp howner
  have hclear : p ≠ .clearOwner := by
    rintro rfl
    cases hp
  have hbecome := h.become (t := t) (.inl (.inr hhands)) p 0 none s.recursion_count_
    .unlocked (by simp [hp]) (by simp [hclear]) (by simp) (by simp)
  rwa [← hnone, ← hzero, update_eq_self] at hbecome

lemma step [Fintype ι] (h : Owns s) {s' : State ι} (hok : DepthOk s a)
    (hst : step s a = some s') : Owns s' := by
  revert hst
  fun_cases FutexRecursiveMutex.step s a <;> rintro ⟨⟩
  -- the calls, and the steps of the slow path that leave the word
  case case1 hpc | case2 hpc | case3 hpc | case7 hpc | case9 hpc => exact h.goto hpc rfl rfl
  case case6 hpc | case11 hpc => split_ifs <;> exact h.goto hpc rfl rfl
  case case12 r hpc _ =>
    refine h.goto hpc rfl ?_
    unfold afterWait
    split <;> rfl
  -- the first load of `owner_`
  case case4 hpc =>
    split_ifs with howner
    · exact h.reenter howner (by rw [hpc]; decide) (hok (.inl hpc))
    · exact h.goto hpc rfl rfl
  case case15 hpc =>
    split_ifs with howner
    · exact h.reenter howner (by rw [hpc]; decide) (hok (.inr hpc))
    · exact h.goto hpc rfl rfl
  case case17 hpc =>
    rw [State.unlock_eq]
    split_ifs with howner
    · exact h.leave howner (by rw [hpc]; decide)
    · exact h.goto hpc rfl rfl
  -- the word is taken
  case case5 hpc | case8 hpc | case16 hpc =>
    split_ifs with hw
    · exact h.take hw (by decide)
    · exact h.goto hpc rfl rfl
  case case10 hpc =>
    split_ifs with hw
    · exact h.take hw (by decide)
    · exact (h.goto hpc rfl rfl).mark (by decide)
  case case14 hpc => exact h.enter hpc
  -- the release
  case case18 hpc => exact h.clear hpc
  case case19 hpc => exact h.release hpc (by split_ifs <;> rfl)
  case case20 hpc _ => exact h.goto hpc rfl rfl
  case case22 t u hpc hu =>
    have hne : u ≠ t := by
      rintro rfl
      simp [hpc] at hu
    exact (h.goto hpc rfl rfl).goto ((update_of_ne hne _ _).trans hu) rfl rfl

end Owns

section Runs

variable [Fintype ι]

variable {s s' : State ι} {t : ι}

/-- The account of the owner is right in every run under `DepthOk`. -/
theorem owns_of_reachable (h : (system ι).ReachableWithin DepthOk s) : Owns s := by
  refine h.invariant ?_ fun s a s' hI hok hst => hI.step hok hst
  rintro s rfl
  refine ⟨?_, ?_, ?_, ?_, ?_⟩ <;> simp [State.Holds, Pc.hands]

/-- Between two accesses of thread `t` the others take steps. -/
def Others (t : ι) (s s' : State ι) : Prop :=
  Relation.ReflTransGen
    (fun s s' => ∃ a, a.1 ≠ t ∧ DepthOk s a ∧ (system ι).step s a = some s') s s'

lemma depth_of_step (hne : a.1 ≠ t) (hpc : s.pc t = .idle)
    (hst : step s a = some s') : s'.depth t = s.depth t ∧ s'.pc t = .idle := by
  have hgoto : ∀ p, (s.goto a.1 p).depth t = s.depth t ∧ (s.goto a.1 p).pc t = .idle :=
    fun p => ⟨rfl, by simp [State.goto, hne.symm, hpc]⟩
  have hdepth : ∀ d, update s.depth a.1 d t = s.depth t := fun d => update_of_ne hne.symm d s.depth
  revert hst
  fun_cases step s a <;> rintro ⟨⟩
  case case5 | case8 | case16 =>
    split_ifs
    · exact hgoto .storeOwner
    · exact hgoto _
  -- the steps that count a level
  case case14 => exact ⟨hdepth _, (hgoto .idle).2⟩
  case case4 | case15 =>
    split_ifs
    · exact ⟨hdepth _, (hgoto .idle).2⟩
    · exact hgoto _
  case case17 =>
    rw [State.unlock_eq]
    split_ifs
    · exact ⟨hdepth _, by simp [State.leave, hne.symm, hpc]⟩
    · exact hgoto _
  case case22 v _ hv =>
    have htv : t ≠ v := by
      rintro rfl
      simp [hpc] at hv
    exact ⟨rfl, (update_of_ne htv _ _).trans (hgoto .idle).2⟩
  all_goals exact hgoto _

lemma Others.spec (hothers : Others t s s') (hs : (system ι).ReachableWithin DepthOk s)
    (hpc : s.pc t = .idle) :
    (system ι).ReachableWithin DepthOk s' ∧ s'.depth t = s.depth t ∧ s'.pc t = .idle := by
  induction hothers with
  | refl => exact ⟨hs, rfl, hpc⟩
  | tail _ hstep ih =>
    obtain ⟨hr, hdepth, hidle⟩ := ih
    obtain ⟨a, hne, hok, hst⟩ := hstep
    obtain ⟨hdepth', hidle'⟩ := depth_of_step hne hidle hst
    exact ⟨hr.step hok hst, hdepth'.trans hdepth, hidle'⟩

/-- **Ownership.** While the nesting depth stays below `2 ^ 32`: at most one thread is inside;
outside the operations `owner_` and `recursion_count_` are that thread and its depth; an `unlock` by
another thread throws and leaves everything as it was; and `recursion_depth` returns the depth of
its caller, which is `0` for everybody but the owner, whatever the others do between its two
reads. -/
theorem ownership {s : State ι} (h : (system ι).ReachableWithin DepthOk s) :
    (∀ t u, 0 < s.depth t → 0 < s.depth u → t = u) ∧
    (∀ t, 0 < s.depth t → s.pc t = .idle →
      s.owner_ = some t ∧ s.recursion_count_ = s.depth t) ∧
    (∀ t, s.pc t = .unlockOwner → s.depth t = 0 →
      checkOwner s t = .error "FutexRecursiveMutex::unlock: not owner" ∧
      step s (t, .go) = some (s.goto t .idle)) ∧
    ∀ t, s.pc t = .idle → ∀ s', Others t s s' → recursionDepth s s' t = s.depth t := by
  have howns := owns_of_reachable h
  refine ⟨fun t u ht hu => howns.single t u (.inl ht) (.inl hu), fun t ht _ => ?_,
    fun t hpc hzero => ?_, fun t hpc s' hothers => ?_⟩
  · exact ⟨(howns.owner t).mpr (.inl ht), (howns.count t ht).1⟩
  · have hother : s.owner_ ≠ some t := by
      intro howner
      have hpos := howns.inside howner (by rw [hpc]; decide)
      omega
    exact ⟨if_neg hother, by simp [step, hpc, hother, State.unlock_eq]⟩
  · obtain ⟨hs', hdepth, -⟩ := hothers.spec h hpc
    unfold recursionDepth
    split_ifs with howner
    · have hpos := howns.inside howner (by rw [hpc]; decide)
      rw [← hdepth] at hpos ⊢
      exact ((owns_of_reachable hs').count t hpos).1
    · by_contra hne
      exact howner ((howns.owner t).mpr (.inl (Nat.pos_of_ne_zero fun hzero => hne hzero.symm)))

/-- The owner is two levels deep, and another thread calls `unlock`. -/
theorem ownership_nested :
    ∃ s : State (Fin 2), (system (Fin 2)).ReachableWithin DepthOk s ∧ s.depth 0 = 2 ∧
      s.owner_ = some 0 ∧ s.recursion_count_ = 2 ∧
      checkOwner s 1 = .error "FutexRecursiveMutex::unlock: not owner" ∧
      recursionDepth s s 0 = 2 := by
  have hs : (system (Fin 2)).ReachableWithin DepthOk _ :=
    .final ⟨none, 0, .unlocked, fun _ => .idle, fun _ => 0⟩
      [(0, .lock), (0, .go), (0, .go), (0, .go), (0, .lock), (0, .go), (1, .unlock)] (by rfl)
      (by decide)
  obtain ⟨-, hinside, hthrows, hasks⟩ := ownership hs
  obtain ⟨howner, hcount⟩ := hinside 0 (by decide) rfl
  exact ⟨_, hs, rfl, howner, hcount, (hthrows 1 rfl rfl).1, hasks 0 rfl _ .refl⟩

end Runs

end Pman.FutexRecursiveMutex
