import Mathlib.Data.List.Forall2
import Pman.Timer.Wheel

set_option autoImplicit false

/-!
# The timer wheel: where entries are

The member functions of `TimerWheel` change one slot at a time. `insert` puts an entry into one slot,
its home, which depends on the current slots and on the delay only. The wheels keep their shape
(`WellFormed`): `cancel` marks an entry where it is, and the others put entries into slots.

## Main definitions

* `Wheel.WellFormed`: the shape of the wheels; `Wheel.home`: where `insert` puts an entry.
-/

namespace Pman.TimerWheel.Wheel

open List

variable {κ : Type*}

def slot (d : Wheel κ) (w x : ℕ) : List (Entry κ) := (d.wheels_.getD w []).getD x []

/-- The containers have the sizes of the configuration, which the constructor has checked. -/
structure WellFormed (d : Wheel κ) : Prop where
  wheels : d.wheels_.length = d.config_.numWheels
  slots : ∀ wheel ∈ d.wheels_, wheel.length = d.config_.wheelSize
  current : d.currentSlots_.length = d.config_.numWheels
  size_pos : 0 < d.config_.wheelSize
  wheels_pos : 0 < d.config_.numWheels

variable {config : Config} {d' : Wheel κ} {n : ℕ}

lemma WellFormed.new (hN : 0 < config.wheelSize) (hK : 0 < config.numWheels) (now : ℤ) :
    WellFormed (new config now : Wheel κ) := by
  refine ⟨length_replicate, fun wheel hwheel => ?_, length_replicate, hN, hK⟩
  rw [eq_of_mem_replicate hwheel]
  exact length_replicate

variable {d : Wheel κ} {w : ℕ}

lemma WellFormed.congr (h : WellFormed d) (hconfig : d'.config_ = d.config_)
    (hwheels : d'.wheels_ = d.wheels_) (hslots : d'.currentSlots_ = d.currentSlots_) :
    WellFormed d' := by
  refine ⟨?_, ?_, ?_, ?_, ?_⟩
  · rw [hwheels, hconfig]
    exact h.wheels
  · rw [hwheels, hconfig]
    exact h.slots
  · rw [hslots, hconfig]
    exact h.current
  · rw [hconfig]
    exact h.size_pos
  · rw [hconfig]
    exact h.wheels_pos

/-! ### One slot -/

def editSlot (d : Wheel κ) (w x : ℕ) (f : List (Entry κ) → List (Entry κ)) : Wheel κ :=
  { d with wheels_ := d.wheels_.modify w fun wheel => wheel.modify x f }

variable {α : Type*}

lemma getD_modify (l : List α) (f : α → α) (a : α) {i : ℕ} (hi : i < l.length) (j : ℕ) :
    (l.modify i f).getD j a = if j = i then f (l.getD i a) else l.getD j a := by
  simp only [getD_eq_getElem?_getD, getElem?_modify]
  by_cases hij : j = i
  · subst hij
    simp [getElem?_eq_getElem hi]
  · have hne : i ≠ j := fun h => hij h.symm
    simp [hij, hne]

lemma WellFormed.getD_mem (h : WellFormed d) (hw : w < d.config_.numWheels) :
    d.wheels_.getD w [] ∈ d.wheels_ := by
  rw [getD_eq_getElem?_getD, getElem?_eq_getElem (h.wheels ▸ hw)]
  exact getElem_mem _

lemma WellFormed.editSlot (h : WellFormed d) (w x : ℕ) (f : List (Entry κ) → List (Entry κ)) :
    WellFormed (d.editSlot w x f) := by
  refine { h with wheels := ?_, slots := fun wheel hwheel => ?_ }
  · rw [Wheel.editSlot, length_modify]
    exact h.wheels
  · obtain ⟨i, hi⟩ := mem_iff_getElem?.mp hwheel
    rw [Wheel.editSlot, getElem?_modify] at hi
    obtain ⟨old, hold, rfl⟩ := Option.map_eq_some_iff.mp hi
    have hlen := h.slots old (mem_of_getElem? hold)
    split_ifs
    · rw [length_modify]
      exact hlen
    · exact hlen

/-! ### `insert` -/

/-- The wheel that `insert` chooses, given the slot in each wheel: the first in which the slot
exists, or the last. -/
def levelFrom (config : Config) (slotOf : ℕ → ℕ) : ℕ → ℕ → ℕ
  | 0, w => w
  | n + 1, w =>
    if slotOf w < config.wheelSize ∨ w = config.numWheels - 1 then w
    else levelFrom config slotOf n (w + 1)

lemma levelFrom_lt (slotOf : ℕ → ℕ) (h : n + w = config.numWheels) (hn : 0 < n) :
    levelFrom config slotOf n w < config.numWheels := by
  induction n generalizing w with
  | zero => omega
  | succ n ih =>
    unfold levelFrom
    split_ifs with hstop
    · omega
    · have hne : w ≠ config.numWheels - 1 := fun heq => hstop (.inr heq)
      exact ih (by omega) (by omega)

variable {v : ℕ}

lemma le_slotOf_of_lt_levelFrom {slotOf : ℕ → ℕ} (hv : w ≤ v)
    (h : v < levelFrom config slotOf n w) : config.wheelSize ≤ slotOf v := by
  induction n generalizing w with
  | zero => exact absurd h (not_lt.mpr hv)
  | succ n ih =>
    unfold levelFrom at h
    split_ifs at h with hstop
    · omega
    · rcases Nat.eq_or_lt_of_le hv with rfl | hlt
      · exact not_lt.mp fun hslot => hstop (.inl hslot)
      · exact ih hlt h

/-- The loop of `computeSlot` computes a power. -/
lemma ticksPerSlot_eq (c : Config) (w : ℕ) :
    ticksPerSlot c w = c.tickDuration * (c.wheelSize : ℤ) ^ w := by
  induction w with
  | zero => simp [ticksPerSlot]
  | succ w ih => rw [ticksPerSlot, ih, pow_succ, mul_assoc]

/-- `insert` stops at a wheel that has the slot, or at the last. -/
lemma levelFrom_stops (slotOf : ℕ → ℕ) (h : n + w = config.numWheels) (hn : 0 < n) :
    slotOf (levelFrom config slotOf n w) < config.wheelSize ∨
      levelFrom config slotOf n w = config.numWheels - 1 := by
  induction n generalizing w with
  | zero => omega
  | succ n ih =>
    unfold levelFrom
    split_ifs with hstop
    · exact hstop
    · have hne : w ≠ config.numWheels - 1 := fun heq => hstop (.inr heq)
      exact ih (by omega) (by omega)

/-- The distance of the slots in a wheel that `insert` comes to is the duration of a tick, or at
most the delay: the wheel before had too few slots. -/
lemma ticksPerSlot_le {delay : ℤ} (hsize : 0 < config.wheelSize)
    (htick : 0 < config.tickDuration) (hdelay : 0 ≤ delay) (hlt : delay < 2 ^ 63)
    (hv : v ≤ levelFrom config (computeSlot config delay) n 0) :
    0 < ticksPerSlot config v ∧ ticksPerSlot config v ≤ max config.tickDuration delay := by
  induction v with
  | zero => exact ⟨htick, le_max_left _ _⟩
  | succ v ih =>
    obtain ⟨hpos, -⟩ := ih (Nat.le_of_succ_le hv)
    have hslot := le_slotOf_of_lt_levelFrom (Nat.zero_le v) hv
    have hsize : (0 : ℤ) < config.wheelSize := by exact_mod_cast hsize
    refine ⟨Int.mul_pos hpos hsize, le_trans ?_ (le_max_right _ _)⟩
    rw [computeSlot, Int.tdiv_eq_ediv_of_nonneg hdelay, toSize] at hslot
    have hle : delay / ticksPerSlot config v ≤ delay := Int.ediv_le_self _ hdelay
    have hnonneg := Int.ediv_nonneg hdelay (Int.le_of_lt hpos)
    have hquot : (config.wheelSize : ℤ) ≤ delay / ticksPerSlot config v := by omega
    rw [ticksPerSlot, mul_comm]
    exact (Int.le_ediv_iff_mul_le hpos).mp hquot

def delayAt (now : ℤ) (expiry : ℤ) : ℤ := if now < expiry then expiry - now else 0

lemma delayAt_nonneg (now expiry : ℤ) : 0 ≤ delayAt now expiry := by
  unfold delayAt
  split_ifs <;> omega

lemma delayAt_lt {now expiry : ℤ} (h : expiry < now + 2 ^ 63) : delayAt now expiry < 2 ^ 63 := by
  unfold delayAt
  split_ifs <;> omega

def home (d : Wheel κ) (now expiry : ℤ) : ℕ × ℕ :=
  let slotOf := computeSlot d.config_ (delayAt now expiry)
  let w := levelFrom d.config_ slotOf d.config_.numWheels 0
  (w, (d.currentSlot w + min (slotOf w) (d.config_.wheelSize - 1)) % d.config_.wheelSize)

lemma insertFrom_eq (delay : ℤ) (entry : Entry κ) (h : n + w = d.config_.numWheels) (hn : 0 < n) :
    d.insertFrom delay entry n w =
      d.place (levelFrom d.config_ (computeSlot d.config_ delay) n w)
        (computeSlot d.config_ delay (levelFrom d.config_ (computeSlot d.config_ delay) n w))
        entry := by
  induction n generalizing w with
  | zero => omega
  | succ n ih =>
    unfold insertFrom levelFrom
    by_cases hstop : computeSlot d.config_ delay w < d.config_.wheelSize ∨
        w = d.config_.numWheels - 1
    · simp only [if_pos hstop]
    · have hne : w ≠ d.config_.numWheels - 1 := fun heq => hstop (.inr heq)
      simp only [if_neg hstop]
      exact ih (by omega) (by omega)

section

variable (h : WellFormed d)

include h

lemma insert_eq (now : ℤ) (entry : Entry κ) :
    d.insert now entry =
      d.editSlot (d.home now entry.expiry).1 (d.home now entry.expiry).2 (· ++ [entry]) :=
  insertFrom_eq _ entry (add_zero _) h.wheels_pos

lemma home_lt (now expiry : ℤ) :
    (d.home now expiry).1 < d.config_.numWheels ∧
      (d.home now expiry).2 < d.config_.wheelSize :=
  ⟨levelFrom_lt _ (add_zero _) h.wheels_pos, Nat.mod_lt _ h.size_pos⟩

lemma config_insert (now : ℤ) (entry : Entry κ) : (d.insert now entry).config_ = d.config_ := by
  rw [insert_eq h]
  rfl

lemma currentSlots_insert (now : ℤ) (entry : Entry κ) :
    (d.insert now entry).currentSlots_ = d.currentSlots_ := by
  rw [insert_eq h]
  rfl

end

lemma nextId_insertFrom (d : Wheel κ) (delay : ℤ) (entry : Entry κ) (n w : ℕ) :
    (d.insertFrom delay entry n w).nextId_ = d.nextId_ := by
  induction n generalizing w with
  | zero => rfl
  | succ n ih =>
    simp only [insertFrom]
    split_ifs
    · rfl
    · exact ih (w + 1)

/-! ### `cascade` -/

lemma nextId_cascade (d : Wheel κ) (now : ℤ) (w : ℕ) :
    (d.cascade now w).nextId_ = d.nextId_ := by
  have hspread : ∀ (l : List (Entry κ)) (d : Wheel κ),
      (l.foldl (fun d entry => if entry.cancelled then d else d.insert now entry) d).nextId_ =
        d.nextId_ := by
    intro l
    induction l with
    | nil => exact fun _ => rfl
    | cons a l ih =>
      intro d
      rw [foldl_cons, ih]
      split_ifs
      · rfl
      · exact nextId_insertFrom d _ a _ _
  unfold Wheel.cascade
  split_ifs
  · rfl
  · exact hspread _ _

/-! ### `cancel` -/

variable {l l' : List α} {R : α → α → Prop}

lemma forall₂_updateFirst {f : α → Option α} (hrefl : ∀ a, R a a)
    (hf : ∀ a a', f a = some a' → R a a') (h : updateFirst f l = some l') :
    List.Forall₂ R l l' := by
  induction l generalizing l' with
  | nil => cases h
  | cons a l ih =>
    unfold updateFirst at h
    cases ha : f a with
    | some a' =>
      rw [ha] at h
      cases h
      exact .cons (hf a a' ha) (forall₂_same.mpr fun b _ => hrefl b)
    | none =>
      rw [ha] at h
      obtain ⟨l₂, hl₂, rfl⟩ := Option.map_eq_some_iff.mp h
      exact .cons (hrefl a) (ih hl₂)

/-- `cancel` marks an entry and changes nothing else. -/
lemma wellFormed_cancel (h : WellFormed d) (timerId : ℕ) :
    WellFormed (d.cancel timerId).1 ∧ (d.cancel timerId).1.config_ = d.config_ ∧
      (d.cancel timerId).1.currentSlots_ = d.currentSlots_ ∧
      (d.cancel timerId).1.nextId_ = d.nextId_ := by
  simp only [Wheel.cancel]
  split
  · next wheels hwheels =>
    have hpairs := forall₂_updateFirst
      (R := fun wheel wheel' : List (List (Entry κ)) => wheel'.length = wheel.length)
      (fun _ => rfl) (fun wheel wheel' hwheel => by
        have hslots := forall₂_updateFirst (R := fun _ _ => True) (fun _ => trivial)
          (fun _ _ _ => trivial) hwheel
        exact hslots.length_eq.symm) hwheels
    refine ⟨{ h with
      wheels := hpairs.length_eq.symm.trans h.wheels
      slots := fun wheel hwheel => ?_ }, rfl, rfl, rfl⟩
    obtain ⟨i, hi, rfl⟩ := mem_iff_getElem.mp hwheel
    have hsame := hpairs.get (hpairs.length_eq ▸ hi) hi
    exact hsame.trans (h.slots _ (getElem_mem _))
  · exact ⟨h, rfl, rfl, rfl⟩

end Pman.TimerWheel.Wheel
