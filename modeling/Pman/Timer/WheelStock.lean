import Mathlib.Algebra.Order.Group.Multiset
import Pman.Lib.Tally
import Pman.Timer.WheelSlots

set_option autoImplicit false

/-!
# The timer wheel: the entries as a whole

Where an entry is does not matter for what becomes of it. This file forgets the slots and looks at
all the entries of the wheels as a multiset: `insert` adds one, `cancel` marks one, `takeExpired`
takes some out, and `advance` with its cascades only drops entries that are cancelled, although it
empties slots and inserts into the wheels it is emptying.
-/

namespace Pman.TimerWheel.Wheel

open List Tally

variable {κ : Type*} {d d' d'' : Wheel κ}

def wheelStock (wheel : List (List (Entry κ))) : Multiset (Entry κ) :=
  total Multiset.ofList wheel

def stock (d : Wheel κ) : Multiset (Entry κ) := total wheelStock d.wheels_

variable {α : Type*}

lemma coe_flatten (l : List (List α)) : (l.flatten : Multiset α) = total Multiset.ofList l := by
  induction l with
  | nil => rfl
  | cons x l ih => rw [flatten_cons, ← Multiset.coe_add, ih, total_cons]

lemma coe_entries (d : Wheel κ) : (d.entries : Multiset (Entry κ)) = d.stock := by
  unfold entries stock
  induction d.wheels_ with
  | nil => rfl
  | cons wheel wheels ih =>
    rw [flatten_cons, flatten_append, ← Multiset.coe_add, ih, coe_flatten, total_cons]
    rfl

lemma mem_entries (entry : Entry κ) : entry ∈ d.entries ↔ entry ∈ d.stock := by
  rw [← coe_entries, Multiset.mem_coe]

/-- A wheel whose current slots are in range. -/
structure Turning (d : Wheel κ) : Prop extends WellFormed d where
  current_lt : ∀ w < d.config_.numWheels, d.currentSlot w < d.config_.wheelSize

lemma Turning.congr (h : Turning d) (hconfig : d'.config_ = d.config_)
    (hwheels : d'.wheels_ = d.wheels_) (hslots : d'.currentSlots_ = d.currentSlots_) :
    Turning d' := by
  refine ⟨h.toWellFormed.congr hconfig hwheels hslots, fun w hw => ?_⟩
  rw [hconfig] at hw ⊢
  rw [currentSlot, hslots]
  exact h.current_lt w hw

lemma Turning.new {config : Config} (hN : 0 < config.wheelSize) (hK : 0 < config.numWheels)
    (now : ℤ) : Turning (new config now : Wheel κ) := by
  refine ⟨WellFormed.new hN hK now, fun w hw => ?_⟩
  have hzero : (Wheel.new config now : Wheel κ).currentSlot w = 0 := by
    simp only [currentSlot, Wheel.new, getD_eq_getElem?_getD, getElem?_replicate]
    split <;> rfl
  rw [hzero]
  exact hN

lemma stock_editSlot (h : WellFormed d) {w x : ℕ} (hw : w < d.config_.numWheels)
    (hx : x < d.config_.wheelSize) :
    ∃ rest, d.stock = d.slot w x + rest ∧
      ∀ f, (d.editSlot w x f).stock = f (d.slot w x) + rest := by
  have hwheel : d.wheels_[w]? = some (d.wheels_.getD w []) := by
    rw [getD_eq_getElem?_getD, getElem?_eq_getElem (h.wheels ▸ hw)]
    rfl
  have hlength := h.slots _ (h.getD_mem hw)
  have hslot : (d.wheels_.getD w [])[x]? = some (d.slot w x) := by
    have hx : x < (d.wheels_.getD w []).length := hlength ▸ hx
    simp only [slot, getD_eq_getElem?_getD (i := x), getElem?_eq_getElem hx, Option.getD_some]
  obtain ⟨others, hstock, -, hmodify, -⟩ := exists_rest wheelStock hwheel
  obtain ⟨rest, hrest, -, hmodify', -⟩ := exists_rest Multiset.ofList hslot
  refine ⟨rest + others, ?_, fun f => ?_⟩
  · rw [stock, hstock, wheelStock, hrest, add_assoc]
  · rw [stock, editSlot, hmodify, wheelStock, hmodify', add_assoc]

lemma Turning.editSlot (h : Turning d) (w x : ℕ) (f : List (Entry κ) → List (Entry κ)) :
    Turning (d.editSlot w x f) :=
  ⟨h.toWellFormed.editSlot w x f, h.current_lt⟩

/-! ### `insert`, `cascade` and `advance` -/

/-- **Entries have moved**: nothing is gone but cancelled entries, and the counters are the same. -/
structure Rearranged (d d' : Wheel κ) : Prop where
  turning : Turning d'
  config_ : d'.config_ = d.config_
  nextId_ : d'.nextId_ = d.nextId_
  activeCount_ : d'.activeCount_ = d.activeCount_
  stock : ∃ dropped, d.stock = dropped + d'.stock ∧ ∀ entry ∈ dropped, entry.cancelled = true

lemma Rearranged.refl (h : Turning d) : Rearranged d d :=
  ⟨h, rfl, rfl, rfl, 0, by simp⟩

lemma Rearranged.trans (h : Rearranged d d') (h' : Rearranged d' d'') : Rearranged d d'' := by
  obtain ⟨dropped, hstock, hdropped⟩ := h.stock
  obtain ⟨dropped', hstock', hdropped'⟩ := h'.stock
  refine ⟨h'.turning, h'.config_.trans h.config_, h'.nextId_.trans h.nextId_,
    h'.activeCount_.trans h.activeCount_, dropped + dropped', ?_, fun entry hentry => ?_⟩
  · rw [hstock, hstock', add_assoc]
  · exact (Multiset.mem_add.mp hentry).elim (hdropped entry) (hdropped' entry)

lemma Turning.insert (h : Turning d) (now : ℤ) (entry : Entry κ) :
    Turning (d.insert now entry) := by
  rw [insert_eq h.toWellFormed]
  exact h.editSlot _ _ _

lemma activeCount_insert (h : WellFormed d) (now : ℤ) (entry : Entry κ) :
    (d.insert now entry).activeCount_ = d.activeCount_ := by
  rw [insert_eq h]
  rfl

lemma nextId_insert (d : Wheel κ) (now : ℤ) (entry : Entry κ) :
    (d.insert now entry).nextId_ = d.nextId_ :=
  nextId_insertFrom d _ entry _ _

lemma stock_insert (h : WellFormed d) (now : ℤ) (entry : Entry κ) :
    (d.insert now entry).stock = entry ::ₘ d.stock := by
  obtain ⟨hw, hx⟩ := home_lt h now entry.expiry
  obtain ⟨rest, hstock, hedit⟩ := stock_editSlot h hw hx
  rw [insert_eq h, hedit, hstock, ← Multiset.coe_add, Multiset.coe_singleton,
    ← Multiset.singleton_add]
  abel

/-- The loop of `cascade`.

**Proof sketch.** Induction on the entries. -/
lemma rearranged_spread (now : ℤ) (l : List (Entry κ)) (h : Turning d) :
    let d' := l.foldl (fun d entry => if entry.cancelled then d else d.insert now entry) d
    Turning d' ∧ d'.config_ = d.config_ ∧ d'.currentSlots_ = d.currentSlots_ ∧
      d'.activeCount_ = d.activeCount_ ∧
      ∃ dropped, l + d.stock = dropped + d'.stock ∧ ∀ entry ∈ dropped, entry.cancelled = true := by
  induction l generalizing d with
  | nil => exact ⟨h, rfl, rfl, rfl, 0, by simp⟩
  | cons a l ih =>
    rw [foldl_cons]
    cases ha : a.cancelled with
    | true =>
      obtain ⟨hturning, hconfig, hslots, hcount, dropped, hstock, hdropped⟩ := ih h
      simp only [if_true]
      refine ⟨hturning, hconfig, hslots, hcount, a ::ₘ dropped, ?_, fun entry hentry => ?_⟩
      · rw [← Multiset.cons_coe, Multiset.cons_add, hstock, Multiset.cons_add]
      · rcases Multiset.mem_cons.mp hentry with rfl | hentry
        · exact ha
        · exact hdropped entry hentry
    | false =>
      obtain ⟨hturning, hconfig, hslots, hcount, dropped, hstock, hdropped⟩ := ih (h.insert now a)
      simp only [Bool.false_eq_true, if_false]
      refine ⟨hturning, hconfig.trans (config_insert h.toWellFormed now a),
        hslots.trans (currentSlots_insert h.toWellFormed now a),
        hcount.trans (activeCount_insert h.toWellFormed now a), dropped, ?_, hdropped⟩
      rw [← hstock, stock_insert h.toWellFormed, ← Multiset.cons_coe, Multiset.cons_add,
        Multiset.add_cons]

/-- A cascade puts the entries of a slot elsewhere and keeps every live one. -/
lemma rearranged_cascade (h : Turning d) (now : ℤ) (w : ℕ) :
    Rearranged d (d.cascade now w) ∧ (d.cascade now w).currentSlots_ = d.currentSlots_ := by
  by_cases hw : w < d.config_.numWheels
  · have hcascade : d.cascade now w = (d.slot w (d.currentSlot w)).foldl
        (fun d entry => if entry.cancelled then d else d.insert now entry)
        (d.editSlot w (d.currentSlot w) fun _ => []) := by
      unfold cascade
      rw [if_neg (not_le.mpr hw)]
      rfl
    obtain ⟨rest, hstock, hedit⟩ := stock_editSlot h.toWellFormed hw (h.current_lt w hw)
    obtain ⟨hturning, hconfig, hslots, hcount, dropped, hspread, hdropped⟩ :=
      rearranged_spread now (d.slot w (d.currentSlot w))
        (h.editSlot w (d.currentSlot w) fun _ => [])
    rw [← hcascade] at hturning hconfig hslots hcount hspread
    refine ⟨⟨hturning, hconfig, nextId_cascade d now w, hcount, dropped, ?_, hdropped⟩, hslots⟩
    rw [← hspread, hedit, hstock]
    simp
  · have hcascade : d.cascade now w = d := if_pos (not_lt.mp hw)
    rw [hcascade]
    exact ⟨.refl h, rfl⟩

lemma rearranged_bumpSlot (h : Turning d) (w : ℕ) : Rearranged d (d.bumpSlot w) := by
  refine ⟨⟨{ h with current := (length_modify ..).trans h.current },
    fun w' hw' => ?_⟩, rfl, rfl, rfl, 0, by simp [bumpSlot, stock], by simp⟩
  have hold : d.currentSlot w' < d.config_.wheelSize := h.current_lt w' hw'
  by_cases hw : w < d.config_.numWheels
  · have hnew : (d.bumpSlot w).currentSlot w' =
        if w' = w then (d.currentSlot w + 1) % d.config_.wheelSize else d.currentSlot w' :=
      getD_modify _ _ _ (h.current ▸ hw) w'
    rw [hnew]
    split
    · exact Nat.mod_lt _ h.size_pos
    · exact hold
  · have hsame : d.bumpSlot w = d := by
      unfold bumpSlot
      rw [modify_eq_self (h.current.symm ▸ not_lt.mp hw)]
    rw [hsame]
    exact hold

/-- So do the cascades of one tick. -/
lemma rearranged_cascadeFrom (now : ℤ) (n w : ℕ) (h : Turning d) :
    Rearranged d (cascadeFrom now n w d) := by
  induction n generalizing d w with
  | zero => exact .refl h
  | succ n ih =>
    have hcascade := (rearranged_cascade h now w).1
    have hbump := hcascade.trans (rearranged_bumpSlot hcascade.turning w)
    simp only [cascadeFrom]
    split
    · exact hbump
    · exact hbump.trans (ih (w + 1) hbump.turning)

lemma rearranged_advanceTick (now : ℤ) (h : Turning d) : Rearranged d (advanceTick now d) := by
  have hbump := rearranged_bumpSlot h 0
  simp only [advanceTick]
  split
  · exact hbump.trans (rearranged_cascadeFrom now _ 1 hbump.turning)
  · exact hbump

/-- **`advance` only rearranges the entries.** -/
lemma rearranged_advance (h : Turning d) (now elapsed : ℤ) :
    Rearranged d (d.advance now elapsed) := by
  have hticks : ∀ n, Rearranged d ((advanceTick now)^[n] d) := by
    intro n
    induction n with
    | zero => exact .refl h
    | succ n ih =>
      rw [Function.iterate_succ_apply']
      exact ih.trans (rearranged_advanceTick now ih.turning)
  have hall := hticks (elapsed.tdiv d.config_.tickDuration).toNat
  obtain ⟨hturning, hconfig, hnext, hcount, hstock⟩ := hall
  exact ⟨hturning.congr rfl rfl rfl, hconfig, hnext, hcount, hstock⟩

/-! ### `cancel` -/

lemma total_updateFirst {M : Type*} [AddCommMonoid M] (g : α → M) {f : α → Option α} (l : List α) :
    match updateFirst f l with
    | some l' => ∃ a a' rest, a ∈ l ∧ f a = some a' ∧ total g l = g a + rest ∧
        total g l' = g a' + rest
    | none => ∀ a ∈ l, f a = none := by
  induction l with
  | nil => simp [updateFirst]
  | cons a l ih =>
    unfold updateFirst
    cases ha : f a with
    | some a' => exact ⟨a, a', total g l, mem_cons_self, ha, by simp, by simp⟩
    | none =>
      cases hl : updateFirst f l with
      | none =>
        rw [hl] at ih
        intro b hb
        rcases mem_cons.mp hb with rfl | hb
        · exact ha
        · exact ih b hb
      | some l' =>
        rw [hl] at ih
        obtain ⟨b, b', rest, hb, hf, hsum, hsum'⟩ := ih
        refine ⟨b, b', g a + rest, mem_cons_of_mem _ hb, hf, ?_, ?_⟩
        · rw [total_cons, hsum]
          abel
        · rw [total_cons, hsum']
          abel

lemma total_singleton (l : List α) : total (fun a => ({a} : Multiset α)) l = (l : Multiset α) := by
  induction l with
  | nil => rfl
  | cons a l ih => rw [total_cons, ih, Multiset.singleton_add, Multiset.cons_coe]

def mark (timerId : ℕ) (entry : Entry κ) : Option (Entry κ) :=
  if entry.id = timerId ∧ entry.cancelled = false then some { entry with cancelled := true }
  else none

variable {timerId : ℕ} {entry : Entry κ}

lemma mark_eq_some {entry' : Entry κ} (h : mark timerId entry = some entry') :
    entry.id = timerId ∧ entry.cancelled = false ∧ entry' = { entry with cancelled := true } := by
  unfold mark at h
  split at h
  case isTrue hid => exact ⟨hid.1, hid.2, (Option.some.inj h).symm⟩
  case isFalse => cases h

lemma mark_eq_none (h : mark timerId entry = none) (hid : entry.id = timerId) :
    entry.cancelled = true := by
  by_contra hlive
  simp [mark, hid, hlive] at h

lemma cancel_of_some {wheels : List (List (List (Entry κ)))}
    (h : updateFirst (updateFirst (updateFirst (mark timerId))) d.wheels_ = some wheels) :
    d.cancel timerId =
      ({ d with wheels_ := wheels, activeCount_ := d.activeCount_ - 1 }, true) := by
  unfold mark at h
  simp only [cancel, h]

lemma cancel_of_none (h : updateFirst (updateFirst (updateFirst (mark timerId))) d.wheels_ = none) :
    d.cancel timerId = (d, false) := by
  unfold mark at h
  simp only [cancel, h]

/-- **`cancel` marks an entry** with the id that is not cancelled, if there is one in the wheels. -/
lemma stock_cancel (d : Wheel κ) (timerId : ℕ) :
    ((d.cancel timerId).2 = true ∧ ∃ entry rest, entry.id = timerId ∧ entry.cancelled = false ∧
        d.stock = entry ::ₘ rest ∧
        (d.cancel timerId).1.stock = { entry with cancelled := true } ::ₘ rest ∧
        (d.cancel timerId).1.activeCount_ = d.activeCount_ - 1) ∨
      (d.cancel timerId).2 = false ∧ (d.cancel timerId).1 = d ∧
        ∀ entry ∈ d.stock, entry.id = timerId → entry.cancelled = true := by
  have houter :=
    total_updateFirst wheelStock (f := updateFirst (updateFirst (mark timerId))) d.wheels_
  cases hwheels : updateFirst (updateFirst (updateFirst (mark timerId))) d.wheels_ with
  | some wheels =>
    rw [hwheels] at houter
    obtain ⟨wheel, wheel', others, -, hwheel, hstock, hstock'⟩ := houter
    have hmiddle := total_updateFirst Multiset.ofList (f := updateFirst (mark timerId)) wheel
    rw [hwheel] at hmiddle
    obtain ⟨slot, slot', rest, -, hslot, hsum, hsum'⟩ := hmiddle
    have hinner :=
      total_updateFirst (fun entry => ({entry} : Multiset (Entry κ))) (f := mark timerId) slot
    rw [hslot] at hinner
    obtain ⟨entry, entry', left, -, hmark, hslot, hslot'⟩ := hinner
    rw [total_singleton] at hslot hslot'
    obtain ⟨hid, hlive, rfl⟩ := mark_eq_some hmark
    rw [cancel_of_some hwheels]
    refine .inl ⟨rfl, entry, left + rest + others, hid, hlive, ?_, ?_, rfl⟩
    · rw [stock, hstock, wheelStock, hsum, hslot, ← Multiset.singleton_add]
      abel
    · rw [stock, hstock', wheelStock, hsum', hslot', ← Multiset.singleton_add]
      abel
  | none =>
    rw [hwheels] at houter
    rw [cancel_of_none hwheels]
    refine .inr ⟨rfl, rfl, fun entry hentry hid => ?_⟩
    rw [← mem_entries, entries, mem_flatten] at hentry
    obtain ⟨slot, hslot, hentry⟩ := hentry
    obtain ⟨wheel, hwheel, hslot⟩ := mem_flatten.mp hslot
    have hmiddle := total_updateFirst Multiset.ofList (f := updateFirst (mark timerId)) wheel
    rw [houter wheel hwheel] at hmiddle
    have hinner :=
      total_updateFirst (fun entry => ({entry} : Multiset (Entry κ))) (f := mark timerId) slot
    rw [hmiddle slot hslot] at hinner
    exact mark_eq_none (hinner entry hentry) hid

lemma Turning.cancel (h : Turning d) (timerId : ℕ) : Turning (d.cancel timerId).1 := by
  obtain ⟨hwf, hconfig, hslots, -⟩ := wellFormed_cancel h.toWellFormed timerId
  refine ⟨hwf, fun w hw => ?_⟩
  rw [hconfig] at hw ⊢
  rw [currentSlot, hslots]
  exact h.current_lt w hw

lemma nextId_cancel (h : Turning d) (timerId : ℕ) :
    (d.cancel timerId).1.nextId_ = d.nextId_ :=
  (wellFormed_cancel h.toWellFormed timerId).2.2.2

/-! ### `takeExpired` -/

lemma Turning.takeExpired (h : Turning d) (now : ℤ) : Turning (d.takeExpired now).1 :=
  h.editSlot 0 (d.currentSlot 0) _

lemma stock_takeExpired (h : Turning d) (now : ℤ) :
    ∃ dropped, d.stock = dropped + ((d.takeExpired now).2 + (d.takeExpired now).1.stock) ∧
      (∀ entry ∈ dropped, entry.cancelled = true) ∧
      ∀ entry ∈ (d.takeExpired now).2, entry.cancelled = false := by
  obtain ⟨rest, hstock, hedit⟩ :=
    stock_editSlot h.toWellFormed h.wheels_pos (h.current_lt 0 h.wheels_pos)
  let slot := d.slot 0 (d.currentSlot 0)
  let live := slot.filter fun entry => !entry.cancelled
  have htaken : (d.takeExpired now).2 = live.filter fun entry => decide (entry.expiry ≤ now) := rfl
  have hafter : (d.takeExpired now).1.stock =
      (live.filter fun entry => decide (now < entry.expiry)) + rest :=
    hedit fun _ => live.filter fun entry => decide (now < entry.expiry)
  have hsplit : (slot : Multiset (Entry κ)) =
      (slot.filter fun entry => entry.cancelled) + (live : Multiset (Entry κ)) :=
    Multiset.coe_eq_coe.mpr (filter_append_perm (fun entry => entry.cancelled) slot).symm
  have hsplit' : (live : Multiset (Entry κ)) =
      (live.filter fun entry => decide (entry.expiry ≤ now)) +
        (live.filter fun entry => decide (now < entry.expiry)) := by
    refine Multiset.coe_eq_coe.mpr ?_
    have hperm := filter_append_perm (fun entry => decide (entry.expiry ≤ now)) live
    simp only [← decide_not, not_le] at hperm
    exact hperm.symm
  refine ⟨slot.filter fun entry => entry.cancelled, ?_, ?_, ?_⟩
  · rw [hstock, hafter, htaken, hsplit, hsplit']
    abel
  · intro entry hentry
    exact (mem_filter.mp hentry).2
  · intro entry hentry
    rw [htaken, mem_filter] at hentry
    simpa using (mem_filter.mp hentry.1).2

end Pman.TimerWheel.Wheel
