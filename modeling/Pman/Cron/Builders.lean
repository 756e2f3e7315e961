import Pman.Cron.Grammar

set_option autoImplicit false

/-!
# Building cron expressions

The constructor, the factories and the builders of `CronExpression`, beside `parse`. They check
their arguments in different ways: the builders for one value ignore a value out of range; the
factories leave it to `bitset::set`, which throws; `minuteRange` and `hourRange` clear the field
first and then fill it, and may throw, or find nothing to fill in, on the way; `parse` passes over
what is out of range.

## Main results

* `satisfiable_of_careful`: what careful calls of the builder keep.
-/

namespace Pman.CronExpression

open Option Cron

def Satisfiable (cron : CronExpression) : Prop :=
  ∀ f : Field, ∃ v, f.low ≤ v ∧ v ≤ f.high ∧ cron.has f v = true

def new : CronExpression :=
  ⟨BitVec.allOnes 60, BitVec.allOnes 24, ~~~1#32, ~~~1#13, BitVec.allOnes 7⟩

/-- `reset()` and `set(static_cast<std::size_t>(value))`, which throws if there is no such bit. -/
def only (n : ℕ) (value : ℤ) : Option (BitVec n) :=
  if sizeT value < n then some (Bitset.set 0#n (sizeT value)) else none

def daily (hour minute : ℤ) : Option CronExpression := do
  let minutes_ ← only 60 minute
  let hours_ ← only 24 hour
  return { new with minutes_, hours_ }

def weekly (dayOfWeek hour minute : ℤ) : Option CronExpression := do
  let minutes_ ← only 60 minute
  let hours_ ← only 24 hour
  let daysOfWeek_ ← only 7 dayOfWeek
  return { new with minutes_, hours_, daysOfWeek_ }

def monthly (dayOfMonth hour minute : ℤ) : Option CronExpression := do
  let minutes_ ← only 60 minute
  let hours_ ← only 24 hour
  let daysOfMonth_ ← only 32 dayOfMonth
  return { new with minutes_, hours_, daysOfMonth_ }

inductive Source
  | new
  | parse (text : List Char)
  | everyMinute
  | everyHour
  | daily (hour minute : ℤ)
  | weekly (dayOfWeek hour minute : ℤ)
  | monthly (dayOfMonth hour minute : ℤ)

def Source.build : Source → Option CronExpression
  | .new | .everyMinute => some CronExpression.new
  | .parse text => (CronExpression.parse text).toOption
  | .everyHour => some { CronExpression.new with minutes_ := 1#60 }
  | .daily hour minute => CronExpression.daily hour minute
  | .weekly dayOfWeek hour minute => CronExpression.weekly dayOfWeek hour minute
  | .monthly dayOfMonth hour minute => CronExpression.monthly dayOfMonth hour minute

/-- A builder for one value, which ignores values out of range. -/
def single {n : ℕ} (low high : ℕ) (bits : BitVec n) (value : ℤ) : BitVec n :=
  if low ≤ value ∧ value ≤ high then Bitset.set 0#n (sizeT value) else bits

/-- The loop of `minuteRange` and `hourRange` from `i`, and whether it throws. -/
def fillLoop {n : ℕ} (end_ : ℤ) : ℕ → ℤ → BitVec n → BitVec n × Bool
  | 0, _, bits => (bits, false)
  | rounds + 1, i, bits =>
    if i ≤ end_ ∧ i < n then
      if sizeT i < n then fillLoop end_ rounds (i + 1) (Bitset.set bits (sizeT i))
      else (bits, true)
    else (bits, false)

/-- The field is cleared and filled. A round that does not throw sets a bit. -/
def range (n : ℕ) (start end_ : ℤ) : BitVec n × Bool := fillLoop end_ (n + 1) start 0#n

inductive Builder
  | minute (value : ℤ)
  | hour (value : ℤ)
  | dayOfMonth (value : ℤ)
  | month (value : ℤ)
  | dayOfWeek (value : ℤ)
  | minuteRange (start end_ : ℤ)
  | hourRange (start end_ : ℤ)

/-- The expression after a builder call, and whether it throws. -/
def Builder.apply (cron : CronExpression) : Builder → CronExpression × Bool
  | .minute value => ({ cron with minutes_ := single 0 59 cron.minutes_ value }, false)
  | .hour value => ({ cron with hours_ := single 0 23 cron.hours_ value }, false)
  | .dayOfMonth value =>
    ({ cron with daysOfMonth_ := single 1 31 cron.daysOfMonth_ value }, false)
  | .month value => ({ cron with months_ := single 1 12 cron.months_ value }, false)
  | .dayOfWeek value => ({ cron with daysOfWeek_ := single 0 6 cron.daysOfWeek_ value }, false)
  | .minuteRange start end_ =>
    ({ cron with minutes_ := (range 60 start end_).1 }, (range 60 start end_).2)
  | .hourRange start end_ =>
    ({ cron with hours_ := (range 24 start end_).1 }, (range 24 start end_).2)

def Builder.Valid : Builder → Prop
  | .minute value => 0 ≤ value ∧ value ≤ 59
  | .hour value => 0 ≤ value ∧ value ≤ 23
  | .dayOfMonth value => 1 ≤ value ∧ value ≤ 31
  | .month value => 1 ≤ value ∧ value ≤ 12
  | .dayOfWeek value => 0 ≤ value ∧ value ≤ 6
  | .minuteRange start end_ => 0 ≤ start ∧ start ≤ end_ ∧ end_ < 60
  | .hourRange start end_ => 0 ≤ start ∧ start ≤ end_ ∧ end_ < 24

def Builder.field : Builder → Field
  | .minute _ | .minuteRange _ _ => .minute
  | .hour _ | .hourRange _ _ => .hour
  | .dayOfMonth _ => .dayOfMonth
  | .month _ => .month
  | .dayOfWeek _ => .dayOfWeek

def Builder.Careful : Builder → Prop
  | .minuteRange start end_ => (minuteRange start end_).Valid
  | .hourRange start end_ => (hourRange start end_).Valid
  | _ => True

/-- **A text is in the grammar, and a day of the month exists.** -/
def Source.Careful : Source → Prop
  | .parse text => ∃ texts, Accepts text texts
  | .monthly dayOfMonth _ _ => 1 ≤ dayOfMonth ∧ dayOfMonth ≤ 31
  | _ => True

/-! ### Single values and ranges -/

section Bits

variable {n : ℕ} {value end_ : ℤ} {bits : BitVec n}

lemma getLsbD_single (low high : ℕ) (hn : high < n) (hsize : high < 2 ^ 63)
    (h : ∃ v, low ≤ v ∧ v ≤ high ∧ bits.getLsbD v = true) :
    ∃ v, low ≤ v ∧ v ≤ high ∧ (single low high bits value).getLsbD v = true := by
  unfold single
  split_ifs with hvalue
  · refine ⟨sizeT value, ?_, ?_, ?_⟩
    · unfold sizeT
      omega
    · unfold sizeT
      omega
    · rw [Bitset.getLsbD_set _ (by unfold sizeT; omega)]
      simp
  · exact h

lemma exists_only {low high : ℕ} {bits : BitVec (high + 1)}
    (h : only (high + 1) value = some bits) (hlow : low ≤ sizeT value) :
    ∃ v, low ≤ v ∧ v ≤ high ∧ bits.getLsbD v = true := by
  unfold only at h
  split_ifs at h with hlt
  cases h
  refine ⟨sizeT value, hlow, Nat.le_of_lt_succ hlt, ?_⟩
  rw [Bitset.getLsbD_set _ hlt]
  simp

lemma fillLoop_spec (end_ : ℤ) (rounds : ℕ) {i : ℤ} (hi : 0 ≤ i) (bits : BitVec n) :
    (fillLoop end_ rounds i bits).2 = false ∧
      ∀ j, bits.getLsbD j = true → (fillLoop end_ rounds i bits).1.getLsbD j = true := by
  induction rounds generalizing i bits with
  | zero => exact ⟨rfl, fun _ h => h⟩
  | succ rounds ih =>
    unfold fillLoop
    split_ifs with hmore hlt
    · obtain ⟨hthrows, hbits⟩ := ih (i := i + 1) (by omega) (Bitset.set bits (sizeT i))
      refine ⟨hthrows, fun j hj => hbits j ?_⟩
      rw [Bitset.getLsbD_set _ hlt, hj, Bool.true_or]
    · refine absurd ?_ hlt
      unfold sizeT
      omega
    · exact ⟨rfl, fun _ h => h⟩

lemma range_spec {start : ℤ} (h0 : 0 ≤ start) (hle : start ≤ end_) (hlt : start < n) :
    (range n start end_).2 = false ∧ (range n start end_).1.getLsbD (sizeT start) = true := by
  have hsize : sizeT start < n := by
    unfold sizeT
    omega
  have hloop := fillLoop_spec end_ n (show 0 ≤ start + 1 by omega)
    (Bitset.set 0#n (sizeT start))
  rw [range, fillLoop, if_pos ⟨hle, hlt⟩, if_pos hsize]
  refine ⟨hloop.1, hloop.2 _ ?_⟩
  rw [Bitset.getLsbD_set _ hsize]
  simp

end Bits

/-! ### Expressions -/

section Satisfiable

variable {cron : CronExpression} {b : Builder} {source : Source}

lemma has_apply (cron : CronExpression) {f : Field} (hf : f ≠ b.field) :
    (b.apply cron).1.has f = cron.has f := by
  cases b <;> cases f <;> first | rfl | exact absurd rfl hf

lemma Satisfiable.apply (h : cron.Satisfiable) (hb : b.Careful) :
    (b.apply cron).1.Satisfiable := by
  intro f
  by_cases hf : f = b.field
  · subst hf
    cases b with
    | minute value => exact getLsbD_single 0 59 (by decide) (by decide) (h .minute)
    | hour value => exact getLsbD_single 0 23 (by decide) (by decide) (h .hour)
    | dayOfMonth value => exact getLsbD_single 1 31 (by decide) (by decide) (h .dayOfMonth)
    | month value => exact getLsbD_single 1 12 (by decide) (by decide) (h .month)
    | dayOfWeek value => exact getLsbD_single 0 6 (by decide) (by decide) (h .dayOfWeek)
    | minuteRange start end_ | hourRange start end_ =>
      obtain ⟨h0, hle, hlt⟩ := hb
      refine ⟨sizeT start, Nat.zero_le _, ?_, (range_spec h0 hle (by omega)).2⟩
      simp only [Builder.field, Field.high, sizeT]
      omega
  · rw [has_apply cron hf]
    exact h f

lemma apply_eq_self (hb : b.Careful) (h : (b.apply cron).2 = true ∨ ¬ b.Valid) :
    (b.apply cron).1 = cron := by
  cases b with
  | minuteRange start end_ | hourRange start end_ =>
    have hthrows := (range_spec hb.1 hb.2.1 (lt_of_le_of_lt hb.2.1 hb.2.2)).1
    rcases h with h | h
    · exact absurd (hthrows.symm.trans h) (by simp)
    · exact absurd hb h
  | minute value | hour value | dayOfMonth value | month value | dayOfWeek value =>
    have hvalid := h.resolve_left (by simp [Builder.apply])
    simp only [Builder.apply, single]
    rw [if_neg]
    simpa [Builder.Valid] using hvalid

lemma item_le {part : List Char} {r : ℕ × ℕ} (h : item part = some r) : r.1 ≤ r.2 := by
  unfold item at h
  split at h
  case h_1 text _ =>
    obtain ⟨a, -, rfl⟩ := map_eq_some_iff.mp h
    exact le_rfl
  case h_2 front back _ =>
    split at h
    · split_ifs at h with hle
      cases h
      exact hle
    · cases h
  case h_3 => cases h

lemma exists_value {f : Field} {text : List Char} (h : WellFormed f text) :
    ∃ v, f.low ≤ v ∧ v ≤ f.high ∧ v ∈ values allBits f text := by
  rcases h with rfl | hlist
  · exact ⟨f.high, by cases f <;> decide, le_rfl, by simp [values, allBits]⟩
  · obtain ⟨part, hpart⟩ := List.exists_mem_of_ne_nil _ (List.splitOn_ne_nil ',' text)
    obtain ⟨r, hr, hlow, hhigh⟩ := hlist part hpart
    have hle : r.1 ≤ r.2 := item_le hr
    refine ⟨r.1, hlow, hle.trans hhigh, ?_⟩
    rw [values, Set.mem_ofPred_eq, if_neg hlist.ne_star]
    exact ⟨part, hpart, r, hr, le_rfl, hle⟩

lemma satisfiable_new : new.Satisfiable :=
  fun f => ⟨f.high, by cases f <;> decide, le_rfl, by cases f <;> decide⟩

lemma Source.satisfiable (hs : source.Careful) (h : source.build = some cron) :
    cron.Satisfiable := by
  cases source with
  | new | everyMinute =>
    cases h
    exact satisfiable_new
  | everyHour =>
    cases h
    intro f
    cases f with
    | minute => exact ⟨0, by decide⟩
    | _ => exact satisfiable_new _
  | parse text =>
    obtain ⟨texts, haccepts⟩ := hs
    obtain ⟨cron', hparse, hhas⟩ := parse_of_accepts haccepts
    simp only [Source.build, hparse, Except.toOption, some.injEq] at h
    subst h
    intro f
    obtain ⟨v, hlow, hhigh, hv⟩ := exists_value (haccepts.wellFormed f)
    exact ⟨v, hlow, hhigh, (hhas f v).mpr hv⟩
  | daily hour minute =>
    simp only [Source.build, CronExpression.daily, bind_eq_bind, bind_eq_some_iff,
      pure_def, some.injEq] at h
    obtain ⟨minutes, hm, hours, hh, rfl⟩ := h
    intro f
    cases f with
    | minute => exact exists_only hm (Nat.zero_le _)
    | hour => exact exists_only hh (Nat.zero_le _)
    | _ => exact satisfiable_new _
  | weekly dayOfWeek hour minute =>
    simp only [Source.build, CronExpression.weekly, bind_eq_bind, bind_eq_some_iff,
      pure_def, some.injEq] at h
    obtain ⟨minutes, hm, hours, hh, days, hd, rfl⟩ := h
    intro f
    cases f with
    | minute => exact exists_only hm (Nat.zero_le _)
    | hour => exact exists_only hh (Nat.zero_le _)
    | dayOfWeek => exact exists_only hd (Nat.zero_le _)
    | _ => exact satisfiable_new _
  | monthly dayOfMonth hour minute =>
    simp only [Source.build, CronExpression.monthly, bind_eq_bind, bind_eq_some_iff,
      pure_def, some.injEq] at h
    obtain ⟨minutes, hm, hours, hh, days, hd, rfl⟩ := h
    have hday : 1 ≤ sizeT dayOfMonth := by
      obtain ⟨hlow, hhigh⟩ := hs
      unfold sizeT
      omega
    intro f
    cases f with
    | minute => exact exists_only hm (Nat.zero_le _)
    | hour => exact exists_only hh (Nat.zero_le _)
    | dayOfMonth => exact exists_only hd hday
    | _ => exact satisfiable_new _

end Satisfiable

/-- **Careful calls keep expressions satisfiable and fail without effect**: from any way to get an
expression, a text of the grammar if it is parsed and an existing day of the month, and with any
builder calls, of which the ranges exist, every field keeps a value of the calendar; and a call that
throws or has an invalid argument leaves the expression as it was. -/
theorem satisfiable_of_careful {source : Source} {cron : CronExpression}
    (hsource : source.Careful) (h : source.build = some cron) {calls : List Builder}
    (hcalls : ∀ b ∈ calls, b.Careful) :
    (calls.foldl (fun cron b => (b.apply cron).1) cron).Satisfiable ∧
      ∀ cron, ∀ b ∈ calls, (b.apply cron).2 = true ∨ ¬ b.Valid → (b.apply cron).1 = cron := by
  refine ⟨?_, fun cron b hb => apply_eq_self (hcalls b hb)⟩
  have hcron := Source.satisfiable hsource h
  clear h
  induction calls generalizing cron with
  | nil => exact hcron
  | cons b calls ih =>
    rw [List.forall_mem_cons] at hcalls
    exact ih hcalls.2 (hcron.apply hcalls.1)

/-- A daily expression after an invalid minute and a range of minutes. -/
theorem satisfiable_of_careful_daily : ∃ cron, (Source.daily 9 30).build = some cron ∧
    ([Builder.minute 75, .minuteRange 10 20].foldl (fun cron b => (b.apply cron).1)
      cron).Satisfiable := by
  have hcalls : ∀ b ∈ [Builder.minute 75, .minuteRange 10 20], b.Careful := by
    simp [Builder.Careful, Builder.Valid]
  have hsource : (Source.daily 9 30).Careful := trivial
  exact ⟨_, rfl, (satisfiable_of_careful hsource rfl hcalls).1⟩

/-- **Fields without a value**: a text with a minute that does not exist, day zero of the month and
a range with its ends exchanged leave a field empty, and a range that throws has cleared it. -/
theorem not_satisfiable :
    (∃ cron, (Source.parse "61 * * * *".toList).build = some cron ∧ ¬ cron.Satisfiable) ∧
    (∃ cron, (Source.monthly 0 0 0).build = some cron ∧ ¬ cron.Satisfiable) ∧
    ¬ ((Builder.minuteRange 5 3).apply new).1.Satisfiable ∧
    (Builder.minuteRange (-1) 3).apply new = ({ new with minutes_ := 0#60 }, true) := by
  have hempty : ∀ cron : CronExpression, cron.minutes_ = 0#60 → ¬ cron.Satisfiable := by
    intro cron hzero h
    obtain ⟨v, -, -, hv⟩ := h .minute
    simp [has, hzero] at hv
  have hday : ∀ v < 32, 1 ≤ v → (Bitset.set 0#32 (sizeT 0)).getLsbD v = false := by decide
  refine ⟨⟨_, rfl, hempty _ (by decide +kernel)⟩, ⟨_, rfl, fun h => ?_⟩, hempty _ (by decide),
    by decide⟩
  obtain ⟨v, hlow, hhigh, hv⟩ := h .dayOfMonth
  exact absurd ((hday v (Nat.lt_succ_of_le hhigh) hlow).symm.trans hv) (by decide)

end Pman.CronExpression
