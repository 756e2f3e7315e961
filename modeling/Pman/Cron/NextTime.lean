import Pman.Cron.NextAfter

set_option autoImplicit false

/-!
# The next time of a cron expression is the first one

A round of the loop of `nextAfter` skips minutes that are not in all five sets, and no others. It
remains that the rounds suffice. A date that is not in its sets takes one round. A date that is in
its sets may take a round for every hour and minute, but only on the first day and on the last: on
any other day the search would have ended. Dates and days of the week repeat every `146097` days, so
the last day is not further away than that.

## Main definitions

* `CronExpression.Matches`, `CronExpression.TimesAfter`: the dates and times an expression stands
  for, and those after a time.

## Main results

* `CronExpression.nextAfter_isLeast_iff`: `nextAfter` returns the first of them, or throws if there
  is none, exactly if the first fits into 64 bits.
-/

namespace Pman

open Calendar Cron

namespace CronExpression

/-! ### The search finds the first minute -/

def MatchesDay (cron : CronExpression) (n : ℤ) : Prop :=
  cron.has .month (ofDayNumber n).month = true ∧ cron.has .dayOfMonth (ofDayNumber n).day = true ∧
    cron.has .dayOfWeek (weekday n) = true

def MatchesMinute (cron : CronExpression) (k : ℤ) : Prop :=
  cron.MatchesDay (k / 1440) ∧ cron.has .hour (k / 60 % 24).toNat = true ∧
    cron.has .minute (k % 60).toNat = true

/-- **What a skip can be**: to a later day, if the date is not in its sets, or to a later hour or
the next minute. -/
inductive Skip (cron : CronExpression) (k : ℤ) : ℤ → Prop
  | month (hmonth : cron.has .month (ofDayNumber (k / 1440)).month ≠ true) :
      Skip cron k (1440 * (ofDayNumber (k / 1440)).endOfMonth)
  | day (hday : ¬ cron.MatchesDay (k / 1440)) : Skip cron k (1440 * (k / 1440 + 1))
  | hour (hday : cron.MatchesDay (k / 1440)) (hhour : cron.has .hour (k / 60 % 24).toNat ≠ true) :
      Skip cron k (60 * (k / 60 + 1))
  | minute (hday : cron.MatchesDay (k / 1440)) (hminute : cron.has .minute (k % 60).toNat ≠ true) :
      Skip cron k (k + 1)

variable {cron : CronExpression}

lemma skip_cases (cron : CronExpression) (k : ℤ) :
    (cron.skip k = none ∧ cron.MatchesMinute k) ∨ ∃ k', cron.skip k = some k' ∧ Skip cron k k' := by
  unfold skip
  split
  · rename_i hmonth
    exact .inr ⟨_, rfl, .month (by simpa using hmonth)⟩
  rename_i hmonth
  split
  · rename_i hday
    refine .inr ⟨_, rfl, .day fun h => ?_⟩
    simp [h.2.1, h.2.2] at hday
  rename_i hday
  have hmatches : cron.MatchesDay (k / 1440) := by
    simp only [Bool.or_eq_true, Bool.not_eq_true', not_or, Bool.not_eq_false] at hmonth hday
    exact ⟨hmonth, hday⟩
  split
  · rename_i hhour
    exact .inr ⟨_, rfl, .hour hmatches (by simpa using hhour)⟩
  rename_i hhour
  split
  · rename_i hminute
    exact .inr ⟨_, rfl, .minute hmatches (by simpa using hminute)⟩
  rename_i hminute
  exact .inl ⟨rfl, hmatches, by simpa using hhour, by simpa using hminute⟩

variable {k k' k₀ m : ℤ}

lemma skip_of_eq_some (h : cron.skip k = some k') : Skip cron k k' := by
  rcases skip_cases cron k with ⟨hnone, -⟩ | ⟨k'', hsome, hskip⟩
  · rw [hnone] at h
    cases h
  · rw [hsome] at h
    cases h
    exact hskip

lemma skips (cron : CronExpression) : SkipSearch.Skips cron.skip cron.MatchesMinute where
  found k h := by
    rcases skip_cases cron k with ⟨-, hmatches⟩ | ⟨k', hsome, -⟩
    · exact hmatches
    · simp [h] at hsome
  lt k k' h := by
    cases skip_of_eq_some h with
    | month _ =>
      have hend := lt_endOfMonth (k / 1440)
      omega
    | day _ => omega
    | hour _ _ => omega
    | minute _ _ => omega
  clear k k' h j hkj hj := by
    rintro ⟨⟨hmonth', hday'⟩, hhour', hminute'⟩
    cases skip_of_eq_some h with
    | month hmonth =>
      rw [month_eq_of_lt (n := k / 1440) (by omega) (by omega)] at hmonth'
      exact hmonth hmonth'
    | day hday =>
      have hsame : j / 1440 = k / 1440 := by omega
      rw [hsame] at hmonth' hday'
      exact hday ⟨hmonth', hday'⟩
    | hour _ hhour =>
      have hsame : j / 60 = k / 60 := by omega
      rw [hsame] at hhour'
      exact hhour hhour'
    | minute _ hminute =>
      have hsame : j = k := by omega
      rw [hsame] at hminute'
      exact hminute hminute'

/-! ### There are enough rounds -/

/-- How many rounds are left at most when the search that began on day `first` is to end on day
`last`: every day takes one, but the first and the last, which take one for every minute. -/
def roundsLeft (first last k : ℤ) : ℕ :=
  if k / 1440 = last then (1440 * (last + 1) - k).toNat
  else if k / 1440 = first then (last - first + 1440 + (1440 * (first + 1) - k)).toNat
  else (last - k / 1440 + 1440).toNat

/-- **On a day between the first and the last the date is skipped**: if it were in its sets, the
time of day that is found in the end would be found on that day. -/
lemma not_matchesDay_between (hm : IsLeast {j | k₀ ≤ j ∧ cron.MatchesMinute j} m) {n : ℤ}
    (hfirst : k₀ / 1440 < n) (hlast : n < m / 1440) : ¬ cron.MatchesDay n := by
  intro hday
  obtain ⟨⟨-, -, hhour, hminute⟩, hleast⟩ := hm
  have hsame : cron.MatchesMinute (1440 * n + m % 1440) := by
    have hdays : (1440 * n + m % 1440) / 1440 = n := by omega
    have hhours : (1440 * n + m % 1440) / 60 % 24 = m / 60 % 24 := by omega
    have hminutes : (1440 * n + m % 1440) % 60 = m % 60 := by omega
    exact ⟨by rwa [hdays], by rwa [hhours], by rwa [hminutes]⟩
  have hle := hleast ⟨by omega, hsame⟩
  omega

lemma roundsLeft_lt (hm : IsLeast {j | k₀ ≤ j ∧ cron.MatchesMinute j} m) (hk : k₀ ≤ k)
    (hlt : k < m) (h : cron.skip k = some k') :
    roundsLeft (k₀ / 1440) (m / 1440) k' < roundsLeft (k₀ / 1440) (m / 1440) k := by
  have hkk' := (skips cron).lt k k' h
  have hle : k' ≤ m := by
    by_contra hgt
    exact (skips cron).clear k k' h m hlt.le (not_le.mp hgt) hm.1.2
  -- In between, the search goes on to another day.
  have hbetween : k₀ / 1440 < k / 1440 → k / 1440 < m / 1440 → k / 1440 < k' / 1440 := by
    intro hfirst hlast
    have hday := not_matchesDay_between hm hfirst hlast
    cases skip_of_eq_some h with
    | month _ =>
      have hend := lt_endOfMonth (k / 1440)
      omega
    | day _ => omega
    | hour hmatches _ | minute hmatches _ => exact absurd hmatches hday
  unfold roundsLeft
  split_ifs <;> omega

lemma MatchesMinute.add_period (h : cron.MatchesMinute k) (c : ℤ) :
    cron.MatchesMinute (k + 1440 * (146097 * c)) := by
  obtain ⟨⟨hmonth, hday, hweek⟩, hhour, hminute⟩ := h
  have hdays : (k + 1440 * (146097 * c)) / 1440 = k / 1440 + 146097 * c := by omega
  have hhours : (k + 1440 * (146097 * c)) / 60 % 24 = k / 60 % 24 := by omega
  have hminutes : (k + 1440 * (146097 * c)) % 60 = k % 60 := by omega
  obtain ⟨hmonth', hday'⟩ := ofDayNumber_add_period (k / 1440) c
  refine ⟨⟨?_, ?_, ?_⟩, by rwa [hhours], by rwa [hminutes]⟩
  · rwa [hdays, hmonth']
  · rwa [hdays, hday']
  · rwa [hdays, weekday_add_period]

lemma exists_matchesMinute_ge (h : cron.MatchesMinute k) (k₀ : ℤ) :
    ∃ j, k₀ ≤ j ∧ cron.MatchesMinute j ∧ j / 1440 ≤ k₀ / 1440 + 146097 := by
  refine ⟨_, ?_, h.add_period ((k₀ / 1440 - k / 1440) / 146097 + 1), ?_⟩ <;> omega

lemma search_eq_some_iff (cron : CronExpression) (k₀ m : ℤ) :
    SkipSearch.search cron.skip (366 * 24 * 60) k₀ = some m ↔
      IsLeast {j | k₀ ≤ j ∧ cron.MatchesMinute j} m := by
  refine ⟨(skips cron).isLeast_of_search, fun hm => ?_⟩
  refine (skips cron).search_eq_some hm (roundsLeft (k₀ / 1440) (m / 1440))
    (fun j j' hj hlt => roundsLeft_lt hm hj hlt) ?_
  obtain ⟨j, hj, hmatches, hday⟩ := exists_matchesMinute_ge hm.1.2 k₀
  have hle : m ≤ j := hm.2 ⟨hj, hmatches⟩
  have hge : k₀ ≤ m := hm.1.1
  unfold roundsLeft
  split_ifs <;> omega

lemma search_eq_none_iff (cron : CronExpression) (k₀ : ℤ) :
    SkipSearch.search cron.skip (366 * 24 * 60) k₀ = none ↔ ∀ k, ¬ cron.MatchesMinute k := by
  constructor
  · intro hnone k hk
    obtain ⟨j, hj, hmatches, -⟩ := exists_matchesMinute_ge hk k₀
    obtain ⟨m, hm, hleast⟩ := Int.exists_least_of_bdd (P := fun j => k₀ ≤ j ∧ cron.MatchesMinute j)
      ⟨k₀, fun j hj => hj.1⟩ ⟨j, hj, hmatches⟩
    simp [(search_eq_some_iff cron k₀ m).mpr ⟨hm, fun j hj => hleast j hj⟩] at hnone
  · intro hno
    cases hsearch : SkipSearch.search cron.skip (366 * 24 * 60) k₀ with
    | none => rfl
    | some m => exact absurd ((search_eq_some_iff cron k₀ m).mp hsearch).1.2 (hno m)

/-! ### Dates and times -/

def Matches (cron : CronExpression) (date : Date) (hour minute : ℕ) : Prop :=
  cron.has .minute minute = true ∧ cron.has .hour hour = true ∧
    cron.has .dayOfMonth date.day = true ∧ cron.has .month date.month = true ∧
      cron.has .dayOfWeek (weekday date.number) = true

lemma matchesMinute_iff (cron : CronExpression) (k : ℤ) :
    cron.MatchesMinute k ↔ ∃ date hour minute, hour < 24 ∧ minute < 60 ∧
      cron.Matches date hour minute ∧ k = (date.number * 24 + hour) * 60 + minute := by
  constructor
  · rintro ⟨⟨hmonth, hday, hweek⟩, hhour, hminute⟩
    refine ⟨ofDayNumber (k / 1440), _, _, ?_, ?_, ⟨hminute, hhour, hday, hmonth, ?_⟩, ?_⟩
    · omega
    · omega
    · rwa [number_ofDayNumber]
    · rw [number_ofDayNumber]
      omega
  · rintro ⟨date, hour, minute, hh, hm, ⟨hminute, hhour, hday, hmonth, hweek⟩, rfl⟩
    have hdays : ((date.number * 24 + hour) * 60 + minute) / 1440 = date.number := by omega
    have hhours : (((date.number * 24 + hour) * 60 + minute) / 60 % 24).toNat = hour := by omega
    have hminutes : (((date.number * 24 + hour) * 60 + minute) % 60).toNat = minute := by omega
    refine ⟨?_, by rwa [hhours], by rwa [hminutes]⟩
    rw [hdays]
    unfold MatchesDay
    rw [ofDayNumber_number]
    exact ⟨hmonth, hday, hweek⟩

end CronExpression

namespace Cron

def timeOf (offset : ℤ) (date : Date) (hour minute : ℕ) : ℤ :=
  (((date.number * 24 + hour) * 60 + minute) * 60 - offset) * 1000000000

end Cron

namespace CronExpression

/-- The matching times after a time, in nanoseconds. -/
def TimesAfter (offset : ℤ) (cron : CronExpression) (after : ℕ) : Set ℤ :=
  {x | (after : ℤ) < x ∧ ∃ date hour minute, hour < 24 ∧ minute < 60 ∧
    cron.Matches date hour minute ∧ x = timeOf offset date hour minute}

variable (offset : ℤ) (cron : CronExpression) (after : ℕ)

/-- The minute at which the search begins. -/
def startMinute : ℤ := (after / 1000000000 + offset) / 60 + 1

lemma mem_timesAfter (x : ℤ) : x ∈ cron.TimesAfter offset after ↔
    ∃ k, startMinute offset after ≤ k ∧ cron.MatchesMinute k ∧
      x = (60 * k - offset) * 1000000000 := by
  unfold TimesAfter startMinute
  constructor
  · rintro ⟨hlt, date, hour, minute, hh, hm, hmatches, rfl⟩
    unfold timeOf at hlt ⊢
    exact ⟨_, by omega, (cron.matchesMinute_iff _).mpr ⟨date, hour, minute, hh, hm, hmatches, rfl⟩,
      by omega⟩
  · rintro ⟨k, hk, hmatches, rfl⟩
    obtain ⟨date, hour, minute, hh, hm, hdate, rfl⟩ := (cron.matchesMinute_iff k).mp hmatches
    exact ⟨by omega, date, hour, minute, hh, hm, hdate, by unfold timeOf; omega⟩

/-- The first matching time is that of the first matching minute. -/
lemma isLeast_timesAfter (x : ℤ) : IsLeast (cron.TimesAfter offset after) x ↔
    ∃ m, x = (60 * m - offset) * 1000000000 ∧
      IsLeast {j | startMinute offset after ≤ j ∧ cron.MatchesMinute j} m := by
  constructor
  · rintro ⟨hmem, hleast⟩
    obtain ⟨m, hge, hmatches, rfl⟩ := (mem_timesAfter offset cron after x).mp hmem
    refine ⟨m, rfl, ⟨hge, hmatches⟩, ?_⟩
    rintro k ⟨hk, hk'⟩
    have hle := hleast ((mem_timesAfter offset cron after _).mpr ⟨k, hk, hk', rfl⟩)
    omega
  · rintro ⟨m, rfl, ⟨hge, hmatches⟩, hleast⟩
    refine ⟨(mem_timesAfter offset cron after _).mpr ⟨m, hge, hmatches, rfl⟩, fun y hy => ?_⟩
    obtain ⟨k, hk, hk', rfl⟩ := (mem_timesAfter offset cron after y).mp hy
    have hle := hleast ⟨hk, hk'⟩
    omega

/-- The search, before the result is converted: it returns the first matching time. -/
lemma nextAfter_eq : cron.nextAfter offset after =
    (outcome offset (SkipSearch.search cron.skip (366 * 24 * 60) (startMinute offset after))).map
      fun t => Signed64.wrap (t * 1000000000) :=
  congrArg (Except.map fun t => Signed64.wrap (t * 1000000000))
    (nextAfterLoop_eq_search offset cron (366 * 24 * 60) (atMinute_start offset _))

/-- A first matching time is returned as 64 bits keep it. -/
lemma nextAfter_of_isLeast {x : ℤ} (h : IsLeast (cron.TimesAfter offset after) x) :
    cron.nextAfter offset after = .ok (Signed64.wrap x) := by
  obtain ⟨m, rfl, hm⟩ := (isLeast_timesAfter offset cron after x).mp h
  rw [nextAfter_eq, (search_eq_some_iff cron _ m).mpr hm]
  rfl

/-- What is returned stands for a first matching time. -/
lemma exists_isLeast_of_nextAfter {y : ℤ} (h : cron.nextAfter offset after = .ok y) :
    ∃ x, IsLeast (cron.TimesAfter offset after) x := by
  rw [nextAfter_eq] at h
  cases hsearch : SkipSearch.search cron.skip (366 * 24 * 60) (startMinute offset after) with
  | none =>
    rw [hsearch] at h
    cases h
  | some m =>
    exact ⟨_, (isLeast_timesAfter offset cron after _).mpr
      ⟨m, rfl, (search_eq_some_iff cron _ m).mp hsearch⟩⟩

/-- It throws exactly when no date and time of day matches. -/
lemma nextAfter_eq_error_iff :
    cron.nextAfter offset after = .error "Could not find next cron execution time" ↔
      ¬ ∃ date hour minute, hour < 24 ∧ minute < 60 ∧ cron.Matches date hour minute := by
  have hnone : (¬ ∃ date hour minute, hour < 24 ∧ minute < 60 ∧ cron.Matches date hour minute) ↔
      ∀ k, ¬ cron.MatchesMinute k := by
    simp only [matchesMinute_iff]
    constructor
    · rintro hno k ⟨date, hour, minute, hh, hm, hmatches, -⟩
      exact hno ⟨date, hour, minute, hh, hm, hmatches⟩
    · rintro hno ⟨date, hour, minute, hh, hm, hmatches⟩
      exact hno _ ⟨date, hour, minute, hh, hm, hmatches, rfl⟩
  rw [hnone, ← search_eq_none_iff cron (startMinute offset after), nextAfter_eq]
  cases SkipSearch.search cron.skip (366 * 24 * 60) (startMinute offset after) with
  | none => exact iff_of_true rfl rfl
  | some m => exact iff_of_false (by simp [outcome, Except.map]) (by simp)

/-- **`nextAfter` is exact if and only if the time fits**: it returns the first time after the given
one whose date and time of day are in all five sets, and throws exactly when there is no such date
and time of day in the calendar, provided that the first time, if there is one, is below `2 ^ 63`
nanoseconds.

**Proof sketch.** The loop is a search over numbered minutes
(`CronExpression.nextAfterLoop_eq_search`) that passes over none of them
(`CronExpression.skips`). Days whose date is not in its sets take one round each, and only the first
and the last day take more (`CronExpression.roundsLeft_lt`); as dates and days of the week repeat
every `146097` days, the rounds suffice. A time beyond the range is returned as another one. -/
theorem nextAfter_isLeast_iff (offset : ℤ) (cron : CronExpression) (after : ℕ) :
    ((∀ x, cron.nextAfter offset after = .ok x ↔ IsLeast (cron.TimesAfter offset after) x) ∧
      (cron.nextAfter offset after = .error "Could not find next cron execution time" ↔
        ¬ ∃ date hour minute, hour < 24 ∧ minute < 60 ∧ cron.Matches date hour minute)) ↔
    ∀ x, IsLeast (cron.TimesAfter offset after) x → x < 2 ^ 63 := by
  constructor
  · rintro ⟨hexact, -⟩ x hx
    have hwrap : Signed64.wrap x = x := by
      have hret := nextAfter_of_isLeast offset cron after hx
      rw [(hexact x).mpr hx] at hret
      exact (Except.ok.inj hret).symm
    rw [← hwrap]
    exact Signed64.wrap_lt x
  · intro hfits
    refine ⟨fun x => ?_, nextAfter_eq_error_iff offset cron after⟩
    have hkept : ∀ {y}, IsLeast (cron.TimesAfter offset after) y → Signed64.wrap y = y := by
      intro y hy
      have hlt := hfits y hy
      have hpos : (after : ℤ) < y := hy.1.1
      exact Signed64.wrap_of_fits ⟨by omega, hlt⟩
    constructor
    · intro hret
      obtain ⟨y, hy⟩ := exists_isLeast_of_nextAfter offset cron after hret
      rw [nextAfter_of_isLeast offset cron after hy, hkept hy] at hret
      exact Except.ok.inj hret ▸ hy
    · intro hx
      rw [nextAfter_of_isLeast offset cron after hx, hkept hx]

/-- Every 29 February at midnight. -/
def leapDay : CronExpression := ⟨1, 1, 1 <<< 29, 1 <<< 2, BitVec.allOnes 7⟩

/-- **A time beyond the range comes back in the past**: in July 2261 the next 29 February is that of
2264, and the result is a time in 1679. -/
theorem nextAfter_overflows :
    leapDay.nextAfter 0 9200000000000000000 = .ok (-9163928073709551616) := by
  decide +kernel

end CronExpression

end Pman
