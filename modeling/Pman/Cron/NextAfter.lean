import Pman.Cron.Expression
import Pman.Lib.Calendar
import Pman.Lib.Signed64
import Pman.Lib.SkipSearch

set_option autoImplicit false

/-!
# The search for the next time of a cron expression

`CronExpression::nextAfter` looks for the first minute after a time that is in all five sets. It
skips to the next month, day, hour or minute by changing some fields of the broken-down time, has
`mktime` and `localtime_r` put the fields into their ranges, and gives up after `366 * 24 * 60`
rounds.

`mktime` and `localtime_r` are those of the Gregorian calendar at a fixed offset from UTC. Seconds
and the fields of `tm` are integers without bounds. Times are numbers of nanoseconds; the result is
what 64 bits keep of it.

## Main definitions

* `CronExpression.nextAfter`, with its loop `CronExpression.nextAfterLoop`.
* `CronExpression.skip`: one round of the loop, over numbered minutes.

## Main results

* `CronExpression.nextAfterLoop_eq_search`: the loop is a search that skips minutes.
-/

namespace Pman

open Calendar

namespace Cron

structure Tm where
  tm_sec : ℤ
  tm_min : ℤ
  tm_hour : ℤ
  tm_mday : ℤ
  tm_mon : ℤ
  tm_year : ℤ
  tm_wday : ℤ
deriving DecidableEq, Repr

/-- `localtime_r`: the fields of a time, where local time is `offset` seconds ahead. -/
def localtime (offset t : ℤ) : Tm :=
  let days := (t + offset) / 86400
  let seconds := (t + offset) % 86400
  let date := ofDayNumber days
  { tm_sec := seconds % 60
    tm_min := seconds / 60 % 60
    tm_hour := seconds / 3600
    tm_mday := date.day
    tm_mon := date.month - 1
    tm_year := date.year - 1900
    tm_wday := weekday days }

/-- `mktime`: the time of the fields, which need not be in their ranges. -/
def mktime (offset : ℤ) (tm : Tm) : ℤ :=
  dayNumber (tm.tm_year + 1900 + tm.tm_mon / 12) ((tm.tm_mon % 12).toNat + 1) tm.tm_mday * 86400 +
    tm.tm_hour * 3600 + tm.tm_min * 60 + tm.tm_sec - offset

def carry (tm : Tm) : Tm :=
  let tm := if tm.tm_min ≥ 60 then { tm with tm_min := 0, tm_hour := tm.tm_hour + 1 } else tm
  if tm.tm_hour ≥ 24 then { tm with tm_hour := 0, tm_mday := tm.tm_mday + 1 } else tm

def skipMonth (tm : Tm) : Tm :=
  let tm := { tm with tm_mday := 1, tm_hour := 0, tm_min := 0, tm_mon := tm.tm_mon + 1 }
  if tm.tm_mon ≥ 12 then { tm with tm_mon := 0, tm_year := tm.tm_year + 1 } else tm

def skipDay (tm : Tm) : Tm := { tm with tm_hour := 0, tm_min := 0, tm_mday := tm.tm_mday + 1 }

def skipHour (tm : Tm) : Tm := { tm with tm_min := 0, tm_hour := tm.tm_hour + 1 }

def skipMinute (tm : Tm) : Tm := { tm with tm_min := tm.tm_min + 1 }

end Cron

open Cron

namespace CronExpression

/-- The loop of `nextAfter`. The positions that are tested are in the range of the bit sets, see
`CronExpression.nextAfterLoop_eq_search`. -/
def nextAfterLoop (offset : ℤ) (cron : CronExpression) : ℕ → Tm → Except String ℤ
  | 0, _ => .error "Could not find next cron execution time"
  | iterations + 1, tm =>
    let check := mktime offset (carry tm)
    let tm := localtime offset check
    if !cron.months_.getLsbD (sizeT (tm.tm_mon + 1)) then
      nextAfterLoop offset cron iterations (skipMonth tm)
    else if !cron.daysOfMonth_.getLsbD (sizeT tm.tm_mday) ||
        !cron.daysOfWeek_.getLsbD (sizeT tm.tm_wday) then
      nextAfterLoop offset cron iterations (skipDay tm)
    else if !cron.hours_.getLsbD (sizeT tm.tm_hour) then
      nextAfterLoop offset cron iterations (skipHour tm)
    else if !cron.minutes_.getLsbD (sizeT tm.tm_min) then
      nextAfterLoop offset cron iterations (skipMinute tm)
    else .ok (mktime offset tm)

/-- `CronExpression::nextAfter`. `to_time_t` and `from_time_t` convert between nanoseconds and
seconds; the product of the latter has 64 bits. -/
def nextAfter (offset : ℤ) (cron : CronExpression) (after : ℕ) : Except String ℤ :=
  let t : ℤ := after / 1000000000
  let tm := localtime offset t
  let tm := { tm with tm_sec := 0, tm_min := tm.tm_min + 1 }
  (nextAfterLoop offset cron (366 * 24 * 60) tm).map fun t => Signed64.wrap (t * 1000000000)

end CronExpression

namespace Cron

def ofMinute (k : ℤ) : Tm where
  tm_sec := 0
  tm_min := k % 60
  tm_hour := k / 60 % 24
  tm_mday := (ofDayNumber (k / 1440)).day
  tm_mon := (ofDayNumber (k / 1440)).month - 1
  tm_year := (ofDayNumber (k / 1440)).year - 1900
  tm_wday := weekday (k / 1440)

/-- Fields that stand for a minute and that the carries of the loop put in order. -/
structure AtMinute (offset : ℤ) (tm : Tm) (k : ℤ) : Prop where
  time : mktime offset tm = 60 * k - offset
  min_nonneg : 0 ≤ tm.tm_min
  min_le : tm.tm_min ≤ 60
  hour_nonneg : 0 ≤ tm.tm_hour
  day_le : 60 * tm.tm_hour + tm.tm_min ≤ 1440

variable {offset k : ℤ} {tm : Tm}

lemma AtMinute.mktime_carry (h : AtMinute offset tm k) :
    mktime offset (carry tm) = 60 * k - offset := by
  obtain ⟨htime, hmin, hmin', hhour, hday⟩ := h
  rw [← htime]
  unfold carry
  dsimp only
  split_ifs <;> simp only [mktime, dayNumber] at * <;> omega

lemma localtime_minute (offset k : ℤ) : localtime offset (60 * k - offset) = ofMinute k := by
  have hdays : (60 * k - offset + offset) / 86400 = k / 1440 := by omega
  have hseconds : (60 * k - offset + offset) % 86400 = 60 * (k % 1440) := by omega
  unfold localtime ofMinute
  rw [hdays, hseconds, Tm.mk.injEq]
  refine ⟨by omega, by omega, by omega, rfl, rfl, rfl, rfl⟩

lemma mktime_date (offset : ℤ) (d : Date) (min hour mday wday : ℤ) :
    mktime offset ⟨0, min, hour, mday, d.month - 1, d.year - 1900, wday⟩ =
      dayNumber d.year d.month mday * 86400 + hour * 3600 + min * 60 - offset := by
  have hone := d.one_le_month
  have hmonth := d.month_le
  have hyear : d.year - 1900 + 1900 + ((d.month : ℤ) - 1) / 12 = d.year := by omega
  have hmon : (((d.month : ℤ) - 1) % 12).toNat + 1 = d.month := by omega
  unfold mktime
  dsimp only
  rw [hyear, hmon]
  omega

lemma dayNumber_day (n i : ℤ) :
    dayNumber (ofDayNumber n).year (ofDayNumber n).month ((ofDayNumber n).day + i) = n + i := by
  have hnumber := number_ofDayNumber n
  simp only [Date.number, dayNumber] at hnumber ⊢
  omega

lemma mktime_ofMinute (offset k : ℤ) : mktime offset (ofMinute k) = 60 * k - offset := by
  have hday := dayNumber_day (k / 1440) 0
  rw [add_zero, add_zero] at hday
  rw [ofMinute, mktime_date, hday]
  omega

lemma atMinute_skipMonth (offset k : ℤ) :
    AtMinute offset (skipMonth (ofMinute k)) (1440 * (ofDayNumber (k / 1440)).endOfMonth) := by
  have hone := (ofDayNumber (k / 1440)).one_le_month
  have hmonth := (ofDayNumber (k / 1440)).month_le
  rw [Date.endOfMonth_eq, ofMinute, skipMonth]
  generalize ofDayNumber (k / 1440) = d at hone hmonth ⊢
  dsimp only
  split
  · refine ⟨?_, le_rfl, by simp, le_rfl, by simp⟩
    have hyear : d.year - 1900 + 1 + 1900 + 0 / 12 = d.year + 1 := by omega
    have hmon : ((0 : ℤ) % 12).toNat + 1 = 1 := rfl
    rw [if_pos (by omega), mktime, hyear, hmon]
    dsimp only
    omega
  · refine ⟨?_, le_rfl, by simp, le_rfl, by simp⟩
    have hyear : d.year - 1900 + 1900 + ((d.month : ℤ) - 1 + 1) / 12 = d.year := by omega
    have hmon : (((d.month : ℤ) - 1 + 1) % 12).toNat + 1 = d.month + 1 := by omega
    rw [if_neg (by omega), mktime, hyear, hmon]
    dsimp only
    omega

lemma atMinute_skipDay (offset k : ℤ) :
    AtMinute offset (skipDay (ofMinute k)) (1440 * (k / 1440 + 1)) := by
  refine ⟨?_, le_rfl, by simp [skipDay], le_rfl, by simp [skipDay]⟩
  rw [skipDay, ofMinute, mktime_date, dayNumber_day]
  omega

lemma atMinute_skipHour (offset k : ℤ) :
    AtMinute offset (skipHour (ofMinute k)) (60 * (k / 60 + 1)) := by
  have hday := dayNumber_day (k / 1440) 0
  rw [add_zero, add_zero] at hday
  refine ⟨?_, le_rfl, by simp [skipHour], ?_, ?_⟩
  · rw [skipHour, ofMinute, mktime_date, hday]
    dsimp only
    omega
  · simp only [skipHour, ofMinute]
    omega
  · simp only [skipHour, ofMinute]
    omega

lemma atMinute_skipMinute (offset k : ℤ) :
    AtMinute offset (skipMinute (ofMinute k)) (k + 1) := by
  have hday := dayNumber_day (k / 1440) 0
  rw [add_zero, add_zero] at hday
  refine ⟨?_, ?_, ?_, ?_, ?_⟩
  · rw [skipMinute, ofMinute, mktime_date, hday]
    dsimp only
    omega
  all_goals
    simp only [skipMinute, ofMinute]
    omega

lemma atMinute_start (offset t : ℤ) :
    AtMinute offset { localtime offset t with
      tm_sec := 0, tm_min := (localtime offset t).tm_min + 1 } ((t + offset) / 60 + 1) := by
  have hminute : { localtime offset t with
      tm_sec := 0, tm_min := (localtime offset t).tm_min + 1 } =
        skipMinute (ofMinute ((t + offset) / 60)) := by
    have hdays : (t + offset) / 60 / 1440 = (t + offset) / 86400 := by omega
    simp only [skipMinute, ofMinute, localtime, hdays, Tm.mk.injEq, and_true, true_and]
    omega
  rw [hminute]
  exact atMinute_skipMinute offset _

end Cron

namespace CronExpression

/-- Where the search goes from a minute that is not in all sets. -/
def skip (cron : CronExpression) (k : ℤ) : Option ℤ :=
  if !cron.has .month (ofDayNumber (k / 1440)).month then
    some (1440 * (ofDayNumber (k / 1440)).endOfMonth)
  else if !cron.has .dayOfMonth (ofDayNumber (k / 1440)).day ||
      !cron.has .dayOfWeek (weekday (k / 1440)) then
    some (1440 * (k / 1440 + 1))
  else if !cron.has .hour (k / 60 % 24).toNat then some (60 * (k / 60 + 1))
  else if !cron.has .minute (k % 60).toNat then some (k + 1)
  else none

lemma sizeT_eq_toNat {v : ℤ} (hle : 0 ≤ v) (hlt : v < 2 ^ 64) : sizeT v = v.toNat := by
  unfold sizeT
  omega

def outcome (offset : ℤ) : Option ℤ → Except String ℤ
  | some m => .ok (60 * m - offset)
  | none => .error "Could not find next cron execution time"

lemma nextAfterLoop_eq_search (offset : ℤ) (cron : CronExpression) (iterations : ℕ) {tm : Tm}
    {k : ℤ} (h : AtMinute offset tm k) :
    nextAfterLoop offset cron iterations tm =
      outcome offset (SkipSearch.search cron.skip iterations k) := by
  induction iterations generalizing tm k with
  | zero => rfl
  | succ iterations ih =>
    -- The positions that are tested are small.
    have hmonth := (ofDayNumber (k / 1440)).month_le
    have hday : (ofDayNumber (k / 1440)).day ≤ 31 :=
      (ofDayNumber (k / 1440)).day_le.trans (monthLength_le _ _)
    have hweek := weekday_lt (k / 1440)
    have hmon : sizeT ((ofMinute k).tm_mon + 1) = (ofDayNumber (k / 1440)).month := by
      rw [ofMinute, sizeT_eq_toNat (by dsimp only; omega) (by dsimp only; omega)]
      dsimp only
      omega
    have hmday : sizeT (ofMinute k).tm_mday = (ofDayNumber (k / 1440)).day :=
      sizeT_eq_toNat (by simp [ofMinute]) (by simp only [ofMinute]; omega)
    have hwday : sizeT (ofMinute k).tm_wday = weekday (k / 1440) :=
      sizeT_eq_toNat (by simp [ofMinute]) (by simp only [ofMinute]; omega)
    have hhour : sizeT (ofMinute k).tm_hour = (k / 60 % 24).toNat :=
      sizeT_eq_toNat (by simp only [ofMinute]; omega) (by simp only [ofMinute]; omega)
    have hmin : sizeT (ofMinute k).tm_min = (k % 60).toNat :=
      sizeT_eq_toNat (by simp only [ofMinute]; omega) (by simp only [ofMinute]; omega)
    let proceed (k' : Option ℤ) : Except String ℤ :=
      outcome offset (k'.elim (some k) (SkipSearch.search cron.skip iterations))
    rw [SkipSearch.search_succ]
    change _ = proceed (cron.skip k)
    simp only [nextAfterLoop, h.mktime_carry, localtime_minute, hmon, hmday, hwday, hhour, hmin,
      ih (atMinute_skipMonth offset k), ih (atMinute_skipDay offset k),
      ih (atMinute_skipHour offset k), ih (atMinute_skipMinute offset k), mktime_ofMinute]
    rw [skip, apply_ite proceed, apply_ite proceed, apply_ite proceed, apply_ite proceed]
    rfl

end CronExpression

end Pman
