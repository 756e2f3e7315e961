import Mathlib.Data.Int.ConditionallyCompleteOrder

set_option autoImplicit false

/-!
# The proleptic Gregorian calendar

Days are numbered from the first of January 1970, in both directions. A date is a year, a month and
a day of that month; every day number is that of exactly one date. The dates repeat after four
hundred years, which are a whole number of weeks.
-/

namespace Calendar

def monthLength (leap : Bool) : ℕ → ℕ
  | 2 => if leap then 29 else 28
  | 4 | 6 | 9 | 11 => 30
  | _ => 31

lemma monthLength_le (leap : Bool) (m : ℕ) : monthLength leap m ≤ 31 := by
  unfold monthLength
  split <;> first | split_ifs <;> omega | omega

def daysBefore (leap : Bool) : ℕ → ℕ
  | 0 | 1 => 0
  | m + 2 => daysBefore leap (m + 1) + monthLength leap (m + 1)

def yearLength (leap : Bool) : ℕ := 365 + leap.toNat

/-- The month of a day of the year, which is counted from zero. -/
def monthOf (leap : Bool) (dayOfYear : ℕ) : ℕ :=
  Nat.findGreatest (fun m => daysBefore leap m ≤ dayOfYear) 12

lemma monthOf_spec : ∀ leap, ∀ n < yearLength leap, 1 ≤ monthOf leap n ∧ monthOf leap n ≤ 12 ∧
    daysBefore leap (monthOf leap n) ≤ n ∧
      n < daysBefore leap (monthOf leap n) + monthLength leap (monthOf leap n) := by
  decide +kernel

lemma monthOf_daysBefore_add : ∀ leap, ∀ m < 12, ∀ d < monthLength leap (m + 1),
    monthOf leap (daysBefore leap (m + 1) + d) = m + 1 := by
  decide +kernel

lemma daysBefore_add_monthLength_le : ∀ leap, ∀ m < 12,
    daysBefore leap (m + 1) + monthLength leap (m + 1) ≤ yearLength leap := by
  decide +kernel

lemma daysBefore_add_december : ∀ leap, daysBefore leap 12 + monthLength leap 12 =
    yearLength leap := by
  decide

def isLeap (year : ℤ) : Bool := year % 4 = 0 ∧ (year % 100 ≠ 0 ∨ year % 400 = 0)

def yearStart (year : ℤ) : ℤ :=
  365 * (year - 1970) + ((year - 1) / 4 - (year - 1) / 100 + (year - 1) / 400) - 477

lemma yearStart_add_one (year : ℤ) :
    yearStart (year + 1) = yearStart year + yearLength (isLeap year) := by
  unfold yearStart yearLength isLeap
  by_cases hleap : year % 4 = 0 ∧ (year % 100 ≠ 0 ∨ year % 400 = 0)
  · rw [decide_eq_true hleap, Bool.toNat_true]
    omega
  · rw [decide_eq_false hleap, Bool.toNat_false]
    omega

lemma lt_of_yearStart_lt {year year' : ℤ} (h : yearStart year < yearStart year') :
    year < year' := by
  have hmono : StrictMono yearStart := strictMono_int_of_lt_succ fun year => by
    rw [yearStart_add_one]
    unfold yearLength
    omega
  exact hmono.lt_iff_lt.mp h

lemma yearStart_add_period (year c : ℤ) :
    yearStart (year + 400 * c) = yearStart year + 146097 * c := by
  unfold yearStart
  omega

lemma isLeap_add_period (year c : ℤ) : isLeap (year + 400 * c) = isLeap year := by
  unfold isLeap
  congr 1
  exact propext (by omega)

/-- The year of a day. The estimate from the mean length of a year is off by one year at most. -/
def yearOf (n : ℤ) : ℤ :=
  let year := 1970 + 400 * n / 146097
  if n < yearStart year then year - 1
  else if yearStart (year + 1) ≤ n then year + 1
  else year

lemma yearOf_spec (n : ℤ) : yearStart (yearOf n) ≤ n ∧ n < yearStart (yearOf n + 1) := by
  unfold yearOf
  dsimp only
  split_ifs with hbelow habove
  · refine ⟨?_, by rwa [Int.sub_add_cancel]⟩
    unfold yearStart
    omega
  · refine ⟨habove, ?_⟩
    unfold yearStart
    omega
  · exact ⟨not_lt.mp hbelow, not_le.mp habove⟩

lemma yearOf_eq {n year : ℤ} (hle : yearStart year ≤ n) (hlt : n < yearStart (year + 1)) :
    yearOf n = year := by
  obtain ⟨hle', hlt'⟩ := yearOf_spec n
  have hup := lt_of_yearStart_lt (hle.trans_lt hlt')
  have hdown := lt_of_yearStart_lt (hle'.trans_lt hlt)
  omega

@[ext]
structure Date where
  year : ℤ
  month : ℕ
  day : ℕ
  one_le_month : 1 ≤ month
  month_le : month ≤ 12
  one_le_day : 1 ≤ day
  day_le : day ≤ monthLength (isLeap year) month
deriving DecidableEq, Repr

/-- The number of a day that is given by its year, its month and the day in it. The day may lie
outside of the month: it is counted from the first. -/
def dayNumber (year : ℤ) (month : ℕ) (day : ℤ) : ℤ :=
  yearStart year + daysBefore (isLeap year) month + day - 1

def Date.number (d : Date) : ℤ := dayNumber d.year d.month d.day

def dayOfYear (n : ℤ) : ℕ := (n - yearStart (yearOf n)).toNat

lemma natCast_dayOfYear (n : ℤ) : (dayOfYear n : ℤ) = n - yearStart (yearOf n) :=
  Int.toNat_of_nonneg (Int.sub_nonneg_of_le (yearOf_spec n).1)

lemma dayOfYear_lt (n : ℤ) : dayOfYear n < yearLength (isLeap (yearOf n)) := by
  have hlt := (yearOf_spec n).2
  have hcast := natCast_dayOfYear n
  rw [yearStart_add_one] at hlt
  omega

def ofDayNumber (n : ℤ) : Date where
  year := yearOf n
  month := monthOf (isLeap (yearOf n)) (dayOfYear n)
  day := dayOfYear n - daysBefore (isLeap (yearOf n)) (monthOf (isLeap (yearOf n)) (dayOfYear n)) + 1
  one_le_month := (monthOf_spec _ _ (dayOfYear_lt n)).1
  month_le := (monthOf_spec _ _ (dayOfYear_lt n)).2.1
  one_le_day := Nat.le_add_left 1 _
  day_le := by
    obtain ⟨-, -, hle, hlt⟩ := monthOf_spec _ _ (dayOfYear_lt n)
    omega

lemma number_ofDayNumber (n : ℤ) : (ofDayNumber n).number = n := by
  obtain ⟨-, -, hle, -⟩ := monthOf_spec _ _ (dayOfYear_lt n)
  have hcast := natCast_dayOfYear n
  simp only [Date.number, dayNumber, ofDayNumber]
  omega

lemma Date.yearOf_number (d : Date) : yearOf d.number = d.year := by
  obtain ⟨year, month, day, hone, hmonth, hday, hle⟩ := d
  obtain ⟨m, rfl⟩ : ∃ m, month = m + 1 := ⟨month - 1, by omega⟩
  have hyear := daysBefore_add_monthLength_le (isLeap year) m (by omega)
  refine yearOf_eq ?_ ?_
  · simp only [Date.number, dayNumber]
    omega
  · rw [yearStart_add_one]
    simp only [Date.number, dayNumber]
    omega

lemma ofDayNumber_number (d : Date) : ofDayNumber d.number = d := by
  have hyear := d.yearOf_number
  obtain ⟨year, month, day, hone, hmonth, hday, hle⟩ := d
  obtain ⟨m, rfl⟩ : ∃ m, month = m + 1 := ⟨month - 1, by omega⟩
  dsimp only at hyear
  have hdoy : dayOfYear (Date.number ⟨year, m + 1, day, hone, hmonth, hday, hle⟩) =
      daysBefore (isLeap year) (m + 1) + (day - 1) := by
    have hcast := natCast_dayOfYear (Date.number ⟨year, m + 1, day, hone, hmonth, hday, hle⟩)
    rw [hyear] at hcast
    simp only [Date.number, dayNumber] at hcast ⊢
    omega
  have hmonthOf := monthOf_daysBefore_add (isLeap year) m (by omega) (day - 1) (by omega)
  ext
  · exact hyear
  · simp only [ofDayNumber, hyear, hdoy, hmonthOf]
  · simp only [ofDayNumber, hyear, hdoy, hmonthOf]
    omega

lemma ofDayNumber_eq {n : ℤ} {d : Date} (h : d.number = n) : ofDayNumber n = d := by
  rw [← h, ofDayNumber_number]

def Date.endOfMonth (d : Date) : ℤ :=
  dayNumber d.year d.month (monthLength (isLeap d.year) d.month + 1)

lemma Date.endOfMonth_eq (d : Date) :
    d.endOfMonth = if d.month = 12 then dayNumber (d.year + 1) 1 1
      else dayNumber d.year (d.month + 1) 1 := by
  have hone := d.one_le_month
  unfold Date.endOfMonth dayNumber
  split
  · rename_i hdecember
    have hyear := daysBefore_add_december (isLeap d.year)
    have hjanuary : daysBefore (isLeap (d.year + 1)) 1 = 0 := rfl
    rw [hdecember, yearStart_add_one, hjanuary]
    omega
  · obtain ⟨m, hm⟩ : ∃ m, d.month = m + 1 := ⟨d.month - 1, by omega⟩
    rw [hm]
    simp only [daysBefore]
    omega

lemma lt_endOfMonth (n : ℤ) : n < (ofDayNumber n).endOfMonth := by
  have hnumber := number_ofDayNumber n
  have hday := (ofDayNumber n).day_le
  simp only [Date.number, Date.endOfMonth, dayNumber] at hnumber ⊢
  omega

lemma month_eq_of_lt {n k : ℤ} (hle : n ≤ k) (hlt : k < (ofDayNumber n).endOfMonth) :
    (ofDayNumber k).month = (ofDayNumber n).month := by
  have hnumber := number_ofDayNumber n
  generalize ofDayNumber n = d at hnumber hlt
  obtain ⟨year, month, day, hone, hmonth, hday, hday'⟩ := d
  simp only [Date.number, Date.endOfMonth, dayNumber] at hnumber hlt
  have hk : Date.number ⟨year, month, day + (k - n).toNat, hone, hmonth, by omega, by omega⟩ =
      k := by
    simp only [Date.number, dayNumber]
    omega
  rw [ofDayNumber_eq hk]

/-- The day of the week; the first of January 1970 was a Thursday. -/
def weekday (n : ℤ) : ℕ := ((n + 4) % 7).toNat

lemma weekday_lt (n : ℤ) : weekday n < 7 := by
  unfold weekday
  omega

lemma weekday_add_period (n c : ℤ) : weekday (n + 146097 * c) = weekday n := by
  unfold weekday
  omega

lemma ofDayNumber_add_period (n c : ℤ) :
    (ofDayNumber (n + 146097 * c)).month = (ofDayNumber n).month ∧
      (ofDayNumber (n + 146097 * c)).day = (ofDayNumber n).day := by
  have hnumber := number_ofDayNumber n
  generalize ofDayNumber n = d at hnumber ⊢
  obtain ⟨year, month, day, hone, hmonth, hday, hday'⟩ := d
  have hshift : Date.number ⟨year + 400 * c, month, day, hone, hmonth, hday,
      by rwa [isLeap_add_period]⟩ = n + 146097 * c := by
    simp only [Date.number, dayNumber, isLeap_add_period, yearStart_add_period] at hnumber ⊢
    omega
  rw [ofDayNumber_eq hshift]
  exact ⟨rfl, rfl⟩

end Calendar
