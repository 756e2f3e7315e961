import Pman.Cron.Parse

set_option autoImplicit false

/-!
# Printing a cron expression and parsing it again

`toString` prints a field as a star if all its bits are set, bit zero included, and otherwise as the
list of the set bits. `parse` sets all bits for a star, bit zero included, and reads the list back.
So the two agree also for the days of the month and the months, where bit zero stands for nothing.
Only an empty set is printed as the empty text, which is not a field.

## Main results

* `parse_toString`: printing and parsing give the expression back.
-/

namespace Pman.CronExpression

open Words List Cron

variable {maxVal : ℕ}

lemma item_toDigits {i : ℕ} (hi : i < 60) : item (Nat.toDigits 10 i) = some (i, i) := by
  have hall : ∀ i < 60, item (Nat.toDigits 10 i) = some (i, i) := by decide +kernel
  exact hall i hi

def setBits (bits : BitVec (maxVal + 1)) : List ℕ :=
  (List.range (maxVal + 1)).filter fun i => bits.getLsbD i

lemma fieldToString_eq (bits : BitVec (maxVal + 1)) :
    fieldToString bits maxVal = if (setBits bits).length = maxVal + 1 then ['*']
      else [','].intercalate ((setBits bits).map (Nat.toDigits 10)) := rfl

variable {bits : BitVec (maxVal + 1)} {values : List ℕ}

lemma mem_setBits {i : ℕ} : i ∈ setBits bits ↔ bits.getLsbD i = true := by
  rw [setBits, mem_filter, mem_range]
  exact ⟨And.right, fun h => ⟨BitVec.lt_of_getLsbD h, h⟩⟩

lemma setBits_ne_nil (hne : bits ≠ 0#(maxVal + 1)) : setBits bits ≠ [] := by
  intro hnil
  refine hne (BitVec.eq_of_getLsbD_eq fun i _ => ?_)
  have hi : i ∉ setBits bits := by simp [hnil]
  rw [mem_setBits] at hi
  simpa using hi

lemma splitOn_values (hne : values ≠ []) (hvalues : ∀ i ∈ values, i < 60) :
    ([','].intercalate (values.map (Nat.toDigits 10))).splitOn ',' =
      values.map (Nat.toDigits 10) := by
  refine splitOn_intercalate ',' (fun part hpart => ?_) (by simpa using hne)
  obtain ⟨i, hi, rfl⟩ := mem_map.mp hpart
  exact notMem_of_item (item_toDigits (hvalues i hi)) (by decide) (by decide)

lemma isList_values (hne : values ≠ []) (hvalues : ∀ i ∈ values, i ≤ maxVal) (hmax : maxVal < 60) :
    IsList 0 maxVal ([','].intercalate (values.map (Nat.toDigits 10))) := by
  intro part hpart
  rw [splitOn_values hne fun i hi => (hvalues i hi).trans_lt hmax] at hpart
  obtain ⟨i, hi, rfl⟩ := mem_map.mp hpart
  exact ⟨(i, i), item_toDigits ((hvalues i hi).trans_lt hmax), Nat.zero_le i, hvalues i hi⟩

lemma lists_values (hne : values ≠ []) (hvalues : ∀ i ∈ values, i < 60) (i : ℕ) :
    Lists ([','].intercalate (values.map (Nat.toDigits 10))) i ↔ i ∈ values := by
  rw [Cron.Lists, splitOn_values hne hvalues]
  constructor
  · rintro ⟨part, hpart, r, hr, hle⟩
    obtain ⟨j, hj, rfl⟩ := mem_map.mp hpart
    rw [item_toDigits (hvalues j hj), Option.mem_some_iff] at hr
    subst hr
    obtain rfl : j = i := by dsimp only at hle; omega
    exact hj
  · intro hi
    exact ⟨_, mem_map_of_mem hi, (i, i), item_toDigits (hvalues i hi), le_rfl, le_rfl⟩

/-- **A printed field is read back.** -/
theorem parseField_fieldToString (hmax : maxVal < 60) (hne : bits ≠ 0#(maxVal + 1)) :
    parseField (fieldToString bits maxVal) maxVal 0#(maxVal + 1) = .ok bits := by
  have hvalues : ∀ i ∈ setBits bits, i ≤ maxVal := fun i hi =>
    Nat.lt_succ_iff.mp (BitVec.lt_of_getLsbD (mem_setBits.mp hi))
  rw [fieldToString_eq]
  split
  · rename_i hall
    obtain ⟨parsed, hparse, hparsed⟩ := parseField_star (Nat.lt_succ_self maxVal)
    rw [hparse]
    congr 1
    refine BitVec.eq_of_getLsbD_eq fun i hi => ?_
    have hset : i ∈ setBits bits := by
      have hfull : setBits bits = List.range (maxVal + 1) :=
        filter_sublist.eq_of_length (by rw [length_range]; exact hall)
      rw [hfull]
      exact mem_range.mpr hi
    rw [mem_setBits.mp hset, (hparsed i).mpr (Nat.lt_succ_iff.mp hi)]
  · obtain ⟨parsed, hparse, hparsed⟩ := parseField_list (Nat.lt_succ_self maxVal) (by omega)
      (isList_values (setBits_ne_nil hne) hvalues hmax)
    rw [hparse]
    congr 1
    refine BitVec.eq_of_getLsbD_eq fun i _ => ?_
    rw [Bool.eq_iff_iff, hparsed, lists_values (setBits_ne_nil hne)
      (fun i hi => (hvalues i hi).trans_lt hmax), mem_setBits]

lemma isDigit_eq_false_of_isSpace {c : Char} (hc : isSpace c = true) : c.isDigit = false := by
  simp only [isSpace, Bool.or_eq_true, beq_iff_eq, Bool.and_eq_true, decide_eq_true_eq] at hc
  by_contra hdigit
  have hlow : 48 ≤ c.toNat := (Char.isDigit_iff_toNat.mp (by simpa using hdigit)).1
  omega

lemma fieldToString_word (hmax : maxVal < 60) (hne : bits ≠ 0#(maxVal + 1)) :
    fieldToString bits maxVal ≠ [] ∧ ∀ c ∈ fieldToString bits maxVal, isSpace c = false := by
  have hparts : ∀ part ∈ (setBits bits).map (Nat.toDigits 10), ∃ r, item part = some r := by
    intro part hpart
    obtain ⟨i, hi, rfl⟩ := mem_map.mp hpart
    have hlt := BitVec.lt_of_getLsbD (mem_setBits.mp hi)
    exact ⟨(i, i), item_toDigits (by omega)⟩
  rw [fieldToString_eq]
  split
  · exact ⟨by simp, fun c hc => by rw [mem_singleton.mp hc]; rfl⟩
  · refine ⟨fun hnil => ?_, fun c hc => ?_⟩
    · have hlength := @length_le_length_intercalate _ ',' _ fun part hpart =>
        (hparts part hpart).elim fun r hr => ne_nil_of_item hr
      rw [hnil, length_map, length_nil, Nat.le_zero, length_eq_zero_iff] at hlength
      exact setBits_ne_nil hne hlength
    · by_contra hspace
      rw [Bool.not_eq_false] at hspace
      rcases mem_intercalate hc with rfl | ⟨part, hpart, hmem⟩
      · cases hspace
      · obtain ⟨r, hr⟩ := hparts part hpart
        refine notMem_of_item hr (isDigit_eq_false_of_isSpace hspace) ?_ hmem
        rintro rfl
        cases hspace

/-- **An expression without empty fields is read back**, bit by bit.

**Proof sketch.** The printed fields are the words of the text, and each is read back on its own
(`CronExpression.parseField_fieldToString`). -/
theorem parse_toString (cron : CronExpression) (hminutes : cron.minutes_ ≠ 0#60)
    (hhours : cron.hours_ ≠ 0#24) (hdays : cron.daysOfMonth_ ≠ 0#32)
    (hmonths : cron.months_ ≠ 0#13) (hweek : cron.daysOfWeek_ ≠ 0#7) :
    parse cron.toString = .ok cron := by
  have hmin := fieldToString_word (by decide : 59 < 60) hminutes
  have hhour := fieldToString_word (by decide : 23 < 60) hhours
  have hdom := fieldToString_word (by decide : 31 < 60) hdays
  have hmonth := fieldToString_word (by decide : 12 < 60) hmonths
  have hdow := fieldToString_word (by decide : 6 < 60) hweek
  have hblank : isSpace ' ' = true := by decide
  have hwords : Words.words isSpace cron.toString =
      [fieldToString cron.minutes_ 59, fieldToString cron.hours_ 23,
        fieldToString cron.daysOfMonth_ 31, fieldToString cron.months_ 12,
        fieldToString cron.daysOfWeek_ 6] := by
    have hlast := words_eq_singleton hdow.1 hdow.2
    rw [toString, words_append hmin.1 hmin.2 (by simp [hblank]),
      words_cons_blank hblank, words_append hhour.1 hhour.2 (by simp [hblank]),
      words_cons_blank hblank, words_append hdom.1 hdom.2 (by simp [hblank]),
      words_cons_blank hblank, words_append hmonth.1 hmonth.2 (by simp [hblank]),
      words_cons_blank hblank, hlast]
  rw [parse, readFields_eq, hwords]
  dsimp only
  rw [parseFields, parseField_fieldToString (by decide) hminutes,
    parseField_fieldToString (by decide) hhours, parseField_fieldToString (by decide) hdays,
    parseField_fieldToString (by decide) hmonths, parseField_fieldToString (by decide) hweek]
  rfl

/-- Noon on the first of a month if it is a Monday. The set of the months is full but for bit zero,
that of the hours has one element. -/
theorem parse_toString_noon :
    parse (toString ⟨1#60, 4096#24, 2#32, 8190#13, 2#7⟩) =
      .ok ⟨1#60, 4096#24, 2#32, 8190#13, 2#7⟩ :=
  parse_toString ⟨1#60, 4096#24, 2#32, 8190#13, 2#7⟩ (by decide) (by decide) (by decide)
    (by decide) (by decide)

end Pman.CronExpression
