import Pman.Cron.Expression

set_option autoImplicit false

/-!
# What the cron parser makes of well-formed fields

A field lists its values as numbers and ranges `a-b` between commas. When all of them are well
formed and none is beyond the greatest value of the field, the loops of `parseField` set exactly the
listed bits. The grammar is written down on its own here, by splitting texts at their separators.

## Main results

* `parseField_list`: a field that lists values is read back.
-/

namespace Pman

open List

variable {field : List Char} {low : ℕ}

namespace Cron

def numeral (text : List Char) : Option ℕ :=
  if text ≠ [] ∧ text.all Char.isDigit then some (decimalValue text) else none

/-- The first and the last value of a part: a number, or a range `a-b` with `a ≤ b`. -/
def item (part : List Char) : Option (ℕ × ℕ) :=
  match part.splitOn '-' with
  | [text] => (numeral text).map fun n => (n, n)
  | [front, back] =>
    match numeral front, numeral back with
    | some a, some b => if a ≤ b then some (a, b) else none
    | _, _ => none
  | _ => none

def Lists (field : List Char) (i : ℕ) : Prop :=
  ∃ part ∈ field.splitOn ',', ∃ r ∈ item part, r.1 ≤ i ∧ i ≤ r.2

/-- The field is a list of numbers and ranges between `low` and `high`. -/
def IsList (low high : ℕ) (field : List Char) : Prop :=
  ∀ part ∈ field.splitOn ',', ∃ r ∈ item part, low ≤ r.1 ∧ r.2 ≤ high
  deriving Decidable

variable {text : List Char} {n : ℕ}

lemma numeral_eq_some (h : numeral text = some n) :
    text ≠ [] ∧ (∀ c ∈ text, c.isDigit = true) ∧ decimalValue text = n := by
  unfold numeral at h
  split at h
  · rename_i hdigits
    exact ⟨hdigits.1, all_eq_true.mp hdigits.2, Option.some.inj h⟩
  · cases h

variable {c : Char} {part : List Char} {r : ℕ × ℕ}

lemma notMem_of_numeral (h : numeral text = some n) (hc : c.isDigit = false) :
    c ∉ text := fun hmem => by
  simp [(numeral_eq_some h).2.1 c hmem] at hc

lemma fromChars_numeral (h : numeral text = some n) (hn : n < 2 ^ 31) :
    fromChars text = some (n : ℤ) := by
  obtain ⟨hne, hdigits, hvalue⟩ := numeral_eq_some h
  have hplain : fromChars text = fromDigits false text := by
    unfold fromChars
    split
    · exact absurd List.mem_cons_self (notMem_of_numeral h (by decide))
    · rfl
  have hself := List.takeWhile_eq_self_iff.mpr hdigits
  rw [hplain, fromDigits, hself, hvalue]
  simp only [List.isEmpty_iff, hne, if_false, Bool.false_eq_true]
  rw [if_pos (by omega)]

lemma notMem_of_item (hr : item part = some r) (hc : c.isDigit = false) (hdash : c ≠ '-') :
    c ∉ part := by
  have hjoin : ['-'].intercalate (part.splitOn '-') = part := intercalate_splitOn '-'
  unfold item at hr
  split at hr
  · rename_i text hsplit
    obtain ⟨a, ha, -⟩ := Option.map_eq_some_iff.mp hr
    rw [← hjoin, hsplit]
    simpa [intercalate] using notMem_of_numeral ha hc
  · rename_i front back hsplit
    split at hr
    · rename_i a b ha hb
      rw [← hjoin, hsplit, intercalate_cons_cons]
      simp [intercalate, hdash, notMem_of_numeral ha hc, notMem_of_numeral hb hc]
    · cases hr
  · cases hr

lemma ne_nil_of_item (hr : item part = some r) : part ≠ [] := by
  rintro rfl
  cases hr

lemma IsList.ne_star {high : ℕ} (h : IsList low high field) : field ≠ ['*'] := by
  rintro rfl
  obtain ⟨r, hr, -⟩ := h ['*'] (by decide)
  cases hr

lemma sizeT_natCast (hn : n < 2 ^ 64) : sizeT n = n := by
  unfold sizeT
  omega

lemma getLsbD_setRangeLoop {maxVal : ℕ} (hmax : maxVal < n) (hsize : maxVal < 2 ^ 64) {b : ℕ}
    (hb : b ≤ maxVal) (rounds a : ℕ) (hrounds : b + 1 ≤ a + rounds) (bits : BitVec n) (i : ℕ) :
    (setRangeLoop maxVal b rounds a bits).getLsbD i =
      (bits.getLsbD i || decide (a ≤ i ∧ i ≤ b)) := by
  induction rounds generalizing a bits with
  | zero =>
    have hempty : ¬ (a ≤ i ∧ i ≤ b) := by omega
    simp [setRangeLoop, hempty]
  | succ rounds ih =>
    unfold setRangeLoop
    by_cases ha : a ≤ b
    · have hsizeT : sizeT a = a := sizeT_natCast (by omega)
      rw [if_pos (by rw [hsizeT]; omega), hsizeT]
      rw [show ((a : ℤ) + 1) = ((a + 1 : ℕ) : ℤ) by omega, ih (a + 1) (by omega),
        Bitset.getLsbD_set bits (by omega), Bool.or_assoc, ← Bool.decide_or]
      congr 2
      exact propext (by omega)
    · have hempty : ¬ (a ≤ i ∧ i ≤ b) := by omega
      rw [if_neg (by omega)]
      simp [hempty]

end Cron

namespace CronExpression

open Cron

variable {n maxVal : ℕ}

lemma parsePart_item (hmax : maxVal < n) (hint : maxVal < 2 ^ 31) {part : List Char}
    {r : ℕ × ℕ} (hr : item part = some r) (hle : r.2 ≤ maxVal) (bits : BitVec n) :
    ∃ bits', parsePart maxVal part bits = .ok bits' ∧
      ∀ i, bits'.getLsbD i = (bits.getLsbD i || decide (r.1 ≤ i ∧ i ≤ r.2)) := by
  have hjoin : ['-'].intercalate (part.splitOn '-') = part := intercalate_splitOn '-'
  unfold item at hr
  split at hr
  · -- A number.
    rename_i text hsplit
    obtain ⟨a, ha, rfl⟩ := Option.map_eq_some_iff.mp hr
    obtain rfl : text = part := by simpa [hsplit, intercalate] using hjoin
    have hplain : text.contains '-' = false := by
      simpa using notMem_of_numeral ha (by decide : Char.isDigit '-' = false)
    have hsizeT : sizeT a = a := sizeT_natCast (by dsimp only at hle; omega)
    simp only [parsePart, hplain, Bool.false_eq_true, if_false,
      fromChars_numeral ha (by dsimp only at hle; omega), hsizeT, if_pos hle]
    refine ⟨_, rfl, fun i => ?_⟩
    rw [Bitset.getLsbD_set bits (by dsimp only at hle; omega)]
    congr 2
    exact propext (by omega)
  · -- A range.
    rename_i front back hsplit
    split at hr
    · rename_i a b ha hb
      split at hr
      · rename_i hab
        cases hr
        dsimp only at hle ⊢
        have hfront : part.takeWhile (· ≠ '-') = front := by
          rw [← hjoin, hsplit]
          exact Words.takeWhile_intercalate (notMem_of_numeral ha (by decide))
        have hback : part.drop (front.length + 1) = back := by
          rw [← hjoin, hsplit, Words.drop_intercalate]
          simp [intercalate]
        have hdash : part.contains '-' = true := by
          rw [← hjoin, hsplit, intercalate_cons_cons]
          simp
        simp only [parsePart, hdash, if_true, hfront, hback,
          fromChars_numeral ha (by omega), fromChars_numeral hb (by omega)]
        exact ⟨_, rfl, getLsbD_setRangeLoop hmax (by omega) hle _ a (by omega) bits⟩
      · cases hr
    · cases hr
  · cases hr

lemma parseParts_items (hmax : maxVal < n) (hint : maxVal < 2 ^ 31) (parts : List (List Char))
    (hitems : ∀ part ∈ parts, ∃ r ∈ item part, r.2 ≤ maxVal) (rounds : ℕ)
    (hrounds : parts.length ≤ rounds) (bits : BitVec n) :
    ∃ bits', parseParts maxVal rounds ([','].intercalate parts) bits = .ok bits' ∧
      ∀ i, bits'.getLsbD i = true ↔ bits.getLsbD i = true ∨
        ∃ part ∈ parts, ∃ r ∈ item part, r.1 ≤ i ∧ i ≤ r.2 := by
  induction parts generalizing rounds bits with
  | nil =>
    refine ⟨bits, ?_, fun i => by simp⟩
    cases rounds <;> rfl
  | cons part parts ih =>
    rw [length_cons] at hrounds
    obtain ⟨rounds, rfl⟩ := Nat.exists_eq_succ_of_ne_zero (by omega : rounds ≠ 0)
    obtain ⟨r, hr, hle⟩ := hitems part mem_cons_self
    rw [Option.mem_def] at hr
    obtain ⟨bits₁, hpart, hbits₁⟩ := parsePart_item hmax hint hr hle bits
    obtain ⟨bits₂, hparts, hbits₂⟩ := ih (fun p hp => hitems p (mem_cons_of_mem _ hp)) rounds
      (by omega) bits₁
    refine ⟨bits₂, ?_, fun i => ?_⟩
    · have hne : ([','].intercalate (part :: parts)).isEmpty = false := by
        cases parts <;> simp [intercalate, ne_nil_of_item hr]
      simp only [parseParts, hne, Bool.false_eq_true, if_false]
      rw [Words.takeWhile_intercalate (notMem_of_item hr (by decide) (by decide)), hpart]
      dsimp only
      rw [Words.drop_intercalate, hparts]
    · simp only [hbits₂, hbits₁, Bool.or_eq_true, decide_eq_true_eq, mem_cons, or_assoc,
        exists_eq_or_imp, hr, Option.mem_def, Option.some.injEq, exists_eq_left']

/-- **A list of values is read** as the set of its values. -/
theorem parseField_list (hmax : maxVal < n) (hint : maxVal < 2 ^ 31)
    (hfield : IsList low maxVal field) :
    ∃ bits : BitVec n, parseField field maxVal 0#n = .ok bits ∧
      ∀ i, bits.getLsbD i = true ↔ Lists field i := by
  have hitems : ∀ part ∈ field.splitOn ',', ∃ r ∈ item part, r.2 ≤ maxVal := by
    intro part hpart
    obtain ⟨r, hr, -, hle⟩ := hfield part hpart
    exact ⟨r, hr, hle⟩
  have hjoin : [','].intercalate (field.splitOn ',') = field := intercalate_splitOn ','
  have hlength : (field.splitOn ',').length ≤ field.length := by
    conv_rhs => rw [← hjoin]
    refine Words.length_le_length_intercalate fun part hpart => ?_
    obtain ⟨r, hr, -⟩ := hitems part hpart
    exact ne_nil_of_item hr
  obtain ⟨bits, hparse, hbits⟩ := parseParts_items hmax hint _ hitems field.length hlength (0#n)
  rw [hjoin] at hparse
  refine ⟨bits, ?_, fun i => ?_⟩
  · rw [parseField, if_neg hfield.ne_star, hparse]
  · rw [hbits]
    simp [Cron.Lists]

lemma getLsbD_foldl_set (values : List ℕ) (hvalues : ∀ i ∈ values, i < n) (bits : BitVec n)
    (j : ℕ) :
    (values.foldl Bitset.set bits).getLsbD j = (bits.getLsbD j || decide (j ∈ values)) := by
  induction values generalizing bits with
  | nil => simp
  | cons i values ih =>
    rw [foldl_cons, ih fun i hi => hvalues i (mem_cons_of_mem _ hi),
      Bitset.getLsbD_set bits (hvalues i mem_cons_self), Bool.or_assoc, ← Bool.decide_or]
    simp

/-- **A star is read** as all bits up to the maximum. -/
theorem parseField_star (hmax : maxVal < n) :
    ∃ bits : BitVec n, parseField ['*'] maxVal 0#n = .ok bits ∧
      ∀ i, bits.getLsbD i = true ↔ i ≤ maxVal := by
  refine ⟨_, if_pos rfl, fun i => ?_⟩
  rw [getLsbD_foldl_set _ fun i hi => by rw [mem_range] at hi; omega]
  simp only [BitVec.getLsbD_zero, Bool.false_or, decide_eq_true_eq, mem_range]
  exact Nat.lt_succ_iff

lemma readFields_eq (text : List Char) :
    readFields text = match Words.words isSpace text with
      | minStr :: hourStr :: domStr :: monthStr :: dowStr :: _ =>
        some (minStr, hourStr, domStr, monthStr, dowStr)
      | _ => none := by
  have hwords := @Words.words_eq_readWord _ isSpace
  unfold readFields
  cases h₁ : Words.readWord isSpace text with
  | none => simp [hwords text, h₁]
  | some first =>
    cases h₂ : Words.readWord isSpace first.2 with
    | none => simp [hwords text, h₁, hwords first.2, h₂]
    | some second =>
      cases h₃ : Words.readWord isSpace second.2 with
      | none => simp [hwords text, h₁, hwords first.2, h₂, hwords second.2, h₃]
      | some third =>
        cases h₄ : Words.readWord isSpace third.2 with
        | none =>
          simp [hwords text, h₁, hwords first.2, h₂, hwords second.2, h₃, hwords third.2, h₄]
        | some fourth =>
          simp only [hwords text, h₁, hwords first.2, h₂, hwords second.2, h₃, hwords third.2, h₄]
          cases h₅ : Words.readWord isSpace fourth.2 with
          | none | some fifth => simp [h₂, h₃, h₄, h₅, hwords fourth.2]

end CronExpression

end Pman
