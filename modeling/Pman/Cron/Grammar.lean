import Pman.Cron.Parse

set_option autoImplicit false

/-!
# The grammar of cron expressions and what the parser accepts

A cron expression has exactly five words, one for each field, and each is a star or a list of
numbers and ranges within the values of the field. The parser should return the listed sets for
these texts and throw `std::invalid_argument` for all others. What a star stands for is left open
here.

The parser throws for texts of fewer than five words only. It does not look at further words, does
not check the lower bounds, passes over values that are too large, takes a number out of a part that
has other characters after it, and reads uninitialised variables for parts without a number.

## Main results

* `conforms_iff`: where the parser conforms to the grammar.
-/

namespace Pman

namespace Cron

/-- A text that a field can be: a star, or a list within the values of the field. -/
def WellFormed (f : Field) (text : List Char) : Prop := text = ['*'] ∨ IsList f.low f.high text

/-- **The grammar**: exactly five words, each one well formed for its field. -/
structure Accepts (s : List Char) (texts : Field → List Char) : Prop where
  words : Words.words isSpace s =
    [texts .minute, texts .hour, texts .dayOfMonth, texts .month, texts .dayOfWeek]
  wellFormed : ∀ f, WellFormed f (texts f)

/-- The values of a field, when a star stands for the values in `star`. -/
def values (star : Field → Set ℕ) (f : Field) (text : List Char) : Set ℕ :=
  {i | if text = ['*'] then i ∈ star f else Lists text i}

/-- **The parser conforms to the grammar on a text**: it returns the listed sets if the text is in
the grammar, and throws `std::invalid_argument` if it is not. -/
structure Conforms (star : Field → Set ℕ) (s : List Char) : Prop where
  returns : ∀ texts, Accepts s texts → ∃ cron, CronExpression.parse s = .ok cron ∧
    ∀ f i, cron.has f i = true ↔ i ∈ values star f (texts f)
  rejects : (¬ ∃ texts, Accepts s texts) →
    ∃ what, CronExpression.parse s = .error (.invalidArgument what)

/-- All values from zero on, which are the bits that a star sets. -/
def allBits (f : Field) : Set ℕ := {i | i ≤ f.high}

lemma Accepts.unique {s : List Char} {texts texts' : Field → List Char} (h : Accepts s texts)
    (h' : Accepts s texts') : texts' = texts := by
  have hwords := h'.words.symm.trans h.words
  simp only [List.cons.injEq, and_true] at hwords
  obtain ⟨hmin, hhour, hdom, hmonth, hdow⟩ := hwords
  funext f
  cases f <;> assumption

lemma parseField_wellFormed {f : Field} {text : List Char} (h : WellFormed f text) :
    ∃ bits : BitVec (f.high + 1),
      CronExpression.parseField text f.high 0#(f.high + 1) = .ok bits ∧
        ∀ i, bits.getLsbD i = true ↔ i ∈ values allBits f text := by
  rcases h with rfl | hlist
  · exact CronExpression.parseField_star (Nat.lt_succ_self f.high)
  · have hint : f.high < 2 ^ 31 := by cases f <;> decide
    obtain ⟨bits, hparse, hbits⟩ :=
      CronExpression.parseField_list (Nat.lt_succ_self f.high) hint hlist
    refine ⟨bits, hparse, fun i => ?_⟩
    rw [hbits, values, Set.mem_ofPred_eq, if_neg hlist.ne_star]

lemma parse_of_accepts {s : List Char} {texts : Field → List Char} (h : Accepts s texts) :
    ∃ cron, CronExpression.parse s = .ok cron ∧
      ∀ f i, cron.has f i = true ↔ i ∈ values allBits f (texts f) := by
  obtain ⟨minutes, hmin, hminutes⟩ := parseField_wellFormed (h.wellFormed .minute)
  obtain ⟨hours, hhour, hhours⟩ := parseField_wellFormed (h.wellFormed .hour)
  obtain ⟨days, hdom, hdays⟩ := parseField_wellFormed (h.wellFormed .dayOfMonth)
  obtain ⟨months, hmonth, hmonths⟩ := parseField_wellFormed (h.wellFormed .month)
  obtain ⟨week, hdow, hweek⟩ := parseField_wellFormed (h.wellFormed .dayOfWeek)
  refine ⟨⟨minutes, hours, days, months, week⟩, ?_, fun f => ?_⟩
  · simp only [Field.high] at hmin hhour hdom hmonth hdow
    rw [CronExpression.parse, CronExpression.readFields_eq, h.words]
    dsimp only
    rw [CronExpression.parseFields, hmin, hhour, hdom, hmonth, hdow]
    rfl
  · cases f
    exacts [hminutes, hhours, hdays, hmonths, hweek]

section Throws

variable {n maxVal : ℕ} {what : String}

lemma parsePart_ne_invalid (part : List Char) (bits : BitVec n) :
    CronExpression.parsePart maxVal part bits ≠ .error (.invalidArgument what) := by
  unfold CronExpression.parsePart
  dsimp only
  split <;> split <;> simp

lemma parseParts_ne_invalid (rounds : ℕ) (field : List Char) (bits : BitVec n) :
    CronExpression.parseParts maxVal rounds field bits ≠ .error (.invalidArgument what) := by
  induction rounds generalizing field bits with
  | zero => simp [CronExpression.parseParts]
  | succ rounds ih =>
    unfold CronExpression.parseParts
    dsimp only
    split
    · simp
    · split
      · rename_i hpart
        rintro ⟨⟩
        exact parsePart_ne_invalid _ _ hpart
      · exact ih _ _

lemma parseField_ne_invalid (field : List Char) (bits : BitVec n) :
    CronExpression.parseField field maxVal bits ≠ .error (.invalidArgument what) := by
  unfold CronExpression.parseField
  split
  · simp
  · exact parseParts_ne_invalid _ _ _

lemma bind_ne_invalid {α β : Type} {x : Except Fault α} {f : α → Except Fault β}
    (hx : x ≠ .error (.invalidArgument what)) (hf : ∀ a, f a ≠ .error (.invalidArgument what)) :
    x >>= f ≠ .error (.invalidArgument what) := by
  cases x with
  | error e =>
    rintro ⟨⟩
    exact hx rfl
  | ok a => exact hf a

end Throws

lemma parse_invalid_iff (s : List Char) :
    (∃ what, CronExpression.parse s = .error (.invalidArgument what)) ↔
      (Words.words isSpace s).length < 5 := by
  rw [CronExpression.parse, CronExpression.readFields_eq]
  rcases Words.words isSpace s with
    _ | ⟨minStr, _ | ⟨hourStr, _ | ⟨domStr, _ | ⟨monthStr, _ | ⟨dowStr, rest⟩⟩⟩⟩⟩
  iterate 5 simp
  · refine iff_of_false ?_ (by simp)
    rintro ⟨what, hparse⟩
    exact bind_ne_invalid (parseField_ne_invalid _ _) (fun _ =>
      bind_ne_invalid (parseField_ne_invalid _ _) fun _ =>
      bind_ne_invalid (parseField_ne_invalid _ _) fun _ =>
      bind_ne_invalid (parseField_ne_invalid _ _) fun _ =>
      bind_ne_invalid (parseField_ne_invalid _ _) fun _ => by simp [pure, Except.pure]) hparse

/-- **Where the parser conforms to the grammar**: on the texts of fewer than five words, and on
those of the grammar if every star in them is to stand for all bits of its field. With the values
of the calendar for the stars, this leaves out a star for the days of the month or the months, which
also sets bit zero.

**Proof sketch.** A text of the grammar is parsed with all bits for its stars
(`Cron.parse_of_accepts`), and `std::invalid_argument` is thrown for fewer than five words only
(`Cron.parse_invalid_iff`). -/
theorem conforms_iff (star : Field → Set ℕ) (s : List Char) :
    Conforms star s ↔ (Words.words isSpace s).length < 5 ∨
      ∃ texts, Accepts s texts ∧ ∀ f, texts f = ['*'] → star f = {i | i ≤ f.high} := by
  constructor
  · rintro ⟨hreturns, hrejects⟩
    by_cases haccepts : ∃ texts, Accepts s texts
    · obtain ⟨texts, h⟩ := haccepts
      obtain ⟨cron, hparse, hhas⟩ := hreturns texts h
      obtain ⟨cron', hparse', hhas'⟩ := parse_of_accepts h
      cases hparse.symm.trans hparse'
      refine .inr ⟨texts, h, fun f hf => Set.ext fun i => ?_⟩
      have hi := (hhas f i).symm.trans (hhas' f i)
      rwa [values, values, Set.mem_ofPred_eq, Set.mem_ofPred_eq, if_pos hf, if_pos hf] at hi
    · exact .inl ((parse_invalid_iff s).mp (hrejects haccepts))
  · rintro (hshort | ⟨texts, h, hstar⟩)
    · refine ⟨fun texts h => ?_, fun _ => (parse_invalid_iff s).mpr hshort⟩
      simp [h.words] at hshort
    · refine ⟨fun texts' h' => ?_, fun hnone => absurd ⟨texts, h⟩ hnone⟩
      obtain rfl := h.unique h'
      obtain ⟨cron, hparse, hhas⟩ := parse_of_accepts h
      refine ⟨cron, hparse, fun f i => (hhas f i).trans ?_⟩
      by_cases hf : texts' f = ['*']
      · simp only [values, hf, if_true, hstar f hf, allBits]
      · simp only [values, hf, if_false]

/-- A letter for a minute is read from an uninitialised variable; a minute that is too large and a
sixth word are accepted. -/
theorem parse_malformed :
    (∀ star, ¬ Conforms star "a 0 1 1 0".toList) ∧
      CronExpression.parse "a 0 1 1 0".toList = .error .indeterminate ∧
    (∀ star, ¬ Conforms star "61 0 1 1 0 7".toList) ∧
      CronExpression.parse "61 0 1 1 0 7".toList = .ok ⟨0#60, 1#24, 2#32, 2#13, 1#7⟩ := by
  have hletter : CronExpression.parse "a 0 1 1 0".toList = .error .indeterminate := by
    decide +kernel
  have hsix : CronExpression.parse "61 0 1 1 0 7".toList =
      .ok ⟨0#60, 1#24, 2#32, 2#13, 1#7⟩ := by decide +kernel
  refine ⟨fun star h => ?_, hletter, fun star h => ?_, hsix⟩
  · obtain ⟨what, hthrows⟩ := h.rejects (by
      rintro ⟨texts, hwords, hwellFormed⟩
      have hminute : texts .minute = ['a'] := by
        have hcomputed : Words.words isSpace "a 0 1 1 0".toList =
            [['a'], ['0'], ['1'], ['1'], ['0']] := by decide +kernel
        rw [hcomputed, List.cons.injEq] at hwords
        exact hwords.1.symm
      have hmin := hwellFormed .minute
      rw [hminute] at hmin
      exact absurd hmin (by unfold WellFormed; decide))
    rw [hletter] at hthrows
    cases hthrows
  · obtain ⟨what, hthrows⟩ := h.rejects (by
      rintro ⟨texts, hwords, -⟩
      have hlength : (Words.words isSpace "61 0 1 1 0 7".toList).length = 6 := by decide +kernel
      rw [hwords] at hlength
      cases hlength)
    rw [hsix] at hthrows
    cases hthrows

end Cron

end Pman
