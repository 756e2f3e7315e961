import Mathlib.Data.BitVec
import Pman.Lib.Words

set_option autoImplicit false

/-!
# Cron expressions

`CronExpression` has a bit set for each of the five fields of a cron expression. `parse` reads them
from a text of five fields that are separated by white space, and `toString` prints them.

Texts are lists of characters. `parse` does not look at the error of `std::from_chars`: the variable
that should have been written stays uninitialised and is then read. The model says so with an
outcome of its own.
-/

namespace Pman

def Bitset.set {n : ℕ} (bits : BitVec n) (i : ℕ) : BitVec n := bits ||| BitVec.twoPow n i

lemma Bitset.getLsbD_set {n : ℕ} (bits : BitVec n) {i : ℕ} (hi : i < n) (j : ℕ) :
    (Bitset.set bits i).getLsbD j = (bits.getLsbD j || decide (j = i)) := by
  simp only [Bitset.set, BitVec.getLsbD_or, BitVec.getLsbD_twoPow, hi, decide_true, Bool.true_and,
    eq_comm]

namespace Cron

/-- How `parse` can end other than by returning: it throws `std::invalid_argument`, or it reads a
variable that was not initialised. -/
inductive Fault
  | invalidArgument (what : String)
  | indeterminate
deriving DecidableEq, Repr

/-- `std::isspace` in the classic locale, by which `operator>>` separates words. -/
def isSpace (c : Char) : Bool := c.toNat == 32 || (9 ≤ c.toNat && c.toNat ≤ 13)

def decimalValue (digits : List Char) : ℕ := digits.foldl (fun n c => 10 * n + (c.toNat - 48)) 0

/-- The value of `[-]digits`, as far as it goes, if `int` can hold it. -/
def fromDigits (negative : Bool) (text : List Char) : Option ℤ :=
  let digits := text.takeWhile Char.isDigit
  let value : ℤ := if negative then -(decimalValue digits) else decimalValue digits
  if digits.isEmpty then none
  else if -2 ^ 31 ≤ value ∧ value < 2 ^ 31 then some value else none

/-- `std::from_chars(first, last, value)` for an `int`: the value it writes, if it writes one. It
reads a minus sign and digits and does not mind what follows. -/
def fromChars : List Char → Option ℤ
  | '-' :: text => fromDigits true text
  | text => fromDigits false text

def sizeT (value : ℤ) : ℕ := (value % 2 ^ 64).toNat

/-- The loop over a range, from `i`: it is left when `i` is beyond `finish` or `maxVal`, which is
after at most `maxVal + 1` rounds. -/
def setRangeLoop {n : ℕ} (maxVal : ℕ) (finish : ℤ) : ℕ → ℤ → BitVec n → BitVec n
  | 0, _, bits => bits
  | rounds + 1, i, bits =>
    if i ≤ finish ∧ sizeT i ≤ maxVal then
      setRangeLoop maxVal finish rounds (i + 1) (Bitset.set bits (sizeT i))
    else bits

def setRange {n : ℕ} (maxVal : ℕ) (start finish : ℤ) (bits : BitVec n) : BitVec n :=
  setRangeLoop maxVal finish (maxVal + 1) start bits

inductive Field
  | minute
  | hour
  | dayOfMonth
  | month
  | dayOfWeek
deriving DecidableEq, Repr

namespace Field

def low : Field → ℕ
  | minute | hour | dayOfWeek => 0
  | dayOfMonth | month => 1

def high : Field → ℕ
  | minute => 59
  | hour => 23
  | dayOfMonth => 31
  | month => 12
  | dayOfWeek => 6

end Field

end Cron

open Cron

structure CronExpression where
  minutes_ : BitVec 60
  hours_ : BitVec 24
  daysOfMonth_ : BitVec 32
  months_ : BitVec 13
  daysOfWeek_ : BitVec 7
deriving DecidableEq, Repr

namespace CronExpression

def has (cron : CronExpression) : Field → ℕ → Bool
  | .minute => cron.minutes_.getLsbD
  | .hour => cron.hours_.getLsbD
  | .dayOfMonth => cron.daysOfMonth_.getLsbD
  | .month => cron.months_.getLsbD
  | .dayOfWeek => cron.daysOfWeek_.getLsbD

/-- The body of the loop in `parseField`: a range, or a single value. -/
def parsePart {n : ℕ} (maxVal : ℕ) (part : List Char) (bits : BitVec n) :
    Except Fault (BitVec n) :=
  if part.contains '-' then
    let front := part.takeWhile (· ≠ '-')
    match fromChars front, fromChars (part.drop (front.length + 1)) with
    | some start, some finish => .ok (setRange maxVal start finish bits)
    | _, _ => .error .indeterminate
  else
    match fromChars part with
    | some val => .ok (if sizeT val ≤ maxVal then Bitset.set bits (sizeT val) else bits)
    | none => .error .indeterminate

/-- `while (pos < field.size())` on what is left of the field at `pos`. -/
def parseParts {n : ℕ} (maxVal : ℕ) : ℕ → List Char → BitVec n → Except Fault (BitVec n)
  | 0, _, bits => .ok bits
  | rounds + 1, field, bits =>
    if field.isEmpty then .ok bits
    else
      let part := field.takeWhile (· ≠ ',')
      match parsePart maxVal part bits with
      | .error e => .error e
      | .ok bits => parseParts maxVal rounds (field.drop (part.length + 1)) bits

/-- `parseField`. Every round of the loop takes at least one character. -/
def parseField {n : ℕ} (field : List Char) (maxVal : ℕ) (bits : BitVec n) :
    Except Fault (BitVec n) :=
  if field = ['*'] then .ok ((List.range (maxVal + 1)).foldl Bitset.set bits)
  else parseParts maxVal field.length field bits

/-- `iss >> minStr >> hourStr >> domStr >> monthStr >> dowStr`. -/
def readFields (iss : List Char) :
    Option (List Char × List Char × List Char × List Char × List Char) := do
  let (minStr, iss) ← Words.readWord isSpace iss
  let (hourStr, iss) ← Words.readWord isSpace iss
  let (domStr, iss) ← Words.readWord isSpace iss
  let (monthStr, iss) ← Words.readWord isSpace iss
  let (dowStr, _) ← Words.readWord isSpace iss
  return (minStr, hourStr, domStr, monthStr, dowStr)

/-- The five calls of `parseField`, on bit sets that are empty. -/
def parseFields (minStr hourStr domStr monthStr dowStr : List Char) :
    Except Fault CronExpression := do
  let minutes_ ← parseField minStr 59 0#60
  let hours_ ← parseField hourStr 23 0#24
  let daysOfMonth_ ← parseField domStr 31 0#32
  let months_ ← parseField monthStr 12 0#13
  let daysOfWeek_ ← parseField dowStr 6 0#7
  return { minutes_, hours_, daysOfMonth_, months_, daysOfWeek_ }

def parse (expression : List Char) : Except Fault CronExpression :=
  match readFields expression with
  | none => .error (.invalidArgument "Invalid cron expression format")
  | some (minStr, hourStr, domStr, monthStr, dowStr) =>
    parseFields minStr hourStr domStr monthStr dowStr

def fieldToString {n : ℕ} (bits : BitVec n) (maxVal : ℕ) : List Char :=
  let values := (List.range (maxVal + 1)).filter fun i => bits.getLsbD i
  if values.length = maxVal + 1 then ['*']
  else [','].intercalate (values.map (Nat.toDigits 10))

def toString (cron : CronExpression) : List Char :=
  fieldToString cron.minutes_ 59 ++ ' ' :: (fieldToString cron.hours_ 23 ++
    ' ' :: (fieldToString cron.daysOfMonth_ 31 ++
      ' ' :: (fieldToString cron.months_ 12 ++ ' ' :: fieldToString cron.daysOfWeek_ 6)))

end CronExpression

end Pman
