import Mathlib.Data.List.DropRight
import Pman.Cron.Expression

set_option autoImplicit false

/-!
# The fields of a stat line

`parseThreadStatLine` and `parseProcessStat` read a line of `/proc`: a pid, the command name between
the first opening and the last closing parenthesis, a state, and numbers. After the state, which is
field 3, both skip eleven fields, so they take fields 15 and 16 for the user and the system time,
where they mean 14 and 15; and the process takes field 24 for the start time, where it means 22.

## Main results

* `reads_meant_fields_iff`: when the fields of `/proc/pid/stat` are read as meant.
-/

namespace Pman.Observability

open List

open Cron (isSpace decimalValue)

inductive Error
  | runtime (message : String)
  | invalidArgument
  | outOfRange
deriving DecidableEq, Repr

structure ThreadStats where
  tid : ℤ
  name : List Char
  state : Char
  userTimeTicks : ℤ
  systemTimeTicks : ℤ
deriving DecidableEq, Repr

structure ProcessSnapshot where
  pid : ℤ
  name : List Char
  userTimeTicks : ℤ
  systemTimeTicks : ℤ
  startTimeTicks : ℤ
deriving DecidableEq, Repr

def sign : List Char → Bool × List Char
  | '-' :: text => (true, text)
  | '+' :: text => (false, text)
  | text => (false, text)

/-- The decimal number at the front of a text, after blanks, and the text behind it. -/
def number (text : List Char) : Option (ℤ × List Char) :=
  let (negative, text) := sign (text.dropWhile isSpace)
  let value : ℤ := decimalValue (text.takeWhile Char.isDigit)
  if (text.takeWhile Char.isDigit).isEmpty then none
  else some (if negative then -value else value, text.dropWhile Char.isDigit)

def stoi (text : List Char) : Except Error ℤ :=
  match number text with
  | none => .error .invalidArgument
  | some (v, _) => if -2 ^ 31 ≤ v ∧ v < 2 ^ 31 then .ok v else .error .outOfRange

abbrev Stream := Option (List Char)

def readLong (old : ℤ) : Stream → ℤ × Stream
  | none => (old, none)
  | some text =>
    match number text with
    | none => (0, none)
    | some (v, rest) =>
      if v < -2 ^ 63 then (-2 ^ 63, none)
      else if 2 ^ 63 ≤ v then (2 ^ 63 - 1, none)
      else (v, some rest)

def readChar (old : Char) (text : List Char) : Char × Stream :=
  match text.dropWhile isSpace with
  | [] => (old, none)
  | c :: rest => (c, some rest)

def skip (n : ℕ) : Stream → Stream := (fun iss => (readLong 0 iss).2)^[n]

/-- The common start of both functions: the number, the name, and the text after the name. -/
def splitLine (message : String) (line : List Char) :
    Except Error (ℤ × List Char × List Char) :=
  let lparen := (line.takeWhile (· ≠ '(')).length
  let rparen := (line.rdropWhile (· ≠ ')')).length - 1
  if '(' ∉ line ∨ ')' ∉ line ∨ rparen ≤ lparen then .error (.runtime message)
  else
    match stoi (line.take lparen) with
    | .error e => .error e
    | .ok pid =>
      if line.length < rparen + 2 then .error .outOfRange
      else .ok (pid, (line.take rparen).drop (lparen + 1), line.drop (rparen + 2))

def parseThreadStatLine (line : List Char) : Except Error ThreadStats :=
  (splitLine "malformed stat line" line).map fun (tid, name, text) =>
    let (state, iss) := readChar '?' text
    let (user, iss) := readLong 0 (skip 11 iss)
    let (system, _) := readLong 0 iss
    ⟨tid, name, state, user, system⟩

def parseProcessStat (line : List Char) : Except Error ProcessSnapshot :=
  (splitLine "malformed process stat line" line).map fun (pid, name, text) =>
    let (_, iss) := readChar '?' text
    let (user, iss) := readLong 0 (skip 11 iss)
    let (system, iss) := readLong 0 iss
    let (start, _) := readLong 0 (skip 7 iss)
    ⟨pid, name, user, system, start⟩

/-! ### Well-formed lines -/

def Numeral (text : List Char) (v : ℤ) : Prop :=
  ∃ digits, digits ≠ [] ∧ (∀ c ∈ digits, c.isDigit = true) ∧
    (text = digits ∧ v = decimalValue digits ∨ text = '-' :: digits ∧ v = -decimalValue digits)

/-- A well-formed line: field `i` has the text `text i` and the value `value i`. -/
structure StatLine where
  pidText : List Char
  pid : ℤ
  name : List Char
  state : Char
  text : ℕ → List Char
  value : ℕ → ℤ
  pid_numeral : Numeral pidText pid
  state_plain : isSpace state = false ∧ state ≠ ')'
  numeral : ∀ i, Numeral (text i) (value i)

namespace StatLine

def fieldsFrom (l : StatLine) (i : ℕ) : List Char :=
  ((List.range' i (53 - i)).flatMap fun j => ' ' :: l.text j) ++ ['\n']

def line (l : StatLine) : List Char :=
  (l.pidText ++ [' ']) ++ '(' :: (l.name ++ ')' :: (' ' :: l.state :: l.fieldsFrom 4))

def InRange (l : StatLine) : Prop :=
  (-2 ^ 31 ≤ l.pid ∧ l.pid < 2 ^ 31) ∧
    ∀ i, 4 ≤ i → i ≤ 24 → -2 ^ 63 ≤ l.value i ∧ l.value i < 2 ^ 63

end StatLine

variable {text rest : List Char} {v : ℤ} {c : Char}

lemma Numeral.notMem (h : Numeral text v) (hc : c.isDigit = false) (hne : c ≠ '-') : c ∉ text := by
  obtain ⟨digits, -, hdigits, ⟨rfl, -⟩ | ⟨rfl, -⟩⟩ := h
  · exact fun hmem => by simp [hdigits c hmem] at hc
  · intro hmem
    rcases mem_cons.mp hmem with rfl | hmem
    · exact hne rfl
    · simp [hdigits c hmem] at hc

lemma digit_ne (h : c.isDigit = true) : isSpace c = false ∧ c ≠ '-' ∧ c ≠ '+' := by
  have hc : 48 ≤ c.toNat ∧ c.toNat ≤ 57 := by
    simpa [Char.isDigit, UInt32.le_iff_toNat_le] using h
  refine ⟨?_, ?_, ?_⟩
  · simp only [isSpace, Bool.or_eq_false_iff, beq_eq_false_iff_ne, Bool.and_eq_false_iff,
      decide_eq_false_iff_not]
    omega
  · rintro rfl
    cases h
  · rintro rfl
    cases h

lemma number_append (h : Numeral text v) (hrest : ∀ c ∈ rest.head?, c.isDigit = false) :
    number (text ++ rest) = some (v, rest) := by
  obtain ⟨digits, hne, hdigits, htext⟩ := h
  have htake : (digits ++ rest).takeWhile Char.isDigit = digits := by
    rw [takeWhile_append_of_pos hdigits]
    cases rest with
    | nil => simp
    | cons c rest => simp [hrest c rfl]
  have hdrop : (digits ++ rest).dropWhile Char.isDigit = rest := by
    rw [dropWhile_append_of_pos hdigits]
    cases rest with
    | nil => rfl
    | cons c rest => simp [hrest c rfl]
  rcases htext with ⟨rfl, rfl⟩ | ⟨rfl, rfl⟩
  · obtain ⟨c, ds, rfl⟩ := exists_cons_of_ne_nil hne
    obtain ⟨hspace, hminus, hplus⟩ := digit_ne (hdigits c mem_cons_self)
    have hsign : sign (c :: ds ++ rest) = (false, c :: ds ++ rest) := by
      unfold sign
      split <;> simp_all
    rw [number, cons_append, dropWhile_cons_of_neg (by simp [hspace]), ← cons_append,
      hsign]
    simp only [htake, hdrop]
    rfl
  · simp [number, sign, isSpace, htake, hdrop, hne]

lemma readLong_field (h : Numeral text v) (hrest : ∀ c ∈ rest.head?, c.isDigit = false)
    (hv : -2 ^ 63 ≤ v ∧ v < 2 ^ 63) (old : ℤ) :
    readLong old (some (' ' :: text ++ rest)) = (v, some rest) := by
  have hnumber : number (' ' :: text ++ rest) = some (v, rest) := by
    rw [← number_append h hrest]
    simp [number, isSpace]
  simp only [readLong, hnumber]
  rw [if_neg (not_lt.mpr hv.1), if_neg (not_le.mpr hv.2)]

namespace StatLine

variable {l : StatLine} {i : ℕ}

lemma fieldsFrom_succ (hi : i ≤ 52) : l.fieldsFrom i = ' ' :: l.text i ++ l.fieldsFrom (i + 1) := by
  obtain ⟨n, hn⟩ : ∃ n, 53 - i = n + 1 := ⟨52 - i, by omega⟩
  have hn' : 53 - (i + 1) = n := by omega
  simp [fieldsFrom, hn, hn', range'_succ]

lemma head_fieldsFrom (i : ℕ) : ∀ c ∈ (l.fieldsFrom i).head?, c.isDigit = false := by
  unfold fieldsFrom
  cases range' i (53 - i) <;> simp +decide

lemma readLong_fieldsFrom (hl : l.InRange) (h4 : 4 ≤ i) (h24 : i ≤ 24) (old : ℤ) :
    readLong old (some (l.fieldsFrom i)) = (l.value i, some (l.fieldsFrom (i + 1))) := by
  rw [fieldsFrom_succ (by omega)]
  exact readLong_field (l.numeral i) (head_fieldsFrom _) (hl.2 i h4 h24) old

lemma skip_fieldsFrom (hl : l.InRange) (h4 : 4 ≤ i) (n : ℕ) (h24 : i + n ≤ 25) :
    skip n (some (l.fieldsFrom i)) = some (l.fieldsFrom (i + n)) := by
  induction n with
  | zero => rfl
  | succ n ih =>
    have hn := ih (by omega)
    unfold skip at hn ⊢
    rw [Function.iterate_succ_apply', hn, readLong_fieldsFrom hl (by omega) (by omega)]
    rfl

lemma splitLine_line (hl : l.InRange) (message : String) :
    splitLine message l.line = .ok (l.pid, l.name, l.state :: l.fieldsFrom 4) := by
  have hopen : '(' ∉ l.pidText ++ [' '] := by
    simpa using l.pid_numeral.notMem (by decide) (by decide)
  have hclose : ∀ c ∈ ' ' :: l.state :: l.fieldsFrom 4, c ≠ ')' := by
    rintro c hc rfl
    have htext : ∀ i, ')' ∉ l.text i := fun i => (l.numeral i).notMem (by decide) (by decide)
    simp [fieldsFrom, l.state_plain.2.symm, htext] at hc
  have hlparen : l.line.takeWhile (· ≠ '(') = l.pidText ++ [' '] := by
    rw [line, takeWhile_append_of_pos fun c hc => by
      simpa using fun h : c = '(' => hopen (h ▸ hc)]
    simp
  have hrparen : l.line.rdropWhile (· ≠ ')') = l.pidText ++ [' '] ++ '(' :: (l.name ++ [')']) := by
    have hsplit : l.line = (l.pidText ++ [' '] ++ '(' :: (l.name ++ [')'])) ++
        ' ' :: l.state :: l.fieldsFrom 4 := by simp [line]
    rw [hsplit, rdropWhile, reverse_append,
      dropWhile_append_of_pos fun c hc => by simpa using hclose c (mem_reverse.mp hc)]
    simp
  have hpid : stoi (l.pidText ++ [' ']) = .ok l.pid := by
    rw [stoi, number_append l.pid_numeral (by simp [show ' '.isDigit = false from rfl])]
    exact if_pos hl.1
  have htake : l.line.take (l.pidText ++ [' ']).length = l.pidText ++ [' '] := by
    exact take_left
  unfold splitLine
  simp only [hlparen, hrparen]
  rw [if_neg (by simp [line]), htake, hpid]
  simp only
  rw [if_neg (by simp [line]; omega)]
  have hdrop : l.pidText.drop (l.pidText.length + (l.name.length + 4)) = [] :=
    drop_eq_nil_of_le (by omega)
  have hdrop' : l.name.drop (l.name.length + 2) = [] := drop_eq_nil_of_le (by omega)
  simp [line, take_append, drop_append, add_assoc, hdrop, hdrop']

lemma parse_line (hl : l.InRange) :
    parseThreadStatLine l.line = .ok ⟨l.pid, l.name, l.state, l.value 15, l.value 16⟩ ∧
    parseProcessStat l.line = .ok ⟨l.pid, l.name, l.value 15, l.value 16, l.value 24⟩ := by
  have hstate : readChar '?' (l.state :: l.fieldsFrom 4) = (l.state, some (l.fieldsFrom 4)) := by
    simp [readChar, l.state_plain.1]
  have hskip := skip_fieldsFrom hl (Nat.le_refl 4) 11 (by omega)
  have huser := readLong_fieldsFrom hl (i := 15) (by omega) (by omega) 0
  have hsystem := readLong_fieldsFrom hl (i := 16) (by omega) (by omega) 0
  have hskip' := skip_fieldsFrom hl (i := 17) (by omega) 7 (by omega)
  have hstart := readLong_fieldsFrom hl (i := 24) (by omega) (by omega) 0
  simp [parseThreadStatLine, parseProcessStat, splitLine_line hl, Except.map, hstate, hskip, huser,
    hsystem, hskip', hstart]

end StatLine

/-- **The meant fields are read exactly if they have the values of those taken**: for every
well-formed line whose numbers are within their types, both functions return the pid and exactly
the command name; the times are fields 14 and 15, and the start time is field 22, if and only if
these have the values of fields 15, 16 and 24. -/
theorem reads_meant_fields_iff (l : StatLine) (hl : l.InRange) :
    (parseThreadStatLine l.line = .ok ⟨l.pid, l.name, l.state, l.value 14, l.value 15⟩ ∧
      parseProcessStat l.line = .ok ⟨l.pid, l.name, l.value 14, l.value 15, l.value 22⟩) ↔
    l.value 15 = l.value 14 ∧ l.value 16 = l.value 15 ∧ l.value 24 = l.value 22 := by
  obtain ⟨hthread, hprocess⟩ := StatLine.parse_line hl
  rw [hthread, hprocess]
  simp only [Except.ok.injEq, ThreadStats.mk.injEq, ProcessSnapshot.mk.injEq, true_and]
  tauto

def sample (f : ℕ → ℕ) : StatLine where
  pidText := ['7']
  pid := 7
  name := "a) (b".toList
  state := 'S'
  text i := [Nat.digitChar (f i % 10)]
  value i := f i % 10
  pid_numeral :=
    ⟨['7'], cons_ne_nil _ _, forall_mem_singleton.mpr rfl, .inl ⟨rfl, rfl⟩⟩
  state_plain := by decide
  numeral i := by
    have hdigit : ∀ d < 10, (Nat.digitChar d).isDigit = true ∧
        decimalValue [Nat.digitChar d] = d := by decide
    obtain ⟨h, hv⟩ := hdigit (f i % 10) (Nat.mod_lt _ (by omega))
    exact ⟨_, cons_ne_nil _ _, by simpa using h, .inl ⟨rfl, by rw [hv]; rfl⟩⟩

lemma inRange_sample (f : ℕ → ℕ) : (sample f).InRange := by
  refine ⟨by simp [sample], fun i _ _ => ?_⟩
  simp only [sample]
  omega

theorem reads_meant_fields_iff_same :
    parseThreadStatLine (sample fun _ => 5).line = .ok ⟨7, "a) (b".toList, 'S', 5, 5⟩ :=
  ((reads_meant_fields_iff _ (inRange_sample fun _ => 5)).mpr ⟨rfl, rfl, rfl⟩).1

/-- **The wrong fields are read**: of a line whose field `i` ends in the last digit of `i`. -/
theorem reads_wrong_fields :
    parseThreadStatLine (sample id).line = .ok ⟨7, "a) (b".toList, 'S', 5, 6⟩ ∧
    parseProcessStat (sample id).line = .ok ⟨7, "a) (b".toList, 5, 6, 4⟩ ∧
    (sample id).value 14 = 4 ∧ (sample id).value 15 = 5 ∧ (sample id).value 22 = 2 :=
  ⟨(StatLine.parse_line (inRange_sample id)).1, (StatLine.parse_line (inRange_sample id)).2, rfl,
    rfl, rfl⟩

end Pman.Observability
