import Mathlib.Data.Finset.Sort
import Mathlib.Data.Int.ConditionallyCompleteOrder
import Mathlib.Data.Int.Range
import Mathlib.Data.Int.SuccPred
import Pman.Cron.Parse
import Pman.Process.StatLine
import Pman.Thread.Topology

set_option autoImplicit false

/-!
# Lists of CPUs

The kernel writes a set of CPUs as ids and ranges `a-b` between commas. `parseCpuList` expands such
a text into a vector, and `SystemTopology::load` sorts the vector and drops what is in it twice. The
format is written down on its own here, part by part; the parts may overlap and come in any order.

## Main results

* `sortUnique_parseCpuList`: reading inverts the format.
-/

namespace Pman.SystemTopology

open List

open Cron (numeral numeral_eq_some notMem_of_numeral)

open Observability (Error Numeral number number_append stoi)

/-- Why `parseCpuList` does not return: `std::stoi` throws, or `++cpu` overflows behind the greatest
`int`. -/
inductive Fault
  | thrown (e : Error)
  | overflow

def readId (text : List Char) : Except Fault ℤ := (stoi text).mapError .thrown

/-- The loop over a range. -/
def expand (start end_ : ℤ) : Except Fault (List ℤ) :=
  if end_ = 2 ^ 31 - 1 then .error .overflow else .ok (Int.range start (end_ + 1))

def parseToken (token : List Char) : Except Fault (List ℤ) := do
  if token = [] then return []
  if '-' ∉ token then return [← readId token]
  let start ← readId (token.takeWhile (· ≠ '-'))
  let end_ ← readId ((token.dropWhile (· ≠ '-')).drop 1)
  if end_ < start then expand end_ start else expand start end_

/-- The tokens of `std::getline`, which does not return an empty one at the end; empty tokens are
passed over. -/
def parseCpuList (text : List Char) : Except Fault (List ℤ) :=
  (text.splitOn ',').foldlM (fun cpus token => do return cpus ++ (← parseToken token)) []

/-- The text of an id, or of an ascending range, with its first and its last id. -/
inductive Renders : List Char → ℕ → ℕ → Prop
  | id {text : List Char} {n : ℕ} (h : numeral text = some n) : Renders text n n
  | range {front back : List Char} {a b : ℕ} (hfront : numeral front = some a)
      (hback : numeral back = some b) (hle : a ≤ b) : Renders (front ++ '-' :: back) a b

/-- The text lists the set: its parts between commas cover exactly the elements. -/
def Rendering (cpus : Finset ℤ) (text : List Char) : Prop :=
  ∃ parts : List (List Char × ℕ × ℕ), text = [','].intercalate (parts.map Prod.fst) ∧
    (∀ p ∈ parts, Renders p.1 p.2.1 p.2.2) ∧
    ∀ cpu, cpu ∈ cpus ↔ ∃ p ∈ parts, p.2.1 ≤ cpu ∧ cpu ≤ p.2.2

variable {text : List Char} {n a b : ℕ}

lemma readId_numeral (h : numeral text = some n) (hn : n < 2 ^ 31) : readId text = .ok n := by
  obtain ⟨hne, hdigits, rfl⟩ := numeral_eq_some h
  have hnumeral : Numeral text (Cron.decimalValue text) := ⟨text, hne, hdigits, .inl ⟨rfl, rfl⟩⟩
  have hnumber : number (text ++ []) = _ := number_append hnumeral (by simp)
  rw [append_nil] at hnumber
  rw [readId, stoi, hnumber]
  simp only
  rw [if_pos ⟨by omega, by omega⟩]
  rfl

lemma Renders.le (h : Renders text a b) : a ≤ b := by
  cases h with
  | id => exact le_rfl
  | range _ _ hle => exact hle

lemma Renders.comma_notMem (h : Renders text a b) : ',' ∉ text := by
  cases h with
  | id h => exact notMem_of_numeral h rfl
  | range hfront hback _ =>
    simp [notMem_of_numeral hfront (c := ',') rfl, notMem_of_numeral hback (c := ',') rfl]

lemma parseToken_renders (h : Renders text a b) (hb : b < 2 ^ 31 - 1) :
    parseToken text = .ok (Int.range a (b + 1)) := by
  cases h with
  | id h =>
    have hne := (numeral_eq_some h).1
    have hdash : '-' ∉ text := notMem_of_numeral h rfl
    simp [parseToken, hne, hdash, readId_numeral h (by omega), Int.range]
  | @range front back _ _ hfront hback hle =>
    have hfirst : ∀ c ∈ front, decide (c ≠ '-') = true := fun c hc => by
      simpa using fun heq : c = '-' => notMem_of_numeral hfront rfl (heq ▸ hc)
    have htake : (front ++ '-' :: back).takeWhile (· ≠ '-') = front := by
      rw [takeWhile_append_of_pos hfirst]
      simp
    have hdrop : (front ++ '-' :: back).dropWhile (· ≠ '-') = '-' :: back := by
      rw [dropWhile_append_of_pos hfirst]
      simp
    have hstart := readId_numeral hfront (by omega)
    have hend := readId_numeral hback (by omega)
    have hexpand : expand a b = .ok (Int.range a (b + 1)) := if_neg (by omega)
    have hdescends : ¬ (b : ℤ) < a := by omega
    rw [parseToken, if_neg (by simp), if_neg (by simp), htake, hdrop, hstart, drop_one, tail_cons,
      hend]
    exact (if_neg hdescends).trans hexpand

lemma foldlM_parseToken {parts : List (List Char × ℕ × ℕ)}
    (h : ∀ p ∈ parts, Renders p.1 p.2.1 p.2.2 ∧ p.2.2 < 2 ^ 31 - 1) (cpus : List ℤ) :
    (parts.map Prod.fst).foldlM (fun cpus token => do return cpus ++ (← parseToken token)) cpus =
      .ok (cpus ++ parts.flatMap fun p => Int.range p.2.1 (p.2.2 + 1)) := by
  induction parts generalizing cpus with
  | nil => simp [pure, Except.pure]
  | cons p parts ih =>
    obtain ⟨⟨hp, hb⟩, hparts⟩ := forall_mem_cons.mp h
    rw [map_cons, foldlM_cons, parseToken_renders hp hb]
    exact (ih hparts _).trans (by simp)

lemma sortUnique_eq (l : List ℤ) : sortUnique l = l.toFinset.sort (· ≤ ·) := by
  have hsorted := pairwise_insertionSort (· ≤ ·) l
  rw [sortUnique, hsorted.destutter_eq_dedup]
  have hsort := (toFinset_sort (· ≤ ·) (nodup_dedup _)).mpr (hsorted.sublist (dedup_sublist _))
  rw [← hsort]
  congr 1
  ext cpu
  simp

/-- **Reading a list of CPUs inverts the format of the kernel**: for every finite set of ids below
the greatest `int` and every text that lists it, the vector of `parseCpuList`, sorted and without
repetitions, has exactly the elements of the set, in increasing order. -/
theorem sortUnique_parseCpuList {cpus : Finset ℤ} (hcpus : ∀ cpu ∈ cpus, cpu < 2 ^ 31 - 1)
    {text : List Char} (h : Rendering cpus text) :
    sortUnique <$> parseCpuList text = .ok (cpus.sort (· ≤ ·)) := by
  obtain ⟨parts, rfl, hparts, hmem⟩ := h
  -- The last id of a part is in the set, so no range goes up to the greatest `int`.
  have hbound : ∀ p ∈ parts, Renders p.1 p.2.1 p.2.2 ∧ p.2.2 < 2 ^ 31 - 1 := by
    intro p hp
    have hle : p.2.1 ≤ p.2.2 := (hparts p hp).le
    have hlast := hcpus p.2.2 ((hmem _).mpr ⟨p, hp, by omega⟩)
    exact ⟨hparts p hp, by omega⟩
  have hparse : parseCpuList ([','].intercalate (parts.map Prod.fst)) =
      .ok (parts.flatMap fun p => Int.range p.2.1 (p.2.2 + 1)) := by
    by_cases hnil : parts = []
    · subst hnil
      rfl
    · rw [parseCpuList, splitOn_intercalate ',' ?_ (by simpa using hnil)]
      · exact foldlM_parseToken hbound []
      · rintro _ hpart
        obtain ⟨p, hp, rfl⟩ := mem_map.mp hpart
        exact (hparts p hp).comma_notMem
  rw [hparse]
  refine congrArg Except.ok ((sortUnique_eq _).trans ?_)
  congr 1
  ext cpu
  simp [hmem, Int.mem_range_iff]

/-- Parts that overlap and are not in order. -/
theorem sortUnique_parseCpuList_overlap :
    sortUnique <$> parseCpuList "7,1-3,0-2".toList = .ok [0, 1, 2, 3, 7] := by
  have hrange : Renders "1-3".toList 1 3 ∧ Renders "0-2".toList 0 2 :=
    ⟨Renders.range (show numeral ['1'] = some 1 from rfl) rfl (by decide),
      Renders.range (show numeral ['0'] = some 0 from rfl) rfl (by decide)⟩
  have h : Rendering [0, 1, 2, 3, 7].toFinset "7,1-3,0-2".toList := by
    refine ⟨[(['7'], 7, 7), ("1-3".toList, 1, 3), ("0-2".toList, 0, 2)], rfl, ?_, fun cpu => ?_⟩
    · simp only [forall_mem_cons]
      exact ⟨.id rfl, hrange.1, hrange.2, by simp⟩
    · simp
      omega
  rw [sortUnique_parseCpuList (by decide) h, (toFinset_sort (· ≤ ·) (by decide)).mpr (by decide)]

end Pman.SystemTopology
