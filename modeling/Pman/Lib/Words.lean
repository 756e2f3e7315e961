import Mathlib.Data.List.TakeWhile

set_option autoImplicit false

/-!
# Words between blanks, parts between separators

The words of a text are the longest pieces without a blank. They are compared with a reader that
skips the blanks and takes what comes before the next one. A text that was joined from parts with a
separator is taken apart in the same way.
-/

namespace Words

open List

variable {α : Type*} {c : α}

section Blanks

variable (blank : α → Bool)

def words (text : List α) : List (List α) := (text.splitOnP blank).filter (!·.isEmpty)

def readWord (text : List α) : Option (List α × List α) :=
  let text := text.dropWhile blank
  if text.isEmpty then none
  else some (text.takeWhile (!blank ·), text.dropWhile (!blank ·))

variable {blank}

@[simp] lemma words_nil : words blank [] = [] := rfl

lemma words_cons_blank (hc : blank c = true) (text : List α) :
    words blank (c :: text) = words blank text := by
  simp [words, splitOnP_cons_eq_if_modifyHead, hc]

lemma words_dropWhile (text : List α) :
    words blank (text.dropWhile blank) = words blank text := by
  induction text with
  | nil => rfl
  | cons c text ih =>
    cases hc : blank c with
    | true => rw [dropWhile_cons_of_pos hc, ih, words_cons_blank hc]
    | false => rw [dropWhile_cons_of_neg (by simp [hc])]

variable {word : List α}

lemma words_append {rest : List α} (hne : word ≠ []) (hword : ∀ c ∈ word, blank c = false)
    (hrest : ∀ c ∈ rest.head?, blank c = true) :
    words blank (word ++ rest) = word :: words blank rest := by
  cases rest with
  | nil =>
    rw [append_nil, words, splitOnP_eq_singleton hword]
    simp [hne]
  | cons c rest =>
    have hc : blank c = true := hrest c rfl
    rw [words_cons_blank hc, words, splitOnP_append_cons_of_forall_mem hword c hc]
    simp [hne, words]

lemma words_eq_singleton (hne : word ≠ []) (hword : ∀ c ∈ word, blank c = false) :
    words blank word = [word] := by
  rw [← append_nil word, words_append hne hword (by simp), append_nil, words_nil]

lemma blank_of_head?_dropWhile {p : α → Bool} {text : List α}
    (hc : c ∈ (text.dropWhile p).head?) : p c = false := by
  have hnot := head?_dropWhile_not p text
  rwa [Option.mem_def.mp hc] at hnot

lemma words_eq_readWord (text : List α) :
    words blank text = match readWord blank text with
      | none => []
      | some (word, rest) => word :: words blank rest := by
  rw [← words_dropWhile, readWord]
  cases htext : text.dropWhile blank with
  | nil => rfl
  | cons c rest =>
    have hc : blank c = false := blank_of_head?_dropWhile (by rw [htext]; rfl)
    have hsplit := takeWhile_append_dropWhile (p := fun c => !blank c) (l := c :: rest)
    simp only [isEmpty_cons, Bool.false_eq_true, if_false]
    rw [← words_append, hsplit]
    · simp [hc]
    · intro d hd
      simpa using mem_takeWhile_imp hd
    · intro d hd
      simpa using blank_of_head?_dropWhile hd

end Blanks

section Parts

variable [DecidableEq α] {sep : α} {part : List α} {parts : List (List α)}

lemma takeWhile_intercalate (hpart : sep ∉ part) :
    ([sep].intercalate (part :: parts)).takeWhile (· ≠ sep) = part := by
  have hall : ∀ c ∈ part, decide (c ≠ sep) = true := by
    rintro c hc
    exact decide_eq_true fun heq => hpart (heq ▸ hc)
  cases parts with
  | nil =>
    have hself := takeWhile_eq_self_iff.mpr hall
    simpa [intercalate] using hself
  | cons next parts =>
    rw [intercalate_cons_cons, append_assoc, takeWhile_append_of_pos hall]
    simp

omit [DecidableEq α] in
lemma drop_intercalate :
    ([sep].intercalate (part :: parts)).drop (part.length + 1) = [sep].intercalate parts := by
  cases parts with
  | nil => simp [intercalate]
  | cons next parts =>
    rw [intercalate_cons_cons, append_assoc]
    simp

omit [DecidableEq α] in
lemma mem_intercalate (hc : c ∈ [sep].intercalate parts) : c = sep ∨ ∃ part ∈ parts, c ∈ part := by
  induction parts with
  | nil => cases hc
  | cons part parts ih =>
    cases parts with
    | nil =>
      rw [intercalate_singleton] at hc
      exact .inr ⟨part, mem_cons_self, hc⟩
    | cons next parts =>
      rw [intercalate_cons_cons, mem_append, mem_append, mem_singleton] at hc
      rcases hc with (hc | hc) | hc
      · exact .inr ⟨part, mem_cons_self, hc⟩
      · exact .inl hc
      · rcases ih hc with hsep | ⟨p, hp, hcp⟩
        · exact .inl hsep
        · exact .inr ⟨p, mem_cons_of_mem _ hp, hcp⟩

omit [DecidableEq α] in
lemma length_le_length_intercalate (hne : ∀ part ∈ parts, part ≠ []) :
    parts.length ≤ ([sep].intercalate parts).length := by
  induction parts with
  | nil => exact Nat.zero_le _
  | cons part parts ih =>
    have hpart := length_pos_iff.mpr (hne part mem_cons_self)
    have hparts := ih fun p hp => hne p (mem_cons_of_mem _ hp)
    cases parts with
    | nil => simpa [intercalate, Nat.one_le_iff_ne_zero, Nat.pos_iff_ne_zero] using hpart
    | cons next parts =>
      rw [intercalate_cons_cons]
      simp only [length_cons, length_append, length_nil] at hparts ⊢
      omega

end Parts

end Words
