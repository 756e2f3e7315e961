import Mathlib.Data.Finset.Card

set_option autoImplicit false

/-!
# Rosters

Things are registered under numbers that are never used twice. The roster is the multiset of those
that are still kept somewhere, each with a mark that says whether it has been struck out. The
numbers of the things that are not struck out are the active ones. Moving things about does not
change the roster at all; things that have been struck out may disappear at any time.
-/

namespace Roster

open Multiset

variable {ι : Type*} [DecidableEq ι]

/-- No number is on the roster twice, and the active numbers are those that are not struck out. -/
structure Lists (roster : Multiset (ι × Bool)) (active : Finset ι) : Prop where
  nodup : (roster.map Prod.fst).Nodup
  mem_iff : ∀ i, i ∈ active ↔ (i, false) ∈ roster

namespace Lists

variable {roster rest dropped : Multiset (ι × Bool)} {active : Finset ι} {i : ι}

omit [DecidableEq ι] in
lemma empty : Lists (0 : Multiset (ι × Bool)) ∅ := ⟨by simp, by simp⟩

omit [DecidableEq ι] in
lemma notMem_rest {struck : Bool} (h : Lists ((i, struck) ::ₘ rest) active) (struck' : Bool) :
    (i, struck') ∉ rest := by
  intro hmem
  have hnodup := h.nodup
  rw [map_cons, nodup_cons] at hnodup
  exact hnodup.1 (mem_map.mpr ⟨_, hmem, rfl⟩)

lemma enter (h : Lists roster active) (hnew : i ∉ roster.map Prod.fst) :
    Lists ((i, false) ::ₘ roster) (insert i active) := by
  refine ⟨?_, fun j => ?_⟩
  · rw [map_cons, nodup_cons]
    exact ⟨hnew, h.nodup⟩
  · rw [Finset.mem_insert, mem_cons, h.mem_iff, Prod.mk.injEq]
    simp

omit [DecidableEq ι] in
lemma notMem_active (h : Lists roster active) (hnew : i ∉ roster.map Prod.fst) : i ∉ active :=
  fun hmem => hnew (mem_map_of_mem Prod.fst ((h.mem_iff i).mp hmem))

lemma strike (h : Lists ((i, false) ::ₘ rest) active) :
    Lists ((i, true) ::ₘ rest) (active.erase i) := by
  refine ⟨by simpa using h.nodup, fun j => ?_⟩
  have hother := h.notMem_rest false
  rw [Finset.mem_erase, h.mem_iff, mem_cons, mem_cons, Prod.mk.injEq, Prod.mk.injEq]
  constructor
  · rintro ⟨hne, hmem⟩
    exact .inr (hmem.resolve_left fun heq => hne heq.1)
  · rintro (⟨-, htrue⟩ | hmem)
    · cases htrue
    · exact ⟨fun heq => hother (heq ▸ hmem), .inr hmem⟩

lemma leave (h : Lists ((i, false) ::ₘ rest) active) : Lists rest (active.erase i) := by
  obtain ⟨hnodup, hmem⟩ := h.strike
  refine ⟨by simpa using (nodup_cons.mp (by simpa using hnodup)).2, fun j => ?_⟩
  rw [hmem, mem_cons]
  simp

omit [DecidableEq ι] in
lemma mem_active (h : Lists ((i, false) ::ₘ rest) active) : i ∈ active :=
  (h.mem_iff i).mpr (mem_cons_self _ _)

omit [DecidableEq ι] in
lemma drop (h : Lists (dropped + rest) active) (hdropped : ∀ x ∈ dropped, x.2 = true) :
    Lists rest active := by
  refine ⟨?_, fun j => ?_⟩
  · have hnodup := h.nodup
    rw [Multiset.map_add, nodup_add] at hnodup
    exact hnodup.2.1
  · rw [h.mem_iff, mem_add]
    refine ⟨fun hmem => hmem.resolve_left fun hin => ?_, .inr⟩
    cases hdropped _ hin

omit [DecidableEq ι] in
lemma not_struck {struck : Bool} (h : Lists roster active) (hi : i ∈ active)
    (hmem : (i, struck) ∈ roster) : struck = false := by
  have heq := inj_on_of_nodup_map h.nodup _ hmem _ ((h.mem_iff i).mp hi) rfl
  exact congrArg Prod.snd heq

lemma count_eq_one (h : Lists roster active) (hi : i ∈ active) :
    (roster.map Prod.fst).count i = 1 :=
  count_eq_one_of_mem h.nodup
    (mem_map_of_mem Prod.fst ((h.mem_iff i).mp hi))

end Lists

end Roster
