import Mathlib.Data.Finset.Card

set_option autoImplicit false

/-!
# Exploring a graph by removing vertices

A depth-first search without a set of visited vertices: it keeps the vertices that are still alive,
removes a vertex before it follows its edges, and does not enter a vertex that is not alive. It
visits exactly the vertices that can be reached from its start through vertices alive at the
beginning, each of them once. The recursion has a bound on its depth; as many levels as there are
vertices alive are enough.

## Main results

* `explored_visit`: the search visits what can be reached, once.
-/

namespace Exploration

open Finset

variable {V : Type*} [DecidableEq V]

/-- Visit the vertices of a list one after the other, those that are still alive. The result is what
is alive afterwards, and what was visited. -/
def visitAll (visitOne : Finset V → V → Option (Finset V × List V)) :
    Finset V → List V → Option (Finset V × List V)
  | alive, [] => some (alive, [])
  | alive, w :: ws =>
    if w ∈ alive then
      (visitOne alive w).bind fun r =>
        (visitAll visitOne r.1 ws).map fun r' => (r'.1, r.2 ++ r'.2)
    else visitAll visitOne alive ws

/-- Remove a vertex and follow its edges, `n` levels deep. -/
def visit (next : V → List V) : ℕ → Finset V → V → Option (Finset V × List V)
  | 0, _, _ => none
  | n + 1, alive, v =>
    (visitAll (visit next n) (alive.erase v) (next v)).map fun r => (r.1, r.2 ++ [v])

omit [DecidableEq V] in
def Edge (next : V → List V) (alive : Finset V) (a b : V) : Prop :=
  a ∈ alive ∧ b ∈ alive ∧ b ∈ next a

omit [DecidableEq V] in
/-- The vertices that can be reached from some start through vertices that are alive. -/
def Reached (next : V → List V) (alive : Finset V) (start : V → Prop) (q : V) : Prop :=
  ∃ w, start w ∧ w ∈ alive ∧ Relation.ReflTransGen (Edge next alive) w q

section Reached

variable {next : V → List V} {alive alive' : Finset V} {start start' : V → Prop} {q q' v w : V}

omit [DecidableEq V] in
lemma Reached.mem (h : Reached next alive start q) : q ∈ alive := by
  obtain ⟨w, -, hw, hpath⟩ := h
  cases hpath with
  | refl => exact hw
  | tail _ hedge => exact hedge.2.1

omit [DecidableEq V] in
lemma Reached.base (hs : start q) (hq : q ∈ alive) : Reached next alive start q :=
  ⟨q, hs, hq, .refl⟩

omit [DecidableEq V] in
lemma Reached.tail (h : Reached next alive start q) (hedge : Edge next alive q q') :
    Reached next alive start q' := by
  obtain ⟨w, hs, hw, hpath⟩ := h
  exact ⟨w, hs, hw, hpath.tail hedge⟩

omit [DecidableEq V] in
lemma Reached.mono (h : Reached next alive' start' q) (hstart : ∀ w, start' w → start w)
    (halive : ∀ w, w ∈ alive' → w ∈ alive) : Reached next alive start q := by
  obtain ⟨w, hs, hw, hpath⟩ := h
  refine ⟨w, hstart w hs, halive w hw, Relation.ReflTransGen.mono (fun a b hedge => ?_) w q hpath⟩
  exact ⟨halive a hedge.1, halive b hedge.2.1, hedge.2.2⟩

omit [DecidableEq V] in
/-- **The first start apart**: what is reached from `w` is gone when the other starts are looked at,
and the others reach the rest without it.

**Proof sketch.** Induction on the path from another start. As soon as it meets a vertex that `w`
reaches, `w` reaches all that follows. -/
lemma reached_cons {ws : List V}
    (halive : ∀ u, u ∈ alive' ↔ u ∈ alive ∧ ¬ Reached next alive (· = w) u) :
    Reached next alive (· ∈ w :: ws) q ↔
      Reached next alive (· = w) q ∨ Reached next alive' (· ∈ ws) q := by
  constructor
  · rintro ⟨u, hu, hmem, hpath⟩
    rcases List.mem_cons.mp hu with rfl | hu
    · exact .inl ⟨u, rfl, hmem, hpath⟩
    · induction hpath with
      | refl =>
        by_cases hreached : Reached next alive (· = w) u
        · exact .inl hreached
        · exact .inr (.base hu ((halive u).mpr ⟨hmem, hreached⟩))
      | @tail a b _ hedge ih =>
        rcases ih with hleft | hright
        · exact .inl (hleft.tail hedge)
        · by_cases hreached : Reached next alive (· = w) b
          · exact .inl hreached
          · have hb : b ∈ alive' := (halive b).mpr ⟨hedge.2.1, hreached⟩
            exact .inr (hright.tail ⟨hright.mem, hb, hedge.2.2⟩)
  · rintro (hleft | hright)
    · exact hleft.mono (fun u hu => hu ▸ List.mem_cons_self) fun u hu => hu
    · exact hright.mono (fun u hu => List.mem_cons_of_mem w hu) fun u hu => ((halive u).mp hu).1

/-- **The start itself apart**: what a vertex reaches is the vertex, and what its edges reach after
it has been removed. -/
lemma reached_root (hv : v ∈ alive) :
    Reached next alive (· = v) q ↔ q = v ∨ Reached next (alive.erase v) (· ∈ next v) q := by
  constructor
  · rintro ⟨u, rfl, hmem, hpath⟩
    induction hpath with
    | refl => exact .inl rfl
    | @tail a b _ hedge ih =>
      by_cases hb : b = u
      · exact .inl hb
      · have hb' : b ∈ alive.erase u := mem_erase.mpr ⟨hb, hedge.2.1⟩
        rcases ih with rfl | hreached
        · exact .inr (.base hedge.2.2 hb')
        · exact .inr (hreached.tail ⟨hreached.mem, hb', hedge.2.2⟩)
  · rintro (rfl | ⟨u, hu, hmem, hpath⟩)
    · exact .base rfl hv
    · have hstep : Reached next alive (· = v) u :=
        Reached.tail (q := v) (.base rfl hv) ⟨hv, mem_of_mem_erase hmem, hu⟩
      obtain ⟨x, hx, hxmem, hxpath⟩ := hstep
      refine ⟨x, hx, hxmem,
        hxpath.trans (Relation.ReflTransGen.mono (fun a b hedge => ?_) u q hpath)⟩
      exact ⟨mem_of_mem_erase hedge.1, mem_of_mem_erase hedge.2.1, hedge.2.2⟩

end Reached

omit [DecidableEq V] in
/-- **What a search has done**: the vertices it can reach are visited, each once, and the others are
still alive. -/
structure Explored (next : V → List V) (alive : Finset V) (start : V → Prop)
    (r : Finset V × List V) : Prop where
  rest : ∀ q, q ∈ r.1 ↔ q ∈ alive ∧ ¬ Reached next alive start q
  visited : ∀ q, q ∈ r.2 ↔ Reached next alive start q
  nodup : r.2.Nodup

variable {next : V → List V} {n : ℕ}

lemma explored_visitAll {visitOne : Finset V → V → Option (Finset V × List V)}
    (hone : ∀ alive w, w ∈ alive → alive.card ≤ n →
      ∃ r, visitOne alive w = some r ∧ Explored next alive (· = w) r)
    (ws : List V) (alive : Finset V) (hcard : alive.card ≤ n) :
    ∃ r, visitAll visitOne alive ws = some r ∧ Explored next alive (· ∈ ws) r := by
  induction ws generalizing alive with
  | nil =>
    refine ⟨(alive, []), rfl, fun q => ?_, fun q => ?_, List.nodup_nil⟩ <;> simp [Reached]
  | cons w ws ih =>
    by_cases hw : w ∈ alive
    · obtain ⟨r, hvisit, hr⟩ := hone alive w hw hcard
      have hsub : r.1 ⊆ alive := fun q hq => ((hr.rest q).mp hq).1
      obtain ⟨r', hvisit', hr'⟩ := ih r.1 ((card_le_card hsub).trans hcard)
      refine ⟨(r'.1, r.2 ++ r'.2), by simp [visitAll, hw, hvisit, hvisit'], fun q => ?_,
        fun q => ?_, ?_⟩
      · rw [hr'.rest, hr.rest, reached_cons hr.rest, not_or, and_assoc]
      · rw [List.mem_append, hr.visited, hr'.visited, reached_cons hr.rest]
      · refine List.nodup_append.mpr ⟨hr.nodup, hr'.nodup, ?_⟩
        rintro a ha b hb rfl
        have hgone := ((hr.rest a).mp ((hr'.visited a).mp hb).mem).2
        exact hgone ((hr.visited a).mp ha)
    · obtain ⟨r, hvisit, hr⟩ := ih alive hcard
      have hsame : ∀ q, Reached next alive (· ∈ w :: ws) q ↔ Reached next alive (· ∈ ws) q := by
        intro q
        constructor
        · rintro ⟨u, hu, hmem, hpath⟩
          rcases List.mem_cons.mp hu with rfl | hu
          · exact absurd hmem hw
          · exact ⟨u, hu, hmem, hpath⟩
        · exact fun h => h.mono (fun u hu => List.mem_cons_of_mem w hu) fun u hu => hu
      refine ⟨r, by simp [visitAll, hw, hvisit], fun q => ?_, fun q => ?_, hr.nodup⟩
      · rw [hr.rest, hsame]
      · rw [hr.visited, hsame]

/-- **The search ends and visits what can be reached**: with as many levels as there are vertices
alive, it visits exactly the vertices that can be reached from its start, each once, and leaves the
others alive.

**Proof sketch.** Induction on the levels. The start is removed before its edges are followed, so
one vertex fewer is alive on the next level. -/
theorem explored_visit (n : ℕ) {alive : Finset V} {v : V} (hv : v ∈ alive)
    (hcard : alive.card ≤ n) :
    ∃ r, visit next n alive v = some r ∧ Explored next alive (· = v) r := by
  induction n generalizing alive v with
  | zero =>
    have hpos : 0 < alive.card := card_pos.mpr ⟨v, hv⟩
    omega
  | succ n ih =>
    have hless : (alive.erase v).card ≤ n := by
      rw [card_erase_of_mem hv]
      omega
    obtain ⟨r, hvisit, hr⟩ :=
      explored_visitAll (fun alive w hw hle => ih hw hle) (next v) (alive.erase v) hless
    refine ⟨(r.1, r.2 ++ [v]), by simp [visit, hvisit], fun q => ?_, fun q => ?_, ?_⟩
    · rw [hr.rest, reached_root hv, mem_erase]
      tauto
    · rw [List.mem_append, hr.visited, reached_root hv, List.mem_singleton]
      tauto
    · refine List.nodup_append.mpr ⟨hr.nodup, List.nodup_singleton v, ?_⟩
      rintro a ha b hb rfl
      have hmem := ((hr.visited a).mp ha).mem
      simp [List.mem_singleton.mp hb] at hmem

end Exploration
