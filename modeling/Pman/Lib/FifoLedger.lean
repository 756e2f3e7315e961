import Mathlib.Data.List.Nodup

set_option autoImplicit false

/-!
# The ledger of a first-in-first-out queue

An abstract queue together with its history. Values are offered under keys that are used once, taken
from the front, and a block at the back may be dropped. The ledger carries its law as a field: in
order, the values offered and not dropped are the values taken followed by the values queued. So a
component that keeps a ledger in step with its own state inherits the law.

## Main results

* `values_conserved`: what was offered was taken, dropped or is queued.
-/

universe u v

/-- A first-in-first-out queue of keyed values and its history. -/
structure FifoLedger (κ : Type u) (α : Type v) [DecidableEq κ] where
  offered : List (κ × α)
  /-- The keys of what was dropped from the back of the queue. -/
  dropped : List κ
  taken : List (κ × α)
  queue : List (κ × α)
  nodup_keys : (offered.map Prod.fst).Nodup
  dropped_subset : ∀ k ∈ dropped, k ∈ offered.map Prod.fst
  /-- **Conservation**: what was offered and not dropped was taken or is queued, in order. -/
  conserved : offered.filter (fun e => e.1 ∉ dropped) = taken ++ queue

namespace FifoLedger

open List

variable {κ : Type u} {α : Type v} [DecidableEq κ]

def empty : FifoLedger κ α where
  offered := []
  dropped := []
  taken := []
  queue := []
  nodup_keys := nodup_nil
  dropped_subset := by simp
  conserved := rfl

def offer (L : FifoLedger κ α) (k : κ) (a : α) (hk : k ∉ L.offered.map Prod.fst) :
    FifoLedger κ α where
  offered := L.offered ++ [(k, a)]
  dropped := L.dropped
  taken := L.taken
  queue := L.queue ++ [(k, a)]
  nodup_keys := by
    rw [map_append, map_singleton, ← concat_eq_append]
    exact L.nodup_keys.concat hk
  dropped_subset := fun k' hk' => by
    rw [map_append]
    exact mem_append_left _ (L.dropped_subset k' hk')
  conserved := by
    have hnew : k ∉ L.dropped := fun h => hk (L.dropped_subset k h)
    rw [filter_append, L.conserved]
    simp [hnew]

def take (L : FifoLedger κ α) (e : κ × α) (rest : List (κ × α)) (hq : L.queue = e :: rest) :
    FifoLedger κ α where
  offered := L.offered
  dropped := L.dropped
  taken := L.taken ++ [e]
  queue := rest
  nodup_keys := L.nodup_keys
  dropped_subset := L.dropped_subset
  conserved := by rw [L.conserved, hq, append_assoc, singleton_append]

lemma nodup_taken_queue (L : FifoLedger κ α) : ((L.taken ++ L.queue).map Prod.fst).Nodup := by
  rw [← L.conserved]
  exact L.nodup_keys.sublist (filter_sublist.map _)

/-- Dropping the block `back` at the end of the queue.

**Proof sketch.** The keys of `back` are distinct from all keys before them, so filtering them
out of what was taken or queued removes `back` and nothing else. -/
def dropBack (L : FifoLedger κ α) (front back : List (κ × α)) (hq : L.queue = front ++ back) :
    FifoLedger κ α where
  offered := L.offered
  dropped := L.dropped ++ back.map Prod.fst
  taken := L.taken
  queue := front
  nodup_keys := L.nodup_keys
  dropped_subset := by
    intro k hk
    rcases mem_append.mp hk with hk | hk
    · exact L.dropped_subset k hk
    · obtain ⟨e, he, rfl⟩ := mem_map.mp hk
      have hmem : e ∈ L.offered.filter (fun e => e.1 ∉ L.dropped) := by
        rw [L.conserved, hq]
        simp [he]
      exact mem_map_of_mem (mem_filter.mp hmem).1
  conserved := by
    have hsplit : L.offered.filter (fun e => e.1 ∉ L.dropped ++ back.map Prod.fst) =
        (L.taken ++ L.queue).filter (fun e => e.1 ∉ back.map Prod.fst) := by
      rw [← L.conserved, filter_filter]
      refine filter_congr fun e _ => ?_
      rw [Bool.eq_iff_iff]
      simp only [mem_append, not_or, Bool.and_eq_true, decide_eq_true_eq]
      exact and_comm
    have hnd := L.nodup_taken_queue
    rw [hq, ← append_assoc, map_append, nodup_append] at hnd
    have hfront : (L.taken ++ front).filter (fun e => e.1 ∉ back.map Prod.fst) =
        L.taken ++ front := by
      rw [filter_eq_self]
      intro e he
      have hout : e.1 ∉ back.map Prod.fst := fun hb =>
        hnd.2.2 e.1 (mem_map_of_mem he) e.1 hb rfl
      simpa using hout
    have hback : back.filter (fun e => e.1 ∉ back.map Prod.fst) = [] := by
      rw [filter_eq_nil_iff]
      intro e he
      simpa using ⟨e.2, he⟩
    rw [hsplit, hq, ← append_assoc, filter_append, hfront, hback, append_nil]

/-- **Conservation of the values**: those taken followed by those queued are, in order, those
offered and not dropped. -/
theorem values_conserved (L : FifoLedger κ α) :
    L.taken.map Prod.snd ++ L.queue.map Prod.snd =
      (L.offered.filter (fun e => e.1 ∉ L.dropped)).map Prod.snd := by
  rw [L.conserved, map_append]

end FifoLedger
