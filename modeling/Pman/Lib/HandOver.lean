import Mathlib.Algebra.Order.Group.Nat
import Pman.Lib.Slots
import Pman.Lib.TransitionSystem

set_option autoImplicit false

/-!
# Permits that are handed over in order

A fixed number of permits, and calls that want one. A call takes a free permit at once or waits in a
queue. A permit that is given back goes to the first call of the queue: it is *handed over*, without
becoming free, to a call that resumes only later. So the law of conservation counts the permits in
flight. Calls are numbered in the order in which they are made, and are served in that order.

Holders often keep their permit in a guard that can be moved; the second part counts the guards that
own something.

## Main results

* `sound_of_reachable`: permits are conserved.
* `obtained_of_reachable`: calls are served in order.
-/

namespace HandOver

open List

structure State where
  free : ℕ
  waiting : List ℕ
  /-- The calls that were handed a permit and have not resumed. -/
  flight : List ℕ
  held : ℕ
  nextCall : ℕ
  served : List ℕ
  /-- The calls that went on with a permit, in that order. -/
  obtained : List ℕ

inductive Act
  | grab
  | park
  | giveBack
  | resume (i : ℕ)

def step (s : State) : Act → Option State
  | .grab =>
    if s.free = 0 then none
    else some { s with
      free := s.free - 1
      held := s.held + 1
      nextCall := s.nextCall + 1
      served := s.served ++ [s.nextCall]
      obtained := s.obtained ++ [s.nextCall] }
  | .park =>
    if s.free = 0 then some { s with
      waiting := s.waiting ++ [s.nextCall]
      nextCall := s.nextCall + 1 }
    else none
  | .giveBack =>
    if s.held = 0 then none
    else
      match s.waiting with
      | [] => some { s with free := s.free + 1, held := s.held - 1 }
      | call :: rest => some { s with
          waiting := rest
          flight := s.flight ++ [call]
          held := s.held - 1
          served := s.served ++ [call] }
  | .resume i =>
    match s.flight[i]? with
    | none => none
    | some call => some { s with
        flight := s.flight.eraseIdx i
        held := s.held + 1
        obtained := s.obtained ++ [call] }

def initial (total : ℕ) : State where
  free := total
  waiting := []
  flight := []
  held := 0
  nextCall := 0
  served := []
  obtained := []

/-- Any sequence of calls, returns and resumptions over `total` permits. -/
def system (total : ℕ) : TransitionSystem State Act where
  init s := s = initial total
  step := step

/-- The invariant of the permits. -/
structure Sound (total : ℕ) (s : State) : Prop where
  /-- **Conservation**: a permit is free, held or in flight. -/
  conserved : s.free + s.held + s.flight.length = total
  waiting_free : s.waiting ≠ [] → s.free = 0
  /-- **Order**: calls are served in the order in which they were made. -/
  ordered : (s.served ++ s.waiting).Pairwise (· < ·)
  numbered : ∀ call ∈ s.served ++ s.waiting, call < s.nextCall
  /-- The calls in flight were served, in the order of the flight. -/
  flight_served : s.flight.Sublist s.served

variable {a : Act} {s' : State} {call : ℕ}

namespace Sound

variable {total : ℕ} {s : State}

variable (h : Sound total s)

include h

lemma flight_waiting : (s.flight ++ s.waiting).Pairwise (· < ·) :=
  h.ordered.sublist (h.flight_served.append (List.Sublist.refl _))

lemma ordered_concat : (s.served ++ s.waiting ++ [s.nextCall]).Pairwise (· < ·) := by
  rw [pairwise_append]
  refine ⟨h.ordered, pairwise_singleton _ _, fun call hcall n hn => ?_⟩
  rw [mem_singleton.mp hn]
  exact h.numbered call hcall

lemma numbered_concat : ∀ call ∈ s.served ++ s.waiting ++ [s.nextCall], call < s.nextCall + 1 := by
  intro call hcall
  rcases mem_concat.mp hcall with hcall | rfl
  · exact Nat.lt_succ_of_lt (h.numbered call hcall)
  · exact Nat.lt_succ_self _

lemma step (hst : HandOver.step s a = some s') : Sound total s' := by
  have hcons := h.conserved
  cases a with
  | grab =>
    obtain ⟨hfree, ⟨⟩⟩ := Option.ite_none_left_eq_some.mp hst
    have hnil : s.waiting = [] := by
      by_contra hne
      exact hfree (h.waiting_free hne)
    have hord := h.ordered_concat
    have hnum := h.numbered_concat
    rw [hnil, append_nil] at hord hnum
    refine ⟨?_, fun hne => absurd hnil hne, ?_, ?_, ?_⟩
    · show s.free - 1 + (s.held + 1) + s.flight.length = total
      omega
    · simpa [hnil] using hord
    · simpa [hnil] using hnum
    · exact h.flight_served.trans (sublist_append_left _ _)
  | park =>
    obtain ⟨hfree, ⟨⟩⟩ := Option.ite_none_right_eq_some.mp hst
    refine ⟨hcons, fun _ => hfree, ?_, ?_, h.flight_served⟩
    · show (s.served ++ (s.waiting ++ [s.nextCall])).Pairwise (· < ·)
      rw [← append_assoc]
      exact h.ordered_concat
    · show ∀ call ∈ s.served ++ (s.waiting ++ [s.nextCall]), call < s.nextCall + 1
      rw [← append_assoc]
      exact h.numbered_concat
  | giveBack =>
    obtain ⟨hheld, hst⟩ := Option.ite_none_left_eq_some.mp hst
    split at hst <;> cases hst
    case h_1.refl hw =>
      refine ⟨?_, fun hne => absurd hw hne, h.ordered, h.numbered, h.flight_served⟩
      show s.free + 1 + (s.held - 1) + s.flight.length = total
      omega
    case h_2.refl call rest hw =>
      have hsplit : s.served ++ [call] ++ rest = s.served ++ s.waiting := by
        rw [hw, append_assoc, singleton_append]
      refine ⟨?_, fun _ => h.waiting_free (by simp [hw]), ?_, ?_,
        h.flight_served.append (Sublist.refl _)⟩
      · show s.free + (s.held - 1) + (s.flight ++ [call]).length = total
        rw [length_append, length_singleton]
        omega
      · show (s.served ++ [call] ++ rest).Pairwise (· < ·)
        rw [hsplit]
        exact h.ordered
      · show ∀ c ∈ s.served ++ [call] ++ rest, c < s.nextCall
        rw [hsplit]
        exact h.numbered
  | resume i =>
    simp only [HandOver.step] at hst
    split at hst <;> cases hst
    rename_i call hcall
    obtain ⟨hi, -⟩ := List.getElem?_eq_some_iff.mp hcall
    refine ⟨?_, h.waiting_free, h.ordered, h.numbered, (eraseIdx_sublist _ _).trans h.flight_served⟩
    show s.free + (s.held + 1) + (s.flight.eraseIdx i).length = total
    rw [length_eraseIdx_of_lt hi]
    omega

end Sound

variable {s : State}

/-- The permits are conserved in every run. -/
theorem sound_of_reachable {total : ℕ} (h : (system total).Reachable s) : Sound total s := by
  refine h.invariant ?_ fun s a s' hs _ hst => hs.step hst
  rintro _ rfl
  exact ⟨by simp [initial], fun hne => absurd rfl hne, List.Pairwise.nil, by simp [initial],
    List.Sublist.refl _⟩

/-- **One permit, one order**: the calls served are, in order, those that went on and then the
one in flight.

**Proof sketch.** With a single permit nothing is in flight when a call takes it, and at most one
call is in flight when one resumes. -/
theorem obtained_of_reachable (h : (system 1).Reachable s) : s.served = s.obtained ++ s.flight := by
  refine TransitionSystem.ReachableWithin.invariant_of
    (I := fun s => s.served = s.obtained ++ s.flight) (J := Sound 1)
    (fun _ hr => sound_of_reachable hr) h ?_ ?_
  · rintro _ rfl
    rfl
  intro s a s' hs hserved _ hst
  have hcons := hs.conserved
  cases a with
  | grab =>
    obtain ⟨hfree, ⟨⟩⟩ := Option.ite_none_left_eq_some.mp hst
    have hflight : s.flight = [] := length_eq_zero_iff.mp (by omega)
    simp [hserved, hflight]
  | park =>
    obtain ⟨-, ⟨⟩⟩ := Option.ite_none_right_eq_some.mp hst
    exact hserved
  | giveBack =>
    obtain ⟨-, hst⟩ := Option.ite_none_left_eq_some.mp hst
    split at hst <;> cases hst
    · exact hserved
    · simp [hserved]
  | resume i =>
    simp only [system, step] at hst
    split at hst <;> cases hst
    rename_i call hcall
    obtain ⟨hi, hget⟩ := List.getElem?_eq_some_iff.mp hcall
    have hone : s.flight = [call] := by
      obtain ⟨x, hx⟩ := length_eq_one_iff.mp (by omega : s.flight.length = 1)
      rw [hx, getElem?_singleton] at hcall
      split_ifs at hcall
      rw [hx, Option.some.inj hcall]
    have hi0 : i = 0 := by
      rw [hone, length_singleton] at hi
      omega
    simp [hserved, hone, hi0]

end HandOver

namespace Guards

/-- The number of guards that own something; a guard is the flag whether it does. -/
def owning (guards : List Bool) : ℕ := guards.countP id

/-- The guard `i` has given up what it owned and takes over what `j` owns. -/
def assign (guards : List Bool) (i j : ℕ) : List Bool :=
  (guards.set i (guards.getD j false)).set j false

@[simp] lemma owning_concat (guards : List Bool) (b : Bool) :
    owning (guards ++ [b]) = owning guards + b.toNat := by
  cases b <;> simp [owning, List.countP_append]

variable {b : Bool} {guards : List Bool} {i : ℕ}

lemma owning_clear (h : guards[i]? = some b) :
    owning (guards.set i false) + b.toNat = owning guards := by
  simpa [owning] using Slots.countP_set id h false

lemma owning_assign {j : ℕ} {b' : Bool} (hij : i ≠ j) (hi : guards[i]? = some b)
    (hj : guards[j]? = some b') : owning (assign guards i j) + b.toNat = owning guards := by
  have hget : guards.getD j false = b' := by simp [List.getD, hj]
  have hj' : (guards.set i b')[j]? = some b' := by rw [List.getElem?_set_ne hij, hj]
  have hset := Slots.countP_set id hi b'
  have hclear := Slots.countP_set id hj' false
  simp only [id, Bool.toNat_false, add_zero] at hset hclear
  rw [assign, hget, owning, owning]
  omega

end Guards
