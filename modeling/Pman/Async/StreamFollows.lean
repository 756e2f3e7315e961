import Pman.Async.Stream

set_option autoImplicit false

/-!
# What the stream classes do to a list

On a source that follows a list, the stream follows the list that the corresponding list function
gives. How often it may be called is said by how often those calls call the source: `filter` and the
first call of `skip` call it several times, `take` not at all once its count is reached, `takeWhile`
not after an element has failed, and `chain` turns to its second source when the first has ended.
-/

namespace Pman

namespace Streams

open Producer

variable {σ τ T U : Type}

variable {source : ℕ → Next σ T} {bound : ℕ} {s : σ} {l : List T} {safe : ℕ → Prop}

/-- The first `lifetime` calls of a source are safe if they are safe for the source itself. -/
def Reaches (lifetime : ℕ∞) (safe : ℕ → Prop) (m : ℕ) : Prop := (m : ℕ∞) ≤ lifetime ∧ safe m

lemma follows_borrowed (h : Follows Fault.dangling source bound s l safe) (lifetime : ℕ∞) :
    Follows Fault.dangling (fun fuel => Borrowed.next lifetime (source fuel)) bound ⟨s, 0⟩ l
      (Reaches lifetime safe) := by
  refine Follows.coinduct
    (R := fun s l safe' => (s.calls : ℕ∞) ≤ lifetime ∧ ∃ safe,
      Follows Fault.dangling source bound s.source l safe ∧
        safe' = fun m => ((s.calls + m : ℕ) : ℕ∞) ≤ lifetime ∧ safe m)
    ⟨by simp, safe, h, by simp [Reaches, funext_iff]⟩ ?_
  rintro ⟨s, calls⟩ l _ ⟨hcalls, safe, h, rfl⟩
  have hclosed : Closed fun m => ((calls + m : ℕ) : ℕ∞) ≤ lifetime ∧ safe m :=
    ⟨⟨hcalls, h.closed.zero⟩, fun m hm =>
      ⟨le_trans (Nat.cast_le.mpr (by omega)) hm.1, h.closed.pred m hm.2⟩⟩
  have hlt : ((calls + 1 : ℕ) : ℕ∞) ≤ lifetime ↔ (calls : ℕ∞) < lifetime :=
    ENat.add_one_le_iff (ENat.natCast_ne_top calls)
  by_cases halive : (calls : ℕ∞) < lifetime
  · refine h.step (fun p => (p.1, ⟨p.2, calls + 1⟩)) (fun fuel _ => ?_) hclosed
      (and_iff_right (hlt.mpr halive)) fun s' hrest => ⟨rfl, hlt.mpr halive, _, hrest, ?_⟩
    · simp only [Borrowed.next, if_pos halive]
      cases source fuel s <;> rfl
    · simp only [add_right_comm calls 1, add_assoc]
  · exact ⟨hclosed, fun _ fuel _ => if_neg halive, fun hsafe => absurd (hlt.mp hsafe.1) halive⟩

lemma follows_vector (values : List T) :
    Follows Fault.dangling (fun _ => VectorStream.next) 0 ⟨values, 0⟩ values fun _ => True := by
  refine Follows.coinduct
    (R := fun s l safe => l = s.values_.drop s.index_ ∧ ∀ m, safe m) ⟨rfl, fun _ => trivial⟩ ?_
  rintro ⟨values, index⟩ l safe ⟨rfl, hsafe⟩
  refine ⟨⟨hsafe 0, fun m _ => hsafe m⟩, fun h => absurd (hsafe 1) h, fun _ => ?_⟩
  by_cases hlt : index < values.length
  · refine ⟨⟨values, index + 1⟩, fun _ _ => ?_, by simp, fun m => hsafe _⟩
    simp [VectorStream.next, hlt]
  · have hdrop : values.drop index = [] := List.drop_eq_nil_of_le (by omega)
    refine ⟨⟨values, index⟩, fun _ _ => ?_, by simp [hdrop], fun m => hsafe _⟩
    simp [VectorStream.next, hlt, hdrop]

lemma follows_map (h : Follows Fault.dangling source bound s l safe) (func : T → U) :
    Follows Fault.dangling (fun fuel => MapStream.next (source fuel) func) bound s (l.map func)
      safe := by
  refine Follows.coinduct
    (R := fun s l' safe => ∃ l, l' = l.map func ∧ Follows Fault.dangling source bound s l safe)
    ⟨l, rfl, h⟩ ?_
  rintro s _ safe ⟨l, rfl, h⟩
  refine h.step (fun p => (p.1.map func, p.2)) (fun fuel _ => ?_) h.closed Iff.rfl
    fun s' hrest => ⟨by simp, l.tail, by simp, hrest⟩
  unfold MapStream.next
  rcases source fuel s with _ | ⟨_ | _, _⟩ <;> rfl

/-- How often `m` calls of a filter call a source that follows a list. -/
def filterPulls (pred : T → Bool) : List T → ℕ → ℕ
  | _, 0 => 0
  | [], m => m
  | x :: l, m + 1 => (if pred x then filterPulls pred l m else filterPulls pred l (m + 1)) + 1

lemma filterPulls_zero (pred : T → Bool) (l : List T) : filterPulls pred l 0 = 0 := by
  cases l <;> rfl

lemma filterPulls_nil (pred : T → Bool) (m : ℕ) : filterPulls pred [] m = m := by
  cases m <;> rfl

lemma filterPulls_succ_le (pred : T → Bool) (l : List T) (m : ℕ) :
    filterPulls pred l m ≤ filterPulls pred l (m + 1) := by
  induction l generalizing m with
  | nil => simp [filterPulls_nil]
  | cons x l ih =>
    cases m with
    | zero => exact Nat.zero_le _
    | succ m =>
      have hmono := ih m
      have hmono' := ih (m + 1)
      simp only [filterPulls]
      split <;> omega

lemma filter_call (pred : T → Bool) {rounds : ℕ} (hrounds : rounds + l.length < bound)
    (h : Follows Fault.dangling source bound s l safe) :
    Call Fault.dangling source bound safe (filterPulls pred l 1)
      (fun fuel => FilterStream.next (source fuel) pred (fuel - rounds) s)
      fun s' rest b => b = ((l.filter pred).head?, s') ∧ (l.filter pred).tail = rest.filter pred ∧
        rest.length ≤ l.length ∧
          ∀ m, filterPulls pred l (m + 1) = filterPulls pred l 1 + filterPulls pred rest m := by
  have hfuel : ∀ fuel, bound ≤ fuel → fuel - rounds = fuel - (rounds + 1) + 1 := by omega
  induction l generalizing rounds s safe with
  | nil =>
    refine Call.pull h (fun fuel hle herr => ?_) fun s' hnext hrest => ?_
    · simp only [hfuel fuel hle, FilterStream.next, herr]
    · refine Call.done hrest (fun fuel hle => ?_) ⟨rfl, rfl, le_rfl, fun m => ?_⟩
      · simp [hfuel fuel hle, FilterStream.next, hnext fuel hle]
      · rw [filterPulls_nil, filterPulls_nil, List.tail_nil, filterPulls_nil, add_comm]
  | cons x l ih =>
    rw [List.length_cons] at hrounds
    refine Call.pull h (fun fuel hle herr => ?_) fun s' hnext hrest => ?_
    · simp only [hfuel fuel hle, FilterStream.next, herr]
    cases hx : pred x with
    | true =>
      rw [if_pos rfl, filterPulls_zero]
      refine Call.done hrest (fun fuel hle => ?_) ⟨rfl, by simp [hx], by simp, fun m => ?_⟩
      · simp [hfuel fuel hle, FilterStream.next, hnext fuel hle, hx]
      · simp [filterPulls, hx, filterPulls_zero, add_comm]
    | false =>
      have hloop := ih (by omega : rounds + 1 + l.length < bound) hrest (by omega)
      refine hloop.congr (fun fuel hle => ?_) ?_
      · simp [hfuel fuel hle, FilterStream.next, hnext fuel hle, hx]
      · rintro s'' rest _ ⟨rfl, htail, hle, hpulls⟩
        refine ⟨by simp [hx], by simpa [hx] using htail, by rw [List.length_cons]; omega, ?_⟩
        intro m
        simp only [filterPulls, hx, Bool.false_eq_true, if_false, zero_add, hpulls m]
        omega

lemma follows_filter (h : Follows Fault.dangling source bound s l safe) (pred : T → Bool) :
    Follows Fault.dangling (fun fuel => FilterStream.next (source fuel) pred fuel)
      (max bound (l.length + 1)) s (l.filter pred) fun m => safe (filterPulls pred l m) := by
  refine Follows.coinduct
    (R := fun s l' safe' => ∃ rest safe, rest.length ≤ l.length ∧ l' = rest.filter pred ∧
      Follows Fault.dangling source (max bound (l.length + 1)) s rest safe ∧
        ∀ m, safe' m ↔ safe (filterPulls pred rest m))
    ⟨l, safe, le_rfl, rfl, h.mono (Nat.le_max_left _ _), fun _ => Iff.rfl⟩ ?_
  rintro s _ safe' ⟨rest, safe, hle, rfl, h, hiff⟩
  have hclosed := h.closed
  have hcall := filter_call pred (by omega : 0 + rest.length < max bound (l.length + 1)) h
  refine hcall.step ⟨(hiff 0).mpr ?_, fun m hm => ?_⟩ (hiff 1) ?_
  · rw [filterPulls_zero]
    exact hclosed.zero
  · exact (hiff m).mpr (hclosed.mono (filterPulls_succ_le pred rest m) ((hiff _).mp hm))
  · rintro s' rest' _ ⟨rfl, htail, hle', hpulls⟩ hrest
    refine ⟨rfl, rest', _, le_trans hle' hle, htail, hrest, fun m => ?_⟩
    rw [← hpulls m]
    exact hiff (m + 1)

lemma follows_take (h : Follows Fault.dangling source bound s l safe) (n : ℕ) :
    Follows Fault.dangling (fun fuel => TakeStream.next (source fuel) n) bound ⟨s, 0⟩ (l.take n)
      fun m => safe (min m n) := by
  refine Follows.coinduct
    (R := fun s l' safe' => ∃ l safe, l' = l.take (n - s.count_) ∧
      Follows Fault.dangling source bound s.source_ l safe ∧
        safe' = fun m => safe (min m (n - s.count_)))
    ⟨l, safe, rfl, h, rfl⟩ ?_
  rintro ⟨s, count⟩ _ _ ⟨l, safe, rfl, h, rfl⟩
  have hclosed : Closed fun m => safe (min m (n - count)) :=
    ⟨by simpa using h.closed.zero, fun m => h.closed.mono (by omega)⟩
  by_cases hcount : n ≤ count
  · have hzero : n - count = 0 := by omega
    simp only [hzero, Nat.min_zero, List.take_zero] at hclosed ⊢
    exact ⟨hclosed, fun hsafe => absurd h.closed.zero hsafe, fun _ => ⟨⟨s, count⟩,
      fun fuel _ => if_pos hcount, l, safe, by simp [hzero], h, by simp [hzero]⟩⟩
  · obtain ⟨r, hr⟩ : ∃ r, n - count = r + 1 := ⟨n - count - 1, by omega⟩
    have hr' : n - (count + 1) = r := by omega
    simp only [hr] at hclosed ⊢
    refine h.step (fun p => (p.1, ⟨p.2, count + 1⟩)) (fun fuel _ => ?_) hclosed
      (by rw [Nat.min_eq_left (by omega)]) fun s' hrest => ⟨?_, l.tail, _, ?_, hrest, ?_⟩
    · simp only [TakeStream.next, ge_iff_le, if_neg hcount]
      cases source fuel s <;> rfl
    · cases l <;> rfl
    · rw [hr']
      cases l <;> simp
    · simp only [hr', Nat.add_min_add_right]

/-- How often `m` calls of `skip` call a source that follows a list of some length, when `rest`
elements are still to be skipped. -/
def skipPulls (rest length : ℕ) : ℕ → ℕ
  | 0 => 0
  | m + 1 => min rest length + (m + 1)

lemma skip_call (rest skipped : ℕ) (h : Follows Fault.dangling source bound s l safe) :
    Call Fault.dangling source bound safe (skipPulls rest l.length 1)
      (fun fuel => SkipStream.loop (source fuel) rest ⟨s, skipped⟩)
      fun s' l' b => ∃ rest' ≤ rest, b = ((l.drop rest).head?, ⟨s', skipped + (rest - rest')⟩) ∧
        (l.drop rest).tail = l'.drop rest' ∧
          ∀ m, skipPulls rest l.length (m + 1) =
            skipPulls rest l.length 1 + skipPulls rest' l'.length m := by
  induction rest generalizing l s safe skipped with
  | zero =>
    refine Call.pull h (fun fuel _ herr => by simp only [SkipStream.loop, herr]) ?_
    intro s' hnext hrest
    refine Call.done hrest (fun fuel hle => ?_) ⟨0, le_rfl, rfl, rfl, fun m => ?_⟩
    · simp [SkipStream.loop, hnext fuel hle]
    · cases m <;> simp [skipPulls]; omega
  | succ rest ih =>
    cases l with
    | nil =>
      refine Call.pull h (fun fuel _ herr => by simp only [SkipStream.loop, herr]) ?_
      intro s' hnext hrest
      refine Call.done hrest (fun fuel hle => ?_)
        ⟨rest + 1, le_rfl, rfl, rfl, fun m => ?_⟩
      · simp [SkipStream.loop, hnext fuel hle]
      · cases m <;> simp [skipPulls]; omega
    | cons x l =>
      have hpulls : ∀ m, skipPulls (rest + 1) (x :: l).length (m + 1) =
          skipPulls rest l.length (m + 1) + 1 := by
        intro m
        simp only [skipPulls, List.length_cons]
        omega
      rw [hpulls]
      refine Call.pull h (fun fuel _ herr => by simp only [SkipStream.loop, herr]) ?_
      intro s' hnext hrest
      refine (ih (skipped + 1) hrest).congr (fun fuel hle => ?_) ?_
      · simp [SkipStream.loop, hnext fuel hle]
      · rintro s'' l' _ ⟨rest', hle, rfl, htail, hm⟩
        refine ⟨rest', by omega, ?_, by simpa using htail, fun m => ?_⟩
        · have hcount : skipped + (rest + 1 - rest') = skipped + 1 + (rest - rest') := by omega
          rw [hcount]
          rfl
        · rw [List.tail_cons] at hm
          rw [hpulls, zero_add, hm, add_right_comm]

variable (h : Follows Fault.dangling source bound s l safe)

include h

lemma follows_skip (n : ℕ) :
    Follows Fault.dangling (fun fuel => SkipStream.next (source fuel) n) bound ⟨s, 0⟩ (l.drop n)
      fun m => safe (skipPulls n l.length m) := by
  refine Follows.coinduct
    (R := fun s l' safe' => s.skipped_ ≤ n ∧ ∃ l safe, l' = l.drop (n - s.skipped_) ∧
      Follows Fault.dangling source bound s.source_ l safe ∧
        ∀ m, safe' m ↔ safe (skipPulls (n - s.skipped_) l.length m))
    ⟨Nat.zero_le n, l, safe, rfl, h, fun _ => Iff.rfl⟩ ?_
  rintro ⟨s, skipped⟩ _ safe' ⟨hskipped, l, safe, rfl, h, hiff⟩
  dsimp only at hskipped h hiff ⊢
  have hclosed := h.closed
  have hcall := skip_call (n - skipped) skipped h
  change Call _ _ _ _ _ (fun fuel => SkipStream.next (source fuel) n ⟨s, skipped⟩) _ at hcall
  refine hcall.step ⟨(hiff 0).mpr hclosed.zero, fun m hm => ?_⟩ (hiff 1) ?_
  · refine (hiff m).mpr (hclosed.mono ?_ ((hiff _).mp hm))
    cases m <;> simp only [skipPulls] <;> omega
  · rintro s' l' _ ⟨rest', hle, rfl, htail, hpulls⟩ hrest
    have hrest' : n - (skipped + (n - skipped - rest')) = rest' := by omega
    refine ⟨rfl, by dsimp only; omega, l', _, ?_, hrest, fun m => (hiff _).trans ?_⟩
    · rw [htail]
      rw [hrest']
    · rw [hpulls, hrest']

lemma follows_takeWhile (pred : T → Bool) :
    Follows Fault.dangling (fun fuel => TakeWhileStream.next (source fuel) pred) bound ⟨s, false⟩
      (l.takeWhile pred) fun m => safe (min m ((l.takeWhile pred).length + 1)) := by
  refine Follows.coinduct
    (R := fun s l' safe' =>
      if s.done_ then l' = [] ∧ ∀ m, safe' m
      else ∃ l safe, l' = l.takeWhile pred ∧ Follows Fault.dangling source bound s.source_ l safe ∧
          safe' = fun m => safe (min m ((l.takeWhile pred).length + 1)))
    ⟨l, safe, rfl, h, rfl⟩ ?_
  rintro ⟨s, done⟩ l' safe' hR
  cases done with
  | true =>
    obtain ⟨rfl, hsafe⟩ := hR
    exact ⟨⟨hsafe 0, fun m _ => hsafe m⟩, fun h => absurd (hsafe 1) h, fun _ =>
      ⟨⟨s, true⟩, fun fuel _ => rfl, rfl, fun m => hsafe (m + 1)⟩⟩
  | false =>
    obtain ⟨l, safe, rfl, h, rfl⟩ := hR
    refine h.step (fun p => (p.1.filter pred, ⟨p.2, (p.1.filter pred).isNone⟩)) (fun fuel _ => ?_)
      ⟨by simpa using h.closed.zero, fun m => h.closed.mono (by omega)⟩
      (by rw [Nat.min_eq_left (by omega)]) fun s' hrest => ?_
    · simp only [TakeWhileStream.next, Bool.false_eq_true, if_false]
      rcases source fuel s with _ | ⟨_ | x, _⟩
      · rfl
      · rfl
      · cases hx : pred x <;> simp [Except.map, Option.filter, hx]
    · have hone := hrest.closed.zero
      cases l with
      | nil => exact ⟨rfl, rfl, fun m => by simpa using hone⟩
      | cons x l =>
        cases hx : pred x with
        | false => simpa [Option.filter, hx] using hone
        | true => simpa [Option.filter, hx] using ⟨l, rfl, _, hrest, rfl⟩

lemma follows_chain {second : ℕ → Next τ T} {t : τ} {l₂ : List T} {safe₂ : ℕ → Prop}
    (h₂ : Follows Fault.dangling second bound t l₂ safe₂) :
    Follows Fault.dangling (fun fuel => ChainStream.next (source fuel) (second fuel)) bound
      ⟨s, t, false⟩ (l ++ l₂) fun m => safe (min m (l.length + 1)) ∧ safe₂ (m - l.length) := by
  refine Follows.coinduct
    (R := fun s l' safe' =>
      if s.on_second_ then Follows Fault.dangling second bound s.second_ l' safe'
      else ∃ l l₂ safe safe₂, l' = l ++ l₂ ∧ Follows Fault.dangling source bound s.first_ l safe ∧
        Follows Fault.dangling second bound s.second_ l₂ safe₂ ∧
          safe' = fun m => safe (min m (l.length + 1)) ∧ safe₂ (m - l.length))
    ⟨l, l₂, safe, safe₂, rfl, h, h₂, rfl⟩ ?_
  have hsecond : ∀ first fuel t, ChainStream.nextSecond (second fuel) ⟨first, t, true⟩ =
      (second fuel t).map fun p => (p.1, (⟨first, p.2, true⟩ : ChainStream σ τ)) := by
    intro first fuel t
    unfold ChainStream.nextSecond
    cases second fuel t <;> rfl
  rintro ⟨s, t, on_second⟩ l' safe' hR
  cases on_second with
  | true =>
    have hfollows : Follows Fault.dangling second bound t l' safe' := hR
    exact hfollows.step _ (fun fuel _ => hsecond s fuel t) hfollows.closed Iff.rfl
      fun t' hrest => ⟨rfl, hrest⟩
  | false =>
    obtain ⟨l, l₂, safe, safe₂, rfl, h, h₂, rfl⟩ := hR
    have hclosed : Closed fun m => safe (min m (l.length + 1)) ∧ safe₂ (m - l.length) :=
      ⟨⟨by simpa using h.closed.zero, by simpa using h₂.closed.zero⟩, fun m hm =>
        ⟨h.closed.mono (by omega) hm.1, h₂.closed.mono (by omega) hm.2⟩⟩
    obtain ⟨-, hfails, hgives⟩ := h.unfold
    by_cases hsource : safe 1
    · obtain ⟨s', hnext, hrest⟩ := hgives hsource
      cases l with
      | nil =>
        refine h₂.step (fun p => (p.1, ⟨s', p.2, true⟩)) (fun fuel hfuel => ?_) hclosed
          (by simp [hsource]) fun t' hrest => ⟨rfl, hrest.congr fun m => by simp [hsource]⟩
        simpa [ChainStream.next, hnext fuel hfuel] using hsecond s' fuel t
      | cons x l =>
        exact ⟨hclosed, fun hsafe => absurd ⟨by simpa using hsource, by simpa using h₂.closed.zero⟩
          hsafe, fun _ => ⟨⟨s', t, false⟩, fun fuel hfuel => by
            simp [ChainStream.next, hnext fuel hfuel], l, l₂, _, safe₂, rfl, hrest, h₂, by simp⟩⟩
    · exact ⟨hclosed, fun _ fuel hfuel => by simp [ChainStream.next, hfails hsource fuel hfuel],
        fun hsafe => absurd (by simpa using hsafe.1) hsource⟩

end Streams

end Pman
