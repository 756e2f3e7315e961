import Mathlib.Data.List.Basic

set_option autoImplicit false

/-!
# Producers that follow a list

A producer has a state, and every call of its `next` function gives an element, or nothing, and a
new state, or it fails. A producer follows a list when its calls give the elements of the list one
after the other and nothing from then on; it may be that only some number of calls are safe, and
that the call after them fails. The `next` functions come with fuel, and all statements are about
all fuel beyond a bound.

`Follows` is the greatest relation that is kept by the calls, so a combinator is treated by naming a
relation between its states and lists that its calls keep.
-/

namespace Producer

variable {ε σ T : Type*}

/-- The numbers of calls that are safe: no calls are, and fewer calls than a safe number. -/
structure Closed (safe : ℕ → Prop) : Prop where
  zero : safe 0
  pred : ∀ m, safe (m + 1) → safe m

variable {m : ℕ} {safe : ℕ → Prop}

lemma Closed.mono (h : Closed safe) {n : ℕ} (hmn : m ≤ n) (hn : safe n) : safe m := by
  induction hmn with
  | refl => exact hn
  | step _ ih => exact ih (h.pred _ hn)

/-- One call from `s`: it fails with `e` if it is not safe, and otherwise it gives the first element
of the list and goes to a state that is related to the rest. -/
structure Step (e : ε) (next : ℕ → σ → Except ε (Option T × σ)) (bound : ℕ)
    (R : σ → List T → (ℕ → Prop) → Prop) (s : σ) (l : List T) (safe : ℕ → Prop) : Prop where
  closed : Closed safe
  fails : ¬ safe 1 → ∀ fuel, bound ≤ fuel → next fuel s = .error e
  gives : safe 1 → ∃ s', (∀ fuel, bound ≤ fuel → next fuel s = .ok (l.head?, s')) ∧
    R s' l.tail fun m => safe (m + 1)

/-- **The calls from `s` follow the list `l`** as far as they are safe. -/
def Follows (e : ε) (next : ℕ → σ → Except ε (Option T × σ)) (bound : ℕ) (s : σ) (l : List T)
    (safe : ℕ → Prop) : Prop :=
  ∃ R : σ → List T → (ℕ → Prop) → Prop, R s l safe ∧
    ∀ s l safe, R s l safe → Step e next bound R s l safe

variable {safe' : ℕ → Prop}

namespace Follows

variable {e : ε} {next : ℕ → σ → Except ε (Option T × σ)} {bound : ℕ} {s : σ} {l : List T}
  {safe : ℕ → Prop}

lemma coinduct {R : σ → List T → (ℕ → Prop) → Prop} (h : R s l safe)
    (hstep : ∀ s l safe, R s l safe → Step e next bound R s l safe) :
    Follows e next bound s l safe := ⟨R, h, hstep⟩

variable (h : Follows e next bound s l safe)

include h

lemma unfold : Step e next bound (Follows e next bound) s l safe := by
  obtain ⟨R, hR, hstep⟩ := h
  obtain ⟨hclosed, hfails, hgives⟩ := hstep s l safe hR
  refine ⟨hclosed, hfails, fun hsafe => ?_⟩
  obtain ⟨s', hnext, hR'⟩ := hgives hsafe
  exact ⟨s', hnext, coinduct hR' hstep⟩

lemma closed : Closed safe := h.unfold.closed

lemma mono {bound' : ℕ} (hle : bound ≤ bound') : Follows e next bound' s l safe := by
  refine coinduct h fun s l safe h => ?_
  obtain ⟨hclosed, hfails, hgives⟩ := h.unfold
  refine ⟨hclosed, fun hsafe fuel hfuel => hfails hsafe fuel (Nat.le_trans hle hfuel),
    fun hsafe => ?_⟩
  obtain ⟨s', hnext, hrest⟩ := hgives hsafe
  exact ⟨s', fun fuel hfuel => hnext fuel (Nat.le_trans hle hfuel), hrest⟩

lemma congr (hiff : ∀ m, safe' m ↔ safe m) : Follows e next bound s l safe' := by
  obtain rfl : safe' = safe := funext fun m => propext (hiff m)
  exact h

end Follows

/-- A computation with a result that calls a producer `pulls` times: it fails if that is not safe,
and otherwise its result and the producer afterwards are as `post` says. -/
structure Call {β : Type*} (e : ε) (source : ℕ → σ → Except ε (Option T × σ)) (bound : ℕ)
    (safe : ℕ → Prop) (pulls : ℕ) (result : ℕ → Except ε β) (post : σ → List T → β → Prop) :
    Prop where
  fails : ¬ safe pulls → ∀ fuel, bound ≤ fuel → result fuel = .error e
  gives : safe pulls → ∃ s l b, (∀ fuel, bound ≤ fuel → result fuel = .ok b) ∧ post s l b ∧
    Follows e source bound s l fun m => safe (pulls + m)

variable {l : List T} {U σ' : Type*} {t : σ'}

/-- A call that calls a producer once, and does something with the answer. -/
lemma Follows.step {e : ε} {source : ℕ → σ → Except ε (Option T × σ)} {bound : ℕ} {s : σ}
    (h : Follows e source bound s l safe)
    {next : ℕ → σ' → Except ε (Option U × σ')} {R : σ' → List U → (ℕ → Prop) → Prop}
    {l' : List U} (f : Option T × σ → Option U × σ')
    (hnext : ∀ fuel, bound ≤ fuel → next fuel t = (source fuel s).map f) (hclosed : Closed safe')
    (hone : safe' 1 ↔ safe 1)
    (hrest : ∀ s', Follows e source bound s' l.tail (fun m => safe (m + 1)) →
      (f (l.head?, s')).1 = l'.head? ∧ R (f (l.head?, s')).2 l'.tail fun m => safe' (m + 1)) :
    Step e next bound R t l' safe' := by
  obtain ⟨-, hfails, hgives⟩ := h.unfold
  refine ⟨hclosed, fun hsafe fuel hfuel => ?_, fun hsafe => ?_⟩
  · rw [hnext fuel hfuel, hfails (fun h => hsafe (hone.mpr h)) fuel hfuel, Except.map]
  · obtain ⟨s', hok, hfollows⟩ := hgives (hone.mp hsafe)
    obtain ⟨hhead, hR⟩ := hrest s' hfollows
    refine ⟨_, fun fuel hfuel => ?_, hR⟩
    rw [hnext fuel hfuel, hok fuel hfuel, ← hhead, Except.map]

namespace Call

variable {β : Type*} {e : ε} {source : ℕ → σ → Except ε (Option T × σ)} {bound pulls : ℕ} {s : σ}
  {l : List T} {safe : ℕ → Prop} {result : ℕ → Except ε β} {post : σ → List T → β → Prop}

lemma done (h : Follows e source bound s l safe) {b : β}
    (hresult : ∀ fuel, bound ≤ fuel → result fuel = .ok b) (hpost : post s l b) :
    Call e source bound safe 0 result post :=
  ⟨fun hsafe => absurd h.closed.zero hsafe, fun _ =>
    ⟨s, l, b, hresult, hpost, h.congr fun m => by rw [Nat.zero_add]⟩⟩

lemma pull (h : Follows e source bound s l safe)
    (hfails : ∀ fuel, bound ≤ fuel → source fuel s = .error e → result fuel = .error e)
    (hgives : ∀ s', (∀ fuel, bound ≤ fuel → source fuel s = .ok (l.head?, s')) →
      Follows e source bound s' l.tail (fun m => safe (m + 1)) →
        Call e source bound (fun m => safe (m + 1)) pulls result post) :
    Call e source bound safe (pulls + 1) result post := by
  have hstep := h.unfold
  by_cases hone : safe 1
  · obtain ⟨s', hnext, hrest⟩ := hstep.gives hone
    obtain ⟨hbad, hgood⟩ := hgives s' hnext hrest
    refine ⟨hbad, fun hsafe => ?_⟩
    obtain ⟨s'', l', b, hresult, hpost, hfollows⟩ := hgood hsafe
    exact ⟨s'', l', b, hresult, hpost, hfollows.congr fun m => by rw [Nat.add_right_comm]⟩
  · refine ⟨fun _ fuel hfuel => hfails fuel hfuel (hstep.fails hone fuel hfuel), fun hsafe => ?_⟩
    exact absurd (hstep.closed.mono (Nat.le_add_left 1 pulls) hsafe) hone

lemma congr (hcall : Call e source bound safe pulls result post) {result' : ℕ → Except ε β}
    {post' : σ → List T → β → Prop} (hresult : ∀ fuel, bound ≤ fuel → result' fuel = result fuel)
    (hpost : ∀ s l b, post s l b → post' s l b) : Call e source bound safe pulls result' post' := by
  refine ⟨fun hsafe fuel hfuel => ?_, fun hsafe => ?_⟩
  · rw [hresult fuel hfuel, hcall.fails hsafe fuel hfuel]
  · obtain ⟨s, l, b, hok, hb, hfollows⟩ := hcall.gives hsafe
    refine ⟨s, l, b, fun fuel hfuel => ?_, hpost s l b hb, hfollows⟩
    rw [hresult fuel hfuel, hok fuel hfuel]

lemma step {next : ℕ → σ' → Except ε (Option U × σ')}
    {R : σ' → List U → (ℕ → Prop) → Prop} {l' : List U}
    {post : σ → List T → Option U × σ' → Prop}
    (hcall : Call e source bound safe pulls (fun fuel => next fuel t) post)
    (hclosed : Closed safe') (hone : safe' 1 ↔ safe pulls)
    (hrest : ∀ s l b, post s l b → (Follows e source bound s l fun m => safe (pulls + m)) →
      b.1 = l'.head? ∧ R b.2 l'.tail fun m => safe' (m + 1)) :
    Step e next bound R t l' safe' := by
  refine ⟨hclosed, fun hsafe => hcall.fails fun h => hsafe (hone.mpr h), fun hsafe => ?_⟩
  obtain ⟨s, l, ⟨value, t'⟩, hresult, hpost, hfollows⟩ := hcall.gives (hone.mp hsafe)
  obtain ⟨rfl, hR⟩ := hrest s l _ hpost hfollows
  exact ⟨t', hresult, hR⟩

end Call

def calls (next : σ → Except ε (Option T × σ)) : ℕ → σ → Except ε (List (Option T) × σ)
  | 0, s => .ok ([], s)
  | m + 1, s =>
    match next s with
    | .error e => .error e
    | .ok (value, s) =>
      match calls next m s with
      | .error e => .error e
      | .ok (values, s) => .ok (value :: values, s)

def answers (l : List T) (m : ℕ) : List (Option T) := (List.range m).map fun i => l[i]?

lemma answers_succ (l : List T) (m : ℕ) : answers l (m + 1) = l.head? :: answers l.tail m := by
  unfold answers
  rw [List.range_succ_eq_map, List.map_cons, List.map_map, List.head?_eq_getElem?]
  congr 1
  refine List.map_congr_left fun i _ => ?_
  simp

lemma answers_getElem?_none {i j : ℕ} (hij : i ≤ j) (hj : j < m)
    (hnone : (answers l m)[i]? = some none) : (answers l m)[j]? = some none := by
  simp only [answers, List.getElem?_map, List.getElem?_range (Nat.lt_of_le_of_lt hij hj),
    List.getElem?_range hj, Option.map_some, Option.some.injEq,
    List.getElem?_eq_none_iff] at hnone ⊢
  exact Nat.le_trans hnone hij

namespace Follows

variable {e : ε} {next : ℕ → σ → Except ε (Option T × σ)} {bound : ℕ} {s : σ} {l : List T}
  {safe : ℕ → Prop}

lemma calls_ok (h : Follows e next bound s l safe) (hm : safe m) :
    ∃ s', ∀ fuel, bound ≤ fuel → calls (next fuel) m s = .ok (answers l m, s') := by
  induction m generalizing s l safe with
  | zero => exact ⟨s, fun _ _ => rfl⟩
  | succ m ih =>
    obtain ⟨hclosed, -, hgives⟩ := h.unfold
    obtain ⟨s', hnext, hrest⟩ := hgives (hclosed.mono (Nat.le_add_left 1 m) hm)
    obtain ⟨s'', hcalls⟩ := ih hrest hm
    refine ⟨s'', fun fuel hfuel => ?_⟩
    simp only [calls, hnext fuel hfuel, hcalls fuel hfuel, answers_succ]

lemma calls_error (h : Follows e next bound s l safe) (hm : ¬ safe m) {fuel : ℕ}
    (hfuel : bound ≤ fuel) : calls (next fuel) m s = .error e := by
  induction m generalizing s l safe with
  | zero => exact absurd h.closed.zero hm
  | succ m ih =>
    obtain ⟨hclosed, hfails, hgives⟩ := h.unfold
    by_cases hone : safe 1
    · obtain ⟨s', hnext, hrest⟩ := hgives hone
      simp only [calls, hnext fuel hfuel, ih hrest hm]
    · simp only [calls, hfails hone fuel hfuel]

end Follows

end Producer
