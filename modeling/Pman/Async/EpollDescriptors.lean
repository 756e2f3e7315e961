import Mathlib.Data.Int.Notation
import Mathlib.Data.List.Nodup
import Mathlib.Data.List.Perm.Basic
import Mathlib.Logic.Function.Iterate
import Pman.Lib.TransitionSystem

set_option autoImplicit false

/-!
# Descriptors of the epoll loop

`EpollLoop` hands the interest mask of a descriptor to the kernel, and what the kernel reports to
the callback of the descriptor, both by a cast between the word of `Event` and the word of
`epoll_event::events`. Only reading has the same bit in both: interest in writing asks the kernel
for urgent data, a descriptor with urgent data is reported as writable, and one with an error as
hung up.

The kernel reports at most as many descriptors in one call as the loop has room for, and goes on
with the others in the next call.

## Main results

* `faithful_iff`: when readiness is translated faithfully.
-/

namespace Pman

open List Function

/-! ### The two words -/

namespace EventLoop

structure Event where
  value : BitVec 32
deriving DecidableEq, Repr

namespace Event

def read : Event := ⟨1⟩

def write : Event := ⟨2⟩

def error : Event := ⟨4⟩

def hangUp : Event := ⟨8⟩

def or (a b : Event) : Event := ⟨a.value ||| b.value⟩

def has (a b : Event) : Bool := a.value &&& b.value != 0

def Interest (e : Event) : Prop := e = read ∨ e = write ∨ e = read.or write
  deriving Decidable

end Event

end EventLoop

open EventLoop (Event)

structure Readiness where
  readable : Bool := false
  priority : Bool := false
  writable : Bool := false
  error : Bool := false
  hangUp : Bool := false
deriving DecidableEq, Repr

namespace Epoll

/-! The bits of `epoll_event::events`. -/

def EPOLLIN : BitVec 32 := 0x1

def EPOLLPRI : BitVec 32 := 0x2

def EPOLLOUT : BitVec 32 := 0x4

def EPOLLERR : BitVec 32 := 0x8

def EPOLLHUP : BitVec 32 := 0x10

def bit (b : Bool) (x : BitVec 32) : BitVec 32 := if b then x else 0

def bits (r : Readiness) : BitVec 32 :=
  bit r.readable EPOLLIN ||| bit r.priority EPOLLPRI ||| bit r.writable EPOLLOUT |||
    bit r.error EPOLLERR ||| bit r.hangUp EPOLLHUP

/-- What the kernel reports: the conditions asked for, errors and hang-ups always. -/
def revents (events : BitVec 32) (r : Readiness) : BitVec 32 :=
  bits r &&& (events ||| EPOLLERR ||| EPOLLHUP)

end Epoll

/-- **What the two casts make of a descriptor's conditions**: interest in reading is served, a
reported `Write` is urgent data, `Error` is never reported, and a reported `HangUp` is an error. -/
lemma EventLoop.Event.has_cast {e : Event} (he : e.Interest) (r : Readiness) :
    (Event.mk (Epoll.revents e.value r)).has .read = (e.has .read && r.readable) ∧
      (Event.mk (Epoll.revents e.value r)).has .write = (e.has .write && r.priority) ∧
      (Event.mk (Epoll.revents e.value r)).has .error = false ∧
      (Event.mk (Epoll.revents e.value r)).has .hangUp = r.error := by
  obtain ⟨readable, priority, writable, error, hangUp⟩ := r
  rcases he with rfl | rfl | rfl <;> cases readable <;> cases priority <;> cases writable <;>
    cases error <;> cases hangUp <;> decide

/-! ### The descriptors of a loop -/

namespace EpollLoop

/-- What the loop keeps about its descriptors. `epoll` are the entries of the epoll instance, in
the order in which the kernel looks at them. -/
structure Descriptors (κ : Type*) where
  eventFd_ : ℤ
  epoll : List (ℤ × BitVec 32)
  fdCallbacks_ : ℤ → Option κ

structure Call (κ : Type*) where
  fd : ℤ
  callback : κ
  event : Event

namespace Descriptors

variable {κ : Type*}

def new (eventFd : ℤ) : Descriptors κ where
  eventFd_ := eventFd
  epoll := [(eventFd, Epoll.EPOLLIN)]
  fdCallbacks_ := fun _ => none

def listed (d : Descriptors κ) (fd : ℤ) : Bool := d.epoll.any fun e => e.1 == fd

/-- `addFd`; `epoll_ctl` fails for a descriptor that has an entry, and may fail for others. -/
def addFd (d : Descriptors κ) (fd : ℤ) (events : Event) (callback : κ) (fails : Bool) :
    Except String (Descriptors κ) :=
  if d.listed fd || fails then .error "Failed to add fd to epoll"
  else
    .ok { d with
      epoll := d.epoll ++ [(fd, events.value)]
      fdCallbacks_ := update d.fdCallbacks_ fd (some callback) }

/-- `modifyFd`, which ignores that there may be no entry. -/
def modifyFd (d : Descriptors κ) (fd : ℤ) (events : Event) : Descriptors κ :=
  { d with epoll := d.epoll.map fun e => if e.1 = fd then (fd, events.value) else e }

def removeFd (d : Descriptors κ) (fd : ℤ) : Descriptors κ :=
  { d with
    epoll := d.epoll.filter fun e => e.1 != fd
    fdCallbacks_ := update d.fdCallbacks_ fd none }

def pending (d : Descriptors κ) (ready : ℤ → Readiness) : List (ℤ × BitVec 32) :=
  d.epoll.filter fun e => Epoll.revents e.2 (ready e.1) != 0

/-- `epoll_wait` with room for `64` events: the first entries with something to report are
reported, and the kernel looks at them last the next time. -/
def epollWait (d : Descriptors κ) (ready : ℤ → Readiness) :
    Descriptors κ × List (ℤ × BitVec 32) :=
  let idle := d.epoll.filter fun e => Epoll.revents e.2 (ready e.1) == 0
  let pending := d.pending ready
  ({ d with epoll := idle ++ (pending.drop 64 ++ pending.take 64) },
    (pending.take 64).map fun e => (e.1, Epoll.revents e.2 (ready e.1)))

def dispatch (d : Descriptors κ) (events : List (ℤ × BitVec 32)) : List (Call κ) :=
  events.filterMap fun e =>
    if e.1 = d.eventFd_ then none
    else (d.fdCallbacks_ e.1).map fun callback => ⟨e.1, callback, ⟨e.2⟩⟩

/-- An iteration of `run` or `runOnce`, of which only the descriptors are seen here. -/
def iteration (ready : ℤ → Readiness) (d : Descriptors κ) : Descriptors κ × List (Call κ) :=
  match d.epollWait ready with
  | (d', events) => (d', d.dispatch events)

/-- The callbacks called in the iteration after `n` others, while nothing changes. -/
def calls (d : Descriptors κ) (ready : ℤ → Readiness) (n : ℕ) : List (Call κ) :=
  (iteration ready ((fun d => (iteration ready d).1)^[n] d)).2

def Registered (d : Descriptors κ) (fd : ℤ) (e : Event) : Prop :=
  fd ≠ d.eventFd_ ∧ (fd, e.value) ∈ d.epoll

end Descriptors

open Descriptors

variable {κ : Type*}

inductive FdAct (κ : Type*)
  | addFd (fd : ℤ) (events : Event) (callback : κ) (fails : Bool)
  | modifyFd (fd : ℤ) (events : Event)
  | removeFd (fd : ℤ)
  /-- An iteration, with the conditions that hold of the descriptors. -/
  | iteration (ready : ℤ → Readiness)

def fdStep (d : Descriptors κ) : FdAct κ → Option (Descriptors κ)
  | .addFd fd events callback fails =>
    match d.addFd fd events callback fails with
    | .ok d => some d
    | .error _ => some d
  | .modifyFd fd events => some (d.modifyFd fd events)
  | .removeFd fd => some (d.removeFd fd)
  | .iteration ready => some (Descriptors.iteration ready d).1

def descriptors (κ : Type*) : TransitionSystem (Descriptors κ) (FdAct κ) where
  init d := ∃ eventFd, d = Descriptors.new eventFd
  step := fdStep

def InterestOk (_ : Descriptors κ) : FdAct κ → Prop
  | .addFd _ events _ _ => events.Interest
  | .modifyFd _ events => events.Interest
  | _ => True

instance (d : Descriptors κ) (a : FdAct κ) : Decidable (InterestOk d a) := by
  cases a <;> dsimp only [InterestOk] <;> infer_instance

/-- **Readiness is translated faithfully**: a descriptor that is readable (writable) and registered
for `Read` (`Write`) is reported to its callback with that bit, and callbacks see no bit whose
condition does not hold. -/
structure Faithful (d : Descriptors κ) (ready : ℤ → Readiness) : Prop where
  read : ∀ fd e, d.Registered fd e → e.has .read = true → (ready fd).readable = true →
    ∃ n, ∃ call ∈ d.calls ready n, call.fd = fd ∧ call.event.has .read = true
  write : ∀ fd e, d.Registered fd e → e.has .write = true → (ready fd).writable = true →
    ∃ n, ∃ call ∈ d.calls ready n, call.fd = fd ∧ call.event.has .write = true
  sound : ∀ n, ∀ call ∈ d.calls ready n,
    (call.event.has .read = true → (ready call.fd).readable = true) ∧
    (call.event.has .write = true → (ready call.fd).writable = true) ∧
    (call.event.has .error = true → (ready call.fd).error = true) ∧
    (call.event.has .hangUp = true → (ready call.fd).hangUp = true)

/-! ### The epoll instance and the callbacks -/

/-- Every descriptor has one entry at most, with a mask built from `Read` and `Write` and with a
callback; the loop's own `eventFd_` apart. -/
structure Consistent (d : Descriptors κ) : Prop where
  nodup : (d.epoll.map Prod.fst).Nodup
  interest : ∀ e ∈ d.epoll, e.1 ≠ d.eventFd_ → (Event.mk e.2).Interest
  callback : ∀ e ∈ d.epoll, e.1 ≠ d.eventFd_ → (d.fdCallbacks_ e.1).isSome = true

namespace Consistent

variable {d : Descriptors κ}

lemma new (eventFd : ℤ) : Consistent (Descriptors.new eventFd : Descriptors κ) := by
  refine ⟨nodup_singleton _, fun e he hne => ?_, fun e he hne => ?_⟩
  · rw [mem_singleton.mp he] at hne
    exact absurd rfl hne
  · rw [mem_singleton.mp he] at hne
    exact absurd rfl hne

variable {events : Event}

lemma addFd (h : Consistent d) {fd : ℤ} (he : events.Interest) (callback : κ)
    (hnot : d.listed fd = false) :
    Consistent { d with
      epoll := d.epoll ++ [(fd, events.value)]
      fdCallbacks_ := update d.fdCallbacks_ fd (some callback) } := by
  have hfresh : ∀ e ∈ d.epoll, e.1 ≠ fd := by
    simpa [Descriptors.listed] using hnot
  refine ⟨?_, fun e hmem hne => ?_, fun e hmem hne => ?_⟩
  · rw [map_append, nodup_append]
    refine ⟨h.nodup, nodup_singleton _, fun a ha b hb => ?_⟩
    obtain ⟨e, hmem, rfl⟩ := mem_map.mp ha
    rw [mem_singleton.mp hb]
    exact hfresh e hmem
  · rcases mem_concat.mp hmem with hmem | rfl
    · exact h.interest e hmem hne
    · exact he
  · show (update d.fdCallbacks_ fd (some callback) e.1).isSome = true
    rcases mem_concat.mp hmem with hmem | rfl
    · rw [update_of_ne (hfresh e hmem)]
      exact h.callback e hmem hne
    · rw [update_self]
      rfl

lemma modifyFd (h : Consistent d) (fd : ℤ) (he : events.Interest) :
    Consistent (d.modifyFd fd events) := by
  have hfst : ∀ e : ℤ × BitVec 32, (if e.1 = fd then (fd, events.value) else e).1 = e.1 := by
    intro e
    split_ifs with heq
    · exact heq.symm
    · rfl
  refine ⟨?_, fun e hmem hne => ?_, fun e hmem hne => ?_⟩
  · have hmap : (d.modifyFd fd events).epoll.map Prod.fst = d.epoll.map Prod.fst := by
      rw [Descriptors.modifyFd, map_map]
      exact map_congr_left fun e _ => hfst e
    rw [hmap]
    exact h.nodup
  · obtain ⟨x, hx, rfl⟩ := mem_map.mp hmem
    rw [hfst] at hne
    split_ifs
    · exact he
    · exact h.interest x hx hne
  · obtain ⟨x, hx, rfl⟩ := mem_map.mp hmem
    rw [hfst] at hne ⊢
    exact h.callback x hx hne

lemma removeFd (h : Consistent d) (fd : ℤ) : Consistent (d.removeFd fd) := by
  refine ⟨h.nodup.sublist (filter_sublist.map _), fun e hmem hne => ?_, fun e hmem hne => ?_⟩
  · exact h.interest e (mem_filter.mp hmem).1 hne
  · obtain ⟨hmem, hfd⟩ := mem_filter.mp hmem
    show (update d.fdCallbacks_ fd none e.1).isSome = true
    rw [update_of_ne (by simpa using hfd)]
    exact h.callback e hmem hne

lemma perm (h : Consistent d) {epoll : List (ℤ × BitVec 32)} (hp : epoll.Perm d.epoll) :
    Consistent { d with epoll := epoll } :=
  ⟨(hp.map Prod.fst).nodup_iff.mpr h.nodup, fun e he => h.interest e (hp.mem_iff.mp he),
    fun e he => h.callback e (hp.mem_iff.mp he)⟩

end Consistent

lemma epollWait_perm (d : Descriptors κ) (ready : ℤ → Readiness) :
    (d.epollWait ready).1.epoll.Perm d.epoll := by
  have hturn : ((d.pending ready).drop 64 ++ (d.pending ready).take 64).Perm (d.pending ready) := by
    refine perm_append_comm.trans (List.Perm.of_eq ?_)
    exact take_append_drop 64 _
  refine (hturn.append_left _).trans (perm_append_comm.trans ?_)
  have hpart := filter_append_perm (fun e => Epoll.revents e.2 (ready e.1) != 0) d.epoll
  refine (List.Perm.of_eq ?_).trans hpart
  simp [Descriptors.pending, bne]

variable {d : Descriptors κ} {ready : ℤ → Readiness}

lemma consistent_of_reachable (h : (descriptors κ).ReachableWithin InterestOk d) :
    Consistent d := by
  refine h.invariant ?_ fun d a d' hd hok hst => ?_
  · rintro _ ⟨eventFd, rfl⟩
    exact .new eventFd
  · cases a with
    | addFd fd events callback fails =>
      simp only [descriptors, fdStep, Descriptors.addFd] at hst
      split_ifs at hst with hfail <;> cases hst
      · exact hd
      · rw [Bool.not_eq_true, Bool.or_eq_false_iff] at hfail
        exact hd.addFd hok callback hfail.1
    | modifyFd fd events =>
      cases hst
      exact hd.modifyFd fd hok
    | removeFd fd =>
      cases hst
      exact hd.removeFd fd
    | iteration ready =>
      cases hst
      exact hd.perm (epollWait_perm d ready)

/-! ### Who is called -/

def turn {α : Type*} (l : List α) : List α := l.drop 64 ++ l.take 64

variable {α : Type*} {a : α}

/-- Everybody's turn comes.

**Proof sketch.** By induction on the place in the list: each turn brings it `64` places forward. -/
lemma exists_mem_take_turn {l : List α} (h : a ∈ l) : ∃ n, a ∈ (turn^[n] l).take 64 := by
  obtain ⟨i, hi⟩ := List.mem_iff_getElem?.mp h
  induction i using Nat.strongRecOn generalizing l with
  | ind i ih =>
    by_cases hlt : i < 64
    · refine ⟨0, List.mem_iff_getElem?.mpr ⟨i, ?_⟩⟩
      rw [iterate_zero, id_eq, List.getElem?_take_of_lt hlt]
      exact hi
    · have hdrop : (l.drop 64)[i - 64]? = some a := by
        rw [List.getElem?_drop, Nat.add_sub_cancel' (Nat.not_lt.mp hlt)]
        exact hi
      have hturn : (turn l)[i - 64]? = some a := by
        have hlen := (List.getElem?_eq_some_iff.mp hdrop).1
        rw [turn, List.getElem?_append_left hlen]
        exact hdrop
      obtain ⟨n, hn⟩ := ih (i - 64) (by omega) (List.mem_of_getElem? hturn) hturn
      exact ⟨n + 1, hn⟩

lemma pending_iteration (ready : ℤ → Readiness) (d : Descriptors κ) :
    ((Descriptors.iteration ready d).1.pending ready) = turn (d.pending ready) := by
  have hidle : (d.epoll.filter fun e => Epoll.revents e.2 (ready e.1) == 0).filter
      (fun e => Epoll.revents e.2 (ready e.1) != 0) = [] := by
    simp [filter_filter, bne]
  have hkeep : ∀ l : List (ℤ × BitVec 32), l.Sublist (d.pending ready) →
      (l.filter fun e => Epoll.revents e.2 (ready e.1) != 0) = l := by
    intro l hl
    exact filter_eq_self.mpr fun e he => (mem_filter.mp (hl.subset he)).2
  show filter _ (_ ++ (_ ++ _)) = turn (d.pending ready)
  rw [filter_append, filter_append, hidle, hkeep _ (drop_sublist _ _), hkeep _ (take_sublist _ _)]
  rfl

lemma after_iterations (ready : ℤ → Readiness) (d : Descriptors κ) (n : ℕ) :
    ((fun d => (Descriptors.iteration ready d).1)^[n] d).eventFd_ = d.eventFd_ ∧
      ((fun d => (Descriptors.iteration ready d).1)^[n] d).fdCallbacks_ = d.fdCallbacks_ ∧
      ((fun d => (Descriptors.iteration ready d).1)^[n] d).pending ready =
        turn^[n] (d.pending ready) := by
  induction n with
  | zero => exact ⟨rfl, rfl, rfl⟩
  | succ n ih =>
    obtain ⟨hfd, hcb, hp⟩ := ih
    rw [iterate_succ_apply', iterate_succ_apply', pending_iteration, hp]
    exact ⟨hfd, hcb, rfl⟩

lemma iteration_calls (ready : ℤ → Readiness) (d : Descriptors κ) :
    (Descriptors.iteration ready d).2 = d.dispatch
      (((d.pending ready).take 64).map fun e => (e.1, Epoll.revents e.2 (ready e.1))) := rfl

variable {n : ℕ} {call : Call κ} {fd : ℤ} {e b : Event}

lemma mem_calls :
    call ∈ d.calls ready n ↔ ∃ e ∈ (turn^[n] (d.pending ready)).take 64, e.1 ≠ d.eventFd_ ∧
      ∃ callback, d.fdCallbacks_ e.1 = some callback ∧
        call = ⟨e.1, callback, ⟨Epoll.revents e.2 (ready e.1)⟩⟩ := by
  obtain ⟨hfd, hcb, hp⟩ := after_iterations ready d n
  rw [Descriptors.calls, iteration_calls, Descriptors.dispatch, hfd, hcb, hp, mem_filterMap]
  constructor
  · rintro ⟨x, hx, hcall⟩
    obtain ⟨e, he, rfl⟩ := mem_map.mp hx
    split_ifs at hcall with heq
    obtain ⟨callback, hsome, rfl⟩ := Option.map_eq_some_iff.mp hcall
    exact ⟨e, he, heq, callback, hsome, rfl⟩
  · rintro ⟨e, he, hne, callback, hsome, rfl⟩
    refine ⟨_, mem_map_of_mem he, ?_⟩
    rw [if_neg hne, hsome]
    rfl

lemma mem_turn_iterate {l : List α} (n : ℕ) : a ∈ turn^[n] l ↔ a ∈ l := by
  induction n with
  | zero => exact Iff.rfl
  | succ n ih =>
    rw [iterate_succ_apply', turn, mem_append, or_comm, ← mem_append, take_append_drop, ih]

lemma Consistent.of_mem_calls (h : Consistent d) (hcall : call ∈ d.calls ready n) :
    ∃ e : Event, e.Interest ∧ d.Registered call.fd e ∧
      call.event = ⟨Epoll.revents e.value (ready call.fd)⟩ := by
  obtain ⟨e, he, hne, callback, -, rfl⟩ := mem_calls.mp hcall
  have hmem := (mem_filter.mp ((mem_turn_iterate n).mp (mem_of_mem_take he))).1
  exact ⟨⟨e.2⟩, h.interest e hmem hne, ⟨hne, hmem⟩, rfl⟩

lemma Consistent.exists_call (h : Consistent d) (hreg : d.Registered fd e)
    (hne : Epoll.revents e.value (ready fd) ≠ 0) :
    ∃ n, ∃ call ∈ d.calls ready n,
      call.fd = fd ∧ call.event = ⟨Epoll.revents e.value (ready fd)⟩ := by
  have hpending : (fd, e.value) ∈ d.pending ready := mem_filter.mpr ⟨hreg.2, bne_iff_ne.mpr hne⟩
  obtain ⟨n, hn⟩ := exists_mem_take_turn hpending
  obtain ⟨callback, hsome⟩ := Option.isSome_iff_exists.mp (h.callback _ hreg.2 hreg.1)
  exact ⟨n, _, mem_calls.mpr ⟨_, hn, hreg.1, callback, hsome, rfl⟩, rfl, rfl⟩

lemma ne_zero_of_has {x : BitVec 32} (h : (Event.mk x).has b = true) : x ≠ 0 := by
  rintro rfl
  simp [Event.has] at h

lemma Consistent.exists_call_of_has (h : Consistent d) (hreg : d.Registered fd e)
    (hb : (Event.mk (Epoll.revents e.value (ready fd))).has b = true) :
    ∃ n, ∃ call ∈ d.calls ready n, call.fd = fd ∧ call.event.has b = true := by
  obtain ⟨n, call, hcall, hfd, hevent⟩ := h.exists_call hreg (ne_zero_of_has hb)
  exact ⟨n, call, hcall, hfd, hevent ▸ hb⟩

/-! ### When the translation is faithful -/

/-- **When readiness is translated faithfully**, for every set of registrations with masks built
from `Read` and `Write` and every readiness of the descriptors: exactly when a descriptor
registered for `Write` is writable if and only if it has urgent data, and a descriptor with an
error is hung up as well. -/
theorem faithful_iff {d : Descriptors κ} (h : (descriptors κ).ReachableWithin InterestOk d)
    (ready : ℤ → Readiness) :
    Faithful d ready ↔ ∀ fd e, d.Registered fd e →
      (e.has .write = true → ((ready fd).writable = true ↔ (ready fd).priority = true)) ∧
      ((ready fd).error = true → (ready fd).hangUp = true) := by
  have hcons := consistent_of_reachable h
  constructor
  · intro hf fd e hreg
    obtain ⟨-, hwrite, -, hhang⟩ := Event.has_cast (hcons.interest _ hreg.2 hreg.1) (ready fd)
    refine ⟨fun hw => ⟨fun hwritable => ?_, fun hprio => ?_⟩, fun herr => ?_⟩
    · obtain ⟨n, call, hcall, rfl, hhas⟩ := hf.write fd e hreg hw hwritable
      obtain ⟨e', he', hreg', hevent⟩ := hcons.of_mem_calls hcall
      rw [hevent, (Event.has_cast he' _).2.1, Bool.and_eq_true] at hhas
      exact hhas.2
    · obtain ⟨n, call, hcall, rfl, hhas⟩ := hcons.exists_call_of_has (b := .write) hreg
        (by rw [hwrite, hw, hprio]; rfl)
      exact (hf.sound n call hcall).2.1 hhas
    · obtain ⟨n, call, hcall, rfl, hhas⟩ := hcons.exists_call_of_has (b := .hangUp) hreg
        (by rw [hhang, herr])
      exact (hf.sound n call hcall).2.2.2 hhas
  · intro hcond
    refine ⟨fun fd e hreg hr hreadable => ?_, fun fd e hreg hw hwritable => ?_,
      fun n call hcall => ?_⟩
    · have hcast := Event.has_cast (hcons.interest _ hreg.2 hreg.1) (ready fd)
      exact hcons.exists_call_of_has hreg (by rw [hcast.1, hr, hreadable]; rfl)
    · have hcast := Event.has_cast (hcons.interest _ hreg.2 hreg.1) (ready fd)
      have hprio := ((hcond fd e hreg).1 hw).mp hwritable
      exact hcons.exists_call_of_has hreg (by rw [hcast.2.1, hw, hprio]; rfl)
    · obtain ⟨e, he, hreg, hevent⟩ := hcons.of_mem_calls hcall
      obtain ⟨hread, hwrite, herror, hhang⟩ := Event.has_cast he (ready call.fd)
      obtain ⟨hprio, herr⟩ := hcond call.fd e hreg
      rw [hevent, hread, hwrite, herror, hhang, Bool.and_eq_true, Bool.and_eq_true]
      exact ⟨And.right, fun hw => (hprio hw.1).mpr hw.2, fun h => absurd h Bool.false_ne_true, herr⟩

def writableAt (fd : ℤ) : ℤ → Readiness := fun x => if x = fd then { writable := true } else {}

lemma reachable_oneDescriptor (events : Event) (he : events.Interest) :
    (descriptors Unit).ReachableWithin InterestOk
      ⟨3, [(3, Epoll.EPOLLIN), (5, events.value)], update (fun _ => none) 5 (some ())⟩ :=
  .step (.init ⟨3, rfl⟩) (a := .addFd 5 events () false) he rfl

/-- A descriptor registered for `Read` and `Write` is reported if it is readable, writable and hung
up with an error, and has urgent data as well. -/
theorem faithful_iff_readWrite :
    Faithful (κ := Unit) ⟨3, [(3, 1), (5, 3)], update (fun _ => none) 5 (some ())⟩
      (fun _ => ⟨true, true, true, true, true⟩) := by
  refine (faithful_iff (reachable_oneDescriptor (.or .read .write) (.inr (.inr rfl))) _).mpr ?_
  exact fun fd e _ => ⟨fun _ => Iff.rfl, fun _ => rfl⟩

/-- **A writable descriptor is never reported.** Descriptor `5` is registered for `Write` and
writable, and no iteration calls its callback. -/
theorem not_faithful_write :
    ¬ ∀ (d : Descriptors Unit) (ready : ℤ → Readiness),
      (descriptors Unit).ReachableWithin InterestOk d → Faithful d ready := by
  intro h
  have hf := h _ (writableAt 5) (reachable_oneDescriptor .write (.inr (.inl rfl)))
  obtain ⟨n, call, hcall, -, -⟩ := hf.write 5 .write ⟨by decide, by decide⟩ rfl rfl
  obtain ⟨e, he, -⟩ := mem_calls.mp hcall
  have hmem := (mem_turn_iterate n).mp (mem_of_mem_take he)
  exact absurd hmem (by rw [show Descriptors.pending _ (writableAt 5) = [] from rfl]; simp)

end EpollLoop

end Pman
