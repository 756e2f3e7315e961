import Mathlib.Data.Int.Notation
import Mathlib.Data.List.Nodup

set_option autoImplicit false

/-!
# Children of the process, and the handles to them

What the kernel keeps about the children that the process has launched: a child is in its table from
its launch until a `waitpid` reaps it. Until then its number is not given to another process; after
that the kernel may use the number again, for another child or for a process that is none of ours.

A `ProcessHandle` keeps the number of a child. It forgets the number when its own `waitpid` reaps
the child, but does not learn of a child that was reaped by somebody else.

Launches are numbered, so that a child can be told from a later one with the same number. The log
has the launches, the signals sent and the children reaped in their order.
-/

namespace Pman.Process

open List

inductive Signal
  | term
  | kill
deriving DecidableEq, Repr

inductive Errno
  | esrch
  | echild
  | eintr
  | other
deriving DecidableEq, Repr

/-- Whose `waitpid` reaps a child: one for any child, or one through a handle. -/
inductive Reaper
  | any
  | handle
deriving DecidableEq, Repr

/-- What happens to children. A signal is logged with the number it is sent to and with the launch
that its handle was made for. -/
inductive Event
  | launched (launch : ℕ) (pid : ℤ)
  | signalled (signal : Signal) (pid : ℤ) (launch : ℕ)
  | reaped (launch : ℕ) (reaper : Reaper)
deriving DecidableEq, Repr

/-- A child that was not reaped; `exited` is its wait status once it has exited. -/
structure Child where
  pid : ℤ
  launch : ℕ
  exited : Option ℕ
deriving DecidableEq, Repr

/-- The children, the number of launches so far, and what has happened. -/
structure Kernel where
  children : List Child
  launches : ℕ
  log : List Event

inductive WaitResult
  | exited (child : Child) (status : ℕ)
  | running
  | noChild
deriving DecidableEq, Repr

namespace Kernel

def init : Kernel := ⟨[], 0, []⟩

def free (k : Kernel) (pid : ℤ) : Bool := decide (0 < pid) && !(k.children.any (·.pid == pid))

def launch (k : Kernel) (pid : ℤ) : Kernel where
  children := k.children ++ [⟨pid, k.launches, none⟩]
  launches := k.launches + 1
  log := k.log ++ [.launched k.launches pid]

def signal (k : Kernel) (signal : Signal) (pid : ℤ) (launch : ℕ) : Kernel :=
  { k with log := k.log ++ [.signalled signal pid launch] }

/-- The error of a `kill(2)`, which is not `ESRCH` as long as the child is not reaped. -/
def signalError (k : Kernel) (pid : ℤ) : Option Errno → Option Errno
  | none => none
  | some .esrch => if k.children.any (·.pid == pid) then none else some .esrch
  | some _ => some .other

def exit (k : Kernel) (launch status : ℕ) : Kernel :=
  { k with
    children := k.children.map fun c =>
      if c.launch = launch ∧ c.exited = none then { c with exited := some status } else c }

def reap (k : Kernel) (child : Child) (reaper : Reaper) : Kernel :=
  { k with
    children := k.children.filter fun c => c.launch != child.launch
    log := k.log ++ [.reaped child.launch reaper] }

def waitpid (k : Kernel) (pid : ℤ) : WaitResult :=
  match k.children.find? (·.pid == pid) with
  | none => .noChild
  | some child =>
    match child.exited with
    | none => .running
    | some status => .exited child status

/-- What `waitpid(-1, .., WNOHANG)` finds: if children have exited, one of them, which the kernel
chooses. -/
def waitAny (k : Kernel) (choice : ℤ) : Option (Child × ℕ) :=
  let exited := k.children.filterMap fun c => c.exited.map fun status => (c, status)
  (exited.find? fun c => c.1.pid == choice).or exited.head?

def hasExited (k : Kernel) (launch : ℕ) : Bool :=
  k.children.all fun c => c.launch != launch || c.exited.isSome

end Kernel

/-- A handle; `launch` is the launch it was made for, and `pidfd_` says whether it has a pidfd. -/
structure ProcessHandle where
  pid_ : ℤ
  pidfd_ : Bool
  launch : ℕ
deriving DecidableEq, Repr

namespace ProcessHandle

def valid (h : ProcessHandle) : Bool := decide (0 < h.pid_)

/-- What `wait` and `tryWait` do to the handle when they have reaped the child. -/
def forget (h : ProcessHandle) : ProcessHandle := { h with pid_ := -1, pidfd_ := false }

lemma valid_forget (h : ProcessHandle) : h.forget.valid = false := rfl

end ProcessHandle

/-! ### The log -/

def Reaped (log : List Event) (launch : ℕ) : Prop := ∃ reaper, .reaped launch reaper ∈ log

/-- **Every signal went to a living child**: to a number that `launchProcess` had returned, for the
launch that the handle was made for, and that no `waitpid` had reaped since. -/
def SignalsLive (log : List Event) : Prop :=
  ∀ before after signal pid launch, log = before ++ .signalled signal pid launch :: after →
    .launched launch pid ∈ before ∧ ¬ Reaped before launch

lemma SignalsLive.nil : SignalsLive [] := by
  intro before after signal pid launch heq
  cases before <;> cases heq

variable {log : List Event} {e : Event}

lemma SignalsLive.concat (h : SignalsLive log)
    (he : ∀ signal pid launch, e = .signalled signal pid launch →
      .launched launch pid ∈ log ∧ ¬ Reaped log launch) : SignalsLive (log ++ [e]) := by
  intro before after signal pid launch heq
  rcases eq_nil_or_concat after with rfl | ⟨after, e', rfl⟩
  · obtain ⟨rfl, hsingle⟩ := append_inj' heq rfl
    exact he signal pid launch (singleton_inj.mp hsingle)
  · rw [concat_eq_append, ← cons_append, ← append_assoc] at heq
    exact h before after signal pid launch (append_inj' heq rfl).1

lemma SignalsLive.concat_of_ne (h : SignalsLive log)
    (he : ∀ signal pid launch, e ≠ .signalled signal pid launch) : SignalsLive (log ++ [e]) :=
  h.concat fun signal pid launch heq => absurd heq (he signal pid launch)

lemma reaped_concat {launch : ℕ} :
    Reaped (log ++ [e]) launch ↔ Reaped log launch ∨ ∃ reaper, e = .reaped launch reaper := by
  constructor
  · rintro ⟨reaper, h⟩
    rcases mem_append.mp h with h | h
    · exact .inl ⟨reaper, h⟩
    · exact .inr ⟨reaper, (mem_singleton.mp h).symm⟩
  · rintro (⟨reaper, h⟩ | ⟨reaper, rfl⟩)
    · exact ⟨reaper, mem_append_left _ h⟩
    · exact ⟨reaper, mem_append_right _ (mem_singleton_self _)⟩

/-! ### The table of children -/

namespace Kernel

variable {k : Kernel}

/-- The table has exactly the children that were launched and not reaped. -/
structure Consistent (k : Kernel) : Prop where
  launched : ∀ c ∈ k.children, .launched c.launch c.pid ∈ k.log
  unreaped : ∀ c ∈ k.children, ¬ Reaped k.log c.launch
  listed : ∀ launch pid, .launched launch pid ∈ k.log → ¬ Reaped k.log launch →
    ∃ c ∈ k.children, c.launch = launch ∧ c.pid = pid
  pids : (k.children.map Child.pid).Nodup
  launches : (k.children.map Child.launch).Nodup
  /-- The numbers of the launches are in use up to the next one. -/
  fresh : ∀ launch pid, .launched launch pid ∈ k.log → launch < k.launches
  reaped : ∀ launch, Reaped k.log launch → launch < k.launches

namespace Consistent

lemma init : Kernel.init.Consistent where
  launched := nofun
  unreaped := nofun
  listed := nofun
  pids := nodup_nil
  launches := nodup_nil
  fresh := nofun
  reaped := fun _ ⟨_, h⟩ => nomatch h

variable (h : k.Consistent)

include h

lemma launch {pid : ℤ} (hfree : k.free pid = true) : (k.launch pid).Consistent := by
  have hnot : ∀ c ∈ k.children, c.pid ≠ pid := by
    simpa [Kernel.free] using (Bool.and_eq_true_iff.mp hfree).2
  have hnew : ¬ Reaped k.log k.launches := fun hr => Nat.lt_irrefl _ (h.reaped _ hr)
  have hkeep : ∀ n, Reaped (k.log ++ [.launched k.launches pid]) n ↔ Reaped k.log n := by
    intro n
    simp [reaped_concat]
  refine ⟨fun c hc => ?_, fun c hc => ?_, fun n p hn hr => ?_, ?_, ?_, fun n p hn => ?_,
    fun n hn => ?_⟩
  · rcases mem_append.mp hc with hc | hc
    · exact mem_append_left _ (h.launched c hc)
    · rw [mem_singleton.mp hc]
      exact mem_append_right _ (mem_singleton_self _)
  · show ¬ Reaped (k.log ++ [.launched k.launches pid]) c.launch
    rw [hkeep]
    rcases mem_append.mp hc with hc | hc
    · exact h.unreaped c hc
    · rw [mem_singleton.mp hc]
      exact hnew
  · rcases mem_append.mp hn with hn | hn
    · obtain ⟨c, hc, heq⟩ := h.listed n p hn fun hr' => hr ((hkeep n).mpr hr')
      exact ⟨c, mem_append_left _ hc, heq⟩
    · obtain ⟨rfl, rfl⟩ : n = k.launches ∧ p = pid := by simpa using hn
      exact ⟨_, mem_append_right _ (mem_singleton_self _), rfl, rfl⟩
  · show ((k.children ++ [_]).map Child.pid).Nodup
    rw [map_append, nodup_append]
    refine ⟨h.pids, nodup_singleton _, fun a ha b hb => ?_⟩
    obtain ⟨c, hc, rfl⟩ := mem_map.mp ha
    obtain rfl : b = pid := by simpa using hb
    exact hnot c hc
  · show ((k.children ++ [_]).map Child.launch).Nodup
    rw [map_append, nodup_append]
    refine ⟨h.launches, nodup_singleton _, fun a ha b hb => ?_⟩
    obtain ⟨c, hc, rfl⟩ := mem_map.mp ha
    obtain rfl : b = k.launches := by simpa using hb
    exact Nat.ne_of_lt (h.fresh _ _ (h.launched c hc))
  · rcases mem_append.mp hn with hn | hn
    · exact Nat.lt_succ_of_lt (h.fresh n p hn)
    · obtain ⟨rfl, -⟩ : n = k.launches ∧ p = pid := by simpa using hn
      exact Nat.lt_succ_self _
  · exact Nat.lt_succ_of_lt (h.reaped n ((hkeep n).mp hn))

lemma signal (sig : Signal) (pid : ℤ) (launch : ℕ) : (k.signal sig pid launch).Consistent := by
  have hkeep : ∀ n, Reaped (k.log ++ [.signalled sig pid launch]) n ↔ Reaped k.log n := by
    intro n
    simp [reaped_concat]
  have hold : ∀ n p, .launched n p ∈ k.log ++ [.signalled sig pid launch] →
      .launched n p ∈ k.log := by
    intro n p hn
    simpa using hn
  exact ⟨fun c hc => mem_append_left _ (h.launched c hc),
    fun c hc hr => h.unreaped c hc ((hkeep _).mp hr),
    fun n p hn hr => h.listed n p (hold n p hn) fun hr' => hr ((hkeep n).mpr hr'), h.pids,
    h.launches, fun n p hn => h.fresh n p (hold n p hn), fun n hn => h.reaped n ((hkeep n).mp hn)⟩

lemma exit (launch status : ℕ) : (k.exit launch status).Consistent := by
  have hsame : ∀ c : Child, (if c.launch = launch ∧ c.exited = none then
      { c with exited := some status } else c).launch = c.launch ∧
      (if c.launch = launch ∧ c.exited = none then
        { c with exited := some status } else c).pid = c.pid := by
    intro c
    split_ifs <;> exact ⟨rfl, rfl⟩
  have hpids : (k.exit launch status).children.map Child.pid = k.children.map Child.pid := by
    rw [Kernel.exit, map_map]
    exact map_congr_left fun c _ => (hsame c).2
  have hlaunches : (k.exit launch status).children.map Child.launch =
      k.children.map Child.launch := by
    rw [Kernel.exit, map_map]
    exact map_congr_left fun c _ => (hsame c).1
  refine ⟨fun c hc => ?_, fun c hc => ?_, fun n p hn hr => ?_, hpids ▸ h.pids,
    hlaunches ▸ h.launches, h.fresh, h.reaped⟩
  · obtain ⟨x, hx, rfl⟩ := mem_map.mp hc
    rw [(hsame x).1, (hsame x).2]
    exact h.launched x hx
  · obtain ⟨x, hx, rfl⟩ := mem_map.mp hc
    rw [(hsame x).1]
    exact h.unreaped x hx
  · obtain ⟨c, hc, rfl, rfl⟩ := h.listed n p hn hr
    exact ⟨_, mem_map_of_mem hc, hsame c⟩

lemma reap {child : Child} (hchild : child ∈ k.children) (reaper : Reaper) :
    (k.reap child reaper).Consistent := by
  have hold : ∀ n p, .launched n p ∈ k.log ++ [.reaped child.launch reaper] →
      .launched n p ∈ k.log := by
    intro n p hn
    simpa using hn
  have hmem : ∀ c, c ∈ (k.reap child reaper).children ↔
      c ∈ k.children ∧ c.launch ≠ child.launch := by
    intro c
    simp [Kernel.reap]
  have hreaped : ∀ n, Reaped (k.reap child reaper).log n ↔
      Reaped k.log n ∨ n = child.launch := by
    intro n
    rw [Kernel.reap, reaped_concat]
    constructor
    · rintro (hr | ⟨r, heq⟩)
      · exact .inl hr
      · exact .inr (Event.reaped.inj heq).1.symm
    · rintro (hr | rfl)
      · exact .inl hr
      · exact .inr ⟨reaper, rfl⟩
  have hsub : (k.reap child reaper).children.Sublist k.children := filter_sublist
  refine ⟨fun c hc => ?_, fun c hc hr => ?_, fun n p hn hr => ?_, h.pids.sublist (hsub.map _),
    h.launches.sublist (hsub.map _), fun n p hn => h.fresh n p (hold n p hn), fun n hn => ?_⟩
  · exact mem_append_left _ (h.launched c ((hmem c).mp hc).1)
  · obtain ⟨hc, hne⟩ := (hmem c).mp hc
    rcases (hreaped _).mp hr with hr | heq
    · exact h.unreaped c hc hr
    · exact hne heq
  · rw [hreaped] at hr
    obtain ⟨c, hc, heq, hpid⟩ := h.listed n p (hold n p hn) fun hr' => hr (.inl hr')
    exact ⟨c, (hmem c).mpr ⟨hc, fun hne => hr (.inr (heq ▸ hne))⟩, heq, hpid⟩
  · rcases (hreaped n).mp hn with hn | rfl
    · exact h.reaped n hn
    · exact h.fresh _ _ (h.launched child hchild)

lemma eq_of_pid {launch : ℕ} {child : Child} (hlaunched : .launched launch child.pid ∈ k.log)
    (hreaped : ¬ Reaped k.log launch) (hchild : child ∈ k.children) : child.launch = launch := by
  obtain ⟨c, hc, rfl, hpid⟩ := h.listed launch child.pid hlaunched hreaped
  rw [inj_on_of_nodup_map h.pids hchild hc hpid.symm]

end Consistent

variable {child : Child} {status : ℕ}

lemma reaped_reap {reaper : Reaper} {launch : ℕ} :
    Reaped (k.reap child reaper).log launch ↔ Reaped k.log launch ∨ launch = child.launch := by
  rw [reap, reaped_concat]
  refine or_congr_right ⟨?_, ?_⟩
  · rintro ⟨_, heq⟩
    injection heq with heq
    exact heq.symm
  · rintro rfl
    exact ⟨reaper, rfl⟩

variable {pid choice : ℤ}

lemma mem_of_waitpid (h : k.waitpid pid = .exited child status) :
    child ∈ k.children ∧ child.pid = pid := by
  unfold waitpid at h
  split at h
  case h_1 => cases h
  case h_2 c hc =>
    split at h
    case h_1 => cases h
    case h_2 st hst =>
      obtain ⟨rfl, -⟩ := WaitResult.exited.inj h
      exact ⟨mem_of_find?_eq_some hc, by simpa using find?_some hc⟩

lemma exited_of_waitpid (h : k.waitpid pid = .exited child status) :
    child.exited = some status := by
  unfold waitpid at h
  split at h
  case h_1 => cases h
  case h_2 =>
    split at h
    case h_1 => cases h
    case h_2 hst =>
      obtain ⟨rfl, rfl⟩ := WaitResult.exited.inj h
      exact hst

lemma exited_of_waitAny (h : k.waitAny choice = some (child, status)) :
    child ∈ k.children ∧ child.exited = some status := by
  have hmem : (child, status) ∈
      k.children.filterMap fun c => c.exited.map fun status => (c, status) := by
    rcases Option.or_eq_some_iff.mp h with h | ⟨-, h⟩
    · exact mem_of_find?_eq_some h
    · exact mem_of_mem_head? h
  obtain ⟨c, hc, heq⟩ := mem_filterMap.mp hmem
  obtain ⟨st, hst, heq⟩ := Option.map_eq_some_iff.mp heq
  obtain ⟨rfl, rfl⟩ := Prod.mk.inj heq
  exact ⟨hc, hst⟩

lemma mem_of_waitAny (h : k.waitAny choice = some (child, status)) : child ∈ k.children :=
  (exited_of_waitAny h).1

end Kernel

end Pman.Process
