import Mathlib.Data.Int.Notation
import Mathlib.Data.Nat.Notation
import Mathlib.Logic.Function.Basic
import Mathlib.Tactic.SplitIfs

set_option autoImplicit false

/-!
# The standard streams of a child

The child of a `fork` gets its standard streams by `applyRedirect`, one stream after the other: the
source of the stream is duplicated onto it and closed if the redirect says so. `posix_spawn` is
given the same work as a list of file actions; an action with a descriptor that is negative or
beyond the limit is not added, which the code does not notice.

A redirect is applied to the table that the earlier ones have left. So it may find its source
overwritten or closed, and it may close a stream that was set or is to be kept.

## Main definitions

* `applyRedirects`, `spawnRedirects`: the table of the child on the two paths.
* `Undisturbed`: the redirects do not get in each other's way.
* `SameEffects`: no redirect is treated in two ways.

## Main results

* `redirects_requested_iff`: the child gets the files that were asked for exactly if the redirects
  are undisturbed.
* `spawn_eq_fork_iff`: the paths give the same table, or neither gives one, exactly if no redirect is
  treated in two ways or both paths find a source closed.
-/

namespace Pman.Process

open Function

/-- The standard streams. -/
inductive Stream
  | stdin
  | stdout
  | stderr
deriving DecidableEq, Repr

/-- The descriptor of a stream. -/
def Stream.fileno : Stream → ℤ
  | .stdin => 0
  | .stdout => 1
  | .stderr => 2

/-- `ProcessConfig::FdRedirect`. -/
structure FdRedirect where
  fd : Option ℤ := none
  closeAfterDup : Bool := false
deriving DecidableEq, Repr

/-- `ProcessConfig`, as far as the launch depends on it. -/
structure ProcessConfig where
  executable : String := ""
  redirect : Stream → FdRedirect := fun _ => {}
  workingDirectory : Option String := none
  newSession : Bool := false
  parentDeathSignal : Option ℤ := none
  niceValue : Option ℤ := none
  parentCloseFds : List ℤ := []
  cgroupPath : Option String := none
  ioniceClass : Option ℤ := none
  usePosixSpawn : Bool := false

/-- The configurations that `launchWithPosixSpawn` is for. -/
def canUsePosixSpawn (config : ProcessConfig) : Bool :=
  if !config.usePosixSpawn then false
  else if config.workingDirectory.isSome || config.newSession || config.parentDeathSignal.isSome ||
    config.niceValue.isSome || config.cgroupPath.isSome || config.ioniceClass.isSome then false
  else true

/-- The open files of a process, by their descriptors. -/
abbrev Table : Type := ℤ → Option ℕ

namespace Table

/-- `dup2`, which fails if the source is not open. -/
def dup2 (t : Table) (fd target : ℤ) : Option Table :=
  (t fd).map fun file => update t target (some file)

/-- `close`. -/
def close (t : Table) (fd : ℤ) : Table := update t fd none

end Table

/-- One redirect in the child of a `fork`; without a result the child has exited with 126. -/
def applyRedirect (redirect : FdRedirect) (targetFd : ℤ) (t : Table) : Option Table :=
  match redirect.fd with
  | none => some t
  | some fd =>
    (if fd ≠ targetFd then t.dup2 fd targetFd else some t).map fun t =>
      if redirect.closeAfterDup = true ∧ fd ≠ targetFd then t.close fd else t

/-- The redirects that `launchProcess` applies in the child of a `fork`. -/
def applyRedirects (config : ProcessConfig) (t : Table) : Option Table :=
  [Stream.stdin, .stdout, .stderr].foldlM
    (fun t i => applyRedirect (config.redirect i) i.fileno t) t

/-! ### The streams are those that were asked for -/

/-- The descriptor whose file the stream is to have. -/
def FdRedirect.source (redirect : FdRedirect) (targetFd : ℤ) : ℤ := redirect.fd.getD targetFd

/-- The redirect closes the descriptor. -/
def FdRedirect.Closes (redirect : FdRedirect) (targetFd fd : ℤ) : Prop :=
  redirect.fd = some fd ∧ fd ≠ targetFd ∧ redirect.closeAfterDup = true
  deriving Decidable

/-- The redirect finds its source closed. -/
def FdRedirect.FindsClosed (redirect : FdRedirect) (targetFd : ℤ) (t : Table) : Prop :=
  ∃ fd, redirect.fd = some fd ∧ fd ≠ targetFd ∧ t fd = none

/-- The table that a redirect leaves. -/
def FdRedirect.redirected (redirect : FdRedirect) (targetFd : ℤ) (t : Table) : Table := fun fd =>
  if fd = targetFd then t (redirect.source targetFd)
  else if redirect.Closes targetFd fd then none
  else t fd

section Redirect

variable {redirect : FdRedirect} {target : ℤ} {t t' : Table}

/-- **What one redirect does**: it fails if its source is closed; otherwise the stream gets the file
of its source, and of the other descriptors only the one that is closed changes. -/
lemma applyRedirect_eq_some : applyRedirect redirect target t = some t' ↔
    ¬ redirect.FindsClosed target t ∧ redirect.redirected target t = t' := by
  obtain ⟨source, close⟩ := redirect
  unfold applyRedirect FdRedirect.FindsClosed
  cases source with
  | none =>
    have hsame : FdRedirect.redirected ⟨none, close⟩ target t = t := by
      funext x
      simp only [FdRedirect.redirected, FdRedirect.source, FdRedirect.Closes]
      split_ifs with hx <;> simp_all
    simp [hsame]
  | some fd =>
    by_cases heq : fd = target
    · have hsame : FdRedirect.redirected ⟨some fd, close⟩ target t = t := by
        funext x
        simp only [FdRedirect.redirected, FdRedirect.source, FdRedirect.Closes]
        split_ifs with hx <;> simp_all
      simp [heq] at hsame ⊢
      simp [hsame]
    · cases hfile : t fd with
      | none => simp [heq, Table.dup2, hfile]
      | some file =>
        have hredirected : FdRedirect.redirected ⟨some fd, close⟩ target t =
            if close = true then Table.close (update t target (some file)) fd
            else update t target (some file) := by
          funext x
          simp only [FdRedirect.redirected, FdRedirect.source, FdRedirect.Closes, Table.close]
          by_cases hx : x = target
          · subst hx
            cases close <;> simp [hfile, update_of_ne (Ne.symm heq)]
          · by_cases hxfd : x = fd
            · subst hxfd
              cases close <;> simp [hx]
            · cases close <;> simp [hx, hxfd, Ne.symm hxfd]
        simp [heq, Table.dup2, hfile, hredirected]

lemma redirected_target (redirect : FdRedirect) (target : ℤ) (t : Table) :
    redirect.redirected target t target = t (redirect.source target) := if_pos rfl

lemma redirected_closed {fd : ℤ} (h : redirect.Closes target fd) :
    redirect.redirected target t fd = none := by
  rw [FdRedirect.redirected, if_neg h.2.1, if_pos h]

lemma redirected_other {fd : ℤ} (hfd : fd ≠ target) (h : ¬ redirect.Closes target fd) :
    redirect.redirected target t fd = t fd := by
  rw [FdRedirect.redirected, if_neg hfd, if_neg h]

lemma applyRedirect_eq_none :
    applyRedirect redirect target t = none ↔ redirect.FindsClosed target t := by
  rw [← not_iff_not, ← Ne, Option.ne_none_iff_exists']
  simp only [applyRedirect_eq_some, exists_and_left, exists_eq', and_true]

end Redirect

/-- The file that a stream is to have. -/
def requested (config : ProcessConfig) (t : Table) (i : Stream) : Option ℕ :=
  t ((config.redirect i).source i.fileno)

/-- **The redirects do not get in each other's way**: an earlier redirect that sets the source of a
later one sets it to the file it has; one that closes it is followed by one that sets it; and no
redirect closes a stream that an earlier one is for. -/
structure Undisturbed (redirect : Stream → FdRedirect) (t : Table) : Prop where
  kept : ∀ i j, i.fileno < j.fileno → (redirect j).source j.fileno = i.fileno →
    t ((redirect i).source i.fileno) = t ((redirect j).source j.fileno)
  unclosed : ∀ i j, i.fileno < j.fileno →
    (redirect i).Closes i.fileno ((redirect j).source j.fileno) →
    ∃ k : Stream, i.fileno < k.fileno ∧ k.fileno < j.fileno ∧ (redirect j).source j.fileno = k.fileno
  spared : ∀ i j : Stream, j.fileno < i.fileno → ¬ (redirect i).Closes i.fileno j.fileno

section Requested

variable {redirect : Stream → FdRedirect} {t t₁ t₂ : Table}

/-- What the second redirect reads has its first file. -/
lemma Undisturbed.second (h : Undisturbed redirect t)
    (h₁ : (redirect .stdin).redirected 0 t = t₁) :
    t₁ ((redirect .stdout).source 1) = t ((redirect .stdout).source 1) := by
  rw [← h₁, FdRedirect.redirected]
  split_ifs with hset hclosed
  · exact h.kept .stdin .stdout (by decide) hset
  · obtain ⟨k, hk, hk', -⟩ := h.unclosed .stdin .stdout (by decide) hclosed
    cases k <;> simp [Stream.fileno] at hk hk'
  · rfl

/-- What the third redirect reads has its first file. -/
lemma Undisturbed.third (h : Undisturbed redirect t)
    (h₁ : (redirect .stdin).redirected 0 t = t₁) (h₂ : (redirect .stdout).redirected 1 t₁ = t₂) :
    t₂ ((redirect .stderr).source 2) = t ((redirect .stderr).source 2) := by
  have hsecond := h.second h₁
  rw [← h₂, FdRedirect.redirected]
  split_ifs with hset hclosed
  · rw [hsecond]
    exact h.kept .stdout .stderr (by decide) hset
  · obtain ⟨k, hk, hk', -⟩ := h.unclosed .stdout .stderr (by decide) hclosed
    cases k <;> simp [Stream.fileno] at hk hk'
  · rw [← h₁, FdRedirect.redirected]
    split_ifs with hset' hclosed'
    · exact h.kept .stdin .stderr (by decide) hset'
    · obtain ⟨k, hk, hk', heq⟩ := h.unclosed .stdin .stderr (by decide) hclosed'
      cases k
      · simp [Stream.fileno] at hk
      · exact absurd heq hset
      · simp [Stream.fileno] at hk'
    · rfl

/-- A stream whose descriptor is open has an open source. -/
lemma source_ne_none (hopen : ∀ i fd, (redirect i).fd = some fd → t fd ≠ none) {i : Stream}
    (h : t i.fileno ≠ none) : t ((redirect i).source i.fileno) ≠ none := by
  unfold FdRedirect.source
  cases hfd : (redirect i).fd with
  | none => exact h
  | some fd => exact hopen i fd hfd

/-- Redirects after which every stream has the file of its source were not in each other's way. -/
lemma Undisturbed.of_set (hopen : ∀ i fd, (redirect i).fd = some fd → t fd ≠ none)
    (h₁ : (redirect .stdin).redirected 0 t = t₁) (h₂ : (redirect .stdout).redirected 1 t₁ = t₂)
    (hset : ∀ i : Stream, (redirect .stderr).redirected 2 t₂ i.fileno =
      t ((redirect i).source i.fileno)) : Undisturbed redirect t := by
  have hin : t₁ 0 = t ((redirect .stdin).source 0) := h₁ ▸ redirected_target ..
  have hout : t₂ 1 = t₁ ((redirect .stdout).source 1) := h₂ ▸ redirected_target ..
  -- a redirect that closes a stream closes an open one, which is to have a file
  have hclosed : ∀ i j : Stream, (redirect i).Closes i.fileno j.fileno →
      (redirect .stderr).redirected 2 t₂ j.fileno ≠ none := fun i j hc =>
    hset j ▸ source_ne_none hopen (hopen i j.fileno hc.1)
  have hspared₂ : ∀ j : Stream, ¬ (redirect .stderr).Closes 2 j.fileno := fun j hc =>
    hclosed .stderr j hc (redirected_closed hc)
  have hspared₁ : ¬ (redirect .stdout).Closes 1 0 := fun hc => by
    refine hclosed .stdout .stdin hc ((redirected_other (by decide) (hspared₂ .stdin)).trans ?_)
    rw [← h₂]
    exact redirected_closed hc
  have hread₁ : t₁ ((redirect .stdout).source 1) = t ((redirect .stdout).source 1) :=
    hout.symm.trans ((redirected_other (by decide) (hspared₂ .stdout)).symm.trans
      (hset .stdout))
  have hread₂ : t₂ ((redirect .stderr).source 2) = t ((redirect .stderr).source 2) :=
    (redirected_target ..).symm.trans (hset .stderr)
  refine ⟨?_, ?_, ?_⟩
  · intro i j hlt heq
    cases i <;> cases j <;> (try exact absurd hlt (by decide)) <;> dsimp only [Stream.fileno] at heq ⊢
    · rw [← hin, ← hread₁, heq]
    · rw [← hread₂, heq, ← h₂]
      exact hin.symm.trans (redirected_other (by decide) hspared₁).symm
    · rw [← hread₂, heq]
      exact (hout.trans hread₁).symm
  · -- what is closed and not set again is closed when it is read
    intro i j hlt hc
    have hne : t ((redirect j).source j.fileno) ≠ none := hopen i _ hc.1
    cases i <;> cases j <;> try exact absurd hlt (by decide)
    · exact absurd (hread₁.symm.trans (h₁ ▸ redirected_closed hc)) hne
    · refine ⟨.stdout, by decide, by decide, ?_⟩
      by_contra hother
      dsimp only [Stream.fileno] at hc hother
      refine hne (hread₂.symm.trans ?_)
      rw [← h₂, FdRedirect.redirected, if_neg hother, ← h₁]
      split_ifs
      · rfl
      · exact redirected_closed hc
    · exact absurd (hread₂.symm.trans (h₂ ▸ redirected_closed hc)) hne
  · intro i j hlt hc
    cases i with
    | stdin => cases j <;> simp [Stream.fileno] at hlt
    | stdout =>
      cases j with
      | stdin => exact hspared₁ hc
      | stdout | stderr => simp [Stream.fileno] at hlt
    | stderr => exact hspared₂ j hc

/-- The redirects as three steps. -/
lemma applyRedirects_eq_some {config : ProcessConfig} {t' : Table} :
    applyRedirects config t = some t' ↔ ∃ t₁ t₂,
      applyRedirect (config.redirect .stdin) 0 t = some t₁ ∧
      applyRedirect (config.redirect .stdout) 1 t₁ = some t₂ ∧
      applyRedirect (config.redirect .stderr) 2 t₂ = some t' := by
  simp [applyRedirects, Stream.fileno, Option.bind_eq_some_iff]

end Requested

/-- **The child gets the files that were asked for** exactly if the redirects do not get in each
other's way, when all sources are open: every redirected stream has the file of its source, and the
others are unchanged. -/
theorem redirects_requested_iff {config : ProcessConfig} {t : Table}
    (hopen : ∀ i fd, (config.redirect i).fd = some fd → t fd ≠ none) :
    (∃ t', applyRedirects config t = some t' ∧
      ∀ i : Stream, t' i.fileno = requested config t i) ↔ Undisturbed config.redirect t := by
  simp only [applyRedirects_eq_some, applyRedirect_eq_some, requested]
  constructor
  · rintro ⟨t', ⟨t₁, t₂, ⟨-, h₁⟩, ⟨-, h₂⟩, -, h₃⟩, hset⟩
    exact .of_set hopen h₁ h₂ fun i => h₃ ▸ hset i
  · intro h
    have hread₁ := h.second rfl
    have hread₂ := h.third rfl rfl
    have hfinds : ∀ (i : Stream) (u : Table),
        u ((config.redirect i).source i.fileno) = t ((config.redirect i).source i.fileno) →
          ¬ (config.redirect i).FindsClosed i.fileno u := by
      rintro i u hread ⟨fd, hfd, -, hnone⟩
      rw [FdRedirect.source, hfd] at hread
      exact hopen i fd hfd (hread.symm.trans hnone)
    refine ⟨_, ⟨_, _, ⟨hfinds .stdin t rfl, rfl⟩, ⟨hfinds .stdout _ hread₁, rfl⟩,
      hfinds .stderr _ hread₂, rfl⟩, fun i => ?_⟩
    have hspared := h.spared
    cases i with
    | stdin =>
      have h1 := hspared .stdout .stdin (by decide)
      have h2 := hspared .stderr .stdin (by decide)
      simp only [Stream.fileno] at h1 h2
      simp [FdRedirect.redirected, Stream.fileno, h1, h2]
    | stdout =>
      have h2 := hspared .stderr .stdout (by decide)
      simp only [Stream.fileno] at h2
      simp only [FdRedirect.redirected, Stream.fileno] at hread₁ ⊢
      simpa [h2] using hread₁
    | stderr => simpa [FdRedirect.redirected, Stream.fileno] using hread₂

/-- Standard output comes from a standard input that was redirected before, but to the same file. -/
theorem redirects_requested_duplicate :
    ∃ t', applyRedirects { redirect := fun
        | .stdin => ⟨some 5, true⟩
        | .stdout => ⟨some 0, false⟩
        | .stderr => ⟨some 6, true⟩ } (fun fd => if fd = 5 then some 0 else some fd.toNat) =
          some t' ∧ t' 0 = some 0 ∧ t' 1 = some 0 ∧ t' 2 = some 6 := by
  obtain ⟨t', ht', hset⟩ := (@redirects_requested_iff { redirect := fun
      | .stdin => ⟨some 5, true⟩
      | .stdout => ⟨some 0, false⟩
      | .stderr => ⟨some 6, true⟩ } (fun fd => if fd = 5 then some 0 else some fd.toNat)
    fun i fd _ => by split_ifs <;> nofun).mpr
    ⟨by rintro (_ | _ | _) (_ | _ | _) <;> simp [Stream.fileno, FdRedirect.source],
      by rintro (_ | _ | _) (_ | _ | _) <;>
        simp [Stream.fileno, FdRedirect.source, FdRedirect.Closes],
      by rintro (_ | _ | _) (_ | _ | _) <;> simp [Stream.fileno, FdRedirect.Closes]⟩
  exact ⟨t', ht', hset .stdin, hset .stdout, hset .stderr⟩

/-- A child does not get its streams: both are to be written to one descriptor, as
`stdoutFd` and `stderrFd` ask for, and the first redirect closes it. -/
theorem redirects_fail : ∃ (config : ProcessConfig) (t : Table),
    (∀ i fd, (config.redirect i).fd = some fd → (t fd).isSome = true) ∧
      applyRedirects config t = none :=
  ⟨{ redirect := fun i => if i = .stdin then {} else ⟨some 5, true⟩ }, fun _ => some 0,
    fun _ _ _ => rfl, rfl⟩

/-! ### `posix_spawn` -/

/-- A file action of `posix_spawn`. -/
inductive FileAction
  | dup2 (fd newfd : ℤ)
  | close (fd : ℤ)

/-- A `dup2` onto itself keeps the descriptor, if it is open. -/
def FileAction.apply (t : Table) : FileAction → Option Table
  | .dup2 fd newfd => t.dup2 fd newfd
  | .close fd => some (t.close fd)

/-- A descriptor for which an action is added; for others the call fails with `EBADF`. -/
def ValidFd (limit fd : ℤ) : Prop := 0 ≤ fd ∧ fd < limit
  deriving Decidable

/-- The actions for one redirect, with the failures of the calls that add them ignored. -/
def addRedirect (limit : ℤ) (redirect : FdRedirect) (targetFd : ℤ) : List FileAction :=
  match redirect.fd with
  | none => []
  | some fd =>
    (if ValidFd limit fd ∧ ValidFd limit targetFd then [.dup2 fd targetFd] else []) ++
      if redirect.closeAfterDup = true ∧ ValidFd limit fd then [.close fd] else []

/-- The file actions of `launchWithPosixSpawn`, applied in the child; `limit` is that of the open
descriptors. -/
def spawnRedirects (limit : ℤ) (config : ProcessConfig) (t : Table) : Option Table :=
  ([Stream.stdin, .stdout, .stderr].flatMap fun i =>
    addRedirect limit (config.redirect i) i.fileno).foldlM FileAction.apply t

/-- The action for the redirect finds its source closed. -/
def FdRedirect.SpawnFindsClosed (limit : ℤ) (redirect : FdRedirect) (t : Table) : Prop :=
  ∃ fd, redirect.fd = some fd ∧ ValidFd limit fd ∧ t fd = none

/-- The table that the actions for a redirect leave. -/
def FdRedirect.spawned (limit : ℤ) (redirect : FdRedirect) (targetFd : ℤ) (t : Table) : Table :=
  match redirect.fd with
  | none => t
  | some fd =>
    if ValidFd limit fd then
      let t := update t targetFd (t fd)
      if redirect.closeAfterDup then update t fd none else t
    else t

/-- **A redirect has the same effect on both paths**: one to its own stream, if the stream is open
and not to be closed; and one from a descriptor that no action is added for, if it changes
nothing. -/
def FdRedirect.SameEffect (limit : ℤ) (redirect : FdRedirect) (targetFd : ℤ) (t : Table) : Prop :=
  ∀ fd, redirect.fd = some fd →
    (ValidFd limit fd → fd = targetFd → t fd ≠ none ∧ redirect.closeAfterDup = false) ∧
    (¬ ValidFd limit fd → t fd ≠ none ∧ t targetFd = t fd ∧ redirect.closeAfterDup = false)

/-- A redirect of the streams, in their order, finds its source closed. -/
def FindsClosed (redirect : Stream → FdRedirect) : List Stream → Table → Prop
  | [], _ => False
  | i :: rest, t => (redirect i).FindsClosed i.fileno t ∨
    FindsClosed redirect rest ((redirect i).redirected i.fileno t)

/-- An action for the streams, in their order, finds its source closed. -/
def SpawnFindsClosed (limit : ℤ) (redirect : Stream → FdRedirect) : List Stream → Table → Prop
  | [], _ => False
  | i :: rest, t => (redirect i).SpawnFindsClosed limit t ∨
    SpawnFindsClosed limit redirect rest ((redirect i).spawned limit i.fileno t)

/-- The redirects of the streams, in their order, have the same effects on both paths. -/
def SameEffects (limit : ℤ) (redirect : Stream → FdRedirect) : List Stream → Table → Prop
  | [], _ => True
  | i :: rest, t => (redirect i).SameEffect limit i.fileno t ∧
    SameEffects limit redirect rest ((redirect i).redirected i.fileno t)

section Spawn

variable {limit target : ℤ} {redirect : FdRedirect} {t t' : Table}

/-- What the actions for one redirect do. -/
lemma foldlM_addRedirect (htarget : ValidFd limit target) :
    (addRedirect limit redirect target).foldlM FileAction.apply t = some t' ↔
      ¬ redirect.SpawnFindsClosed limit t ∧ redirect.spawned limit target t = t' := by
  unfold addRedirect FdRedirect.SpawnFindsClosed FdRedirect.spawned
  cases hfd : redirect.fd with
  | none => simp
  | some fd =>
    by_cases hvalid : ValidFd limit fd
    · cases hfile : t fd with
      | none => cases redirect.closeAfterDup <;>
          simp [hvalid, htarget, FileAction.apply, Table.dup2, hfile]
      | some file => cases redirect.closeAfterDup <;>
          simp [hvalid, htarget, FileAction.apply, Table.dup2, Table.close, hfile]
    · simp [hvalid]

/-- A redirect with the same effect gives the same table. -/
lemma foldlM_addRedirect_eq (htarget : ValidFd limit target)
    (h : redirect.SameEffect limit target t) :
    (addRedirect limit redirect target).foldlM FileAction.apply t =
      applyRedirect redirect target t := by
  unfold addRedirect applyRedirect
  cases hfd : redirect.fd with
  | none => rfl
  | some fd =>
    obtain ⟨hown, hinvalid⟩ := h fd hfd
    by_cases hvalid : ValidFd limit fd
    · by_cases heq : fd = target
      · subst heq
        obtain ⟨hopen, hclose⟩ := hown hvalid rfl
        obtain ⟨file, hfile⟩ := Option.ne_none_iff_exists'.mp hopen
        have hkeep : update t fd (some file) = t := by rw [← hfile, update_eq_self]
        simp [hvalid, hclose, FileAction.apply, Table.dup2, hfile, hkeep]
      · cases redirect.closeAfterDup <;> cases hfile : t fd <;>
          simp [hvalid, htarget, FileAction.apply, Table.dup2, heq, hfile]
    · obtain ⟨hopen, hsame, hclose⟩ := hinvalid hvalid
      obtain ⟨file, hfile⟩ := Option.ne_none_iff_exists'.mp hopen
      have hkeep : update t target (some file) = t := by rw [← hfile, ← hsame, update_eq_self]
      have hne : fd ≠ target := fun heq => hvalid (heq ▸ htarget)
      simp [hvalid, hclose, Table.dup2, hne, hfile, hkeep]

/-- What the actions for a redirect do to the other descriptors. -/
lemma spawned_other {x : ℤ} (hx : x ≠ target)
    (h : redirect.fd = some x → ValidFd limit x → redirect.closeAfterDup = false) :
    redirect.spawned limit target t x = t x := by
  unfold FdRedirect.spawned
  cases hfd : redirect.fd with
  | none => rfl
  | some fd =>
    by_cases hvalid : ValidFd limit fd
    · by_cases hxfd : x = fd
      · subst hxfd
        simp [hvalid, h hfd hvalid, hx]
      · cases redirect.closeAfterDup <;> simp [hvalid, hx, hxfd]
    · simp [hvalid]

/-- **The tables of the two paths are apart**: they differ at a stream that is through, or a
descriptor that no action is added for is closed on one path only. -/
def Apart (limit : ℤ) (streams : List Stream) (a b : Table) : Prop :=
  (∃ i ∈ streams, a i.fileno ≠ b i.fileno) ∨ ∃ fd, ¬ ValidFd limit fd ∧ a fd = none ∧ b fd ≠ none

variable {redirect : Stream → FdRedirect} {i : Stream} {streams : List Stream} {a b : Table}

/-- After a redirect with two effects the tables are apart. -/
lemma apart_of_not_sameEffect (htarget : ValidFd limit i.fileno)
    (h : ¬ (redirect i).SameEffect limit i.fileno t) (ha : ¬ (redirect i).FindsClosed i.fileno t)
    (hb : ¬ (redirect i).SpawnFindsClosed limit t) :
    Apart limit (i :: streams) ((redirect i).redirected i.fileno t)
      ((redirect i).spawned limit i.fileno t) := by
  unfold FdRedirect.SameEffect at h
  simp only [not_forall] at h
  obtain ⟨fd, hfd, h⟩ := h
  by_cases hvalid : ValidFd limit fd
  · -- a redirect to its own stream, which is closed by `posix_spawn`
    have hopen : t fd ≠ none := fun hnone => hb ⟨fd, hfd, hvalid, hnone⟩
    obtain ⟨rfl, hclose⟩ : fd = i.fileno ∧ (redirect i).closeAfterDup = true := by
      simpa [hvalid, hopen] using h
    refine .inl ⟨i, List.mem_cons_self, ?_⟩
    rw [redirected_target, FdRedirect.source, hfd]
    simpa [FdRedirect.spawned, hfd, hvalid, hclose] using hopen
  · have hne : fd ≠ i.fileno := fun heq => hvalid (heq ▸ htarget)
    have hopen : t fd ≠ none := fun hnone => ha ⟨fd, hfd, hne, hnone⟩
    have hspawned : (redirect i).spawned limit i.fileno t = t := by
      simp [FdRedirect.spawned, hfd, hvalid]
    rw [hspawned]
    by_cases hclose : (redirect i).closeAfterDup = true
    · exact .inr ⟨fd, hvalid, redirected_closed ⟨hfd, hne, hclose⟩, hopen⟩
    · refine .inl ⟨i, List.mem_cons_self, ?_⟩
      rw [redirected_target, FdRedirect.source, hfd]
      simpa [hvalid, hopen, hclose, eq_comm] using h

/-- Tables that are apart stay so: a stream at which they differ can be closed on both paths only by
a redirect that gives the two files to another stream. -/
lemma Apart.step (h : Apart limit streams a b) (hvalid : ∀ s : Stream, ValidFd limit s.fileno)
    (hnew : ∀ s ∈ streams, s.fileno ≠ i.fileno) (ha : ¬ (redirect i).FindsClosed i.fileno a) :
    Apart limit (i :: streams) ((redirect i).redirected i.fileno a)
      ((redirect i).spawned limit i.fileno b) := by
  rcases h with ⟨s, hs, hne⟩ | ⟨fd, hfd, hclosed, hopen⟩
  · by_cases hc : (redirect i).Closes i.fileno s.fileno
    · refine .inl ⟨i, List.mem_cons_self, ?_⟩
      rw [redirected_target, FdRedirect.source, hc.1]
      simpa [FdRedirect.spawned, hc.1, hvalid s, hc.2.2, update_of_ne (Ne.symm hc.2.1)] using hne
    · refine .inl ⟨s, List.mem_cons_of_mem _ hs, ?_⟩
      rw [redirected_other (hnew s hs) hc, spawned_other (hnew s hs) fun hfd _ => ?_]
      · exact hne
      · by_contra hclose
        exact hc ⟨hfd, hnew s hs, by simpa using hclose⟩
  · have hne : fd ≠ i.fileno := fun heq => hfd (heq ▸ hvalid i)
    refine .inr ⟨fd, hfd, ?_, ?_⟩
    · rw [redirected_other hne fun hc => ha ⟨fd, hc.1, hne, hclosed⟩]
      exact hclosed
    · rwa [spawned_other hne fun _ h => absurd h hfd]

/-- The redirects of the streams in their order, on the path with `fork`. -/
def forkAll (redirect : Stream → FdRedirect) (streams : List Stream) (t : Table) : Option Table :=
  streams.foldlM (fun t i => applyRedirect (redirect i) i.fileno t) t

/-- The redirects of the streams in their order, on the path with `posix_spawn`. -/
def spawnAll (limit : ℤ) (redirect : Stream → FdRedirect) (streams : List Stream) (t : Table) :
    Option Table :=
  (streams.flatMap fun i => addRedirect limit (redirect i) i.fileno).foldlM FileAction.apply t

lemma forkAll_cons : forkAll redirect (i :: streams) t =
    (applyRedirect (redirect i) i.fileno t).bind (forkAll redirect streams) := rfl

lemma spawnAll_cons : spawnAll limit redirect (i :: streams) t =
    ((addRedirect limit (redirect i) i.fileno).foldlM FileAction.apply t).bind
      (spawnAll limit redirect streams) := by
  rw [spawnAll, List.flatMap_cons, List.foldlM_append]
  rfl

/-- The path with `fork` gives no table exactly if a redirect finds its source closed. -/
lemma forkAll_eq_none : forkAll redirect streams t = none ↔ FindsClosed redirect streams t := by
  induction streams generalizing t with
  | nil => simp [forkAll, FindsClosed]
  | cons i rest ih =>
    rw [forkAll_cons, FindsClosed, ← ih]
    cases h : applyRedirect (redirect i) i.fileno t with
    | none => simp [applyRedirect_eq_none.mp h]
    | some u =>
      obtain ⟨hopen, rfl⟩ := applyRedirect_eq_some.mp h
      simp [hopen]

/-- The path with `posix_spawn` gives no table exactly if an action finds its source closed. -/
lemma spawnAll_eq_none (hvalid : ∀ s : Stream, ValidFd limit s.fileno) :
    spawnAll limit redirect streams t = none ↔ SpawnFindsClosed limit redirect streams t := by
  induction streams generalizing t with
  | nil => simp [spawnAll, SpawnFindsClosed]
  | cons i rest ih =>
    rw [spawnAll_cons, SpawnFindsClosed, ← ih]
    cases h : (addRedirect limit (redirect i) i.fileno).foldlM FileAction.apply t with
    | none =>
      have hclosed : (redirect i).SpawnFindsClosed limit t := by
        by_contra hopen
        cases h.symm.trans ((foldlM_addRedirect (hvalid i)).mpr ⟨hopen, rfl⟩)
      simp [hclosed]
    | some u =>
      obtain ⟨hopen, rfl⟩ := (foldlM_addRedirect (hvalid i)).mp h
      simp [hopen]

/-- From tables that are apart the two paths do not come to the same table. -/
lemma Apart.ne {done : List Stream} (hvalid : ∀ s : Stream, ValidFd limit s.fileno)
    (hnew : ∀ s ∈ done, ∀ j ∈ streams, s.fileno ≠ j.fileno)
    (hsorted : streams.Pairwise (·.fileno ≠ ·.fileno)) (h : Apart limit done a b)
    (ha : forkAll redirect streams a = some t) : spawnAll limit redirect streams b ≠ some t := by
  induction streams generalizing done a b with
  | nil =>
    rintro ⟨⟩
    obtain ⟨rfl⟩ := ha
    rcases h with ⟨s, -, hne⟩ | ⟨fd, -, hclosed, hopen⟩
    · exact hne rfl
    · exact hopen hclosed
  | cons i rest ih =>
    obtain ⟨hi, hsorted⟩ := List.pairwise_cons.mp hsorted
    rw [forkAll_cons, Option.bind_eq_some_iff] at ha
    obtain ⟨a', ha', ha⟩ := ha
    obtain ⟨hopen, rfl⟩ := applyRedirect_eq_some.mp ha'
    rw [spawnAll_cons]
    intro hb
    obtain ⟨b', hb', hb⟩ := Option.bind_eq_some_iff.mp hb
    obtain ⟨-, rfl⟩ := (foldlM_addRedirect (hvalid i)).mp hb'
    refine ih ?_ hsorted (h.step hvalid (fun s hs => hnew s hs i List.mem_cons_self) hopen) ha hb
    intro s hs j hj
    rcases List.mem_cons.mp hs with rfl | hs
    · exact hi j hj
    · exact hnew s hs j (List.mem_cons_of_mem _ hj)

/-- Redirects with the same effects give the same table. -/
lemma SameEffects.eq (hvalid : ∀ s : Stream, ValidFd limit s.fileno)
    (h : SameEffects limit redirect streams t) :
    spawnAll limit redirect streams t = forkAll redirect streams t := by
  induction streams generalizing t with
  | nil => rfl
  | cons i rest ih =>
    rw [spawnAll_cons, foldlM_addRedirect_eq (hvalid i) h.1, forkAll_cons]
    refine Option.bind_congr fun u hu => ih ?_
    rw [← (applyRedirect_eq_some.mp hu).2]
    exact h.2

/-- Redirects that give the same table have the same effects: after the first that has not, the
tables stay apart. -/
lemma sameEffects_of_eq (hvalid : ∀ s : Stream, ValidFd limit s.fileno)
    (hsorted : streams.Pairwise (·.fileno ≠ ·.fileno))
    (ha : forkAll redirect streams a = some t) (hb : spawnAll limit redirect streams a = some t) :
    SameEffects limit redirect streams a := by
  induction streams generalizing a with
  | nil => trivial
  | cons i rest ih =>
    obtain ⟨hi, hsorted⟩ := List.pairwise_cons.mp hsorted
    rw [forkAll_cons, Option.bind_eq_some_iff] at ha
    obtain ⟨a', ha', ha⟩ := ha
    rw [spawnAll_cons, Option.bind_eq_some_iff] at hb
    obtain ⟨b', hb', hb⟩ := hb
    by_cases hsame : (redirect i).SameEffect limit i.fileno a
    · rw [foldlM_addRedirect_eq (hvalid i) hsame, ha'] at hb'
      cases hb'
      obtain ⟨-, rfl⟩ := applyRedirect_eq_some.mp ha'
      exact ⟨hsame, ih hsorted ha hb⟩
    · obtain ⟨hopen, rfl⟩ := applyRedirect_eq_some.mp ha'
      obtain ⟨hopen', rfl⟩ := (foldlM_addRedirect (hvalid i)).mp hb'
      have hapart : Apart limit [i] _ _ := apart_of_not_sameEffect (hvalid i) hsame hopen hopen'
      exact absurd hb (hapart.ne hvalid (by simpa using hi) hsorted ha)

end Spawn

/-- **Both launch paths give the child the same descriptors**, or neither launches it, exactly if
every redirect has the same effect on both paths, or each path comes to a source that is closed. -/
theorem spawn_eq_fork_iff {config : ProcessConfig} {t : Table} {limit : ℤ} (hlimit : 2 < limit) :
    spawnRedirects limit config t = applyRedirects config t ↔
      FindsClosed config.redirect [.stdin, .stdout, .stderr] t ∧
          SpawnFindsClosed limit config.redirect [.stdin, .stdout, .stderr] t ∨
        SameEffects limit config.redirect [.stdin, .stdout, .stderr] t := by
  have hvalid : ∀ s : Stream, ValidFd limit s.fileno := by
    rintro (_ | _ | _) <;> exact ⟨by decide, by simp only [Stream.fileno]; omega⟩
  have hfork : applyRedirects config t = forkAll config.redirect [.stdin, .stdout, .stderr] t := rfl
  have hspawn : spawnRedirects limit config t =
      spawnAll limit config.redirect [.stdin, .stdout, .stderr] t := rfl
  rw [hfork, hspawn, ← forkAll_eq_none, ← spawnAll_eq_none hvalid]
  constructor
  · intro heq
    cases h : forkAll config.redirect [.stdin, .stdout, .stderr] t with
    | none => exact .inl ⟨rfl, heq.trans h⟩
    | some t' => exact .inr (sameEffects_of_eq hvalid (by decide) h (heq.trans h))
  · rintro (⟨hnone, hnone'⟩ | hsame)
    · rw [hnone, hnone']
    · exact hsame.eq hvalid

/-- Standard input comes from a pipe, standard output is redirected to itself and standard error to
standard output. -/
theorem spawn_eq_fork_own : ∃ config : ProcessConfig, canUsePosixSpawn config = true ∧
    (config.redirect .stdin).fd = some 5 ∧ (config.redirect .stdout).fd = some 1 ∧
      spawnRedirects 1024 config (fun fd => some fd.toNat) =
        applyRedirects config fun fd => some fd.toNat := by
  refine ⟨{ redirect := fun
    | .stdin => ⟨some 5, true⟩
    | .stdout => ⟨some 1, false⟩
    | .stderr => ⟨some 1, true⟩, usePosixSpawn := true }, rfl, rfl, rfl,
    (spawn_eq_fork_iff (by decide)).mpr (.inr ⟨?_, ?_, ?_, trivial⟩)⟩ <;> rintro _ ⟨⟩
  · exact ⟨fun _ h => absurd h (by decide), fun h => absurd (by decide) h⟩
  · exact ⟨fun _ _ => ⟨nofun, rfl⟩, fun h => absurd (by decide) h⟩
  · exact ⟨fun _ h => absurd h (by decide), fun h => absurd (by decide) h⟩

/-- With a redirect of standard input to itself, as `stdinFd` asks for, only the child of a `fork`
keeps its standard input. With one from a descriptor that is not open and beyond the limit, only
`posix_spawn` launches the child. -/
theorem spawn_differs :
    (∃ (config : ProcessConfig) (t t₁ t₂ : Table),
      canUsePosixSpawn config = true ∧ spawnRedirects 1024 config t = some t₁ ∧
        applyRedirects config t = some t₂ ∧ t₁ 0 = none ∧ t₂ 0 = t 0 ∧ t 0 ≠ none) ∧
    ∃ (config : ProcessConfig) (t : Table), canUsePosixSpawn config = true ∧
      spawnRedirects 1024 config t = some t ∧ applyRedirects config t = none :=
  ⟨⟨{ redirect := fun i => if i = .stdin then ⟨some 0, true⟩ else {}, usePosixSpawn := true },
    fun fd => some fd.toNat, _, _, rfl, rfl, rfl, rfl, rfl, nofun⟩,
    { redirect := fun i => if i = .stdin then ⟨some (-1), false⟩ else {}, usePosixSpawn := true },
    fun fd => if fd < 0 then none else some fd.toNat, rfl, rfl, rfl⟩

end Pman.Process
