import Pman.Async.Channel

set_option autoImplicit false

/-!
# What `send` delivers and what it answers

Two defects of `Sender::send` on its blocking path.

The argument is moved into the call of `trySend`. When that call fails, what is parked, and
delivered later, is what the move left of it.

The answer of a sender that was parked is computed when its resumption runs, from `closed_` first
and from `sent_flag` only then. If the channel is closed after its value was handed over and before
it runs, the sender answers `false` although its value is in the buffer.

## Main results

* `send_answer_iff_entered`: when the answer agrees with delivery.
* `send_deliversOwn_iff`: when the value that enters is the one given.
-/

namespace Pman

open List Function

namespace Channel

variable {T : Type*}

def Entered (s : Loop T) (call : ℕ) : Prop := ∃ element, .entered call element ∈ s.log

/-! ### Elements entering the buffer -/

variable {s : Loop T} {e : Event T}

lemma entered_record (he : ∀ call x, e ≠ .entered call x) (call : ℕ) :
    Entered (s.record e) call ↔ Entered s call := by
  constructor
  · rintro ⟨x, hx⟩
    rcases mem_concat.mp hx with hx | hx
    · exact ⟨x, hx⟩
    · exact absurd hx.symm (he call x)
  · rintro ⟨x, hx⟩
    exact ⟨x, mem_append_left _ hx⟩

lemma entered_push (s : Loop T) (k : ℕ) (value : T) (call : ℕ) :
    Entered (s.push k value) call ↔ Entered s call ∨ call = k := by
  simp [Entered, Loop.push_eq, exists_or]

variable {w : SendWaiter T} {ws : List (SendWaiter T)} {rest : List T} {value : T}

lemma entered_take_of_cons (h : s.sendWaiters_ = w :: ws) (hroom : rest.length < s.capacity_)
    (call : ℕ) : Entered (s.take value rest) call ↔ Entered s call ∨ call = w.handle.call := by
  simp [Entered, Loop.take_of_cons _ _ _ h hroom, exists_or]

lemma entered_shut (s : Loop T) (call : ℕ) : Entered s.shut call ↔ Entered s call := by
  simp [Entered, Loop.shut]

lemma entered_lt (hwf : WellFormed s) {call : ℕ} (h : Entered s call) : call < s.nextCall := by
  obtain ⟨x, hx⟩ := h
  exact hwf.entered_lt call x hx

/-! ### The answer of a sender -/

/-- The sender whose resumption is posted had its value handed over. -/
def handedOver (s : Loop T) : Handle → Bool
  | .sender call => s.sentFlags call
  | .receiver _ => false

/-- The first `close` comes at a moment when no sender is posted whose value was handed over. -/
def CloseOk (s : Loop T) (a : Act T) : Prop :=
  a = .close → s.closed_ = false → ∀ handle ∈ s.posted, handedOver s handle = false

instance [DecidableEq T] (s : Loop T) (a : Act T) : Decidable (CloseOk s a) :=
  inferInstanceAs (Decidable (_ → _ → ∀ handle ∈ s.posted, _))

/-- What the answers given and the answers still owed stand for. -/
structure Answers (s : Loop T) : Prop where
  returned_lt : ∀ call b, .sendReturned call b ∈ s.log → call < s.nextCall
  parked_not_entered : ∀ w ∈ s.sendWaiters_, ¬ Entered s w.sent_flag
  parked_not_returned : ∀ w ∈ s.sendWaiters_, ∀ b, .sendReturned w.sent_flag b ∉ s.log
  posted_lt : ∀ call, .sender call ∈ s.posted → call < s.nextCall
  /-- While the channel is open, senders are posted because their value was handed over. -/
  posted_open : s.closed_ = false → ∀ call, .sender call ∈ s.posted →
    s.sentFlags call = true ∧ Entered s call
  /-- Once the channel is closed, the senders posted are those whose value was dropped. -/
  posted_closed : s.closed_ = true → ∀ call, .sender call ∈ s.posted → ¬ Entered s call
  answered : ∀ call b, .sendReturned call b ∈ s.log → (b = true ↔ Entered s call)

variable {a : Act T} {s' : Loop T} {mv : T → T}

namespace Answers

variable {s : Loop T}

lemma newCall (h : Answers s) : Answers s.newCall :=
  { h with
    returned_lt := fun call b hc => Nat.lt_succ_of_lt (h.returned_lt call b hc)
    posted_lt := fun call hp => Nat.lt_succ_of_lt (h.posted_lt call hp) }

lemma record (h : Answers s) (he : ∀ call x, e ≠ .entered call x)
    (hr : ∀ call b, e ≠ .sendReturned call b) : Answers (s.record e) := by
  have hent := entered_record (s := s) he
  have hret : ∀ call b, .sendReturned call b ∈ (s.record e).log → .sendReturned call b ∈ s.log := by
    intro call b hmem
    rcases mem_concat.mp hmem with hmem | hmem
    · exact hmem
    · exact absurd hmem.symm (hr call b)
  refine ⟨fun call b hc => h.returned_lt call b (hret call b hc),
    fun w hw hc => h.parked_not_entered w hw ((hent _).mp hc),
    fun w hw b hc => h.parked_not_returned w hw b (hret _ b hc), h.posted_lt,
    fun hopen call hp => ?_, fun hc call hp hen => h.posted_closed hc call hp ((hent call).mp hen),
    fun call b hc => ?_⟩
  · rw [hent]
    exact h.posted_open hopen call hp
  · rw [hent]
    exact h.answered call b (hret call b hc)

variable {call : ℕ} {value : T} {rest : List T}

lemma sendReturned (h : Answers s) {b : Bool} (hlt : call < s.nextCall)
    (hfree : ∀ w ∈ s.sendWaiters_, w.sent_flag ≠ call) (hb : b = true ↔ Entered s call) :
    Answers (s.record (.sendReturned call b)) := by
  have hent : ∀ k, Entered (s.record (.sendReturned call b)) k ↔ Entered s k :=
    entered_record (by simp)
  have hret : ∀ k b', .sendReturned k b' ∈ (s.record (.sendReturned call b)).log →
      .sendReturned k b' ∈ s.log ∨ (k = call ∧ b' = b) := by
    intro k b' hmem
    simpa [Loop.record] using hmem
  refine ⟨fun k b' hk => ?_,
    fun w hw hk => h.parked_not_entered w hw ((hent _).mp hk), fun w hw b' hk => ?_, h.posted_lt,
    fun hopen k hp => ?_, fun hc k hp hk => h.posted_closed hc k hp ((hent k).mp hk),
    fun k b' hk => ?_⟩
  · rcases hret k b' hk with hk | ⟨rfl, -⟩
    · exact h.returned_lt k b' hk
    · exact hlt
  · rcases hret _ b' hk with hk | ⟨heq, -⟩
    · exact h.parked_not_returned w hw b' hk
    · exact hfree w hw heq
  · rw [hent]
    exact h.posted_open hopen k hp
  · rw [hent]
    rcases hret k b' hk with hk | ⟨rfl, rfl⟩
    · exact h.answered k b' hk
    · exact hb

lemma nextCall_free (hwf : WellFormed s) : ∀ w ∈ s.sendWaiters_, w.sent_flag ≠ s.nextCall :=
  fun w hw => Nat.ne_of_lt (hwf.numbered w hw)

lemma unpost (h : Answers s) (i : ℕ) : Answers (s.unpost i) :=
  { h with
    posted_lt := fun call hp => h.posted_lt call (mem_of_mem_eraseIdx hp)
    posted_open := fun hopen call hp => h.posted_open hopen call (mem_of_mem_eraseIdx hp)
    posted_closed := fun hc call hp => h.posted_closed hc call (mem_of_mem_eraseIdx hp) }

lemma mem_of_mem_wake (hwf : WellFormed s) (hp : .sender call ∈ s.posted ++ s.recvWaiters_.take 1) :
    .sender call ∈ s.posted := by
  rcases mem_append.mp hp with hp | hp
  · exact hp
  · obtain ⟨k, hk⟩ := hwf.receivers _ (mem_of_mem_take hp)
    cases hk

section

variable (h : Answers s) (hwf : WellFormed s)

include h hwf

lemma push (hopen : s.closed_ = false) (hroom : s.buffer_.length < s.capacity_) (value : T) :
    Answers (s.newCall.push s.nextCall value) := by
  have hnil := hwf.sendWaiters_eq_nil hroom
  have hent : ∀ k, Entered (s.newCall.push s.nextCall value) k ↔ Entered s k ∨ k = s.nextCall :=
    entered_push _ _ _
  have hlog : ∀ k b, .sendReturned k b ∈ (s.newCall.push s.nextCall value).log →
      .sendReturned k b ∈ s.log := by
    intro k b hmem
    simpa [Loop.push_eq, Loop.newCall] using hmem
  have hparked : (s.newCall.push s.nextCall value).sendWaiters_ = [] := by
    rw [Loop.push_eq]
    exact hnil
  refine ⟨fun k b hk => ?_, by simp [hparked], by simp [hparked],
    fun k hp => ?_, fun _ k hp => ?_, fun hc => ?_, fun k b hk => ?_⟩
  · rw [Loop.push_eq]
    exact Nat.lt_succ_of_lt (h.returned_lt k b (hlog k b hk))
  · rw [Loop.push_eq] at hp ⊢
    exact Nat.lt_succ_of_lt (h.posted_lt k (mem_of_mem_wake hwf hp))
  · rw [hent]
    rw [Loop.push_eq] at hp ⊢
    obtain ⟨hf, he⟩ := h.posted_open hopen k (mem_of_mem_wake hwf hp)
    exact ⟨hf, .inl he⟩
  · rw [Loop.push_eq] at hc
    exact absurd (hopen.symm.trans hc) (by simp)
  · rw [hent]
    have hlt := h.returned_lt k b (hlog k b hk)
    have hne : k ≠ s.nextCall := Nat.ne_of_lt hlt
    simpa [hne] using h.answered k b (hlog k b hk)

lemma park (hopen : s.closed_ = false) (left : T) : Answers (s.newCall.park s.nextCall left) := by
  refine ⟨h.newCall.returned_lt, fun w hw hk => ?_, fun w hw b hk => ?_,
    h.newCall.posted_lt, fun _ k hp => ?_, fun hc => absurd (hopen.symm.trans hc) (by simp),
    h.answered⟩
  · rcases mem_concat.mp hw with hw | rfl
    · exact h.parked_not_entered w hw hk
    · exact absurd (entered_lt hwf hk) (Nat.lt_irrefl _)
  · rcases mem_concat.mp hw with hw | rfl
    · exact h.parked_not_returned w hw b hk
    · exact absurd (h.returned_lt _ b hk) (Nat.lt_irrefl _)
  · obtain ⟨hf, he⟩ := h.posted_open hopen k hp
    have hne : k ≠ s.nextCall := Nat.ne_of_lt (entered_lt hwf he)
    refine ⟨?_, he⟩
    show update s.sentFlags s.nextCall false k = true
    rw [update_of_ne hne, hf]

lemma handOver {w : SendWaiter T} {ws : List (SendWaiter T)} (hw : s.sendWaiters_ = w :: ws)
    (hroom : rest.length < s.capacity_) : Answers (s.take value rest) := by
  have hmem : w ∈ s.sendWaiters_ := by simp [hw]
  have hsub : ∀ x ∈ ws, x ∈ s.sendWaiters_ := fun x hx => by simp [hw, hx]
  have hnd := hwf.nodup
  rw [hw, map_cons, nodup_cons] at hnd
  have hhandle := hwf.senders w hmem
  have hopen : s.closed_ = false := by
    by_contra hc
    have := (hwf.closed (by simpa using hc)).2
    simp [hw] at this
  have hent : ∀ k, Entered (s.take value rest) k ↔ Entered s k ∨ k = w.sent_flag := by
    intro k
    rw [entered_take_of_cons hw hroom, hhandle, Handle.call]
  have heq := Loop.take_of_cons s value rest hw hroom
  have hlog : ∀ k b, .sendReturned k b ∈ (s.take value rest).log → .sendReturned k b ∈ s.log := by
    intro k b hmem
    simpa [heq] using hmem
  have hposted : ∀ k, .sender k ∈ (s.take value rest).posted →
      .sender k ∈ s.posted ∨ k = w.sent_flag := by
    intro k hp
    rw [heq] at hp
    rcases mem_concat.mp hp with hp | hp
    · exact .inl (mem_of_mem_wake hwf hp)
    · rw [hhandle, Handle.sender.injEq] at hp
      exact .inr hp
  have hnext : (s.take value rest).nextCall = s.nextCall := by rw [heq]
  have hparked : (s.take value rest).sendWaiters_ = ws := by rw [heq]
  refine ⟨fun k b hk => ?_, fun x hx hk => ?_, fun x hx b hk => ?_,
    fun k hp => ?_, fun _ k hp => ?_, fun hc => ?_, fun k b hk => ?_⟩
  · rw [hnext]
    exact h.returned_lt k b (hlog k b hk)
  · rw [hparked] at hx
    rcases (hent _).mp hk with hk | hk
    · exact h.parked_not_entered x (hsub x hx) hk
    · exact hnd.1 (hk ▸ mem_map_of_mem hx)
  · rw [hparked] at hx
    exact h.parked_not_returned x (hsub x hx) b (hlog _ b hk)
  · rw [hnext]
    rcases hposted k hp with hp | rfl
    · exact h.posted_lt k hp
    · exact hwf.numbered w hmem
  · have hflags : (s.take value rest).sentFlags =
        update s.sentFlags w.sent_flag true := by rw [heq]
    rw [hent, hflags]
    by_cases hk : k = w.sent_flag
    · subst hk
      exact ⟨update_self _ _ _, .inr rfl⟩
    · obtain ⟨hf, he⟩ := h.posted_open hopen k ((hposted k hp).resolve_right hk)
      exact ⟨by rw [update_of_ne hk, hf], .inl he⟩
  · rw [heq] at hc
    exact absurd (hopen.symm.trans hc) (by simp)
  · have hk' := hlog k b hk
    have hne : k ≠ w.sent_flag := fun heq => h.parked_not_returned w hmem b (heq ▸ hk')
    rw [hent]
    simpa [hne] using h.answered k b hk'

lemma take (hb : s.buffer_ = value :: rest) : Answers (s.take value rest) := by
  cases hw : s.sendWaiters_ with
  | cons w ws => exact h.handOver hwf hw (hwf.rest_lt hb)
  | nil =>
    have hpop : Answers { s with buffer_ := rest } :=
      ⟨h.returned_lt, h.parked_not_entered, h.parked_not_returned, h.posted_lt, h.posted_open,
        h.posted_closed, h.answered⟩
    rw [Loop.take_of_nil _ _ _ hw]
    exact hpop.record (e := .dequeued value) (by simp) (by simp)

lemma shut (hopen : s.closed_ = false)
    (hok : ∀ handle ∈ s.posted, handedOver s handle = false) : Answers s.shut := by
  have hlog : ∀ k b, .sendReturned k b ∈ s.shut.log → .sendReturned k b ∈ s.log := by
    intro k b hmem
    simpa [Loop.shut] using hmem
  have hposted : ∀ k, .sender k ∈ s.shut.posted → ∃ w ∈ s.sendWaiters_, w.sent_flag = k := by
    intro k hp
    rcases mem_append.mp hp with hp | hp
    · rcases mem_append.mp hp with hp | hp
      · have hf := (h.posted_open hopen k hp).1
        have := hok _ hp
        simp [handedOver, hf] at this
      · obtain ⟨_, hk⟩ := hwf.receivers _ hp
        cases hk
    · obtain ⟨w, hw, hk⟩ := mem_map.mp hp
      rw [hwf.senders w hw, Handle.sender.injEq] at hk
      exact ⟨w, hw, hk⟩
  refine ⟨fun k b hk => h.returned_lt k b (hlog k b hk), by simp [Loop.shut], by simp [Loop.shut],
    fun k hp => ?_, fun hc => by simp [Loop.shut] at hc, fun _ k hp hk => ?_, fun k b hk => ?_⟩
  · obtain ⟨w, hw, rfl⟩ := hposted k hp
    exact hwf.numbered w hw
  · obtain ⟨w, hw, rfl⟩ := hposted k hp
    exact h.parked_not_entered w hw ((entered_shut s _).mp hk)
  · rw [entered_shut]
    exact h.answered k b (hlog k b hk)

lemma resumeSender {i : ℕ} (hp : s.posted[i]? = some (.sender call)) :
    Answers ((s.unpost i).record (.sendReturned call (!s.closed_ && s.sentFlags call))) := by
  have hmem : .sender call ∈ s.posted := mem_of_getElem? hp
  refine (h.unpost i).sendReturned (h.posted_lt call hmem) (fun w hw heq => ?_) ?_
  · cases hc : s.closed_ with
    | true =>
      have : w ∈ s.sendWaiters_ := hw
      simp [(hwf.closed hc).2] at this
    | false => exact h.parked_not_entered w hw (heq ▸ (h.posted_open hc call hmem).2)
  · show _ ↔ Entered s call
    cases hc : s.closed_ with
    | true => simpa using h.posted_closed hc call hmem
    | false => simp [h.posted_open hc call hmem]

end

lemma step (hwf : WellFormed s) (h : Answers s)
    (hok : CloseOk s a) (hst : Channel.step mv s a = some s') : Answers s' := by
  cases effect_of_step hst with
  | trySendRejected => exact h.newCall
  | trySendDone value hopen hroom =>
    exact (h.push hwf hopen hroom value).record (by simp) (by simp)
  | sendRefused =>
    refine h.newCall.sendReturned (Nat.lt_succ_self _) (nextCall_free hwf) ?_
    have hne : ¬ Entered s.newCall s.nextCall := fun he => Nat.lt_irrefl _ (entered_lt hwf he)
    simpa using hne
  | sendDone value hopen hroom =>
    have hpush := (h.push hwf hopen hroom value).record (e := .accepted s.nextCall value)
      (by simp) (by simp)
    refine hpush.sendReturned ?_ (fun w hw => ?_) ?_
    · rw [Loop.push_eq]
      exact Nat.lt_succ_self _
    · rw [Loop.push_eq] at hw
      exact nextCall_free hwf w hw
    · rw [entered_record (by simp), entered_push]
      simp
  | sendParked value hopen => exact (h.park hwf hopen _).record (by simp) (by simp)
  | tryRecvEmpty => exact h
  | tryRecvDone value rest hb => exact h.take hwf hb
  | recvDone value rest hb => exact (h.newCall.take hwf.newCall hb).record (by simp) (by simp)
  | recvEnded => exact h.newCall.record (by simp) (by simp)
  | recvParked =>
    have := h.newCall
    exact ⟨this.returned_lt, this.parked_not_entered, this.parked_not_returned, this.posted_lt,
      this.posted_open, this.posted_closed, this.answered⟩
  | resumeSender i call hp => exact h.resumeSender hwf hp
  | resumeReceiverEnded i => exact (h.unpost i).record (by simp) (by simp)
  | resumeReceiverDone i call _ value rest hb =>
    exact ((h.unpost i).take (hwf.unpost i) hb).record (by simp) (by simp)
  | closeAgain => exact h
  | closeFirst hopen => exact h.shut hwf hopen (hok rfl hopen)

end Answers

lemma answers_of_reachable (h : (system mv).ReachableWithin CloseOk s) : Answers s := by
  refine TransitionSystem.ReachableWithin.invariant_of
    (fun _ => wellFormed_of_reachable) h ?_ fun s a s' hwf hs hok hst => hs.step hwf hok hst
  rintro _ ⟨capacity, rfl⟩
  exact ⟨by simp [Loop.new], by simp [Loop.new], by simp [Loop.new],
    by simp [Loop.new], by simp [Loop.new], by simp [Loop.new], by simp [Loop.new]⟩

/-- **The answer agrees with delivery**, in every run in which `close` does not come between the
hand-over of a parked value and the resumption of its sender: a `send` call that has completed
returned `true` if and only if its element entered the buffer. -/
theorem send_answer_iff_entered {mv : T → T} {s : Loop T}
    (h : (system mv).ReachableWithin CloseOk s) (call : ℕ) (b : Bool)
    (hret : .sendReturned call b ∈ s.log) : b = true ↔ Entered s call :=
  (answers_of_reachable h).answered call b hret

/-- A parked value is handed over, its sender runs and answers `true`; only then the channel is
closed. -/
theorem send_answer_iff_entered_handOver : ∃ s : Loop ℕ,
    (system id).ReachableWithin CloseOk s ∧ s.closed_ = true ∧ Entered s 1 := by
  have hs : (system (id : ℕ → ℕ)).ReachableWithin CloseOk _ :=
    .final (Loop.new 1) [.send 10, .send 20, .tryRecv, .resume 0, .close] ⟨1, rfl⟩ (by decide)
  exact ⟨_, hs, rfl, (send_answer_iff_entered hs 1 true (by decide)).mp rfl⟩

/-- `close` between the hand-over and the resumption: the sender answers `false` and its value is
in the buffer. -/
theorem send_answers_false_though_entered : ∃ s : Loop ℕ,
    (system id).Reachable s ∧ .sendReturned 1 false ∈ s.log ∧ .entered 1 20 ∈ s.log ∧
      s.buffer_ = [20] := by
  exact TransitionSystem.reached_by (Loop.new 1) [.send 10, .send 20, .tryRecv, .close, .resume 0]
    ⟨1, rfl⟩ (by decide)

/-! ### The value a `send` delivers -/

/-- In no continuation of `send v`, called in the state `s`, an element other than `v` enters the
buffer for that call. A move leaves `moved` in its source. -/
def DeliversOwn (moved : T) (s : Loop T) (v : T) : Prop :=
  ∀ as, ¬ (system fun _ => moved).RunsTo (fun _ _ => True)
    (fun s' => ∃ x, x ≠ v ∧ .entered s.nextCall x ∈ s'.log) s (.send v :: as)

/-- The call `call` delivers only `v`: what entered for it is `v`, and what is parked for it is
`v` too, unless nothing can ever enter. -/
structure Owns (call : ℕ) (v : T) (s : Loop T) : Prop where
  wf : WellFormed s
  lt : call < s.nextCall
  entered : ∀ x, .entered call x ∈ s.log → x = v
  parked : ∀ w ∈ s.sendWaiters_, w.sent_flag = call → w.value = v ∨ s.capacity_ = 0

namespace Owns

variable {call : ℕ} {v : T} {s : Loop T}

variable (h : Owns call v s)

include h

lemma record (he : ∀ k x, e ≠ .entered k x) : Owns call v (s.record e) := by
  refine ⟨h.wf.record he, h.lt, fun x hx => ?_, h.parked⟩
  rcases mem_concat.mp hx with hx | hx
  · exact h.entered x hx
  · exact absurd hx.symm (he call x)

lemma newCall : Owns call v s.newCall :=
  ⟨h.wf.newCall, Nat.lt_succ_of_lt h.lt, h.entered, h.parked⟩

lemma unpost (i : ℕ) : Owns call v (s.unpost i) :=
  { h with wf := h.wf.unpost i }

lemma push (hroom : s.buffer_.length < s.capacity_) {k : ℕ} (hk : call ≠ k)
    (hlt : k < s.nextCall) (value : T) : Owns call v (s.push k value) := by
  have hwf := h.wf.push hroom hlt value
  rw [Loop.push_eq] at hwf ⊢
  refine ⟨hwf, h.lt, fun x hx => ?_, h.parked⟩
  rcases mem_append.mp hx with hx | hx
  · exact h.entered x hx
  · simp [hk] at hx

lemma park (hopen : s.closed_ = false) (hfull : s.capacity_ ≤ s.buffer_.length)
    (left : T) : Owns call v (s.newCall.park s.nextCall left) := by
  refine ⟨h.wf.park hopen hfull left, Nat.lt_succ_of_lt h.lt, h.entered, fun w hw hcall => ?_⟩
  rcases mem_concat.mp hw with hw | rfl
  · exact h.parked w hw hcall
  · exact absurd hcall.symm (Nat.ne_of_lt h.lt)

lemma take (hb : s.buffer_ = value :: rest) : Owns call v (s.take value rest) := by
  have hwf := h.wf.take hb
  have hrest := h.wf.rest_lt hb
  cases hw : s.sendWaiters_ with
  | nil =>
    rw [Loop.take_of_nil _ _ _ hw] at hwf ⊢
    refine ⟨hwf, h.lt, fun x hx => ?_, h.parked⟩
    exact h.entered x (by simpa using hx)
  | cons w ws =>
    have hmem : w ∈ s.sendWaiters_ := by simp [hw]
    rw [Loop.take_of_cons _ _ _ hw hrest] at hwf ⊢
    refine ⟨hwf, h.lt, fun x hx => ?_, fun y hy => h.parked y (by simp [hw, hy])⟩
    rw [h.wf.senders w hmem] at hx
    simp only [mem_append, mem_singleton, reduceCtorEq, or_false, Event.entered.injEq,
      Handle.call] at hx
    rcases hx with hx | ⟨hcall, rfl⟩
    · exact h.entered x hx
    · rcases h.parked w hmem hcall.symm with hv | hzero
      · exact hv
      · omega

lemma shut : Owns call v s.shut := by
  refine ⟨h.wf.shut, h.lt, fun x hx => h.entered x ?_, by simp [Loop.shut]⟩
  simpa [Loop.shut] using hx

lemma step (hst : Channel.step mv s a = some s') : Owns call v s' := by
  have hne : call ≠ s.nextCall := Nat.ne_of_lt h.lt
  cases effect_of_step hst with
  | trySendRejected => exact h.newCall
  | trySendDone value _ hroom =>
    exact (h.newCall.push hroom hne (Nat.lt_succ_self _) value).record (by simp)
  | sendRefused | recvEnded => exact h.newCall.record (by simp)
  | sendDone value _ hroom =>
    exact ((h.newCall.push hroom hne (Nat.lt_succ_self _) value).record (by simp)).record
      (by simp)
  | sendParked value hopen hfull => exact (h.park hopen hfull _).record (by simp)
  | tryRecvEmpty => exact h
  | tryRecvDone value rest hb => exact h.take hb
  | recvDone value rest hb => exact (h.newCall.take hb).record (by simp)
  | recvParked hopen =>
    exact ⟨h.newCall.wf.parkReceiver hopen _, h.newCall.lt, h.entered, h.parked⟩
  | resumeSender i | resumeReceiverEnded i => exact (h.unpost i).record (by simp)
  | resumeReceiverDone i _ _ value rest hb => exact ((h.unpost i).take hb).record (by simp)
  | closeAgain => exact h
  | closeFirst => exact h.shut

end Owns

/-- The call itself, where its value need not park or what is parked is as good.

**Proof sketch.** Along the three ways a `send` call goes: refused, done at once, parked. The
number of the call is new, so nothing entered and nothing is parked for it before. -/
lemma owns_of_send {moved : T} {v : T} (hwf : WellFormed s)
    (hcond : s.closed_ = true ∨ s.buffer_.length < s.capacity_ ∨ s.capacity_ = 0 ∨ v = moved)
    (hst : step (fun _ => moved) s (.send v) = some s') : Owns s.nextCall v s' := by
  have hnot : ∀ x, .entered s.nextCall x ∉ s.log := fun x hx =>
    Nat.lt_irrefl _ (hwf.entered_lt _ x hx)
  have hfree : ∀ w ∈ s.sendWaiters_, w.sent_flag ≠ s.nextCall := Answers.nextCall_free hwf
  cases effect_of_step hst with
  | sendRefused _ hc =>
    have hnew : Owns s.nextCall v s.newCall :=
      ⟨hwf.newCall, Nat.lt_succ_self _, fun x hx => absurd hx (hnot x),
        fun w hw hcall => absurd hcall (hfree w hw)⟩
    exact hnew.record (by simp)
  | sendDone _ hopen hroom =>
    have hpush : Owns s.nextCall v (s.newCall.push s.nextCall v) := by
      have hwf' := hwf.newCall.push hroom (Nat.lt_succ_self _) v
      rw [Loop.push_eq] at hwf' ⊢
      refine ⟨hwf', Nat.lt_succ_self _, fun x hx => ?_, fun w hw hcall => absurd hcall (hfree w hw)⟩
      rcases mem_append.mp hx with hx | hx
      · exact absurd hx (hnot x)
      · simpa using hx
    exact (hpush.record (by simp)).record (by simp)
  | sendParked _ hopen hfull =>
    have hpark : Owns s.nextCall v (s.newCall.park s.nextCall moved) := by
      refine ⟨hwf.park hopen hfull moved, Nat.lt_succ_self _, fun x hx => absurd hx (hnot x),
        fun w hw hcall => ?_⟩
      rcases mem_concat.mp hw with hw | rfl
      · exact absurd hcall (hfree w hw)
      · rcases hcond with hc | hroom | hzero | hv
        · exact absurd (hopen.symm.trans hc) (by simp)
        · omega
        · exact .inr hzero
        · exact .inl hv.symm
    exact hpark.record (by simp)

lemma step_send_parked (mv : T → T) (hopen : s.closed_ = false)
    (hfull : s.capacity_ ≤ s.buffer_.length) (v : T) : step mv s (.send v) =
      some ((s.newCall.park s.nextCall (mv v)).record (.accepted s.nextCall v)) := by
  cases hst : step mv s (.send v) with
  | none => simp [step] at hst
  | some s' =>
    cases effect_of_step hst with
    | sendRefused _ hc => exact absurd (hopen.symm.trans hc) (by simp)
    | sendDone _ _ hroom => omega
    | sendParked => rfl

lemma step_tryRecv_handOver (mv : T → T) (hwf : WellFormed s) (hcap : 0 < s.capacity_)
    (hw : s.sendWaiters_ = w :: ws) :
    ∃ s', step mv s .tryRecv = some s' ∧ WellFormed s' ∧ s'.capacity_ = s.capacity_ ∧
      s'.sendWaiters_ = ws ∧ .entered w.sent_flag w.value ∈ s'.log := by
  have hfull := hwf.full (by simp [hw])
  obtain ⟨value, rest, hb⟩ : ∃ value rest, s.buffer_ = value :: rest :=
    exists_cons_of_length_pos (by omega)
  have heq := Loop.take_of_cons s value rest hw (hwf.rest_lt hb)
  rw [hwf.senders w (by simp [hw])] at heq
  refine ⟨s.take value rest, ?_, hwf.take hb, by rw [heq], by rw [heq], ?_⟩
  · rw [step, Loop.tryRecv, Loop.takeFront_of_cons hb]
  · rw [heq]
    simp [Handle.call]

/-- Receiving often enough brings the last parked value into the buffer.

**Proof sketch.** Induction on the senders parked before it: each `tryRecv` hands the first
parked value over. -/
lemma runsTo_drain (mv : T → T) (w : SendWaiter T) (ws : List (SendWaiter T)) (hwf : WellFormed s)
    (hcap : 0 < s.capacity_) (hw : s.sendWaiters_ = ws ++ [w]) :
    (system mv).RunsTo (fun _ _ => True) (fun s' => .entered w.sent_flag w.value ∈ s'.log) s
      (List.replicate (ws.length + 1) .tryRecv) := by
  induction ws generalizing s with
  | nil =>
    obtain ⟨s', hst, -, -, -, hent⟩ := step_tryRecv_handOver mv hwf hcap hw
    refine ⟨trivial, ?_⟩
    rw [show (system mv).step s .tryRecv = some s' from hst]
    exact hent
  | cons w' ws ih =>
    obtain ⟨s', hst, hwf', hcap', hw', -⟩ := step_tryRecv_handOver mv hwf hcap hw
    refine ⟨trivial, ?_⟩
    rw [show (system mv).step s .tryRecv = some s' from hst]
    exact ih hwf' (hcap' ▸ hcap) hw'

/-- **A `send` delivers the value it was given** exactly if, when it is called, the channel is
closed, the buffer has room, nothing can ever enter because the capacity is zero, or the value is
the one a move leaves behind. In every other reachable state some continuation delivers the
moved-from value.

**Proof sketch.** If the condition holds, `Owns` holds after the call and in every continuation.
If it fails, the call parks the moved-from value behind the senders that are parked, and
`runsTo_drain` brings it into the buffer. -/
theorem send_deliversOwn_iff {moved : T} {s : Loop T} (h : (system fun _ => moved).Reachable s)
    (v : T) : DeliversOwn moved s v ↔
      s.closed_ = true ∨ s.buffer_.length < s.capacity_ ∨ s.capacity_ = 0 ∨ v = moved := by
  have hwf := wellFormed_of_reachable h
  constructor
  · intro hown
    by_contra hcond
    simp only [not_or, Bool.not_eq_true] at hcond
    obtain ⟨hopen, hroom, hcap, hv⟩ := hcond
    have hfull : s.capacity_ ≤ s.buffer_.length := by omega
    have hst : (system fun _ => moved).step s (.send v) = _ :=
      step_send_parked (fun _ => moved) hopen hfull v
    have hpark := (hwf.park hopen hfull moved).record (e := .accepted s.nextCall v) (by simp)
    have hrun := runsTo_drain (fun _ => moved) ⟨.sender s.nextCall, moved, s.nextCall⟩
      s.sendWaiters_ hpark (Nat.pos_of_ne_zero hcap) rfl
    refine hown (replicate (s.sendWaiters_.length + 1) .tryRecv) ⟨trivial, ?_⟩
    rw [hst]
    exact hrun.mono fun s' hs' => ⟨moved, Ne.symm hv, hs'⟩
  · rintro hcond as ⟨-, hrun⟩
    cases hst : (system fun _ => moved).step s (.send v) with
    | none => simp [hst] at hrun
    | some s' =>
      rw [hst] at hrun
      obtain ⟨ht, x, hx, hent⟩ := hrun.invariant (owns_of_send hwf hcond hst)
        fun s a s' hs _ hst => hs.step hst
      exact hx (ht.entered x hent)

/-- With two senders parked at an open channel, a `send` delivers its value if that is the
moved-from value, and no other value. -/
theorem send_deliversOwn_iff_parked : ∃ s : Loop (Option ℕ),
    (system fun _ => none).Reachable s ∧ s.sendWaiters_.length = 2 ∧ s.closed_ = false ∧
      DeliversOwn none s none ∧ ¬ DeliversOwn none s (some 40) := by
  have hs : (system fun _ => (none : Option ℕ)).Reachable _ :=
    .final (Loop.new 1) [.send (some 10), .send (some 20), .send (some 30)] ⟨1, rfl⟩ (by decide)
  exact ⟨_, hs, rfl, rfl, (send_deliversOwn_iff hs none).mpr (by decide),
    mt (send_deliversOwn_iff hs (some 40)).mp (by decide)⟩

/-- The second `send` parks and delivers the moved-from value. -/
theorem send_delivers_moved : ∃ s : Loop (Option ℕ),
    (system fun _ => none).Reachable s ∧ .accepted 1 (some 20) ∈ s.log ∧
      .entered 1 none ∈ s.log ∧ s.buffer_ = [none] := by
  exact TransitionSystem.reached_by (Loop.new 1) [.send (some 10), .send (some 20), .recv]
    ⟨1, rfl⟩ (by decide)

end Channel

end Pman
