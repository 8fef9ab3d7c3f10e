import RootSign.Lib.Runs
import RootSign.Python.Sha256
import RootSign.Sdk.BufferedClient

namespace RootSign

open RootSign.Lib RootSign.Python

/-!
# Where a buffered envelope is

Every envelope that `handle` buffered should be in the buffer, in a batch that some task is
sending, or finally answered.

* `Buffered.contents` — what each of these places holds;
* `Buffered.NeverLost` — every envelope is in exactly one place, once;
* `Buffered.Moves` — what a task does between two waits only moves what it holds;
* `never_lost_iff` — nothing is lost in a run exactly when `close` never cancels the loop in the
  middle of a send, and an inner client without batches never returns a retryable rejection.
-/

namespace Buffered

/-! ### Places -/

/-- Where an envelope can be. -/
inductive Place where
  | buffer
  | sending (who : Option ℕ)
  | answered
deriving DecidableEq

/-- The envelopes the inner client has accepted or refused for good. -/
def finals (s : Buffered) : List ℕ :=
  (s.answers.filter fun p => !p.2.needsRetry).map Prod.fst

/-- What a place holds. -/
def contents (s : Buffered) : Place → List ℕ
  | .buffer => s.buffer
  | .sending who => (s.tasks who).sending
  | .answered => s.finals

/-- Held once in one place, and nowhere else. -/
def OneHot (count : Place → ℕ) : Prop := ∃ p, ∀ q, count q = if q = p then 1 else 0

/-- Every buffered envelope is in exactly one place; with no send in flight, one that has no
    final answer is in the buffer. -/
structure NeverLost (s : Buffered) : Prop where
  placed : ∀ i < s.next, OneHot fun q => (s.contents q).count i
  kept : (∀ who, (s.tasks who).sending = []) → ∀ i < s.next, i ∉ s.finals → i ∈ s.buffer

/-- The condition on a step: `close` finds the loop between two sends; an envelope handed over by
    itself is not answered with a retryable rejection. -/
def Lossless (s : Buffered) : Label → Prop
  | .close _ => (s.tasks none).sending = []
  | .answerOne _ (some (.refused true)) => False
  | _ => True

/-- What holds after any steps that meet the condition. -/
structure Inv (s : Buffered) : Prop where
  placed : ∀ i < s.next, OneHot fun q => (s.contents q).count i
  fresh : ∀ i, s.next ≤ i → ∀ q, (s.contents q).count i = 0
  unstarted : s.loop_started = false → s.tasks none = .idle

/-- A new client holds no event. -/
theorem Inv.init : Inv init where
  placed i hi := absurd hi (Nat.not_lt_zero i)
  fresh i _ q := by cases q <;> rfl
  unstarted _ := rfl

/-- With nothing in flight, a place that is not the buffer is final. -/
theorem Inv.neverLost {s : Buffered} (h : s.Inv) : s.NeverLost := by
  refine ⟨h.placed, fun hquiet i hi hno => ?_⟩
  obtain ⟨p, hp⟩ := h.placed i hi
  have hone : (s.contents p).count i = 1 := (hp p).trans (if_pos rfl)
  have hmem : i ∈ s.contents p := List.count_pos_iff.mp (by omega)
  cases p with
  | buffer => exact hmem
  | sending who =>
    have hempty : s.contents (.sending who) = [] := hquiet who
    rw [hempty] at hmem
    exact absurd hmem (by simp)
  | answered => exact absurd hmem hno

/-! ### Moving envelopes -/

/-- What a step leaves of the envelopes that one task can reach: `items`, which it held, and
    those of the buffer and the final answers. -/
structure Moves (s s' : Buffered) (who : Option ℕ) (items : List ℕ) : Prop where
  next : s'.next = s.next
  started : s'.loop_started = s.loop_started
  others : ∀ w, w ≠ who → s'.tasks w = s.tasks w
  count : ∀ i, s'.buffer.count i + s'.finals.count i + ((s'.tasks who).sending).count i =
    s.buffer.count i + s.finals.count i + items.count i

variable (cfg : BufferConfig) {s s' : Buffered} {who : Option ℕ}

/-- A task that is set moves what it sends. -/
theorem setTask_moves (s : Buffered) (who : Option ℕ) (task : Task) :
    Moves s (s.setTask who task) who task.sending where
  next := rfl
  started := rfl
  others w hw := Function.update_of_ne hw _ _
  count i := by
    show _ + _ + (Task.sending (Function.update s.tasks who task who)).count i = _
    rw [Function.update_self]
    rfl

/-- A task that goes on has nothing in its hands. -/
theorem resume_moves (s : Buffered) (who : Option ℕ) (after : AfterFlush) :
    Moves s (s.resume who after) who [] := by
  cases after with
  | done => exact setTask_moves s who .idle
  | passthrough before => exact setTask_moves s who (.passing before)
  | sleep =>
    unfold resume
    cases s.closed
    · exact setTask_moves s who .asleep
    · exact setTask_moves s who .ended

/-- Steps on the same tasks after the buffer or the answers have changed. -/
theorem Moves.of_front {s₀ : Buffered} {items₀ items : List ℕ} (h : Moves s₀ s' who items)
    (hnext : s₀.next = s.next) (hstarted : s₀.loop_started = s.loop_started)
    (htasks : s₀.tasks = s.tasks)
    (hcount : ∀ i, s₀.buffer.count i + s₀.finals.count i + items.count i =
      s.buffer.count i + s.finals.count i + items₀.count i) : Moves s s' who items₀ where
  next := h.next.trans hnext
  started := h.started.trans hstarted
  others w hw := (h.others w hw).trans (congrFun htasks w)
  count i := (h.count i).trans (hcount i)

/-- A task that is through gives back what failed. -/
theorem finish_moves (s : Buffered) (who : Option ℕ) (failed : List ℕ) (after : AfterFlush) :
    Moves s (s.finish who failed after) who failed := by
  refine (resume_moves _ who after).of_front rfl rfl rfl fun i => ?_
  show (failed ++ s.buffer).count i + s.finals.count i + _ = _
  rw [List.count_append, List.count_nil]
  omega

/-- Going on with the envelopes left moves them and the failed ones. -/
theorem sendNext_moves (s : Buffered) (who : Option ℕ) (failed rest : List ℕ) (after : AfterFlush) :
    Moves s (s.sendNext cfg who failed rest after) who (failed ++ rest) := by
  induction rest generalizing failed with
  | nil =>
    rw [List.append_nil]
    exact finish_moves s who failed after
  | cons current rest ih =>
    unfold sendNext
    by_cases hattempts : cfg.attempts = 0
    · rw [if_pos hattempts]
      have h := ih (failed ++ [current])
      rwa [List.append_assoc] at h
    · rw [if_neg hattempts]
      exact setTask_moves s who (.one failed current 0 rest after)

/-- A task that starts to send holds its batch. -/
theorem startSend_moves (s : Buffered) (who : Option ℕ) (batch : List ℕ) (after : AfterFlush) :
    Moves s (s.startSend cfg who batch after) who batch := by
  unfold startSend
  by_cases hbatched : cfg.batched = true
  · rw [if_pos hbatched]
    by_cases hattempts : cfg.attempts = 0
    · rw [if_pos hattempts]
      exact finish_moves s who batch after
    · rw [if_neg hattempts]
      exact setTask_moves s who (.batch batch 0 after)
  · rw [if_neg hbatched]
    exact sendNext_moves cfg s who [] batch after

/-- A flush moves the buffer into the hands of its task. -/
theorem flush_moves (s : Buffered) (who : Option ℕ) (after : AfterFlush) :
    Moves s (s.flush cfg who after) who [] := by
  unfold flush
  by_cases hempty : s.buffer.isEmpty = true
  · rw [if_pos hempty]
    exact resume_moves s who after
  · rw [if_neg hempty]
    refine (startSend_moves cfg _ who s.buffer after).of_front rfl rfl rfl fun i => ?_
    show ([] : List ℕ).count i + s.finals.count i + _ = _
    rw [List.count_nil]
    omega

/-- The final answers of a batch and what is sent again are the batch. -/
theorem count_answered (pending : List ℕ) (responses : Option (List InnerAnswer)) (i : ℕ) :
    (((answered pending responses).filter fun p => !p.2.needsRetry).map Prod.fst).count i +
      (unsent pending responses).count i = pending.count i := by
  unfold unsent answered
  generalize responses.getD [] = rs
  rw [List.count_append]
  induction pending generalizing rs with
  | nil => simp
  | cons k pending ih =>
    cases rs with
    | nil => simp
    | cons r rs =>
      have h := ih rs
      rw [List.zip_cons_cons, List.filter_cons, List.filter_cons, List.length_cons,
        List.drop_succ_cons, List.count_cons]
      cases hretry : r.needsRetry
      · simp only [Bool.not_false, if_true, Bool.false_eq_true, if_false, List.map_cons,
          List.count_cons]
        omega
      · simp only [Bool.not_true, if_true, Bool.false_eq_true, if_false, List.map_cons,
          List.count_cons]
        omega

/-- The final answers of more answers. -/
theorem finals_append (s : Buffered) (more : List (ℕ × InnerAnswer)) :
    finals { s with answers := s.answers ++ more } =
      s.finals ++ (more.filter fun p => !p.2.needsRetry).map Prod.fst := by
  simp [finals]

/-- An answer to a batch settles some of it, and the rest stays with the task. -/
theorem batchAnswered_moves (s : Buffered) (who : Option ℕ) (pending : List ℕ) (attempt : ℕ)
    (after : AfterFlush) (responses : Option (List InnerAnswer)) :
    Moves s (s.batchAnswered cfg who pending attempt after responses) who pending := by
  have hfront : ∀ i, s.buffer.count i +
      (finals { s with answers := s.answers ++ answered pending responses }).count i +
        (unsent pending responses).count i =
      s.buffer.count i + s.finals.count i + pending.count i := by
    intro i
    have h := count_answered pending responses i
    rw [finals_append, List.count_append]
    omega
  unfold batchAnswered
  dsimp only
  by_cases hempty : (unsent pending responses).isEmpty = true
  · rw [if_pos hempty]
    rw [List.isEmpty_iff] at hempty
    rw [hempty] at hfront
    exact (finish_moves _ who [] after).of_front rfl rfl rfl hfront
  · rw [if_neg hempty]
    by_cases hagain : attempt + 1 < cfg.attempts
    · rw [if_pos hagain]
      exact (setTask_moves _ who (.batchBackoff _ _ after)).of_front rfl rfl rfl hfront
    · rw [if_neg hagain]
      exact (finish_moves _ who _ after).of_front rfl rfl rfl hfront

/-- An envelope handed over by itself is moved, unless it is dropped on a retryable rejection. -/
theorem oneAnswered_moves (s : Buffered) (who : Option ℕ) (failed : List ℕ) (current attempt : ℕ)
    (rest : List ℕ) (after : AfterFlush) (response : Option InnerAnswer) :
    Moves s (s.oneAnswered cfg who failed current attempt rest after response) who
      (if response = some (.refused true) then failed ++ rest else failed ++ current :: rest) := by
  cases response with
  -- no answer: it is sent again after a pause, or given up and put back
  | none =>
    rw [if_neg (by simp)]
    unfold oneAnswered
    dsimp only
    by_cases hagain : attempt + 1 < cfg.attempts
    · rw [if_pos hagain]
      exact setTask_moves s who (.oneBackoff failed current (attempt + 1) rest after)
    · rw [if_neg hagain]
      have h := sendNext_moves cfg s who (failed ++ [current]) rest after
      rwa [List.append_assoc] at h
  | some answer =>
    refine (sendNext_moves cfg _ who failed rest after).of_front rfl rfl rfl fun i => ?_
    show s.buffer.count i + (finals { s with answers := s.answers ++ [(current, answer)] }).count i
      + _ = _
    rw [finals_append, List.count_append, List.filter_singleton]
    -- a retryable rejection is the answer that loses it: it is neither final nor sent again
    by_cases hlost : answer = .refused true
    · subst hlost
      simp [InnerAnswer.needsRetry]
    · have hfinal : answer.needsRetry = false := by
        cases answer with
        | accepted => rfl
        | refused retryable =>
          cases retryable with
          | true => exact absurd rfl hlost
          | false => rfl
      rw [if_neg (fun h => hlost (Option.some.inj h)), hfinal]
      simp only [Bool.not_false, cond_true, List.map_cons, List.map_nil, List.count_append,
        List.count_cons, List.count_nil]
      omega

/-! ### The invariant -/

variable {cfg}

/-- Counts that agree outside the reach of one task, and in sum within it, are held once
    alike. -/
theorem OneHot.moved (who : Option ℕ) {count count' : Place → ℕ} (h : OneHot count)
    (hothers : ∀ w, w ≠ who → count' (.sending w) = count (.sending w))
    (hsum : count' .buffer + count' .answered + count' (.sending who) =
      count .buffer + count .answered + count (.sending who)) : OneHot count' := by
  obtain ⟨p, hp⟩ := h
  by_cases hreach : p = .buffer ∨ p = .answered ∨ p = .sending who
  · -- one of the three places holds it, before and after
    have hone : count .buffer + count .answered + count (.sending who) = 1 := by
      rw [hp, hp, hp]
      rcases hreach with rfl | rfl | rfl <;> simp
    have hzero : ∀ w, w ≠ who → count' (.sending w) = 0 := by
      intro w hw
      rw [hothers w hw, hp, if_neg]
      rcases hreach with rfl | rfl | rfl <;> simp [hw]
    have hplace : ∃ p', (p' = .buffer ∨ p' = .answered ∨ p' = .sending who) ∧ count' p' = 1 ∧
        ∀ q, (q = .buffer ∨ q = .answered ∨ q = .sending who) → q ≠ p' → count' q = 0 := by
      -- The sum over the three places is still one, so exactly one of them holds it now.
      rw [hone] at hsum
      rcases Nat.eq_zero_or_pos (count' .buffer) with hb | hb
      · rcases Nat.eq_zero_or_pos (count' .answered) with ha | ha
        · refine ⟨.sending who, by simp, by omega, ?_⟩
          rintro q (rfl | rfl | rfl) hq
          · exact hb
          · exact ha
          · exact absurd rfl hq
        · refine ⟨.answered, by simp, by omega, ?_⟩
          rintro q (rfl | rfl | rfl) hq
          · exact hb
          · exact absurd rfl hq
          · omega
      · refine ⟨.buffer, by simp, by omega, ?_⟩
        rintro q (rfl | rfl | rfl) hq
        · exact absurd rfl hq
        · omega
        · omega
    obtain ⟨p', hp', hcount, hrest⟩ := hplace
    refine ⟨p', fun q => ?_⟩
    by_cases hq : q = p'
    · rw [if_pos hq, hq, hcount]
    · rw [if_neg hq]
      cases q with
      | buffer => exact hrest _ (by simp) hq
      | answered => exact hrest _ (by simp) hq
      | sending w =>
        by_cases hw : w = who
        · exact hrest _ (by simp [hw]) hq
        · exact hzero w hw
  · -- it is in another task's hands
    rw [not_or, not_or] at hreach
    refine ⟨p, fun q => ?_⟩
    have hnone : count .buffer + count .answered + count (.sending who) = 0 := by
      rw [hp, hp, hp, if_neg (Ne.symm hreach.1), if_neg (Ne.symm hreach.2.1),
        if_neg (Ne.symm hreach.2.2)]
    cases q with
    | buffer =>
      rw [if_neg (Ne.symm hreach.1)]
      omega
    | answered =>
      rw [if_neg (Ne.symm hreach.2.1)]
      omega
    | sending w =>
      by_cases hw : w = who
      · subst hw
        rw [if_neg (Ne.symm hreach.2.2)]
        omega
      · rw [hothers w hw, hp]

/-- A step of a task that only moves what the task held keeps the invariant. -/
theorem Inv.moves (h : s.Inv) (hmoves : Moves s s' who (s.tasks who).sending)
    (hloop : who = none → s.loop_started = true) : s'.Inv where
  placed i hi := by
    rw [hmoves.next] at hi
    refine OneHot.moved who (h.placed i hi) (fun w hw => ?_) (hmoves.count i)
    show ((s'.tasks w).sending).count i = ((s.tasks w).sending).count i
    rw [hmoves.others w hw]
  fresh i hi q := by
    rw [hmoves.next] at hi
    -- A number not given yet is nowhere before the step, and a move adds none.
    have hfresh := h.fresh i hi
    have hcount := hmoves.count i
    have hb : s.buffer.count i = 0 := hfresh .buffer
    have ha : s.finals.count i = 0 := hfresh .answered
    have hs : ((s.tasks who).sending).count i = 0 := hfresh (.sending who)
    cases q with
    | buffer =>
      show s'.buffer.count i = 0
      omega
    | answered =>
      show s'.finals.count i = 0
      omega
    | sending w =>
      show ((s'.tasks w).sending).count i = 0
      by_cases hw : w = who
      · subst hw
        omega
      · rw [hmoves.others w hw]
        exact hfresh (.sending w)
  unstarted hno := by
    rw [hmoves.started] at hno
    by_cases hwho : who = none
    · exact absurd (hloop hwho) (by simp [hno])
    · rw [hmoves.others none fun h => hwho h.symm]
      exact h.unstarted hno

/-! ### Steps -/

/-- **What a step does**: a task that waits for the label goes on. -/
inductive StepEffect (cfg : BufferConfig) (s : Buffered) : Label → Buffered → Prop where
  | handle (t envelope) (hidle : s.tasks (some t) = .idle) :
      StepEffect cfg s (.handle t envelope) (s.handle cfg t envelope)
  | flush (t) (hidle : s.tasks (some t) = .idle) :
      StepEffect cfg s (.flush t) (s.flush cfg (some t) .done)
  | close (t) (hidle : s.tasks (some t) = .idle) : StepEffect cfg s (.close t) (s.close cfg t)
  | closeFlush (t) (hclosing : s.tasks (some t) = .closing) :
      StepEffect cfg s (.closeFlush t) (s.flush cfg (some t) .done)
  | tick (hasleep : s.tasks none = .asleep) : StepEffect cfg s .tick (s.flush cfg none .sleep)
  | wakeBatch (who pending attempt after)
      (hbackoff : s.tasks who = .batchBackoff pending attempt after) :
      StepEffect cfg s (.wake who) (s.setTask who (.batch pending attempt after))
  | wakeOne (who failed current attempt rest after)
      (hbackoff : s.tasks who = .oneBackoff failed current attempt rest after) :
      StepEffect cfg s (.wake who) (s.setTask who (.one failed current attempt rest after))
  | answerBatch (who pending attempt after responses)
      (hbatch : s.tasks who = .batch pending attempt after) :
      StepEffect cfg s (.answerBatch who responses)
        (s.batchAnswered cfg who pending attempt after responses)
  | answerOne (who failed current attempt rest after response)
      (hone : s.tasks who = .one failed current attempt rest after) :
      StepEffect cfg s (.answerOne who response)
        (s.oneAnswered cfg who failed current attempt rest after response)
  | answerPassthrough (t before) (hpassing : s.tasks (some t) = .passing before) :
      StepEffect cfg s (.answerPassthrough t) (s.setTask (some t) .idle)

/-- Each step has its effect. -/
theorem stepEffect_of_step {l : Label} (h : step cfg s l = some s') : StepEffect cfg s l s' := by
  -- a label whose task is in no state for it is refused
  cases l with
  | handle t envelope =>
    cases htask : s.tasks (some t) <;> simp only [step, htask, Option.some.injEq, reduceCtorEq] at h
    exact h ▸ .handle t envelope htask
  | flush t =>
    cases htask : s.tasks (some t) <;> simp only [step, htask, Option.some.injEq, reduceCtorEq] at h
    exact h ▸ .flush t htask
  | close t =>
    cases htask : s.tasks (some t) <;> simp only [step, htask, Option.some.injEq, reduceCtorEq] at h
    exact h ▸ .close t htask
  | closeFlush t =>
    cases htask : s.tasks (some t) <;> simp only [step, htask, Option.some.injEq, reduceCtorEq] at h
    exact h ▸ .closeFlush t htask
  | tick =>
    cases htask : s.tasks none <;> simp only [step, htask, Option.some.injEq, reduceCtorEq] at h
    exact h ▸ .tick htask
  | wake who =>
    cases htask : s.tasks who <;> simp only [step, htask, Option.some.injEq, reduceCtorEq] at h
    case batchBackoff pending attempt after => exact h ▸ .wakeBatch who pending attempt after htask
    case oneBackoff failed current attempt rest after =>
      exact h ▸ .wakeOne who failed current attempt rest after htask
  | answerBatch who responses =>
    cases htask : s.tasks who <;> simp only [step, htask, Option.some.injEq, reduceCtorEq] at h
    exact h ▸ .answerBatch who _ _ _ responses htask
  | answerOne who response =>
    cases htask : s.tasks who <;> simp only [step, htask, Option.some.injEq, reduceCtorEq] at h
    exact h ▸ .answerOne who _ _ _ _ _ response htask
  | answerPassthrough t =>
    cases htask : s.tasks (some t) <;> simp only [step, htask, Option.some.injEq, reduceCtorEq] at h
    exact h ▸ .answerPassthrough t _ htask

/-- Starting the loop moves nothing. -/
theorem Inv.startLoop (h : s.Inv) : s.startLoop.Inv ∧ s.startLoop.next = s.next ∧
    ∀ t, s.startLoop.tasks (some t) = s.tasks (some t) := by
  unfold Buffered.startLoop
  by_cases hskip : (s.loop_started || s.closed) = true
  · rw [if_pos hskip]
    exact ⟨h, rfl, fun _ => rfl⟩
  rw [if_neg hskip]
  rw [Bool.or_eq_true, not_or, Bool.not_eq_true] at hskip
  have hsame : ∀ q, (s.setTask none .asleep).contents q = s.contents q := by
    intro q
    cases q with
    | buffer => rfl
    | answered => rfl
    | sending w =>
      show (Function.update s.tasks none Task.asleep w).sending = (s.tasks w).sending
      cases w with
      | none => rw [Function.update_self, h.unstarted hskip.1]; rfl
      | some t => rw [Function.update_of_ne (by simp)]
  refine ⟨⟨fun i hi => ?_, fun i hi q => ?_, fun hno => absurd hno (by simp)⟩, rfl, fun t => ?_⟩
  · obtain ⟨p, hp⟩ := h.placed i hi
    exact ⟨p, fun q => (congrArg (List.count i) (hsame q)).trans (hp q)⟩
  · exact (congrArg (List.count i) (hsame q)).trans (h.fresh i hi q)
  · show Function.update s.tasks none Task.asleep (some t) = s.tasks (some t)
    exact Function.update_of_ne (Option.some_ne_none t) _ _

/-- A new envelope goes to the end of the buffer. -/
theorem Inv.push (h : s.Inv) :
    Inv { s with buffer := s.buffer ++ [s.next], next := s.next + 1 } where
  placed i hi := by
    by_cases hnew : i = s.next
    · subst hnew
      refine ⟨.buffer, fun q => ?_⟩
      have hnone := h.fresh s.next le_rfl
      cases q with
      -- the new one was nowhere
      | buffer =>
        show (s.buffer ++ [s.next]).count s.next = _
        have hb : s.buffer.count s.next = 0 := hnone .buffer
        rw [List.count_append, hb]
        simp
      | sending w => exact hnone (.sending w)
      | answered => exact hnone .answered
    · have hold : i < s.next := by
        have hlt : i < s.next + 1 := hi
        omega
      -- an old one stays where it is
      obtain ⟨p, hp⟩ := h.placed i hold
      refine ⟨p, fun q => ?_⟩
      cases q with
      | buffer =>
        show (s.buffer ++ [s.next]).count i = _
        rw [List.count_append, List.count_singleton, if_neg (by simpa using Ne.symm hnew)]
        exact hp .buffer
      | sending w => exact hp (.sending w)
      | answered => exact hp .answered
  fresh i hi q := by
    have hle : s.next + 1 ≤ i := hi
    have hnone := h.fresh i (by omega)
    cases q with
    | buffer =>
      show (s.buffer ++ [s.next]).count i = 0
      rw [List.count_append, List.count_singleton, if_neg (by simp; omega)]
      exact hnone .buffer
    | sending w => exact hnone (.sending w)
    | answered => exact hnone .answered
  unstarted hno := h.unstarted hno

/-- A flush of a task that holds nothing keeps the invariant. -/
theorem Inv.flush (h : s.Inv) (hidle : (s.tasks who).sending = [])
    (hloop : who = none → s.loop_started = true) (after : AfterFlush) :
    (s.flush cfg who after).Inv := by
  have hmoves := flush_moves cfg s who after
  rw [← hidle] at hmoves
  exact h.moves hmoves hloop

/-- A task that waits somewhere has been started. -/
theorem Inv.started (h : s.Inv) (hbusy : s.tasks who ≠ .idle) (hwho : who = none) :
    s.loop_started = true := by
  cases hstarted : s.loop_started with
  | true => rfl
  | false =>
    subst hwho
    exact absurd (h.unstarted hstarted) hbusy

/-- An event taken in is in the buffer or with its task. -/
theorem Inv.handle {t : ℕ} {envelope : Dict} (h : s.Inv) (htask : s.tasks (some t) = .idle) :
    (s.handle cfg t envelope).Inv := by
  obtain ⟨hstart, hnext, htasks⟩ := h.startLoop
  have hidle : (s.startLoop.tasks (some t)).sending = [] := by
    rw [htasks, htask]
    rfl
  unfold Buffered.handle
  dsimp only
  split
  · exact hstart
  · split
    · exact hstart.push.flush hidle (fun h => absurd h (Option.some_ne_none t)) .done
    · exact hstart.push
  · exact hstart.flush hidle (fun h => absurd h (Option.some_ne_none t)) _

/-- A call to `close` loses nothing where the loop is not in a send. -/
theorem Inv.close {t : ℕ} (h : s.Inv) (htask : s.tasks (some t) = .idle)
    (hloop : (s.tasks none).sending = []) : (s.close cfg t).Inv := by
  have hclosed : Inv { s with closed := true } := ⟨h.placed, h.fresh, h.unstarted⟩
  unfold Buffered.close
  dsimp only
  by_cases hstarted : s.loop_started = true
  · rw [if_pos hstarted]
    have hended := setTask_moves { s with closed := true } none .ended
    have hinv := hclosed.moves (by rw [hloop]; exact hended) fun _ => hstarted
    refine hinv.moves ?_ fun h => absurd h (Option.some_ne_none t)
    have hidle : ((({ s with closed := true } : Buffered).setTask none .ended).tasks
        (some t)).sending = [] := by
      show (Function.update s.tasks none Task.ended (some t)).sending = []
      rw [Function.update_of_ne (Option.some_ne_none t), htask]
      rfl
    rw [hidle]
    exact setTask_moves _ (some t) .closing
  · rw [if_neg hstarted]
    exact hclosed.flush (by rw [htask]; rfl) (fun h => absurd h (Option.some_ne_none t)) .done

/-- **One step** that meets the condition keeps the invariant. -/
theorem inv_step {l : Label} (h : s.Inv) (hok : s.Lossless l) (hstep : step cfg s l = some s') :
    s'.Inv := by
  have hflush : ∀ {who : Option ℕ} {after : AfterFlush}, (s.tasks who).sending = [] →
      (who = none → s.loop_started = true) → (s.flush cfg who after).Inv :=
    fun hidle hloop => h.flush hidle hloop _
  cases stepEffect_of_step hstep with
  | handle t envelope hidle => exact h.handle hidle
  | flush t hidle =>
    exact hflush (by rw [hidle]; rfl) fun hnone => absurd hnone (Option.some_ne_none t)
  | close t hidle => exact h.close hidle hok
  | closeFlush t hclosing =>
    exact hflush (by rw [hclosing]; rfl) fun hnone => absurd hnone (Option.some_ne_none t)
  | tick hasleep => exact hflush (by rw [hasleep]; rfl) (h.started (by simp [hasleep]))
  | wakeBatch who pending attempt after hbackoff =>
    have hmoves := setTask_moves s who (.batch pending attempt after)
    exact h.moves (by rw [hbackoff]; exact hmoves) (h.started (by simp [hbackoff]))
  | wakeOne who failed current attempt rest after hbackoff =>
    have hmoves := setTask_moves s who (.one failed current attempt rest after)
    exact h.moves (by rw [hbackoff]; exact hmoves) (h.started (by simp [hbackoff]))
  | answerBatch who pending attempt after responses hbatch =>
    have hmoves := batchAnswered_moves cfg s who pending attempt after responses
    exact h.moves (by rw [hbatch]; exact hmoves) (h.started (by simp [hbatch]))
  | answerOne who failed current attempt rest after response hone =>
    have hmoves := oneAnswered_moves cfg s who failed current attempt rest after response
    -- a refusal that would be retried is what the condition excludes
    have hkept : response ≠ some (.refused true) := by
      rintro rfl
      exact hok
    rw [if_neg hkept] at hmoves
    exact h.moves (by rw [hone]; exact hmoves) (h.started (by simp [hone]))
  | answerPassthrough t before hpassing =>
    have hmoves := setTask_moves s (some t) .idle
    exact h.moves (by rw [hpassing]; exact hmoves) fun h => absurd h (Option.some_ne_none t)

/-- An envelope that is nowhere is lost. -/
theorem not_neverLost {i : ℕ} (hi : i < s.next) (hnone : ∀ q, (s.contents q).count i = 0) :
    ¬ s.NeverLost := by
  intro h
  obtain ⟨p, hp⟩ := h.placed i hi
  have hone : (s.contents p).count i = 1 := (hp p).trans (if_pos rfl)
  rw [hnone p] at hone
  exact absurd hone (by simp)

/-- What a task is sending is nowhere else. -/
theorem Inv.only_sending (h : s.Inv) {i : ℕ} (hmem : i ∈ (s.tasks who).sending) :
    i < s.next ∧ ((s.tasks who).sending).count i = 1 ∧
      ∀ q, q ≠ .sending who → (s.contents q).count i = 0 := by
  have hpos : 0 < (s.contents (.sending who)).count i := List.count_pos_iff.mpr hmem
  have hi : i < s.next := by
    by_contra hge
    have hzero := h.fresh i (by omega) (.sending who)
    omega
  obtain ⟨p, hp⟩ := h.placed i hi
  have hhere : (s.contents (.sending who)).count i = if Place.sending who = p then 1 else 0 :=
    hp (.sending who)
  have hplace : Place.sending who = p := by
    by_contra hne
    rw [if_neg hne] at hhere
    omega
  refine ⟨hi, hhere.trans (if_pos hplace), fun q hq => (hp q).trans (if_neg ?_)⟩
  rw [← hplace]
  exact hq

/-- **Any other step** loses an envelope. -/
theorem lost_of_not_lossless {l : Label} (h : s.Inv) (hbad : ¬ s.Lossless l)
    (hstep : step cfg s l = some s') : ¬ s'.NeverLost := by
  cases stepEffect_of_step hstep with
  | close t hidle =>
    -- the loop is cancelled in the middle of a send
    obtain ⟨i, hmem⟩ := List.exists_mem_of_ne_nil _ hbad
    have hstarted : s.loop_started = true := by
      cases hstarted : s.loop_started with
      | true => rfl
      | false =>
        rw [h.unstarted hstarted] at hmem
        exact absurd hmem (by simp [Task.sending])
    obtain ⟨hi, -, honly⟩ := h.only_sending hmem
    unfold close
    dsimp only
    rw [if_pos hstarted]
    refine not_neverLost (i := i) hi fun q => ?_
    cases q with
    | buffer => exact honly .buffer (by simp)
    | answered => exact honly .answered (by simp)
    | sending w =>
      show ((Function.update (Function.update s.tasks none Task.ended) (some t) Task.closing
        w).sending).count i = 0
      by_cases ht : w = some t
      · rw [ht, Function.update_self]
        rfl
      rw [Function.update_of_ne ht]
      by_cases hw : w = none
      · rw [hw, Function.update_self]
        rfl
      rw [Function.update_of_ne hw]
      exact honly (.sending w) (by simp [hw])
  | answerOne who failed current attempt rest after response htask =>
    have hlost : response = some (.refused true) := by
      by_contra hne
      apply hbad
      unfold Lossless
      split <;> simp_all
    have hmem : current ∈ (s.tasks who).sending := by
      rw [htask]
      simp [Task.sending]
    obtain ⟨hi, hone, honly⟩ := h.only_sending hmem
    have hmoves := oneAnswered_moves cfg s who failed current attempt rest after response
    rw [if_pos hlost] at hmoves
    -- it was once in the batch, so it is not among the envelopes before and after it
    have hrest : (failed ++ rest).count current = 0 := by
      rw [htask] at hone
      have hsplit : (failed ++ current :: rest).count current = 1 := hone
      rw [List.count_append, List.count_cons_self] at hsplit
      rw [List.count_append]
      omega
    have hb : s.buffer.count current = 0 := honly .buffer (by simp)
    have ha : s.finals.count current = 0 := honly .answered (by simp)
    have hcount := hmoves.count current
    refine not_neverLost (i := current) (by rw [hmoves.next]; exact hi) fun q => ?_
    cases q with
    | buffer =>
      show List.count _ (Buffered.buffer _) = 0
      omega
    | answered =>
      show List.count _ (Buffered.finals _) = 0
      omega
    | sending w =>
      show List.count _ (Task.sending (Buffered.tasks _ w)) = 0
      by_cases hw : w = who
      · subst hw
        omega
      · rw [hmoves.others w hw]
        exact honly (.sending w) (by simp [hw])
  | _ => exact absurd trivial hbad

end Buffered

/-- **Nothing is lost** in a run of the buffered client exactly when no `close` comes in the middle
    of a send of the loop, and no envelope handed over by itself is answered with a retryable
    rejection. -/
theorem never_lost_iff (cfg : BufferConfig) (labels : List Buffered.Label) :
    Throughout (Buffered.step cfg) Buffered.NeverLost .init labels ↔
      Guarded (Buffered.step cfg) Buffered.Lossless .init labels :=
  throughout_iff_guarded (fun _ _ _ => Buffered.inv_step)
    (fun _ _ _ => Buffered.lost_of_not_lossless) (fun _ => Buffered.Inv.neverLost)
    Buffered.Inv.init

/-! ### Closing in the middle of a send -/

/-- An action that needs no approval. -/
def autoAuthorized : Dict :=
  Dict.ofFields
    [("event_type", .str "ACTION_RECORD"),
     ("payload", .obj (Dict.ofFields [("authorization_status", .str "auto_authorized")]))]

/-- The loop wakes up and sends the action; `close` cancels it there. -/
def closeMidSend : List Buffered.Label := [.handle 0 autoAuthorized, .tick, .close 0]

/-- The action is neither in the buffer nor in flight nor answered. -/
theorem not_never_lost_closeMidSend :
    ¬ Throughout (Buffered.step ⟨true, 3, 100⟩) Buffered.NeverLost .init closeMidSend := by
  intro h
  obtain ⟨s, hrun, hnext, hbuffer, hanswers, hquiet⟩ : ∃ s,
      run (Buffered.step ⟨true, 3, 100⟩) .init closeMidSend = some s ∧ s.next = 1 ∧
        s.buffer = [] ∧ s.finals = [] ∧ ∀ who, (s.tasks who).sending = [] := by
    refine ⟨_, rfl, rfl, rfl, rfl, fun who => ?_⟩
    match who with
    | none => rfl
    | some 0 => rfl
    | some (t + 1) => rfl
  have hkept := (h.last hrun).kept hquiet 0 (by rw [hnext]; exact one_pos) (by simp [hanswers])
  rw [hbuffer] at hkept
  exact absurd hkept (by simp)

end RootSign
