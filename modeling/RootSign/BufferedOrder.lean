import RootSign.BufferedLoss

namespace RootSign

open RootSign.Lib RootSign.Python

/-!
# The order of buffered delivery

The buffered client should hand over actions in the order of their `handle` calls, and everything
else only after the actions before it.

* `Buffered.InOrder` — what the inner client sees is in order;
* `Buffered.Orderly` — the condition on a step: a buffer is drained, and an envelope forwarded,
  only while nothing is in flight; a batch is answered without a gap; nothing is dropped;
* `Buffered.Holding` — what holds while one task has envelopes in its hands;
* `in_order_of_orderly` — runs of such steps are in order.
-/

/-! ### Order and its condition -/

/-- The flush of a call that forwards an envelope. -/
def AfterFlush.forwards : AfterFlush → Prop
  | .passthrough _ => True
  | _ => False

/-- What a task does after its send, if it is in one. -/
def Task.after : Task → Option AfterFlush
  | .batch _ _ after => some after
  | .batchBackoff _ _ after => some after
  | .one _ _ _ _ after => some after
  | .oneBackoff _ _ _ _ after => some after
  | _ => none

/-- A send has something to send; before an envelope is forwarded, it has given nothing up. -/
def Task.Sound (cfg : BufferConfig) : Task → Prop
  | .batch pending _ _ => pending ≠ []
  | .batchBackoff pending _ _ => pending ≠ []
  | .one failed _ _ _ after => cfg.attempts ≠ 0 ∧ (after.forwards → failed = [])
  | .oneBackoff failed _ _ _ after => cfg.attempts ≠ 0 ∧ (after.forwards → failed = [])
  | _ => True

namespace Buffered

/-- The envelopes the inner client has accepted, in that order. -/
def accepteds (answers : List (ℕ × InnerAnswer)) : List ℕ :=
  (answers.filter fun p => p.2 == .accepted).map Prod.fst

/-- An envelope is forwarded only when all actions buffered before it have final answers; actions
    are accepted in the order of their `handle` calls. -/
structure InOrder (s : Buffered) : Prop where
  forwarded : ∀ who before, s.tasks who = .passing before → ∀ i < before, i ∈ s.finals
  ascending : (accepteds s.answers).Pairwise (· < ·)

/-- No send is in flight. -/
def Quiet (s : Buffered) : Prop := ∀ who, (s.tasks who).sending = []

/-- No element of a batch is accepted after one that must be sent again. -/
def NoGap (pending : List ℕ) (responses : Option (List InnerAnswer)) : Prop :=
  (answered pending responses).Pairwise fun p q => q.2 = .accepted → p.2.needsRetry = false

/-- The condition on a step. -/
def Orderly (cfg : BufferConfig) (s : Buffered) : Label → Prop
  | .handle _ envelope =>
    match shouldBuffer envelope with
    | .error _ => True
    | .ok true => cfg.max_buffer_size ≤ s.buffer.length + 1 → s.Quiet
    | .ok false => s.Quiet ∧ (s.buffer = [] ∨ cfg.attempts ≠ 0)
  | .flush _ => s.buffer = [] ∨ s.Quiet
  | .close _ => (s.tasks none).sending = [] ∧ (s.loop_started = true ∨ s.buffer = [] ∨ s.Quiet)
  | .closeFlush _ => s.buffer = [] ∨ s.Quiet
  | .tick => s.buffer = [] ∨ s.Quiet
  | .wake _ => True
  | .answerBatch who responses =>
    match s.tasks who with
    | .batch pending attempt after => NoGap pending responses ∧
        (after.forwards → attempt + 1 < cfg.attempts ∨ unsent pending responses = [])
    | _ => True
  | .answerOne who response =>
    match s.tasks who with
    | .one failed _ attempt _ after =>
      match response with
      | some .accepted => failed = []
      | some (.refused retryable) => retryable = false
      | none => after.forwards → attempt + 1 < cfg.attempts
    | _ => True
  | .answerPassthrough _ => True

/-! ### The invariant -/

/-- The task has nothing left to wait for that was handled before its own envelope. -/
def Settled (s : Buffered) (task : Task) : Prop :=
  (∀ before, task = .passing before → ∀ i < before, i ∈ s.finals) ∧
    ∀ before, task.after = some (.passthrough before) →
      ∀ i < before, i ∈ s.finals ∨ i ∈ task.sending

/-- What holds after any steps that meet the condition: at most one send is in flight, and it
    and the buffer hold, in order, all that has no final answer. -/
structure OrderInv (cfg : BufferConfig) (s : Buffered) : Prop where
  single : ∀ w w', (s.tasks w).sending ≠ [] → (s.tasks w').sending ≠ [] → w = w'
  sorted : ∀ w, ((s.tasks w).sending ++ s.buffer).Pairwise (· < ·)
  lt_next : ∀ w, ∀ i ∈ (s.tasks w).sending ++ s.buffer, i < s.next
  cover : ∀ i < s.next, i ∈ s.finals ∨ i ∈ s.buffer ∨ ∃ w, i ∈ (s.tasks w).sending
  below : ∀ a ∈ accepteds s.answers, a < s.next ∧
    ∀ w, ∀ j ∈ (s.tasks w).sending ++ s.buffer, a < j
  ascending : (accepteds s.answers).Pairwise (· < ·)
  settled : ∀ w, s.Settled (s.tasks w)
  sound : ∀ w, (s.tasks w).Sound cfg

/-- What holds while a task has the envelopes `items` in its hands, between two waits. -/
structure Holding (cfg : BufferConfig) (s : Buffered) (who : Option ℕ) (items : List ℕ)
    (after : AfterFlush) : Prop where
  others_quiet : ∀ w, w ≠ who → (s.tasks w).sending = []
  sorted : (items ++ s.buffer).Pairwise (· < ·)
  lt_next : ∀ i ∈ items ++ s.buffer, i < s.next
  cover : ∀ i < s.next, i ∈ s.finals ∨ i ∈ items ++ s.buffer
  below : ∀ a ∈ accepteds s.answers, a < s.next ∧ ∀ j ∈ items ++ s.buffer, a < j
  ascending : (accepteds s.answers).Pairwise (· < ·)
  settled : ∀ w, w ≠ who → s.Settled (s.tasks w)
  sound : ∀ w, w ≠ who → (s.tasks w).Sound cfg
  own : ∀ before, after = .passthrough before → ∀ i < before, i ∈ s.finals ∨ i ∈ items

variable {cfg : BufferConfig} {s s' : Buffered} {who : Option ℕ} {items : List ℕ}
  {after : AfterFlush}

theorem OrderInv.init : OrderInv cfg init where
  single _ _ h _ := absurd rfl h
  sorted _ := .nil
  lt_next _ i hi := absurd hi (by simp [Buffered.init, Task.sending])
  cover i hi := absurd hi (Nat.not_lt_zero i)
  below a ha := absurd ha (by simp [Buffered.init, accepteds])
  ascending := .nil
  settled _ := ⟨fun _ h => absurd h (by simp [Buffered.init]),
    fun _ h => absurd h (by simp [Buffered.init, Task.after])⟩
  sound _ := trivial

theorem OrderInv.inOrder (h : OrderInv cfg s) : s.InOrder where
  forwarded who before htask := (h.settled who).1 before htask
  ascending := h.ascending

/-- The task waits with all it holds. -/
theorem Holding.wait (h : Holding cfg s who items after) (task : Task)
    (hsending : task.sending = items) (hsettled : s.Settled task) (hsound : task.Sound cfg) :
    OrderInv cfg (s.setTask who task) := by
  have hself : (s.setTask who task).tasks who = task := Function.update_self _ _ _
  have hother : ∀ w, w ≠ who → (s.setTask who task).tasks w = s.tasks w :=
    fun w hw => Function.update_of_ne hw _ _
  -- what a task is sending is what this one holds, or nothing
  have hsend : ∀ w, ((s.setTask who task).tasks w).sending = if w = who then items else [] := by
    intro w
    by_cases hw : w = who
    · rw [hw, hself, if_pos rfl, hsending]
    · rw [hother w hw, if_neg hw, h.others_quiet w hw]
  have hsub : ∀ w, (((s.setTask who task).tasks w).sending ++ s.buffer).Sublist
      (items ++ s.buffer) := by
    intro w
    rw [hsend w]
    by_cases hw : w = who
    · rw [if_pos hw]
    · rw [if_neg hw]
      exact List.sublist_append_right items s.buffer
  refine ⟨fun w w' hw hw' => ?_, fun w => h.sorted.sublist (hsub w),
    fun w i hi => h.lt_next i ((hsub w).subset hi), fun i hi => ?_, fun a ha => ?_, h.ascending,
    fun w => ?_, fun w => ?_⟩
  · have hwho : ∀ v, ((s.setTask who task).tasks v).sending ≠ [] → v = who := by
      intro v hv
      by_contra hne
      exact hv (by rw [hsend v, if_neg hne])
    rw [hwho w hw, hwho w' hw']
  · rcases h.cover i hi with hfinal | hmem
    · exact Or.inl hfinal
    · rcases List.mem_append.mp hmem with hmem | hmem
      · exact Or.inr (Or.inr ⟨who, by rw [hsend who, if_pos rfl]; exact hmem⟩)
      · exact Or.inr (Or.inl hmem)
  · exact ⟨(h.below a ha).1, fun w j hj => (h.below a ha).2 j ((hsub w).subset hj)⟩
  · by_cases hw : w = who
    · rw [hw, hself]
      exact hsettled
    · rw [hother w hw]
      exact h.settled w hw
  · by_cases hw : w = who
    · rw [hw, hself]
      exact hsound
    · rw [hother w hw]
      exact h.sound w hw

/-- A task that waits for nothing of the client's is settled. -/
theorem settled_of_out {task : Task} (hpassing : ∀ before, task ≠ .passing before)
    (hafter : task.after = none) : s.Settled task :=
  ⟨fun before htask => absurd htask (hpassing before),
    fun before hbefore => absurd (hafter.symm.trans hbefore) (by simp)⟩

/-- The task puts back what it holds; one that forwards an envelope holds nothing. -/
theorem Holding.finish (h : Holding cfg s who items after) (hnone : after.forwards → items = []) :
    OrderInv cfg (s.finish who items after) := by
  have hback : Holding cfg { s with buffer := items ++ s.buffer } who [] after :=
    ⟨h.others_quiet, h.sorted, h.lt_next, h.cover, h.below, h.ascending, h.settled, h.sound,
      fun before hbefore i hi => by
        have hitems := hnone (by rw [hbefore]; trivial)
        rcases h.own before hbefore i hi with hfinal | hmem
        · exact Or.inl hfinal
        · rw [hitems] at hmem
          exact absurd hmem (by simp)⟩
  unfold Buffered.finish
  cases after with
  | done => exact hback.wait .idle rfl (settled_of_out (by simp) rfl) trivial
  | passthrough before =>
    refine hback.wait (.passing before) rfl ⟨fun b hb i hi => ?_, fun b hb => ?_⟩ trivial
    · obtain rfl := Task.passing.inj hb
      exact (hback.own _ rfl i hi).resolve_right (by simp)
    · exact absurd hb (by simp [Task.after])
  | sleep =>
    have hasleep := hback.wait .asleep rfl (settled_of_out (by simp) rfl) trivial
    have hended := hback.wait .ended rfl (settled_of_out (by simp) rfl) trivial
    unfold resume
    dsimp only
    split
    · exact hended
    · exact hasleep

/-- A task in the middle of a send is settled by what it holds. -/
theorem Holding.settled_of_after (h : Holding cfg s who items after) {task : Task}
    (hsending : task.sending = items) (hafter : task.after = some after) : s.Settled task := by
  refine ⟨fun before htask => ?_, fun before hbefore i hi => ?_⟩
  · rw [htask] at hafter
    exact absurd hafter (by simp [Task.after])
  · rw [hafter, Option.some.injEq] at hbefore
    rw [hsending]
    exact h.own before hbefore i hi

theorem Holding.sendNext {failed rest : List ℕ} (h : Holding cfg s who (failed ++ rest) after)
    (hfailed : after.forwards → failed = [])
    (hattempts : after.forwards → rest = [] ∨ cfg.attempts ≠ 0) :
    OrderInv cfg (s.sendNext cfg who failed rest after) := by
  induction rest generalizing failed with
  | nil =>
    rw [List.append_nil] at h
    exact h.finish hfailed
  | cons current rest ih =>
    unfold Buffered.sendNext
    by_cases hzero : cfg.attempts = 0
    · rw [if_pos hzero]
      have hno : ¬ after.forwards := fun hf => by
        rcases hattempts hf with hnil | hne
        · exact absurd hnil (by simp)
        · exact hne hzero
      exact ih (by rwa [List.append_assoc]) (fun hf => absurd hf hno) fun hf => absurd hf hno
    · rw [if_neg hzero]
      exact h.wait (.one failed current 0 rest after) rfl (h.settled_of_after rfl rfl)
        ⟨hzero, hfailed⟩

theorem Holding.startSend (h : Holding cfg s who items after) (hitems : items ≠ [])
    (hattempts : after.forwards → items = [] ∨ cfg.attempts ≠ 0) :
    OrderInv cfg (s.startSend cfg who items after) := by
  unfold Buffered.startSend
  by_cases hbatched : cfg.batched = true
  · rw [if_pos hbatched]
    by_cases hzero : cfg.attempts = 0
    · rw [if_pos hzero]
      exact h.finish fun hf => (hattempts hf).resolve_right fun hne => hne hzero
    · rw [if_neg hzero]
      exact h.wait (.batch items 0 after) rfl (h.settled_of_after rfl rfl) hitems
  · rw [if_neg hbatched]
    have h' : Holding cfg s who ([] ++ items) after := h
    exact h'.sendNext (fun _ => rfl) hattempts

/-! ### Steps -/

/-- A task that holds nothing goes elsewhere. -/
theorem OrderInv.leave (h : OrderInv cfg s) (hidle : (s.tasks who).sending = []) (task : Task)
    (hsending : task.sending = []) (hsettled : s.Settled task) (hsound : task.Sound cfg) :
    OrderInv cfg (s.setTask who task) := by
  have hself : (s.setTask who task).tasks who = task := Function.update_self _ _ _
  have hother : ∀ w, w ≠ who → (s.setTask who task).tasks w = s.tasks w :=
    fun w hw => Function.update_of_ne hw _ _
  -- Neither the old task nor the new one holds an envelope, so every task sends what it did.
  have hsend : ∀ w, ((s.setTask who task).tasks w).sending = (s.tasks w).sending := by
    intro w
    by_cases hw : w = who
    · rw [hw, hself, hsending, hidle]
    · rw [hother w hw]
  refine ⟨fun w w' => ?_, fun w => ?_, fun w => ?_, fun i hi => ?_, fun a ha => ?_, h.ascending,
    fun w => ?_, fun w => ?_⟩
  · rw [hsend w, hsend w']
    exact h.single w w'
  · rw [hsend w]
    exact h.sorted w
  · rw [hsend w]
    exact h.lt_next w
  · rcases h.cover i hi with hfinal | hbuffer | ⟨w, hw⟩
    · exact Or.inl hfinal
    · exact Or.inr (Or.inl hbuffer)
    · exact Or.inr (Or.inr ⟨w, by rw [hsend w]; exact hw⟩)
  · refine ⟨(h.below a ha).1, fun w => ?_⟩
    rw [hsend w]
    exact (h.below a ha).2 w
  · by_cases hw : w = who
    · rw [hw, hself]
      exact hsettled
    · rw [hother w hw]
      exact h.settled w
  · by_cases hw : w = who
    · rw [hw, hself]
      exact hsound
    · rw [hother w hw]
      exact h.sound w

/-- What a task is sending, it holds. -/
theorem OrderInv.holding (h : OrderInv cfg s)
    (hothers : ∀ w, w ≠ who → (s.tasks w).sending = [])
    (hafter : (s.tasks who).after = some after) :
    Holding cfg s who (s.tasks who).sending after where
  others_quiet := hothers
  sorted := h.sorted who
  lt_next := h.lt_next who
  cover i hi := by
    rcases h.cover i hi with hfinal | hbuffer | ⟨w, hw⟩
    · exact Or.inl hfinal
    · exact Or.inr (List.mem_append_right _ hbuffer)
    · by_cases hwho : w = who
      · exact Or.inr (List.mem_append_left _ (hwho ▸ hw))
      · rw [hothers w hwho] at hw
        exact absurd hw (by simp)
  below a ha := ⟨(h.below a ha).1, (h.below a ha).2 who⟩
  ascending := h.ascending
  settled w _ := h.settled w
  sound w _ := h.sound w
  own before hbefore := (h.settled who).2 before (by rw [hafter, hbefore])

/-- A flush drains the buffer only while nothing is in flight. -/
theorem OrderInv.flush (h : OrderInv cfg s) (hidle : (s.tasks who).sending = [])
    (hquiet : s.buffer = [] ∨ s.Quiet)
    (hforward : ∀ before, after = .passthrough before →
      before = s.next ∧ s.Quiet ∧ (s.buffer = [] ∨ cfg.attempts ≠ 0)) :
    OrderInv cfg (s.flush cfg who after) := by
  by_cases hall : s.Quiet
  -- With nothing in flight, the whole buffer may be taken into one pair of hands.
  · have hholding : Holding cfg { s with buffer := [] } who s.buffer after :=
      ⟨fun w _ => hall w,
        by rw [List.append_nil]; exact (List.pairwise_append.mp (h.sorted who)).2.1,
        fun i hi => h.lt_next who i (List.mem_append_right _ (by rwa [List.append_nil] at hi)),
        fun i hi => by
          rw [List.append_nil]
          rcases h.cover i hi with hfinal | hbuffer | ⟨w, hw⟩
          · exact Or.inl hfinal
          · exact Or.inr hbuffer
          · rw [hall w] at hw
            exact absurd hw (by simp),
        fun a ha => ⟨(h.below a ha).1, fun j hj => (h.below a ha).2 who j
          (List.mem_append_right _ (by rwa [List.append_nil] at hj))⟩,
        h.ascending, fun w _ => h.settled w, fun w _ => h.sound w,
        fun before hbefore i hi => by
          rw [(hforward before hbefore).1] at hi
          rcases h.cover i hi with hfinal | hbuffer | ⟨w, hw⟩
          · exact Or.inl hfinal
          · exact Or.inr hbuffer
          · rw [hall w] at hw
            exact absurd hw (by simp)⟩
    unfold Buffered.flush
    by_cases hempty : s.buffer.isEmpty = true
    · rw [if_pos hempty]
      rw [List.isEmpty_iff] at hempty
      have hfinish := hholding.finish fun _ => hempty
      have heq : ({ s with buffer := [] } : Buffered).finish who s.buffer after =
          s.resume who after := by
        unfold Buffered.finish
        dsimp only
        rw [List.append_nil]
      rw [heq] at hfinish
      exact hfinish
    · rw [if_neg hempty]
      refine hholding.startSend (by simpa using hempty) fun hf => ?_
      cases after with
      | passthrough before => exact (hforward before rfl).2.2
      | _ => exact absurd hf id
  · -- there is nothing to drain, and nothing is forwarded
    have hempty := hquiet.resolve_right hall
    unfold Buffered.flush
    rw [if_pos (by rw [hempty]; rfl)]
    cases after with
    | done => exact h.leave hidle .idle rfl (settled_of_out (by simp) rfl) trivial
    | passthrough before => exact absurd (hforward before rfl).2.1 hall
    | sleep =>
      unfold resume
      dsimp only
      split
      · exact h.leave hidle .ended rfl (settled_of_out (by simp) rfl) trivial
      · exact h.leave hidle .asleep rfl (settled_of_out (by simp) rfl) trivial

/-- A new envelope goes to the end of the buffer. -/
theorem OrderInv.push (h : OrderInv cfg s) :
    OrderInv cfg { s with buffer := s.buffer ++ [s.next], next := s.next + 1 } where
  single := h.single
  sorted w := by
    -- the new one has the greatest number
    rw [← List.append_assoc, List.pairwise_append]
    refine ⟨h.sorted w, List.pairwise_singleton _ _, fun i hi j hj => ?_⟩
    rw [List.mem_singleton.mp hj]
    exact h.lt_next w i hi
  lt_next w i hi := by
    rw [← List.append_assoc, List.mem_append, List.mem_singleton] at hi
    rcases hi with hi | rfl
    · exact Nat.lt_succ_of_lt (h.lt_next w i hi)
    · exact Nat.lt_succ_self _
  cover i hi := by
    rcases Nat.lt_succ_iff_lt_or_eq.mp hi with hi | rfl
    · rcases h.cover i hi with hfinal | hbuffer | hw
      · exact Or.inl hfinal
      · exact Or.inr (Or.inl (List.mem_append_left _ hbuffer))
      · exact Or.inr (Or.inr hw)
    · exact Or.inr (Or.inl (by simp))
  below a ha := by
    refine ⟨Nat.lt_succ_of_lt (h.below a ha).1, fun w j hj => ?_⟩
    -- it lies above every answer given so far
    rw [← List.append_assoc, List.mem_append, List.mem_singleton] at hj
    rcases hj with hj | rfl
    · exact (h.below a ha).2 w j hj
    · exact (h.below a ha).1
  ascending := h.ascending
  settled := h.settled
  sound := h.sound

/-! ### Answers to a batch -/

/-- What is sent again keeps its order. -/
theorem unsent_sublist (pending : List ℕ) (responses : Option (List InnerAnswer)) :
    (unsent pending responses).Sublist pending := by
  unfold unsent answered
  generalize responses.getD [] = rs
  induction pending generalizing rs with
  | nil => simp
  | cons k pending ih =>
    cases rs with
    | nil => simp
    | cons r rs =>
      rw [List.zip_cons_cons, List.filter_cons, List.length_cons, List.drop_succ_cons]
      cases r.needsRetry
      · exact (ih rs).cons k
      · exact (ih rs).cons_cons k

theorem accepteds_append (xs ys : List (ℕ × InnerAnswer)) :
    accepteds (xs ++ ys) = accepteds xs ++ accepteds ys := by
  simp [accepteds]

/-- What is accepted of a batch keeps its order. -/
theorem accepteds_sublist (pending : List ℕ) (responses : Option (List InnerAnswer)) :
    (accepteds (answered pending responses)).Sublist pending := by
  unfold accepteds answered
  generalize responses.getD [] = rs
  induction pending generalizing rs with
  | nil => simp
  | cons k pending ih =>
    cases rs with
    | nil => simp
    | cons r rs =>
      rw [List.zip_cons_cons, List.filter_cons]
      split
      · exact (ih rs).cons_cons k
      · exact (ih rs).cons k

/-- Without a gap, what is accepted comes before what is sent again. -/
theorem accepted_lt_unsent {pending : List ℕ} {responses : Option (List InnerAnswer)}
    (hsorted : pending.Pairwise (· < ·)) (hgap : NoGap pending responses) :
    ∀ a ∈ accepteds (answered pending responses), ∀ j ∈ unsent pending responses, a < j := by
  unfold NoGap at hgap
  unfold unsent
  unfold accepteds
  unfold answered at *
  generalize responses.getD [] = rs at *
  induction pending generalizing rs with
  | nil => simp
  | cons k pending ih =>
    cases rs with
    | nil => simp
    | cons r rs =>
      rw [List.zip_cons_cons, List.pairwise_cons] at hgap
      rw [List.pairwise_cons] at hsorted
      have hrest := ih hsorted.2 rs hgap.2
      rw [List.zip_cons_cons, List.filter_cons, List.filter_cons, List.length_cons,
        List.drop_succ_cons]
      cases hretry : r.needsRetry with
      | true =>
        -- nothing after it is accepted
        intro a ha
        have hno : r ≠ .accepted := by
          rintro rfl
          exact absurd hretry (by decide)
        rw [if_neg (by simpa using hno)] at ha
        obtain ⟨q, hq, -⟩ := List.mem_map.mp ha
        rw [List.mem_filter] at hq
        have hfinal := hgap.1 q hq.1 (by simpa using hq.2)
        exact absurd hfinal (by simp [hretry])
      | false =>
        intro a ha j hj
        have hsub : j ∈ pending := by
          have hmem := (unsent_sublist pending (some rs)).subset hj
          exact hmem
        split at ha
        · rcases List.mem_cons.mp ha with rfl | ha
          · exact hsorted.1 j hsub
          · exact hrest a ha j hj
        · exact hrest a ha j hj

/-- The answers to a batch leave what is sent again. -/
theorem Holding.answered {pending : List ℕ} (h : Holding cfg s who pending after)
    (responses : Option (List InnerAnswer)) (hgap : NoGap pending responses) :
    Holding cfg { s with answers := s.answers ++ answered pending responses } who
      (unsent pending responses) after := by
  have hsub := unsent_sublist pending responses
  have hsub' : (unsent pending responses ++ s.buffer).Sublist (pending ++ s.buffer) :=
    hsub.append (List.Sublist.refl _)
  -- an element has a final answer, or it is sent again
  have hsplit : ∀ i ∈ pending,
      i ∈ finals { s with answers := s.answers ++ Buffered.answered pending responses } ∨
        i ∈ unsent pending responses := by
    intro i hi
    have hcount := count_answered pending responses i
    have hpos : 0 < pending.count i := List.count_pos_iff.mpr hi
    rw [finals_append]
    by_cases hun : i ∈ unsent pending responses
    · exact Or.inr hun
    · rw [List.count_eq_zero_of_not_mem hun] at hcount
      exact Or.inl (List.mem_append_right _ (List.count_pos_iff.mp (by omega)))
  have hfinals : ∀ i, i ∈ s.finals →
      i ∈ finals { s with answers := s.answers ++ Buffered.answered pending responses } := by
    intro i hi
    rw [finals_append]
    exact List.mem_append_left _ hi
  have hnew := accepteds_sublist pending responses
  have hsortedpending := (List.pairwise_append.mp h.sorted).1
  refine ⟨h.others_quiet, h.sorted.sublist hsub', fun i hi => h.lt_next i (hsub'.subset hi),
    fun i hi => ?_, fun a ha => ?_, ?_, fun w hw => ?_, h.sound, fun before hbefore i hi => ?_⟩
  · rcases h.cover i hi with hfinal | hmem
    · exact Or.inl (hfinals i hfinal)
    · rcases List.mem_append.mp hmem with hmem | hmem
      · exact (hsplit i hmem).imp_right fun hu => List.mem_append_left _ hu
      · exact Or.inr (List.mem_append_right _ hmem)
  · have ha' : a ∈ accepteds s.answers ++ accepteds (Buffered.answered pending responses) := by
      rw [← accepteds_append]
      exact ha
    rcases List.mem_append.mp ha' with hold | hacc
    · exact ⟨(h.below a hold).1, fun j hj => (h.below a hold).2 j (hsub'.subset hj)⟩
    · refine ⟨h.lt_next a (List.mem_append_left _ (hnew.subset hacc)), fun j hj => ?_⟩
      rcases List.mem_append.mp hj with hj | hj
      · exact accepted_lt_unsent hsortedpending hgap a hacc j hj
      · exact (List.pairwise_append.mp h.sorted).2.2 a (hnew.subset hacc) j hj
  · show (accepteds (s.answers ++ Buffered.answered pending responses)).Pairwise (· < ·)
    rw [accepteds_append, List.pairwise_append]
    refine ⟨h.ascending, hsortedpending.sublist hnew, fun a ha b hb => ?_⟩
    exact (h.below a ha).2 b (List.mem_append_left _ (hnew.subset hb))
  · obtain ⟨hpassing, hafter⟩ := h.settled w hw
    exact ⟨fun before htask i hi => hfinals i (hpassing before htask i hi),
      fun before hb i hi => (hafter before hb i hi).imp_left (hfinals i)⟩
  · rcases h.own before hbefore i hi with hfinal | hmem
    · exact Or.inl (hfinals i hfinal)
    · exact hsplit i hmem

/-- The final answer to the one envelope handed over leaves the others. -/
theorem Holding.one {failed rest : List ℕ} {current : ℕ}
    (h : Holding cfg s who (failed ++ current :: rest) after) {response : InnerAnswer}
    (hfinal : response.needsRetry = false) (hfirst : response = .accepted → failed = []) :
    Holding cfg { s with answers := s.answers ++ [(current, response)] } who (failed ++ rest)
      after := by
  have hsub : (failed ++ rest).Sublist (failed ++ current :: rest) :=
    (List.Sublist.refl _).append (List.sublist_cons_self current rest)
  have hsub' := hsub.append (List.Sublist.refl s.buffer)
  have hnew : finals { s with answers := s.answers ++ [(current, response)] } =
      s.finals ++ [current] := by
    rw [finals_append, List.filter_singleton, hfinal]
    rfl
  have hsplit : ∀ i ∈ failed ++ current :: rest,
      i ∈ finals { s with answers := s.answers ++ [(current, response)] } ∨
        i ∈ failed ++ rest := by
    intro i hi
    rw [hnew]
    rcases List.mem_append.mp hi with hi | hi
    · exact Or.inr (List.mem_append_left _ hi)
    · rcases List.mem_cons.mp hi with rfl | hi
      · exact Or.inl (by simp)
      · exact Or.inr (List.mem_append_right _ hi)
  have hfinals : ∀ i, i ∈ s.finals →
      i ∈ finals { s with answers := s.answers ++ [(current, response)] } := by
    intro i hi
    rw [hnew]
    exact List.mem_append_left _ hi
  have hcurrent : current ∈ failed ++ current :: rest := by simp
  -- an accepted envelope is the first of those left
  have hacc : ∀ a ∈ accepteds [(current, response)], a = current ∧ failed = [] := by
    intro a ha
    unfold accepteds at ha
    obtain ⟨p, hp, rfl⟩ := List.mem_map.mp ha
    rw [List.mem_filter, List.mem_singleton] at hp
    obtain ⟨rfl, hp⟩ := hp
    exact ⟨rfl, hfirst (by simpa using hp)⟩
  have hbelow : ∀ a ∈ accepteds [(current, response)], ∀ j ∈ (failed ++ rest) ++ s.buffer,
      a < j := by
    intro a ha j hj
    obtain ⟨rfl, hnil⟩ := hacc a ha
    have hsorted := h.sorted
    rw [hnil, List.nil_append, List.cons_append, List.pairwise_cons] at hsorted
    rw [hnil, List.nil_append] at hj
    exact hsorted.1 j hj
  refine ⟨h.others_quiet, h.sorted.sublist hsub', fun i hi => h.lt_next i (hsub'.subset hi),
    fun i hi => ?_, fun a ha => ?_, ?_, fun w hw => ?_, h.sound, fun before hbefore i hi => ?_⟩
  · rcases h.cover i hi with hf | hmem
    · exact Or.inl (hfinals i hf)
    · rcases List.mem_append.mp hmem with hmem | hmem
      · exact (hsplit i hmem).imp_right fun hu => List.mem_append_left _ hu
      · exact Or.inr (List.mem_append_right _ hmem)
  · have ha' : a ∈ accepteds s.answers ++ accepteds [(current, response)] := by
      rw [← accepteds_append]
      exact ha
    rcases List.mem_append.mp ha' with hold | hnewly
    · exact ⟨(h.below a hold).1, fun j hj => (h.below a hold).2 j (hsub'.subset hj)⟩
    · refine ⟨?_, hbelow a hnewly⟩
      rw [(hacc a hnewly).1]
      exact h.lt_next current (List.mem_append_left _ hcurrent)
  · show (accepteds (s.answers ++ [(current, response)])).Pairwise (· < ·)
    rw [accepteds_append, List.pairwise_append]
    refine ⟨h.ascending, ?_, fun a ha b hb => ?_⟩
    · unfold accepteds
      rw [List.filter_singleton]
      cases response == .accepted
      · exact List.Pairwise.nil
      · exact List.pairwise_singleton _ _
    · rw [(hacc b hb).1]
      exact (h.below a ha).2 current (List.mem_append_left _ hcurrent)
  · obtain ⟨hpassing, hafter⟩ := h.settled w hw
    exact ⟨fun before htask i hi => hfinals i (hpassing before htask i hi),
      fun before hb i hi => (hafter before hb i hi).imp_left (hfinals i)⟩
  · rcases h.own before hbefore i hi with hf | hmem
    · exact Or.inl (hfinals i hf)
    · exact hsplit i hmem

/-! ### The run -/

/-- A step that meets the condition is lossless. -/
theorem Orderly.lossless {l : Label} (h : s.Orderly cfg l) (hstep : step cfg s l = some s') :
    s.Lossless l := by
  cases stepEffect_of_step hstep with
  | close t => exact h.1
  | answerOne who failed current attempt rest after response hone =>
    unfold Orderly at h
    simp only [hone] at h
    cases response with
    | none => trivial
    | some answer =>
      cases answer with
      | accepted => trivial
      | refused retryable =>
        have hfinal : retryable = false := h
        subst hfinal
        trivial
  | _ => trivial

/-- A task in the middle of a send is the only one. -/
theorem OrderInv.holding_of_sending (h : OrderInv cfg s) (hbusy : (s.tasks who).sending ≠ [])
    (hafter : (s.tasks who).after = some after) :
    Holding cfg s who (s.tasks who).sending after :=
  h.holding (fun w hw => by
    by_contra hother
    exact hw (h.single w who hother hbusy)) hafter

/-- Only what a batch call has left is answered. -/
theorem OrderInv.batchAnswered {pending : List ℕ} {attempt : ℕ} (h : OrderInv cfg s)
    (htask : s.tasks who = .batch pending attempt after) (responses : Option (List InnerAnswer))
    (hgap : NoGap pending responses)
    (hlast : after.forwards → attempt + 1 < cfg.attempts ∨ unsent pending responses = []) :
    OrderInv cfg (s.batchAnswered cfg who pending attempt after responses) := by
  have hafter : (s.tasks who).after = some after := by rw [htask]; rfl
  have hsending : (s.tasks who).sending = pending := by rw [htask]; rfl
  unfold Buffered.batchAnswered
  dsimp only
  have hsome : pending ≠ [] := by
    have hsound := h.sound who
    rwa [htask] at hsound
  have hholding := h.holding_of_sending (by rw [hsending]; exact hsome) hafter
  rw [hsending] at hholding
  have hleft := hholding.answered responses hgap
  -- all of it is answered, or the rest waits for another attempt, or is put back at the front
  by_cases hempty : (unsent pending responses).isEmpty = true
  · rw [if_pos hempty]
    rw [List.isEmpty_iff] at hempty
    rw [hempty] at hleft
    exact hleft.finish fun _ => rfl
  · rw [if_neg hempty]
    by_cases hagain : attempt + 1 < cfg.attempts
    · rw [if_pos hagain]
      have hagainsome : unsent pending responses ≠ [] := by simpa using hempty
      exact hleft.wait (.batchBackoff _ _ after) rfl (hleft.settled_of_after rfl rfl) hagainsome
    · rw [if_neg hagain]
      exact hleft.finish fun hf => (hlast hf).resolve_left hagain

/-- The lazy start of the loop changes nothing that is sent. -/
theorem OrderInv.startLoop (hplaced : s.Inv) (h : OrderInv cfg s) : OrderInv cfg s.startLoop := by
  unfold Buffered.startLoop
  by_cases hskip : (s.loop_started || s.closed) = true
  · rw [if_pos hskip]
    exact h
  · rw [if_neg hskip]
    rw [Bool.or_eq_true, not_or, Bool.not_eq_true] at hskip
    have hidle : (s.tasks none).sending = [] := by
      rw [hplaced.unstarted hskip.1]
      rfl
    have hset := h.leave hidle .asleep rfl (settled_of_out (by simp) rfl) trivial
    exact ⟨hset.single, hset.sorted, hset.lt_next, hset.cover, hset.below, hset.ascending,
      hset.settled, hset.sound⟩

theorem startLoop_buffer (s : Buffered) : s.startLoop.buffer = s.buffer := by
  unfold Buffered.startLoop
  split_ifs <;> rfl

/-- A task that sends after the start of the loop did so before. -/
theorem sending_startLoop {w : Option ℕ} (hw : (s.tasks w).sending = []) :
    (s.startLoop.tasks w).sending = [] := by
  unfold Buffered.startLoop
  split_ifs
  · exact hw
  · show (Function.update s.tasks none Task.asleep w).sending = []
    by_cases hloop : w = none
    · rw [hloop, Function.update_self]
      rfl
    · rwa [Function.update_of_ne hloop]

theorem OrderInv.handle {t : ℕ} {envelope : Dict} (hplaced : s.Inv) (h : OrderInv cfg s)
    (htask : s.tasks (some t) = .idle) (hok : s.Orderly cfg (.handle t envelope)) :
    OrderInv cfg (s.handle cfg t envelope) := by
  have hinv := h.startLoop hplaced
  have hbuffer := startLoop_buffer s
  have hidle : (s.startLoop.tasks (some t)).sending = [] :=
    sending_startLoop (by rw [htask]; rfl)
  have hquiet : s.Quiet → s.startLoop.Quiet := fun h w => sending_startLoop (h w)
  unfold Orderly at hok
  unfold Buffered.handle
  dsimp only
  cases hshould : shouldBuffer envelope with
  | error e => exact hinv
  | ok b =>
    simp only [hshould] at hok
    cases b with
    | true =>
      dsimp only
      by_cases hfull : cfg.max_buffer_size ≤ (s.startLoop.buffer ++ [s.startLoop.next]).length
      · rw [if_pos hfull]
        rw [hbuffer, List.length_append, List.length_singleton] at hfull
        exact hinv.push.flush hidle (Or.inr (hquiet (hok hfull))) (fun _ hf => by simp at hf)
      · rw [if_neg hfull]
        exact hinv.push
    | false =>
      -- the envelope is forwarded once the flush is over
      dsimp only
      refine hinv.flush hidle (Or.inr (hquiet hok.1)) fun before hf => ?_
      refine ⟨(AfterFlush.passthrough.inj hf).symm, hquiet hok.1, ?_⟩
      rw [hbuffer]
      exact hok.2

theorem OrderInv.close {t : ℕ} (h : OrderInv cfg s) (htask : s.tasks (some t) = .idle)
    (hok : s.Orderly cfg (.close t)) : OrderInv cfg (s.close cfg t) := by
  have hclosed : OrderInv cfg { s with closed := true } :=
    ⟨h.single, h.sorted, h.lt_next, h.cover, h.below, h.ascending, h.settled, h.sound⟩
  unfold Buffered.close
  dsimp only
  by_cases hstarted : s.loop_started = true
  · rw [if_pos hstarted]
    -- the loop is cancelled outside a send, and the task waits for it
    have hloop : (({ s with closed := true } : Buffered).tasks none).sending = [] := hok.1
    have hended := hclosed.leave hloop .ended rfl (settled_of_out (by simp) rfl) trivial
    refine hended.leave ?_ .closing rfl (settled_of_out (by simp) rfl) trivial
    show (Function.update s.tasks none Task.ended (some t)).sending = []
    rw [Function.update_of_ne (Option.some_ne_none t), htask]
    rfl
  · rw [if_neg hstarted]
    exact hclosed.flush (by rw [htask]; rfl) (hok.2.resolve_left hstarted)
      (fun _ hf => by simp at hf)

/-- What a task holds in its hands, in the middle of a send. -/
theorem OrderInv.holding_of_task {task : Task} (h : OrderInv cfg s) (htask : s.tasks who = task)
    (hbusy : task.sending ≠ []) (hafter : task.after = some after) :
    Holding cfg s who task.sending after ∧ task.Sound cfg := by
  subst htask
  exact ⟨h.holding_of_sending hbusy hafter, h.sound who⟩

theorem OrderInv.wakeBatch {pending : List ℕ} {attempt : ℕ} (h : OrderInv cfg s)
    (htask : s.tasks who = .batchBackoff pending attempt after) :
    OrderInv cfg (s.setTask who (.batch pending attempt after)) := by
  have hsound : (s.tasks who).Sound cfg := h.sound who
  rw [htask] at hsound
  obtain ⟨hholding, -⟩ := h.holding_of_task htask hsound rfl
  exact hholding.wait (.batch pending attempt after) rfl (hholding.settled_of_after rfl rfl)
    hsound

theorem OrderInv.wakeOne {failed rest : List ℕ} {current attempt : ℕ} (h : OrderInv cfg s)
    (htask : s.tasks who = .oneBackoff failed current attempt rest after) :
    OrderInv cfg (s.setTask who (.one failed current attempt rest after)) := by
  obtain ⟨hholding, hsound⟩ := h.holding_of_task htask (by simp [Task.sending]) rfl
  exact hholding.wait (.one failed current attempt rest after) rfl
    (hholding.settled_of_after rfl rfl) hsound

/-- An answer to one envelope, or none. -/
theorem OrderInv.oneAnswered {failed rest : List ℕ} {current attempt : ℕ}
    {response : Option InnerAnswer} (h : OrderInv cfg s)
    (htask : s.tasks who = .one failed current attempt rest after)
    (hok : s.Orderly cfg (.answerOne who response)) :
    OrderInv cfg (s.oneAnswered cfg who failed current attempt rest after response) := by
  -- The condition has ruled out the answers that put an envelope back behind others.
  obtain ⟨hholding, hattempts, hfailed⟩ :=
    h.holding_of_task htask (by simp [Task.sending]) rfl
  unfold Orderly at hok
  simp only [htask] at hok
  unfold Buffered.oneAnswered
  cases response with
  | some answer =>
    have hfinal : answer.needsRetry = false := by
      cases answer with
      | accepted => rfl
      | refused retryable =>
        have hno : retryable = false := hok
        rw [hno]
        rfl
    have hleft := hholding.one hfinal fun hacc => by
      subst hacc
      exact hok
    exact hleft.sendNext hfailed fun _ => Or.inr hattempts
  | none =>
    dsimp only
    by_cases hagain : attempt + 1 < cfg.attempts
    · rw [if_pos hagain]
      exact hholding.wait (.oneBackoff failed current (attempt + 1) rest after) rfl
        (hholding.settled_of_after rfl rfl) ⟨hattempts, hfailed⟩
    · rw [if_neg hagain]
      have hno : ¬ after.forwards := fun hf => hagain (hok hf)
      -- The last attempt failed: the envelope joins the failed ones, still in its place.
      have hshift : Holding cfg s who ((failed ++ [current]) ++ rest) after := by
        rw [List.append_assoc]
        exact hholding
      exact hshift.sendNext (fun hf => absurd hf hno) fun hf => absurd hf hno

/-- **One step** that meets the condition keeps the invariant. -/
theorem order_step {l : Label} (hplaced : s.Inv) (h : OrderInv cfg s) (hok : s.Orderly cfg l)
    (hstep : step cfg s l = some s') : OrderInv cfg s' := by
  have hnone : ∀ {before : ℕ} {P : Prop}, AfterFlush.done = .passthrough before → P :=
    fun hf => by simp at hf
  cases stepEffect_of_step hstep with
  | handle t envelope hidle => exact h.handle hplaced hidle hok
  | flush t hidle => exact h.flush (by rw [hidle]; rfl) hok fun _ hf => hnone hf
  | close t hidle => exact h.close hidle hok
  | closeFlush t hclosing => exact h.flush (by rw [hclosing]; rfl) hok fun _ hf => hnone hf
  | tick hasleep => exact h.flush (by rw [hasleep]; rfl) hok fun _ hf => by simp at hf
  | wakeBatch who pending attempt after hbackoff => exact h.wakeBatch hbackoff
  | wakeOne who failed current attempt rest after hbackoff => exact h.wakeOne hbackoff
  | answerBatch who pending attempt after responses hbatch =>
    unfold Orderly at hok
    simp only [hbatch] at hok
    exact h.batchAnswered hbatch responses hok.1 hok.2
  | answerOne who failed current attempt rest after response hone => exact h.oneAnswered hone hok
  | answerPassthrough t before hpassing =>
    exact h.leave (by rw [hpassing]; rfl) .idle rfl (settled_of_out (by simp) rfl) trivial

end Buffered

/-- **Buffered delivery is in order** in every run in which the buffer is drained, and an envelope
    forwarded, only while no send is in flight; a batch is answered without a gap; what is handed
    over before a forwarded envelope is not given up; and nothing is dropped. -/
theorem in_order_of_orderly (cfg : BufferConfig) (labels : List Buffered.Label)
    (h : Guarded (Buffered.step cfg) (Buffered.Orderly cfg) .init labels) :
    Throughout (Buffered.step cfg) Buffered.InOrder .init labels := by
  have hrun : Throughout (Buffered.step cfg) (fun s => s.Inv ∧ Buffered.OrderInv cfg s) .init
      labels := by
    refine throughout_of_guarded (fun s l s' hs hok hstep => ?_)
      ⟨Buffered.Inv.init, Buffered.OrderInv.init⟩ h
    exact ⟨Buffered.inv_step hs.1 (hok.lossless hstep) hstep,
      Buffered.order_step hs.1 hs.2 hok hstep⟩
  exact hrun.mono fun s hs => hs.2.inOrder

/-- An action and then another event, with a quick store. -/
def actionThenClose : List Buffered.Label :=
  [.handle 0 autoAuthorized, .handle 0 (Dict.ofFields [("event_type", .str "SESSION_CLOSE")]),
    .answerBatch (some 0) (some [.accepted]), .answerPassthrough 0]

/-- The action is accepted before the other event is forwarded. -/
theorem in_order_of_orderly_actionThenClose :
    Throughout (Buffered.step ⟨true, 3, 100⟩) Buffered.InOrder .init actionThenClose := by
  apply in_order_of_orderly
  refine fun s₁ h₁ => ⟨?_, fun s₂ h₂ => ⟨?_, fun s₃ h₃ => ⟨?_, fun s₄ h₄ => ⟨trivial, trivial⟩⟩⟩⟩
  · show (100 : ℕ) ≤ 0 + 1 → Buffered.init.Quiet
    intro hfull
    exact absurd hfull (by decide)
  · obtain rfl := Option.some.inj h₁
    show Buffered.Quiet _ ∧ _
    refine ⟨fun who => ?_, Or.inr (by decide)⟩
    match who with
    | none => rfl
    | some 0 => rfl
    | some (t + 1) => rfl
  · obtain rfl := Option.some.inj h₁
    obtain rfl := Option.some.inj h₂
    show Buffered.NoGap [0] (some [.accepted]) ∧ _
    exact ⟨List.pairwise_singleton _ _, fun _ => Or.inr rfl⟩

/-- The loop is sending an action when another event is handed over. -/
def closeDuringFlush : List Buffered.Label :=
  [.handle 0 autoAuthorized, .tick,
    .handle 0 (Dict.ofFields [("event_type", .str "SESSION_CLOSE")])]

/-- The buffer is empty, and the event overtakes the action. -/
theorem not_in_order_closeDuringFlush :
    ¬ Throughout (Buffered.step ⟨true, 3, 100⟩) Buffered.InOrder .init closeDuringFlush := by
  intro h
  obtain ⟨s, hrun, htask, hfinals⟩ : ∃ s,
      run (Buffered.step ⟨true, 3, 100⟩) .init closeDuringFlush = some s ∧
        s.tasks (some 0) = .passing 1 ∧ s.finals = [] := ⟨_, rfl, rfl, rfl⟩
  have hmem := (h.last hrun).forwarded (some 0) 1 htask 0 one_pos
  rw [hfinals] at hmem
  exact absurd hmem (by simp)

end RootSign
