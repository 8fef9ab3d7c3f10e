import RootSign.Resolution
import RootSign.Sdk.Hitl

namespace RootSign

open RootSign.Lib RootSign.Python

/-!
# The human-approval gate

One `wait_for_approval` on a pending action, and any number of transactions of other processes
that approve, reject or escalate actions.  The checkpoint polls, writes its timeout at the
deadline, and polls once more when another process has resolved the action first.

* `GateWorld.step` — one step of the checkpoint, or of another transaction;
* `GateTruthful` — a call that has returned has returned for an approved action;
* `gate_truthful_iff` — a run is truthful exactly when the last poll after a lost race never
  reads an escalation of an action that nobody approved.
-/

/-! ### The world -/

/-- Where `wait_for_approval` stands: in its loop, in the transaction of `_record_timeout`,
    before its last poll, or done. -/
inductive GatePhase where
  | polling
  | recording
  | raced
  | finished (outcome : Except HiTLError HiTLResult)

/-- The database with its transactions, and the checkpoint.  Transaction 0 is its own. -/
structure GateWorld where
  writers : ApprovalWriters
  phase : GatePhase

/-- The steps between which other transactions can run. -/
inductive GateStep where
  | writer (l : ApprovalStep)
  | poll (k : ℕ)
  | deadline (fresh : Uuid) (now : UtcNow) (context_presented : Dict)
  | record
  | repoll (k : ℕ)
  | fail

/-- The transaction that takes the step. -/
def ApprovalStep.task : ApprovalStep → ℕ
  | start t _ => t
  | pick t _ => t
  | submit t .. => t
  | finish t => t
  | abort t => t

/-- One pass of the loop: a decision ends it, anything else lets it sleep. -/
def afterPoll (c : HiTLCheckpoint) : Option ApprovalRow → GatePhase
  | none => .polling
  | some approval =>
    match approval.decision with
    | .APPROVED | .REJECTED => .finished (c.raiseOrReturn approval)
    | .ESCALATED => .polling

/-- The end of `_record_timeout`: only a resolved action is polled again. -/
def afterRecord (c : HiTLCheckpoint) :
    Except HandlerError (ApprovalRow × EventDatabase) → GatePhase
  | .ok _ => .finished (.error (.timeoutError c.action_id c.timeout))
  | .error (.ingest .ACTION_ALREADY_RESOLVED _ _) => .raced
  | .error _ => .finished (.error .other)

/-- After a lost race: the row read is returned for, or no row is a timeout. -/
def afterRepoll (c : HiTLCheckpoint) : Option ApprovalRow → Except HiTLError HiTLResult
  | none => .error (.timeoutError c.action_id c.timeout)
  | some racing => c.raiseOrReturn racing

namespace GateWorld

/-- One step, if it can be taken. -/
def step (c : HiTLCheckpoint) (s : GateWorld) : GateStep → Option GateWorld
  | .writer l =>
    if l.task = 0 then none else (s.writers.step l).map fun w => { s with writers := w }
  | .poll k =>
    match s.phase with
    | .polling => some { s with phase := afterPoll c (c.pollOnce s.writers.db k) }
    | _ => none
  | .deadline fresh now context_presented =>
    match s.phase with
    | .polling =>
      (s.writers.step (.start 0 (.chainLink fresh now (c.timeoutArgs context_presented)))).map
        fun w =>
          -- an action that is not found ends the wait
          { writers := w
            phase :=
              match w.tasks 0 with
              | .locked _ _ => .recording
              | _ => .finished (.error .other) }
    | _ => none
  | .record =>
    match s.phase, s.writers.tasks 0 with
    | .recording, .locked call action =>
      (s.writers.step (.finish 0)).map fun w =>
        { writers := w, phase := afterRecord c (call.resume s.writers.db action) }
    | _, _ => none
  | .repoll k =>
    match s.phase with
    | .raced => some { s with phase := .finished (afterRepoll c (c.pollOnce s.writers.db k)) }
    | _ => none
  | .fail =>
    match s.phase with
    | .polling | .raced => some { s with phase := .finished (.error .other) }
    | .recording =>
      (s.writers.step (.abort 0)).map fun w =>
        { writers := w, phase := .finished (.error .other) }
    | .finished _ => none

/-- The wait begins. -/
def opened (db : EventDatabase) : GateWorld where
  writers := .opened db
  phase := .polling

end GateWorld

/-! ### Truthful outcomes -/

/-- **The gate is truthful**: it has returned for a `human_approved` action only, and has raised
    for one that is `human_rejected` or `timed_out`. -/
structure GateTruthful (id : Uuid) (s : GateWorld) : Prop where
  returns : ∀ result, s.phase = .finished (.ok result) →
    s.writers.db.statusOf id = some .HUMAN_APPROVED
  raises : ∀ outcome, s.phase = .finished outcome →
    s.writers.db.statusOf id = some .HUMAN_REJECTED ∨
      s.writers.db.statusOf id = some .TIMED_OUT →
    ∃ e, outcome = .error e

/-- The second half follows from the first. -/
theorem GateTruthful.of_returns {id : Uuid} {s : GateWorld}
    (h : ∀ result, s.phase = .finished (.ok result) →
      s.writers.db.statusOf id = some .HUMAN_APPROVED) : GateTruthful id s where
  returns := h
  raises outcome hphase hstatus := by
    cases outcome with
    | error e => exact ⟨e, rfl⟩
    | ok result =>
      rw [h result hphase] at hstatus
      exact absurd hstatus (by simp)

/-- A timeout is written by the checkpoint, as a rejection. -/
def ApprovalCall.TimeoutRejects : ApprovalCall → Prop
  | .ingest .. => True
  | .chainLink _ _ args => args.approver_type = .TIMEOUT_AUTO_REJECTED → args.decision = .REJECTED

/-- The other processes call the entry points so. -/
def GateStep.Calls : GateStep → Prop
  | .writer l => l.Starts ApprovalCall.TimeoutRejects
  | _ => True

/-- **The condition.**  The last poll reads no escalation, unless the action is approved. -/
def RaceReadsDecision (c : HiTLCheckpoint) (s : GateWorld) : GateStep → Prop
  | .repoll k => ∀ row, c.pollOnce s.writers.db k = some row → row.decision = .ESCALATED →
      row.approver_type ≠ .TIMEOUT_AUTO_REJECTED →
      s.writers.db.statusOf c.action_id = some .HUMAN_APPROVED
  | _ => True

/-- A row that is not a timeout gives the status of its decision. -/
theorem decision_rule (id : Uuid) :
    StatusRule id ApprovalCall.TimeoutRejects fun approver_type decision status =>
      approver_type ≠ .TIMEOUT_AUTO_REJECTED → status = decision.authStatus where
  -- The four parts of the rule: a human row says nothing here, an escalation leaves the action
  -- open, a decision closes it, and the status fits.
  human call hhuman := by
    cases call with
    | ingest fresh obj_in => trivial
    | chainLink fresh now args => exact fun h => absurd (hhuman.symm.trans h) (by simp)
  escalated call hok _ hescalated := by
    cases call with
    | ingest fresh obj_in =>
      show obj_in.decision.authStatus.terminal = false
      rw [show obj_in.decision = .ESCALATED from hescalated]
      rfl
    | chainLink fresh now args =>
      have hdecision : args.decision = .ESCALATED := hescalated
      have htype : args.approver_type ≠ .TIMEOUT_AUTO_REJECTED := fun h => by
        have hrejected := hok h
        rw [hdecision] at hrejected
        exact absurd hrejected (by simp)
      show args.newStatus.terminal = false
      rw [ChainLinkArgs.newStatus, if_neg htype, hdecision]
      rfl
  terminal call _ _ hdecision := by
    cases call with
    | ingest fresh obj_in => exact authStatus_terminal hdecision
    | chainLink fresh now args =>
      show args.newStatus.terminal = true
      rw [ChainLinkArgs.newStatus]
      split
      · rfl
      · exact authStatus_terminal hdecision
  fits call _ _ _ htype := by
    cases call with
    | ingest fresh obj_in => rfl
    | chainLink fresh now args => exact if_neg htype

/-! ### The invariant -/

variable {c : HiTLCheckpoint} {s s' : GateWorld} {l : GateStep} {id : Uuid}

/-- The tables as the entry points leave them. -/
def DecisionsKept (id : Uuid) (w : ApprovalWriters) : Prop :=
  ResolutionInv ApprovalCall.TimeoutRejects (fun approver_type decision status =>
    approver_type ≠ .TIMEOUT_AUTO_REJECTED → status = decision.authStatus) id w

/-- **The invariant.**  The gate has returned for an approved action only. -/
structure GateInv (id : Uuid) (s : GateWorld) : Prop where
  writers : DecisionsKept id s.writers
  returns : ∀ result, s.phase = .finished (.ok result) →
    s.writers.db.statusOf id = some .HUMAN_APPROVED

/-- An approval by anything but a timeout is the resolution of an approved action. -/
theorem DecisionsKept.statusOf {w : ApprovalWriters} {row : ApprovalRow}
    (hkept : DecisionsKept id w) (hmem : row ∈ w.db.approvals) (hid : row.action_id = id)
    (hdecision : row.decision = .APPROVED) (htype : row.approver_type ≠ .TIMEOUT_AUTO_REJECTED) :
    w.db.statusOf id = some .HUMAN_APPROVED := by
  have hrow : row ∈ w.db.resolutions id := by
    refine List.mem_filter.mpr ⟨hmem, ?_⟩
    rw [hid, hdecision, beq_self_eq_true]
    rfl
  obtain ⟨a, ha⟩ := hkept.action
  have hstatus := ha.statusOf
  cases ha with
  | unresolved _ _ hnone =>
    rw [hnone] at hrow
    exact absurd hrow List.not_mem_nil
  | resolved only _ _ honly hfits =>
    rw [honly, List.mem_singleton] at hrow
    subst hrow
    rw [hstatus, hfits htype, hdecision]
    rfl

/-- A row that the gate returns for, if it is no escalation, is an approval. -/
theorem approved_of_ok {row : ApprovalRow} {result : HiTLResult}
    (h : c.raiseOrReturn row = .ok result) (hescalated : row.decision ≠ .ESCALATED) :
    row.decision = .APPROVED ∧ row.approver_type ≠ .TIMEOUT_AUTO_REJECTED := by
  obtain ⟨htype, hrejected⟩ := HiTLCheckpoint.raiseOrReturn_ok h
  refine ⟨?_, htype⟩
  cases hdecision : row.decision with
  | APPROVED => rfl
  | REJECTED => exact absurd hdecision hrejected
  | ESCALATED => exact absurd hdecision hescalated

/-- The loop ends with a return only for an approval. -/
theorem afterPoll_returns {row : Option ApprovalRow} {result : HiTLResult}
    (h : afterPoll c row = .finished (.ok result)) :
    ∃ approval, row = some approval ∧ approval.decision = .APPROVED ∧
      approval.approver_type ≠ .TIMEOUT_AUTO_REJECTED := by
  cases row with
  | none => exact absurd h (by simp [afterPoll])
  | some approval =>
    refine ⟨approval, rfl, ?_⟩
    cases hdecision : approval.decision with
    | APPROVED =>
      simp only [afterPoll, hdecision] at h
      exact ⟨rfl, (HiTLCheckpoint.raiseOrReturn_ok (GatePhase.finished.inj h)).1⟩
    | REJECTED =>
      simp only [afterPoll, hdecision] at h
      exact absurd hdecision (HiTLCheckpoint.raiseOrReturn_ok (GatePhase.finished.inj h)).2
    | ESCALATED =>
      simp only [afterPoll, hdecision] at h
      exact absurd h (by simp)

/-- Writing the timeout never ends with a return. -/
theorem afterRecord_ne_ok {written : Except HandlerError (ApprovalRow × EventDatabase)}
    {result : HiTLResult} : afterRecord c written ≠ .finished (.ok result) := by
  unfold afterRecord
  split <;> simp

/-- A step of a transaction keeps the invariant, whatever the checkpoint does. -/
theorem GateInv.writer_step {w : ApprovalWriters} {write : ApprovalStep} {phase : GatePhase}
    (hinv : GateInv c.action_id s) (hwrite : write.Starts ApprovalCall.TimeoutRejects)
    (h : s.writers.step write = some w)
    (hphase : ∀ result, phase = .finished (.ok result) → s.phase = phase) :
    GateInv c.action_id { writers := w, phase := phase } := by
  obtain ⟨hwriters, hkept⟩ := hinv.writers.step (decision_rule c.action_id) hwrite h
  refine ⟨hwriters, fun result hresult => ?_⟩
  exact hkept _ (hinv.returns result ((hphase result hresult).trans hresult)) rfl

/-- **The step lemma.**  A step that meets the condition keeps the invariant. -/
theorem gate_step (hinv : GateInv c.action_id s) (hcalls : l.Calls)
    (hok : RaceReadsDecision c s l) (h : s.step c l = some s') : GateInv c.action_id s' := by
  -- Steps of other writers keep what is known of the rows; the gate's own steps add what it
  -- returns.
  cases l with
  | writer write =>
    simp only [GateWorld.step] at h
    split at h
    · exact absurd h (by simp)
    · obtain ⟨w, hw, rfl⟩ := Option.map_eq_some_iff.mp h
      exact hinv.writer_step hcalls hw fun _ _ => rfl
  | poll k =>
    cases hphase : s.phase <;> simp only [GateWorld.step, hphase] at h
    case polling =>
      rw [← Option.some.inj h]
      refine ⟨hinv.writers, fun result hresult => ?_⟩
      obtain ⟨approval, hrow, hdecision, htype⟩ := afterPoll_returns hresult
      obtain ⟨hmem, hid⟩ := HiTLCheckpoint.pollOnce_mem hrow
      exact hinv.writers.statusOf hmem hid hdecision htype
    all_goals exact absurd h (by simp)
  | deadline fresh now context_presented =>
    cases hphase : s.phase <;> simp only [GateWorld.step, hphase] at h
    case polling =>
      obtain ⟨w, hw, rfl⟩ := Option.map_eq_some_iff.mp h
      refine hinv.writer_step ?_ hw fun result hresult => ?_
      · intro t call hcall
        rw [← (ApprovalStep.start.inj hcall).2]
        exact fun _ => rfl
      · split at hresult <;> exact absurd hresult (by simp)
    all_goals exact absurd h (by simp)
  | record =>
    simp only [GateWorld.step] at h
    split at h
    case h_1 call action _ _ =>
      obtain ⟨w, hw, rfl⟩ := Option.map_eq_some_iff.mp h
      exact hinv.writer_step (fun t call hcall => absurd hcall (by simp)) hw fun result hresult =>
        absurd hresult afterRecord_ne_ok
    case h_2 => exact absurd h (by simp)
  | repoll k =>
    cases hphase : s.phase <;> simp only [GateWorld.step, hphase] at h
    case raced =>
      rw [← Option.some.inj h]
      refine ⟨hinv.writers, fun result hresult => ?_⟩
      -- The re-poll after a lost race returns what the row says, unless the row is escalated.
      have hafter := GatePhase.finished.inj hresult
      cases hrow : c.pollOnce s.writers.db k with
      | none =>
        rw [hrow] at hafter
        exact absurd hafter (by simp [afterRepoll])
      | some row =>
        rw [hrow] at hafter
        by_cases hescalated : row.decision = .ESCALATED
        · exact hok row hrow hescalated (HiTLCheckpoint.raiseOrReturn_ok hafter).1
        · obtain ⟨hdecision, htype⟩ := approved_of_ok hafter hescalated
          obtain ⟨hmem, hid⟩ := HiTLCheckpoint.pollOnce_mem hrow
          exact hinv.writers.statusOf hmem hid hdecision htype
    all_goals exact absurd h (by simp)
  | fail =>
    cases hphase : s.phase <;> simp only [GateWorld.step, hphase] at h
    case recording =>
      obtain ⟨w, hw, rfl⟩ := Option.map_eq_some_iff.mp h
      exact hinv.writer_step (fun t call hcall => absurd hcall (by simp)) hw fun result hresult =>
        absurd hresult (by simp)
    case finished => exact absurd h (by simp)
    all_goals
      rw [← Option.some.inj h]
      exact ⟨hinv.writers, fun result hresult => absurd hresult (by simp)⟩

/-- **An escalation passes for an approval.**  The last poll returns for it. -/
theorem gate_breaks (hok : ¬ RaceReadsDecision c s l) (h : s.step c l = some s') :
    ¬ GateTruthful c.action_id s' := by
  intro htruthful
  cases l with
  | repoll k =>
    cases hphase : s.phase <;> simp only [GateWorld.step, hphase] at h
    case raced =>
      refine hok fun row hrow hescalated htype => ?_
      have hreturn := HiTLCheckpoint.raiseOrReturn_of_ne (c := c) htype (by
        rw [hescalated]
        exact (by decide : ApprovalDecision.ESCALATED ≠ .REJECTED))
      rw [← Option.some.inj h, hrow] at htruthful
      exact htruthful.returns _ (congrArg _ hreturn)
    all_goals exact absurd h (by simp)
  | _ => exact hok trivial

/-- **The human-approval gate.**  For every run of any transactions on any actions and of the
    checkpoint: the gate is truthful in every state exactly when no last poll after a lost race
    reads an escalation of an action that nobody approved. -/
theorem gate_truthful_iff {db : EventDatabase} (hdb : IngestedPending db c.action_id)
    {labels : List GateStep} (hcalls : ∀ l ∈ labels, l.Calls) :
    Throughout (GateWorld.step c) (GateTruthful c.action_id) (.opened db) labels ↔
      Guarded (GateWorld.step c) (RaceReadsDecision c) (.opened db) labels :=
  throughout_iff_guarded_of_forall
    (fun _ _ _ hinv hcalls hok h => gate_step hinv hcalls hok h)
    (fun _ _ _ _ _ hok h => gate_breaks hok h)
    (fun _ hinv => .of_returns hinv.returns)
    ⟨hdb.inv, fun _ h => absurd h (by simp [GateWorld.opened])⟩ hcalls

/-! ### Two races -/

/-- The condition can be decided. -/
instance (c : HiTLCheckpoint) (s : GateWorld) (l : GateStep) :
    Decidable (RaceReadsDecision c s l) :=
  match l with
  | .repoll k => decidable_of_iff (∀ row ∈ c.pollOnce s.writers.db k, row.decision = .ESCALATED →
      row.approver_type ≠ .TIMEOUT_AUTO_REJECTED →
      s.writers.db.statusOf c.action_id = some .HUMAN_APPROVED) Iff.rfl
  | .writer _ | .poll _ | .deadline .. | .record | .fail => .isTrue trivial

/-- The checkpoint of the waiting action. -/
def exampleCheckpoint : HiTLCheckpoint where
  action_id := exampleRecord
  action_timestamp := mayNoon.time
  timeout := 300

/-- A row that a person writes, under the clock of that process. -/
def humanArgs (decision : ApprovalDecision) : ChainLinkArgs where
  action_id := exampleRecord
  action_timestamp := mayNoon.time
  approver_id := "cli:operator"
  approver_type := .HUMAN
  context_presented := []
  decision := decision

/-- A rejection that lands at the deadline. -/
def rejectedAtDeadline : List GateStep :=
  [.poll 0, .writer (.start 1 (.chainLink exampleEvent mayNoon (humanArgs .REJECTED))),
   .writer (.finish 1), .deadline exampleAgent mayNoon [], .record, .repoll 0]

theorem gate_truthful_rejected :
    Throughout (GateWorld.step exampleCheckpoint) (GateTruthful exampleRecord)
      (.opened waitingTables) rejectedAtDeadline := by
  refine (gate_truthful_iff (c := exampleCheckpoint) waitingTables_pending ?_).mpr ?_
  · intro l hl
    rcases l with ⟨write⟩ | _ | _ | _ | _ | _
    · intro t call hcall
      subst hcall
      simp [rejectedAtDeadline] at hl
      obtain ⟨-, rfl⟩ := hl
      exact fun h => absurd h (by decide)
    all_goals trivial
  · decide +kernel

/-- The reading of a clock that is a minute ahead. -/
def minuteAhead : UtcNow where
  time :=
    { ticks := 63913233660000000
      offset := some 0
      ticks_lt := by decide
      offset_lt := zeroOffset_lt }
  utc := rfl
  in_range := by decide

/-- The gate has returned. -/
def GatePhase.returned : GatePhase → Bool
  | .finished (.ok _) => true
  | _ => false

theorem GatePhase.eq_of_returned {phase : GatePhase} (h : phase.returned = true) :
    ∃ result, phase = .finished (.ok result) := by
  unfold GatePhase.returned at h
  split at h
  · exact ⟨_, rfl⟩
  · exact absurd h (by simp)

/-- An escalation under a clock that runs ahead, and then the rejection. -/
def escalatedAhead : List GateStep :=
  [.writer (.start 1 (.chainLink exampleEvent minuteAhead (humanArgs .ESCALATED))),
   .writer (.finish 1),
   .writer (.start 2 (.chainLink exampleAgent mayNoon (humanArgs .REJECTED))),
   .writer (.finish 2), .poll 0, .deadline exampleSession mayNoon [], .record, .repoll 0]

/-- **The rejected action runs.**  The escalation hides the rejection from the loop, the timeout
    loses against it, and the last poll takes the escalation for an approval. -/
theorem not_gate_truthful_escalated :
    IngestedPending waitingTables exampleCheckpoint.action_id ∧
      (∀ l ∈ escalatedAhead, l.Calls) ∧
      ¬ Throughout (GateWorld.step exampleCheckpoint) (GateTruthful exampleCheckpoint.action_id)
        (.opened waitingTables) escalatedAhead := by
  have hrun : (run (GateWorld.step exampleCheckpoint) (.opened waitingTables) escalatedAhead).map
      (fun s => (s.writers.db.statusOf exampleRecord, s.phase.returned)) =
        some (some .HUMAN_REJECTED, true) := by
    decide +kernel
  obtain ⟨s, hrun, hs⟩ := Option.map_eq_some_iff.mp hrun
  obtain ⟨hstatus, hphase⟩ := Prod.mk.inj hs
  refine ⟨waitingTables_pending, ?_, fun h => ?_⟩
  · simp only [escalatedAhead, List.forall_mem_cons, GateStep.Calls]
    simp [ApprovalStep.Starts, ApprovalCall.TimeoutRejects, humanArgs]
  · have hreturns := (h.last hrun).returns
    obtain ⟨result, heq⟩ := GatePhase.eq_of_returned hphase
    have hs := hreturns result heq
    rw [show s.writers.db.statusOf exampleCheckpoint.action_id = _ from hstatus] at hs
    exact absurd hs (by decide)

end RootSign
