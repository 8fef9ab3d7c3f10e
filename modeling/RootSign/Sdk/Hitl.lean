import RootSign.Crud.Approval

namespace RootSign

open RootSign.Python

/-!
# The checkpoint (`rootsign/sdk/hitl.py`)

The parts of `HiTLCheckpoint.wait_for_approval` between which other processes write.

* `HiTLCheckpoint.pollOnce` — the approval with the latest timestamp;
* `HiTLCheckpoint.raiseOrReturn` — what an approval means to the caller;
* `HiTLCheckpoint.timeoutArgs` — the approval that `_record_timeout` writes.
-/

/-- `HiTLResult`; its `decision` is always `APPROVED`. -/
structure HiTLResult where
  approval_id : Uuid
  approver_id : JStr

/-- What `wait_for_approval` can raise; `other` stands for what no branch of it catches. -/
inductive HiTLError where
  | timeoutError (action_id : Uuid) (timeout_seconds : ℤ)
  | rejectedError (action_id : Uuid) (reason : Option JStr)
  | other

/-- `HiTLCheckpoint`: the action it waits for, and the timeout in whole seconds. -/
structure HiTLCheckpoint where
  action_id : Uuid
  action_timestamp : PyDateTime
  timeout : ℤ

namespace HiTLCheckpoint

/-- The approvals of the action with the latest timestamp. -/
def newest (c : HiTLCheckpoint) (db : EventDatabase) : List ApprovalRow :=
  let rows := db.approvals.filter fun r => r.action_id == c.action_id
  rows.filter fun r => rows.all fun other => other.timestamp.instant ≤ r.timestamp.instant

/-- `_poll_once`: of rows with the same timestamp the database takes any, here the `k`-th. -/
def pollOnce (c : HiTLCheckpoint) (db : EventDatabase) (k : ℕ) : Option ApprovalRow :=
  (c.newest db)[k % (c.newest db).length]?

/-- `_raise_or_return`. -/
def raiseOrReturn (c : HiTLCheckpoint) (approval : ApprovalRow) : Except HiTLError HiTLResult :=
  if approval.approver_type = .TIMEOUT_AUTO_REJECTED then
    .error (.timeoutError c.action_id c.timeout)
  else if approval.decision = .REJECTED then
    .error (.rejectedError c.action_id approval.decision_reason)
  else .ok { approval_id := approval.approval_id, approver_id := approval.approver_id }

/-- The arguments of the call in `_record_timeout`. -/
def timeoutArgs (c : HiTLCheckpoint) (context_presented : Dict) : ChainLinkArgs where
  action_id := c.action_id
  action_timestamp := c.action_timestamp
  approver_id := "system:timeout"
  approver_type := .TIMEOUT_AUTO_REJECTED
  context_presented := context_presented
  decision := .REJECTED
  decision_reason := some ("No response within " ++ JStr.ofChars (intText c.timeout) ++ "s")

/-- A row that is returned for is neither a timeout nor a rejection. -/
theorem raiseOrReturn_ok {c : HiTLCheckpoint} {approval : ApprovalRow} {result : HiTLResult}
    (h : c.raiseOrReturn approval = .ok result) :
    approval.approver_type ≠ .TIMEOUT_AUTO_REJECTED ∧ approval.decision ≠ .REJECTED := by
  unfold raiseOrReturn at h
  split at h
  case isTrue => exact absurd h (by simp)
  case isFalse htype =>
    split at h
    case isTrue => exact absurd h (by simp)
    case isFalse hdecision => exact ⟨htype, hdecision⟩

/-- And such a row is returned for, an escalation among them. -/
theorem raiseOrReturn_of_ne {c : HiTLCheckpoint} {approval : ApprovalRow}
    (htype : approval.approver_type ≠ .TIMEOUT_AUTO_REJECTED)
    (hdecision : approval.decision ≠ .REJECTED) :
    c.raiseOrReturn approval =
      .ok { approval_id := approval.approval_id, approver_id := approval.approver_id } := by
  rw [raiseOrReturn, if_neg htype, if_neg hdecision]

/-- A poll reads an approval of the action. -/
theorem pollOnce_mem {c : HiTLCheckpoint} {db : EventDatabase} {k : ℕ} {row : ApprovalRow}
    (h : c.pollOnce db k = some row) : row ∈ db.approvals ∧ row.action_id = c.action_id := by
  have hrow : row ∈ db.approvals.filter fun r => r.action_id == c.action_id :=
    List.mem_of_mem_filter (List.mem_of_getElem? h)
  rw [List.mem_filter, beq_iff_eq] at hrow
  exact hrow

end HiTLCheckpoint

end RootSign
