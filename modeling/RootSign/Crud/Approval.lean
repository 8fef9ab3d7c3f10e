import RootSign.Crud.Action

namespace RootSign

open RootSign.Python

/-!
# Approvals (`rootsign/crud/approval.py`, `rootsign/models/approval.py`)

An approval is inserted together with the new `authorization_status` of its action.

* `EventDatabase` — the tables all five event types write;
* `createWithActionStatusUpdate` — the ingest entry point, with the escalation rules;
* `createWithChainLink` — the entry point of the checkpoint and the CLI, which looks the action
  up by its timestamp and lets a timeout override the decision;
* `createWithActionStatusUpdate_ok`, `createWithChainLink_ok` — what either has done.
-/

/-! ### Rows -/

/-- `ApproverType`. -/
inductive ApproverType where
  | HUMAN
  | AUTOMATED_POLICY
  | TIMEOUT_AUTO_APPROVED
  | TIMEOUT_AUTO_REJECTED
deriving DecidableEq, Repr

/-- The members of `ApproverType`, by value. -/
def ApproverType.ofText (s : JStr) : Option ApproverType :=
  if s = "human" then some .HUMAN
  else if s = "automated_policy" then some .AUTOMATED_POLICY
  else if s = "timeout_auto_approved" then some .TIMEOUT_AUTO_APPROVED
  else if s = "timeout_auto_rejected" then some .TIMEOUT_AUTO_REJECTED
  else none

/-- `ApprovalDecision`. -/
inductive ApprovalDecision where
  | APPROVED
  | REJECTED
  | ESCALATED
deriving DecidableEq, Repr

/-- `ApprovalDecision.….value`. -/
def ApprovalDecision.text : ApprovalDecision → String
  | .APPROVED => "approved"
  | .REJECTED => "rejected"
  | .ESCALATED => "escalated"

/-- The members of `ApprovalDecision`, by value. -/
def ApprovalDecision.ofText (s : JStr) : Option ApprovalDecision :=
  if s = "approved" then some .APPROVED
  else if s = "rejected" then some .REJECTED
  else if s = "escalated" then some .ESCALATED
  else none

/-- The values of the `authorization_status` column. -/
def AuthorizationStatus.text : AuthorizationStatus → String
  | .AUTO_AUTHORIZED => "auto_authorized"
  | .HUMAN_APPROVED => "human_approved"
  | .HUMAN_REJECTED => "human_rejected"
  | .PENDING => "pending"
  | .BYPASSED => "bypassed"
  | .TIMED_OUT => "timed_out"

/-- `_DECISION_TO_AUTH_STATUS`. -/
def ApprovalDecision.authStatus : ApprovalDecision → AuthorizationStatus
  | .APPROVED => .HUMAN_APPROVED
  | .REJECTED => .HUMAN_REJECTED
  | .ESCALATED => .PENDING

/-- `_TERMINAL_AUTH_STATES`. -/
def AuthorizationStatus.terminal : AuthorizationStatus → Bool
  | .HUMAN_APPROVED | .HUMAN_REJECTED | .TIMED_OUT => true
  | .AUTO_AUTHORIZED | .PENDING | .BYPASSED => false

/-- `ApprovalCreate`: the fields the caller supplies. -/
structure ApprovalCreate where
  action_id : Uuid
  session_id : Uuid
  approver_id : JStr
  approver_type : ApproverType
  context_presented : Dict
  decision : ApprovalDecision
  decision_reason : Option JStr
  timestamp : PyDateTime
  response_latency_ms : Option ℕ
  parent_approval_id : Option Uuid

/-- A row of `approvals`. -/
structure ApprovalRow extends ApprovalCreate where
  approval_id : Uuid

/-- A row of `decisions`. -/
structure DecisionRow where
  decision_id : Uuid
  session_id : Uuid
  inputs_summary : Option JStr
  reasoning_summary : Option JStr
  selected_action : JStr
  confidence : Option PyFloat
  alternatives_considered : Option (List JStr)
  timestamp : PyDateTime
  reasoning_captured : Bool

/-- The columns of `sessions` that the chain does not use. -/
structure SessionDetails where
  agent_id : Uuid
  user_id : Option JStr
  objective : Option JStr
  start_time : PyDateTime
  end_time : Option PyDateTime
  decision_count : ℤ
  metadata : Json

/-- The tables all five event types write. -/
structure EventDatabase extends Database where
  agents : Uuid → Bool
  details : Uuid → Option SessionDetails
  decisions : List DecisionRow
  approvals : List ApprovalRow

/-! ### Writing an approval -/

/-- The row as its columns give it back. -/
def ApprovalRow.readBack (row : ApprovalRow) : Option ApprovalRow :=
  row.timestamp.toUtc.map fun timestamp =>
    { row with
      timestamp := timestamp
      context_presented :=
        match jsonb (.obj row.context_presented) with
        | .obj fields => fields
        | _ => row.context_presented }

/-- At most `n` code points. -/
def maxLength (n : ℕ) (s : JStr) : Bool := (JStr.codePointsOf s.units).length ≤ n

/-- The columns, the primary key and the unique index on resolutions take the row. -/
def EventDatabase.acceptsApproval (db : EventDatabase) (row : ApprovalRow) : Bool :=
  storableText row.approver_id && maxLength 200 row.approver_id &&
    storable (.obj row.context_presented) &&
    row.decision_reason.all (fun s => storableText s && maxLength 2000 s) &&
    row.response_latency_ms.all (fun d => (d : ℤ) ≤ maxInteger) &&
    (db.approvals.all fun r => r.approval_id != row.approval_id) &&
    (row.decision == .ESCALATED ||
      db.approvals.all fun r => r.decision == .ESCALATED || r.action_id != row.action_id)

/-- The action under its composite primary key. -/
def ActionRow.hasKey (action_id : Uuid) (timestamp : PyDateTime) (a : ActionRow) : Bool :=
  a.action_id == action_id && a.timestamp == timestamp

/-- The tables with the status of one action replaced. -/
def EventDatabase.setStatus (db : EventDatabase) (action_id : Uuid) (timestamp : PyDateTime)
    (status : AuthorizationStatus) : EventDatabase :=
  { db with
    actions := db.actions.map fun a =>
      if a.hasKey action_id timestamp then { a with authorization_status := status } else a }

/-- Flush the new row and the new status of its action, and refresh the row. -/
def EventDatabase.insertApproval (db : EventDatabase) (action : ActionRow) (row : ApprovalRow)
    (status : AuthorizationStatus) : Except HandlerError (ApprovalRow × EventDatabase) :=
  match row.readBack with
  | some stored =>
    if db.acceptsApproval stored then
      let db := { db with approvals := db.approvals ++ [stored] }
      .ok (stored, db.setStatus action.action_id action.timestamp status)
    else .error .databaseError
  | none => .error .databaseError

/-- `_TERMINAL_AUTH_STATES` guard of both entry points. -/
def requireUnresolved (action : ActionRow) : Except HandlerError Unit :=
  if action.authorization_status.terminal then
    .error (.ingest .ACTION_ALREADY_RESOLVED ("action_id=" ++ action.action_id.text ++
      " is already " ++ JStr.ofString action.authorization_status.text ++
      "; cannot record further approvals") false)
  else .ok ()

/-- Step 4: the approval a child resolves. -/
def requireParent (db : EventDatabase) (obj_in : ApprovalCreate) (parent_approval_id : Uuid) :
    Except HandlerError Unit :=
  match db.approvals.find? fun r => r.approval_id == parent_approval_id with
  | none => .error (.ingest .APPROVAL_PARENT_NOT_FOUND
      ("parent_approval_id=" ++ parent_approval_id.text ++ " not found") false)
  | some parent =>
    if parent.action_id ≠ obj_in.action_id then
      .error (.ingest .APPROVAL_PARENT_NOT_FOUND ("parent_approval_id=" ++
        parent_approval_id.text ++ " belongs to action " ++ parent.action_id.text ++ ", not " ++
        obj_in.action_id.text) false)
    else if parent.decision ≠ .ESCALATED then
      .error (.ingest .VALIDATION_ERROR ("parent_approval_id=" ++ parent_approval_id.text ++
        " has decision='" ++ JStr.ofString parent.decision.text ++
        "'; only 'escalated' approvals can be resolved by a child approval") false)
    else .ok ()

/-- Step 1: the action of the session. -/
def findAction (db : EventDatabase) (session_id action_id : Uuid) :
    Except HandlerError ActionRow :=
  match db.actions.filter fun a => a.session_id == session_id && a.action_id == action_id with
  | [] => .error (.ingest .ACTION_NOT_FOUND ("action_id=" ++ action_id.text ++
      " not found in session " ++ session_id.text) false)
  | [action] => .ok action
  | _ => .error .databaseError

/-- Steps 3 and 4: the escalation rules. -/
def requireEscalationRules (db : EventDatabase) (obj_in : ApprovalCreate) :
    Except HandlerError Unit :=
  match obj_in.parent_approval_id with
  | none => .ok ()
  | some parent_approval_id =>
    if obj_in.decision = .ESCALATED then
      .error (.ingest .VALIDATION_ERROR ("Chained escalations are not supported in Phase 0: an " ++
        "approval with decision='escalated' must have parent_approval_id=null") false)
    else requireParent db obj_in parent_approval_id

/-- `create_with_action_status_update`. -/
def createWithActionStatusUpdate (fresh : Uuid) (db : EventDatabase) (obj_in : ApprovalCreate) :
    Except HandlerError (ApprovalRow × EventDatabase) := do
  let action ← findAction db obj_in.session_id obj_in.action_id
  requireUnresolved action
  requireEscalationRules db obj_in
  db.insertApproval action { obj_in with approval_id := fresh } obj_in.decision.authStatus

/-- The keyword arguments of `create_with_chain_link`; its callers pass members of both enums. -/
structure ChainLinkArgs where
  action_id : Uuid
  action_timestamp : PyDateTime
  approver_id : JStr
  approver_type : ApproverType
  context_presented : Dict
  decision : ApprovalDecision
  decision_reason : Option JStr := none
  parent_approval_id : Option Uuid := none
  response_latency_ms : Option ℕ := none

/-- Step 3 of `create_with_chain_link`: a timeout overrides the decision. -/
def ChainLinkArgs.newStatus (args : ChainLinkArgs) : AuthorizationStatus :=
  if args.approver_type = .TIMEOUT_AUTO_REJECTED then .TIMED_OUT else args.decision.authStatus

/-- Step 1 of `create_with_chain_link`: the action under its composite primary key. -/
def findActionAt (db : EventDatabase) (action_id : Uuid) (action_timestamp : PyDateTime) :
    Except HandlerError ActionRow :=
  match action_timestamp.toUtc with
  | none => .error .databaseError
  | some timestamp =>
    match db.actions.find? (ActionRow.hasKey action_id timestamp) with
    | none => .error (.ingest .ACTION_NOT_FOUND ("action_id=" ++ action_id.text ++
        " at timestamp=" ++ JStr.ofChars action_timestamp.isoformat ++
        " not found in hypertable") false)
    | some action => .ok action

/-- The foreign key of the parent. -/
def requireParentKey (db : EventDatabase) (parent_approval_id : Option Uuid) :
    Except HandlerError Unit :=
  if parent_approval_id.all fun parent => db.approvals.any fun r => r.approval_id == parent then
    .ok ()
  else .error .databaseError

/-- The row that `create_with_chain_link` inserts. -/
def ChainLinkArgs.row (args : ChainLinkArgs) (fresh session_id : Uuid) (now : UtcNow) :
    ApprovalRow where
  approval_id := fresh
  action_id := args.action_id
  session_id := session_id
  approver_id := args.approver_id
  approver_type := args.approver_type
  context_presented := args.context_presented
  decision := args.decision
  decision_reason := args.decision_reason
  timestamp := now.time
  response_latency_ms := args.response_latency_ms
  parent_approval_id := args.parent_approval_id

/-- `create_with_chain_link`, which reads the clock for the approval's timestamp.  Nothing looks
    the parent up but the foreign key. -/
def createWithChainLink (fresh : Uuid) (now : UtcNow) (db : EventDatabase) (args : ChainLinkArgs) :
    Except HandlerError (ApprovalRow × EventDatabase) := do
  let action ← findActionAt db args.action_id args.action_timestamp
  requireUnresolved action
  requireParentKey db args.parent_approval_id
  db.insertApproval action (args.row fresh action.session_id now) args.newStatus

/-! ### What the entry points have done -/

/-- The tables after an approval of the action: a row that the columns took, and the new status. -/
structure Approved (db db' : EventDatabase) (action : ActionRow) (row : ApprovalRow)
    (status : AuthorizationStatus) : Prop where
  found : action ∈ db.actions
  unresolved : action.authorization_status.terminal = false
  action_id : row.action_id = action.action_id
  accepted : db.acceptsApproval row = true
  tables : db' = ({ db with approvals := db.approvals ++ [row] } : EventDatabase).setStatus
    action.action_id action.timestamp status

/-- The guard lets an unresolved action pass. -/
theorem unresolved_of_ok {action : ActionRow} (h : requireUnresolved action = .ok ()) :
    action.authorization_status.terminal = false := by
  unfold requireUnresolved at h
  split at h
  · exact absurd h (by simp)
  · next hno => simpa using hno

/-- A flush that succeeds has appended the row as its columns give it back. -/
theorem insertApproval_tables {db db' : EventDatabase} {action : ActionRow}
    {row stored : ApprovalRow} {status : AuthorizationStatus}
    (h : db.insertApproval action row status = .ok (stored, db')) :
    row.readBack = some stored ∧ db.acceptsApproval stored = true ∧
      db' = ({ db with approvals := db.approvals ++ [stored] } : EventDatabase).setStatus
        action.action_id action.timestamp status := by
  unfold EventDatabase.insertApproval at h
  cases hread : row.readBack with
  | none =>
    rw [hread] at h
    exact absurd h (by simp)
  | some read =>
    simp only [hread] at h
    split at h
    case isFalse => exact absurd h (by simp)
    case isTrue haccepts =>
      obtain ⟨rfl, rfl⟩ := Prod.mk.inj (Except.ok.inj h)
      exact ⟨rfl, haccepts, rfl⟩

/-- Inserting a row changes its timestamp and context only. -/
theorem insertApproval_ok {db db' : EventDatabase} {action : ActionRow} {row stored : ApprovalRow}
    {status : AuthorizationStatus} (h : db.insertApproval action row status = .ok (stored, db'))
    (hfound : action ∈ db.actions) (hunresolved : requireUnresolved action = .ok ())
    (hid : row.action_id = action.action_id) :
    Approved db db' action stored status ∧ stored.approval_id = row.approval_id ∧
      stored.decision = row.decision ∧ stored.approver_type = row.approver_type ∧
      row.timestamp.toUtc = some stored.timestamp := by
  obtain ⟨hread, haccepts, htables⟩ := insertApproval_tables h
  obtain ⟨t, ht, rfl⟩ := Option.map_eq_some_iff.mp hread
  exact ⟨⟨hfound, unresolved_of_ok hunresolved, hid, haccepts, htables⟩, rfl, rfl, rfl, ht⟩

/-- The ingest lookup finds a committed row with the session and the id. -/
theorem findAction_ok {db : EventDatabase} {session_id action_id : Uuid} {action : ActionRow}
    (h : findAction db session_id action_id = .ok action) :
    action ∈ db.actions ∧ action.session_id = session_id ∧ action.action_id = action_id := by
  have hmem : action ∈ db.actions.filter fun a =>
      a.session_id == session_id && a.action_id == action_id := by
    unfold findAction at h
    split at h
    · exact absurd h (by simp)
    · next a heq =>
      rw [heq, ← Except.ok.inj h]
      exact List.mem_singleton_self a
    · exact absurd h (by simp)
  rw [List.mem_filter, Bool.and_eq_true, beq_iff_eq, beq_iff_eq] at hmem
  exact hmem

/-- The other lookup finds a committed row with the key. -/
theorem findActionAt_ok {db : EventDatabase} {action_id : Uuid} {action_timestamp : PyDateTime}
    {action : ActionRow} (h : findActionAt db action_id action_timestamp = .ok action) :
    ∃ timestamp, action_timestamp.toUtc = some timestamp ∧ action ∈ db.actions ∧
      action.action_id = action_id ∧ action.timestamp = timestamp := by
  unfold findActionAt at h
  split at h
  case h_1 => exact absurd h (by simp)
  case h_2 timestamp htimestamp =>
    split at h
    case h_1 => exact absurd h (by simp)
    case h_2 found heq =>
      rw [Except.ok.injEq] at h
      subst h
      have hkey := List.find?_some heq
      rw [ActionRow.hasKey, Bool.and_eq_true, beq_iff_eq, beq_iff_eq] at hkey
      exact ⟨timestamp, htimestamp, List.mem_of_find?_eq_some heq, hkey⟩

/-- **The ingest entry point** inserts an approval of an unresolved action of the session, under
    the decision's status. -/
theorem createWithActionStatusUpdate_ok {fresh : Uuid} {db db' : EventDatabase}
    {obj_in : ApprovalCreate} {row : ApprovalRow}
    (h : createWithActionStatusUpdate fresh db obj_in = .ok (row, db')) :
    ∃ action, Approved db db' action row obj_in.decision.authStatus ∧
      action.session_id = obj_in.session_id ∧ action.action_id = obj_in.action_id ∧
      row.approval_id = fresh ∧ row.decision = obj_in.decision ∧
      row.approver_type = obj_in.approver_type ∧
      obj_in.timestamp.toUtc = some row.timestamp := by
  unfold createWithActionStatusUpdate at h
  obtain ⟨action, hfind, h⟩ := bind_eq_ok.mp h
  obtain ⟨_, hunresolved, h⟩ := bind_eq_ok.mp h
  obtain ⟨_, -, h⟩ := bind_eq_ok.mp h
  obtain ⟨hfound, hsession, hid⟩ := findAction_ok hfind
  obtain ⟨happroved, hrest⟩ := insertApproval_ok h hfound hunresolved hid.symm
  exact ⟨action, happroved, hsession, hid, hrest⟩

/-- **The other entry point** inserts an approval of the unresolved action with the given key,
    dated by its own clock; a timeout has its own status. -/
theorem createWithChainLink_ok {fresh : Uuid} {now : UtcNow} {db db' : EventDatabase}
    {args : ChainLinkArgs} {row : ApprovalRow}
    (h : createWithChainLink fresh now db args = .ok (row, db')) :
    ∃ action timestamp, Approved db db' action row args.newStatus ∧
      args.action_timestamp.toUtc = some timestamp ∧ action.action_id = args.action_id ∧
      action.timestamp = timestamp ∧ row.approval_id = fresh ∧ row.decision = args.decision ∧
      row.approver_type = args.approver_type ∧ now.time.toUtc = some row.timestamp := by
  unfold createWithChainLink at h
  obtain ⟨action, hfind, h⟩ := bind_eq_ok.mp h
  obtain ⟨_, hunresolved, h⟩ := bind_eq_ok.mp h
  obtain ⟨_, -, h⟩ := bind_eq_ok.mp h
  obtain ⟨timestamp, htimestamp, hfound, hid, hat⟩ := findActionAt_ok hfind
  obtain ⟨happroved, hrest⟩ := insertApproval_ok h hfound hunresolved hid.symm
  exact ⟨action, timestamp, happroved, htimestamp, hid, hat, hrest⟩

end RootSign
