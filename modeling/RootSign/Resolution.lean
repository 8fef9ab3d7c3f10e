import RootSign.Crud.Approval
import RootSign.Lib.Runs
import RootSign.Python.Sha256

namespace RootSign

open RootSign.Lib RootSign.Python

/-!
# Resolving an action

Any number of calls of the two approval entry points, each in its own transaction.  Both lock
the row of their action first (`SELECT … FOR UPDATE`), and hold it to the end.

* `ApprovalCall.lookup`, `ApprovalCall.resume` — an entry point, cut where the row is locked;
* `ApprovalWriters.step` — one step of one transaction;
* `ActionState` — an action is open without a resolution, or has one and the status it gives;
* `resolution_kept` — in every run without a timeout reported by ingest, an action is
  terminal exactly when it has one resolution, has the status of that row, and keeps it;
* `not_resolvedOnce_reported` — ingest maps a timeout to `human_rejected`.
-/

/-! ### Calls, cut at the row lock -/

/-- A call of one of the two entry points. -/
inductive ApprovalCall where
  | ingest (fresh : Uuid) (obj_in : ApprovalCreate)
  | chainLink (fresh : Uuid) (now : UtcNow) (args : ChainLinkArgs)

namespace ApprovalCall

/-- The action the call is about. -/
def action_id : ApprovalCall → Uuid
  | ingest _ obj_in => obj_in.action_id
  | chainLink _ _ args => args.action_id

/-- The `approver_type` given. -/
def approver_type : ApprovalCall → ApproverType
  | ingest _ obj_in => obj_in.approver_type
  | chainLink _ _ args => args.approver_type

/-- The `decision` given. -/
def decision : ApprovalCall → ApprovalDecision
  | ingest _ obj_in => obj_in.decision
  | chainLink _ _ args => args.decision

/-- `new_status`, as either entry point computes it. -/
def newStatus : ApprovalCall → AuthorizationStatus
  | ingest _ obj_in => obj_in.decision.authStatus
  | chainLink _ _ args => args.newStatus

/-- Step 1: the action, by the key the entry point uses. -/
def lookup (db : EventDatabase) : ApprovalCall → Except HandlerError ActionRow
  | ingest _ obj_in => findAction db obj_in.session_id obj_in.action_id
  | chainLink _ _ args => findActionAt db args.action_id args.action_timestamp

/-- The steps after it, on the object the locked read returned. -/
def resume (db : EventDatabase) (action : ActionRow) :
    ApprovalCall → Except HandlerError (ApprovalRow × EventDatabase)
  | ingest fresh obj_in => do
    requireUnresolved action
    requireEscalationRules db obj_in
    db.insertApproval action { obj_in with approval_id := fresh } obj_in.decision.authStatus
  | chainLink fresh now args => do
    requireUnresolved action
    requireParentKey db args.parent_approval_id
    db.insertApproval action (args.row fresh action.session_id now) args.newStatus

end ApprovalCall

/-! ### Transactions -/

/-- The primary key of `actions`. -/
def ActionRow.key (a : ActionRow) : Uuid × PyDateTime := (a.action_id, a.timestamp)

/-- Where a transaction stands.  `picked`: the CLI has loaded the action in the same session;
    `locked`: the call holds the row lock of the action it works with. -/
inductive ApprovalTask where
  | idle
  | picked (action : ActionRow)
  | locked (call : ApprovalCall) (action : ActionRow)
  | finished

/-- The committed tables, the row locks on actions, and the transactions. -/
structure ApprovalWriters where
  db : EventDatabase
  locks : Uuid × PyDateTime → Option ℕ
  tasks : ℕ → ApprovalTask

/-- The steps between which other transactions can run. -/
inductive ApprovalStep where
  | start (t : ℕ) (call : ApprovalCall)
  | pick (t : ℕ) (action_id : Uuid)
  | submit (t : ℕ) (fresh : Uuid) (now : UtcNow) (approver_id : JStr) (approved : Bool)
      (reason : Option JStr)
  | finish (t : ℕ)
  | abort (t : ℕ)

/-- `action.input_redacted or {}`, of a column that holds a dict or nothing. -/
def presentedBy (action : ActionRow) : Dict :=
  match action.input_redacted with
  | .obj fields => fields
  | _ => []

/-- The call of `_submit_approval`, on the action it picked. -/
def submitArgs (action : ActionRow) (approver_id : JStr) (approved : Bool)
    (reason : Option JStr) : ChainLinkArgs where
  action_id := action.action_id
  action_timestamp := action.timestamp
  approver_id := approver_id
  approver_type := .HUMAN
  context_presented := presentedBy action
  decision := if approved then .APPROVED else .REJECTED
  decision_reason := reason

namespace ApprovalWriters

/-- Where one transaction stands now. -/
def setTask (s : ApprovalWriters) (t : ℕ) (task : ApprovalTask) : ApprovalWriters :=
  { s with tasks := Function.update s.tasks t task }

/-- The row lock is taken when it is free; a transaction waits for one that is not. -/
def lock (s : ApprovalWriters) (t : ℕ) (call : ApprovalCall) (action : ActionRow) :
    Option ApprovalWriters :=
  if s.locks action.key = none then
    some { s with
      locks := Function.update s.locks action.key (some t)
      tasks := Function.update s.tasks t (.locked call action) }
  else none

/-- The end of a transaction: its lock is released. -/
def release (s : ApprovalWriters) (t : ℕ) (action : ActionRow) : ApprovalWriters :=
  { s with
    locks := Function.update s.locks action.key none
    tasks := Function.update s.tasks t .finished }

/-- One step of one transaction, if it can be taken.  The flush and the commit are one step:
    approvals are never deleted, and an index makes the second of two flushes wait for the
    first transaction, so that no other commit changes what a flush has found. -/
def step (s : ApprovalWriters) : ApprovalStep → Option ApprovalWriters
  | .start t call =>
    match s.tasks t with
    | .idle =>
      match call.lookup s.db with
      | .error _ => some (s.setTask t .finished)
      | .ok action => s.lock t call action
    | _ => none
  | .pick t action_id =>
    match s.tasks t with
    | .idle =>
      match s.db.actions.filter fun a =>
          a.action_id == action_id && a.authorization_status == .PENDING with
      | [action] => some (s.setTask t (.picked action))
      | _ => some (s.setTask t .finished)
    | _ => none
  | .submit t fresh now approver_id approved reason =>
    match s.tasks t with
    | .picked action =>
      let call : ApprovalCall :=
        .chainLink fresh now (submitArgs action approver_id approved reason)
      match call.lookup s.db with
      | .error _ => some (s.setTask t .finished)
      | .ok found =>
        -- the locked read returns the object already loaded, with the attributes it has
        s.lock t call (if found.key = action.key then action else found)
    | _ => none
  | .finish t =>
    match s.tasks t with
    | .locked call action =>
      match call.resume s.db action with
      | .error _ => some (s.release t action)
      | .ok (_, db) => some { s.release t action with db := db }
    | _ => none
  | .abort t =>
    match s.tasks t with
    | .picked _ => some (s.setTask t .finished)
    | .locked _ action => some (s.release t action)
    | _ => none

/-- Committed tables, and no transaction yet. -/
def opened (db : EventDatabase) : ApprovalWriters where
  db := db
  locks := fun _ => none
  tasks := fun _ => .idle

end ApprovalWriters

/-! ### What one step can do -/

/-- **What a resumed call has done**: the object it works with is unresolved, and the columns and
    the indexes have taken a row with the call's own action, decision and approver. -/
theorem resume_ok {db db' : EventDatabase} {action : ActionRow} {call : ApprovalCall}
    {row : ApprovalRow} (h : call.resume db action = .ok (row, db')) :
    action.authorization_status.terminal = false ∧ db.acceptsApproval row = true ∧
      row.action_id = call.action_id ∧ row.decision = call.decision ∧
      row.approver_type = call.approver_type ∧
      db' = ({ db with approvals := db.approvals ++ [row] } : EventDatabase).setStatus
        action.action_id action.timestamp call.newStatus := by
  cases call with
  | ingest fresh obj_in =>
    obtain ⟨_, hunresolved, h⟩ := bind_eq_ok.mp h
    obtain ⟨_, -, h⟩ := bind_eq_ok.mp h
    obtain ⟨hread, haccepts, htables⟩ := insertApproval_tables h
    obtain ⟨t, -, rfl⟩ := Option.map_eq_some_iff.mp hread
    exact ⟨unresolved_of_ok hunresolved, haccepts, rfl, rfl, rfl, htables⟩
  | chainLink fresh now args =>
    obtain ⟨_, hunresolved, h⟩ := bind_eq_ok.mp h
    obtain ⟨_, -, h⟩ := bind_eq_ok.mp h
    obtain ⟨hread, haccepts, htables⟩ := insertApproval_tables h
    obtain ⟨t, -, rfl⟩ := Option.map_eq_some_iff.mp hread
    exact ⟨unresolved_of_ok hunresolved, haccepts, rfl, rfl, rfl, htables⟩

/-- The locked read finds a committed row of the call's action. -/
theorem lookup_ok {db : EventDatabase} {call : ApprovalCall} {action : ActionRow}
    (h : call.lookup db = .ok action) :
    action ∈ db.actions ∧ action.action_id = call.action_id := by
  cases call with
  | ingest fresh obj_in =>
    obtain ⟨hmem, -, hid⟩ := findAction_ok h
    exact ⟨hmem, hid⟩
  | chainLink fresh now args =>
    obtain ⟨_, -, hmem, hid, -⟩ := findActionAt_ok h
    exact ⟨hmem, hid⟩

/-- The transaction holds a row lock. -/
def ApprovalTask.holds (task : ApprovalTask) : Prop :=
  ∃ call action, task = .locked call action

/-- **What a step can do.**  A transaction moves on without a lock, takes a free one, ends, or
    commits the call it has locked the action for. -/
inductive ApprovalEffect (s : ApprovalWriters) : ApprovalStep → ApprovalWriters → Prop where
  | move (l t task) (hbefore : ¬ (s.tasks t).holds) (hafter : ¬ task.holds) :
      ApprovalEffect s l (s.setTask t task)
  | lock (l t call action found) (hbefore : ¬ (s.tasks t).holds)
      (hfree : s.locks action.key = none) (hfound : found ∈ s.db.actions)
      (hkey : found.key = action.key) (hid : found.action_id = call.action_id)
      (hcurrent : call.decision = .ESCALATED → found = action)
      (hl : l = .start t call ∨ call.approver_type = .HUMAN) :
      ApprovalEffect s l { s with
        locks := Function.update s.locks action.key (some t)
        tasks := Function.update s.tasks t (.locked call action) }
  | release (l t call action) (hlocked : s.tasks t = .locked call action) :
      ApprovalEffect s l (s.release t action)
  | commit (t call action row db) (hlocked : s.tasks t = .locked call action)
      (hresume : call.resume s.db action = .ok (row, db)) :
      ApprovalEffect s (.finish t) { s.release t action with db := db }

variable {s s' : ApprovalWriters} {l : ApprovalStep} {id : Uuid}

/-- A lock that is taken was free. -/
theorem lock_eq_some {t : ℕ} {call : ApprovalCall} {action : ActionRow}
    (h : s.lock t call action = some s') :
    s.locks action.key = none ∧
      s' = { s with
        locks := Function.update s.locks action.key (some t)
        tasks := Function.update s.tasks t (.locked call action) } := by
  unfold ApprovalWriters.lock at h
  split at h
  case isTrue hfree => exact ⟨hfree, (Option.some.inj h).symm⟩
  case isFalse => exact absurd h (by simp)

theorem approvalEffect_of_step (h : s.step l = some s') : ApprovalEffect s l s' := by
  cases l with
  | start t call =>
    cases ht : s.tasks t <;> simp only [ApprovalWriters.step, ht] at h
    case idle =>
      cases hlookup : call.lookup s.db with
      | error e =>
        rw [hlookup] at h
        rw [← Option.some.inj h]
        exact .move _ t _ (by simp [ApprovalTask.holds, ht]) (by simp [ApprovalTask.holds])
      | ok action =>
        rw [hlookup] at h
        obtain ⟨hmem, hid⟩ := lookup_ok hlookup
        obtain ⟨hfree, rfl⟩ := lock_eq_some h
        exact .lock _ t call action action (by simp [ApprovalTask.holds, ht]) hfree hmem rfl hid
          (fun _ => rfl) (Or.inl rfl)
    all_goals exact absurd h (by simp)
  | pick t action_id =>
    cases ht : s.tasks t <;> simp only [ApprovalWriters.step, ht] at h
    case idle =>
      -- the CLI goes on with the action it found, or exits
      split at h <;> rw [← Option.some.inj h] <;>
        exact .move _ t _ (by simp [ApprovalTask.holds, ht]) (by simp [ApprovalTask.holds])
    all_goals exact absurd h (by simp)
  | submit t fresh now approver_id approved reason =>
    cases ht : s.tasks t <;> simp only [ApprovalWriters.step, ht] at h
    case picked action =>
      split at h
      case h_1 =>
        rw [← Option.some.inj h]
        exact .move _ t _ (by simp [ApprovalTask.holds, ht]) (by simp [ApprovalTask.holds])
      case h_2 found hlookup =>
        obtain ⟨hmem, hid⟩ := lookup_ok hlookup
        obtain ⟨hfree, rfl⟩ := lock_eq_some h
        refine .lock _ t _ _ found (by simp [ApprovalTask.holds, ht]) hfree hmem ?_ hid ?_
          (Or.inr rfl)
        · split
          · assumption
          · rfl
        · -- the CLI approves or rejects
          show (if approved then ApprovalDecision.APPROVED else .REJECTED) = .ESCALATED → _
          cases approved <;> simp
    all_goals exact absurd h (by simp)
  | finish t =>
    cases ht : s.tasks t <;> simp only [ApprovalWriters.step, ht] at h
    case locked call action =>
      cases hresume : call.resume s.db action with
      | error e =>
        rw [hresume] at h
        rw [← Option.some.inj h]
        exact .release _ t call action ht
      | ok result =>
        obtain ⟨row, db⟩ := result
        rw [hresume] at h
        rw [← Option.some.inj h]
        exact .commit t call action row db ht hresume
    all_goals exact absurd h (by simp)
  | abort t =>
    cases ht : s.tasks t <;> simp only [ApprovalWriters.step, ht] at h
    case picked action =>
      rw [← Option.some.inj h]
      exact .move _ t _ (by simp [ApprovalTask.holds, ht]) (by simp [ApprovalTask.holds])
    case locked call action =>
      rw [← Option.some.inj h]
      exact .release _ t call action ht
    all_goals exact absurd h (by simp)

/-! ### The state of one action -/

/-- The approvals that are no escalations, as the partial unique index counts them. -/
def EventDatabase.resolutions (db : EventDatabase) (id : Uuid) : List ApprovalRow :=
  db.approvals.filter fun r => r.action_id == id && r.decision != .ESCALATED

/-- The committed `authorization_status` of the action. -/
def EventDatabase.statusOf (db : EventDatabase) (id : Uuid) : Option AuthorizationStatus :=
  (db.actions.find? fun a => a.action_id == id).map (·.authorization_status)

/-- What the calls for an action do to its status: an escalation leaves it open, and the status
    of a resolution is terminal and fits the row.  The calls of the CLI are among them. -/
structure StatusRule (id : Uuid) (ok : ApprovalCall → Prop)
    (fits : ApproverType → ApprovalDecision → AuthorizationStatus → Prop) : Prop where
  human : ∀ call : ApprovalCall, call.approver_type = .HUMAN → ok call
  escalated : ∀ call, ok call → call.action_id = id → call.decision = .ESCALATED →
    call.newStatus.terminal = false
  terminal : ∀ call, ok call → call.action_id = id → call.decision ≠ .ESCALATED →
    call.newStatus.terminal = true
  fits : ∀ call, ok call → call.action_id = id → call.decision ≠ .ESCALATED →
    fits call.approver_type call.decision call.newStatus

variable {ok : ApprovalCall → Prop}
  {fits : ApproverType → ApprovalDecision → AuthorizationStatus → Prop} {db db' : EventDatabase}
  {call : ApprovalCall} {action a : ActionRow} {row : ApprovalRow}

variable (fits) in
/-- **An action and its resolution.**  Its id is the id of one row of `actions`; the row is not
    terminal and nothing has resolved it, or it is, with a status that fits its only
    resolution. -/
inductive ActionState (db : EventDatabase) (id : Uuid) (a : ActionRow) : Prop where
  | unresolved (hsole : db.actions.filter (fun a => a.action_id == id) = [a])
      (hstatus : a.authorization_status.terminal = false) (hnone : db.resolutions id = [])
  | resolved (row : ApprovalRow)
      (hsole : db.actions.filter (fun a => a.action_id == id) = [a])
      (hstatus : a.authorization_status.terminal = true) (hrow : db.resolutions id = [row])
      (hfits : fits row.approver_type row.decision a.authorization_status)

theorem ActionState.sole (h : ActionState fits db id a) :
    db.actions.filter (fun a => a.action_id == id) = [a] := by
  cases h <;> assumption

theorem ActionState.statusOf (h : ActionState fits db id a) :
    db.statusOf id = some a.authorization_status := by
  unfold EventDatabase.statusOf
  rw [← List.head?_filter, h.sole]
  rfl

/-- The only row with the id has the key of any committed row with the id. -/
theorem ActionState.eq_of_mem (h : ActionState fits db id a) (hmem : action ∈ db.actions)
    (hid : action.action_id = id) : action = a := by
  have hfilter : action ∈ db.actions.filter fun a => a.action_id == id :=
    List.mem_filter.mpr ⟨hmem, beq_iff_eq.mpr hid⟩
  rw [h.sole] at hfilter
  exact List.mem_singleton.mp hfilter

/-- A new status leaves the ids of the actions as they are. -/
theorem filter_setStatus (db : EventDatabase) (id action_id : Uuid) (timestamp : PyDateTime)
    (status : AuthorizationStatus) :
    (db.setStatus action_id timestamp status).actions.filter (fun a => a.action_id == id) =
      (db.actions.filter fun a => a.action_id == id).map fun a =>
        if a.hasKey action_id timestamp then { a with authorization_status := status } else a := by
  show (db.actions.map _).filter _ = _
  rw [List.filter_map]
  congr 1
  refine List.filter_congr fun a _ => ?_
  rw [Function.comp_apply]
  split <;> rfl

/-- **The partial unique index.**  A resolution is only taken for an action that has none. -/
theorem resolutions_of_accepts (h : db.acceptsApproval row = true)
    (hdecision : row.decision ≠ .ESCALATED) : db.resolutions row.action_id = [] := by
  unfold EventDatabase.acceptsApproval at h
  simp only [Bool.and_eq_true] at h
  have hindex := h.2
  rw [Bool.or_eq_true, beq_iff_eq, List.all_eq_true] at hindex
  refine List.filter_eq_nil_iff.mpr fun r hr => ?_
  have hother := (hindex.resolve_left hdecision) r hr
  simp only [Bool.or_eq_true, beq_iff_eq, bne_iff_ne] at hother
  simp only [Bool.and_eq_true, beq_iff_eq, bne_iff_ne, not_and, not_not]
  intro hid
  exact hother.resolve_right fun hne => hne hid

/-- A commit for another action leaves the state of this one as it is. -/
theorem ActionState.frame {status : AuthorizationStatus} (h : ActionState fits db id a)
    (hne : action.action_id ≠ id) (hrow : row.action_id ≠ id) :
    ActionState fits (({ db with approvals := db.approvals ++ [row] } : EventDatabase).setStatus
      action.action_id action.timestamp status) id a := by
  have hactions := filter_setStatus { db with approvals := db.approvals ++ [row] } id
    action.action_id action.timestamp status
  have hkey : a.hasKey action.action_id action.timestamp = false := by
    have ha := List.of_mem_filter (h.sole ▸ List.mem_singleton_self a)
    rw [beq_iff_eq] at ha
    rw [ActionRow.hasKey, ha, beq_eq_false_iff_ne.mpr hne.symm, Bool.false_and]
  have hsole' : ({ db with approvals := db.approvals ++ [row] } : EventDatabase).actions.filter
      (fun a => a.action_id == id) = [a] := h.sole
  rw [hsole', List.map_singleton, hkey] at hactions
  have hresolutions : (({ db with approvals := db.approvals ++ [row] } : EventDatabase).setStatus
      action.action_id action.timestamp status).resolutions id = db.resolutions id := by
    show (db.approvals ++ [row]).filter _ = _
    rw [List.filter_append, List.filter_singleton, beq_eq_false_iff_ne.mpr hrow]
    exact List.append_nil _
  cases h with
  | unresolved hsole hstatus hnone =>
    exact .unresolved hactions hstatus (hresolutions.trans hnone)
  | resolved row hsole hstatus hrow hfits =>
    exact .resolved row hactions hstatus (hresolutions.trans hrow) hfits

/-- **A commit** keeps the state of every action, and the status of one that is resolved.  An
    escalation has read the committed status; any other row is refused by the index. -/
theorem ActionState.commit (rule : StatusRule id ok fits) (h : ActionState fits db id a)
    (hok : ok call) (hid : call.action_id = action.action_id)
    (hheld : ∃ b ∈ db.actions, b.key = action.key ∧
      (call.decision = .ESCALATED → b.authorization_status = action.authorization_status))
    (hresume : call.resume db action = .ok (row, db')) :
    ∃ a', ActionState fits db' id a' ∧ (a.authorization_status.terminal = true → a' = a) := by
  obtain ⟨hopen, haccepts, hrowid, hdecision, happrover, rfl⟩ := resume_ok hresume
  -- the rows of another action are not touched
  by_cases hsame : action.action_id = id
  case neg =>
    exact ⟨a, h.frame hsame (by rw [hrowid, hid]; exact hsame), fun _ => rfl⟩
  have hcall : call.action_id = id := hid.trans hsame
  -- the object stands for the one row of the action there is
  obtain ⟨b, hmem, hkey, hcurrent⟩ := hheld
  obtain ⟨hbid, hbtime⟩ := Prod.mk.inj hkey
  obtain rfl := h.eq_of_mem hmem (hbid.trans hsame)
  have hactions := filter_setStatus { db with approvals := db.approvals ++ [row] } id
    action.action_id action.timestamp call.newStatus
  have hsole : ({ db with approvals := db.approvals ++ [row] } : EventDatabase).actions.filter
      (fun a => a.action_id == id) = [b] := h.sole
  have hbkey : b.hasKey action.action_id action.timestamp = true := by
    rw [ActionRow.hasKey, hbid, hbtime, beq_self_eq_true, beq_self_eq_true, Bool.and_self]
  rw [hsole, List.map_singleton, if_pos hbkey] at hactions
  have hresolutions : (({ db with approvals := db.approvals ++ [row] } : EventDatabase).setStatus
      action.action_id action.timestamp call.newStatus).resolutions id =
        db.resolutions id ++ [row].filter fun r =>
          r.action_id == id && r.decision != .ESCALATED := by
    exact List.filter_append ..
  have hrow : row.action_id = id := hrowid.trans hcall
  by_cases hescalated : call.decision = .ESCALATED
  · -- the object is the committed row, so that the guard has seen its status
    rw [List.filter_singleton, hdecision, hescalated] at hresolutions
    cases h with
    | resolved _ _ hstatus =>
      rw [hcurrent hescalated, hopen] at hstatus
      exact absurd hstatus (by simp)
    | unresolved _ hstatus hnone =>
      refine ⟨_, .unresolved hactions (rule.escalated call hok hcall hescalated) ?_,
        fun hterminal => ?_⟩
      · rw [hresolutions, hnone]
        simp
      · rw [hstatus] at hterminal
        exact absurd hterminal (by simp)
  -- a terminal row was accepted by the index, so no other one is there
  · have hnone := resolutions_of_accepts haccepts (by rw [hdecision]; exact hescalated)
    rw [hrow] at hnone
    cases h with
    | resolved _ _ _ hone =>
      rw [hnone] at hone
      exact absurd hone (by simp)
    | unresolved _ hstatus =>
      refine ⟨_, .resolved row hactions (rule.terminal call hok hcall hescalated) ?_ ?_,
        fun hterminal => ?_⟩
      · rw [hresolutions, hnone, List.nil_append, List.filter_singleton, hrow, hdecision,
          beq_self_eq_true, bne_iff_ne.mpr hescalated]
        rfl
      · rw [happrover, hdecision]
        exact rule.fits call hok hcall hescalated
      · rw [hstatus] at hterminal
        exact absurd hterminal (by simp)

/-! ### The invariant -/

variable (ok) in
/-- What holds of a transaction: it holds the lock of its action, and an escalation the
    committed status. -/
def HeldOk (s : ApprovalWriters) (t : ℕ) : ApprovalTask → Prop
  | .locked call action => ok call ∧ call.action_id = action.action_id ∧
      s.locks action.key = some t ∧ ∃ b ∈ s.db.actions, b.key = action.key ∧
        (call.decision = .ESCALATED → b.authorization_status = action.authorization_status)
  | _ => True

variable (ok fits) in
/-- **The invariant.** -/
structure ResolutionInv (id : Uuid) (s : ApprovalWriters) : Prop where
  action : ∃ a, ActionState fits s.db id a
  held : ∀ t, HeldOk ok s t (s.tasks t)

/-- Every call that a run starts meets the condition. -/
def ApprovalStep.Starts (ok : ApprovalCall → Prop) (l : ApprovalStep) : Prop :=
  ∀ t call, l = .start t call → ok call

/-- A transaction that holds no lock has nothing to keep. -/
theorem heldOk_of_not_holds {t : ℕ} {task : ApprovalTask} (h : ¬ task.holds) :
    HeldOk ok s t task := by
  cases task with
  | locked call action => exact absurd ⟨call, action, rfl⟩ h
  | _ => trivial

/-- Another transaction keeps its lock, and its action as it was, when this one writes no row
    of that key. -/
theorem HeldOk.frame {v : ℕ} {task : ApprovalTask} (h : HeldOk ok s v task)
    (hlock : ∀ key, s.locks key = some v → s'.locks key = some v)
    (hrows : ∀ b ∈ s.db.actions, s.locks b.key = some v → b ∈ s'.db.actions) :
    HeldOk ok s' v task := by
  cases task with
  | locked call action =>
    obtain ⟨hok, hid, hheld, b, hb, hkey, hcurrent⟩ := h
    exact ⟨hok, hid, hlock _ hheld, b, hrows b hb (by rw [hkey]; exact hheld), hkey, hcurrent⟩
  | _ => trivial

/-- The end of a transaction takes no lock from another one. -/
theorem release_locks {t v : ℕ} (hne : v ≠ t) (hheld : s.locks action.key = some t)
    (key : Uuid × PyDateTime) (h : s.locks key = some v) :
    (s.release t action).locks key = some v := by
  show Function.update s.locks action.key none key = _
  rw [Function.update_of_ne, h]
  rintro rfl
  exact hne (Option.some.inj (h.symm.trans hheld))

/-- Once the status of the action is terminal, it does not change. -/
def KeepsTerminal (id : Uuid) (s s' : ApprovalWriters) : Prop :=
  ∀ status, s.db.statusOf id = some status → status.terminal = true →
    s'.db.statusOf id = some status

theorem KeepsTerminal.trans {s₁ s₂ s₃ : ApprovalWriters} (h₁ : KeepsTerminal id s₁ s₂)
    (h₂ : KeepsTerminal id s₂ s₃) : KeepsTerminal id s₁ s₃ :=
  fun status h hterminal => h₂ status (h₁ status h hterminal) hterminal

/-- **The step lemma.**  Every step keeps the invariant, and the status of a terminal action. -/
theorem ResolutionInv.step (rule : StatusRule id ok fits) (hinv : ResolutionInv ok fits id s)
    (hl : l.Starts ok) (h : s.step l = some s') :
    ResolutionInv ok fits id s' ∧ KeepsTerminal id s s' := by
  obtain ⟨⟨a, ha⟩, htasks⟩ := hinv
  cases approvalEffect_of_step h with
  | move l t task hbefore hafter =>
    refine ⟨⟨⟨a, ha⟩, fun v => ?_⟩, fun status hstatus _ => hstatus⟩
    show HeldOk ok _ v (Function.update s.tasks t task v)
    by_cases hv : v = t
    · subst hv
      rw [Function.update_self]
      exact heldOk_of_not_holds hafter
    · rw [Function.update_of_ne hv]
      exact (htasks v).frame (fun _ h => h) fun _ h _ => h
  | lock l t call action found hbefore hfree hfound hkey hid hcurrent hstart =>
    refine ⟨⟨⟨a, ha⟩, fun v => ?_⟩, fun status hstatus _ => hstatus⟩
    show HeldOk ok _ v (Function.update s.tasks t (.locked call action) v)
    by_cases hv : v = t
    · subst hv
      rw [Function.update_self]
      refine ⟨?_, ?_, Function.update_self _ _ _, found, hfound, hkey, fun hescalated => ?_⟩
      · rcases hstart with hstart | hhuman
        · exact hl _ _ hstart
        · exact rule.human call hhuman
      · rw [← hid]
        exact congrArg Prod.fst hkey
      · rw [hcurrent hescalated]
    · rw [Function.update_of_ne hv]
      refine (htasks v).frame (fun key hlock => ?_) fun _ h _ => h
      show Function.update s.locks action.key (some t) key = _
      rw [Function.update_of_ne, hlock]
      rintro rfl
      rw [hfree] at hlock
      exact absurd hlock (by simp)
  | release l t call action hlocked =>
    have ht := htasks t
    rw [hlocked] at ht
    refine ⟨⟨⟨a, ha⟩, fun v => ?_⟩, fun status hstatus _ => hstatus⟩
    show HeldOk ok _ v (Function.update s.tasks t .finished v)
    by_cases hv : v = t
    · subst hv
      rw [Function.update_self]
      trivial
    · rw [Function.update_of_ne hv]
      exact (htasks v).frame (release_locks hv ht.2.2.1) fun _ h _ => h
  | commit t call action row db hlocked hresume =>
    have ht := htasks t
    rw [hlocked] at ht
    obtain ⟨hok, hid, hlock, hheld⟩ := ht
    obtain ⟨a', ha', hkept⟩ := ha.commit rule hok hid hheld hresume
    refine ⟨⟨⟨a', ha'⟩, fun v => ?_⟩, fun status hstatus hterminal => ?_⟩
    · show HeldOk ok _ v (Function.update s.tasks t .finished v)
      by_cases hv : v = t
      · subst hv
        rw [Function.update_self]
        trivial
      · rw [Function.update_of_ne hv]
        refine @HeldOk.frame s { s.release t action with db := db } ok v _ (htasks v)
          (release_locks hv hlock) fun b hb hbkey => ?_
        -- the row that is written is locked by this transaction
        obtain ⟨-, -, -, -, -, rfl⟩ := resume_ok hresume
        refine List.mem_map.mpr ⟨b, hb, if_neg fun hwritten => hv ?_⟩
        rw [ActionRow.hasKey, Bool.and_eq_true, beq_iff_eq, beq_iff_eq] at hwritten
        have hsame : b.key = action.key := Prod.ext hwritten.1 hwritten.2
        rw [hsame] at hbkey
        exact Option.some.inj (hbkey.symm.trans hlock)
    · rw [ha.statusOf, Option.some.injEq] at hstatus
      rw [← hstatus] at hterminal ⊢
      rw [← hkept hterminal]
      exact ha'.statusOf

/-- **Runs.**  A run whose calls meet the condition keeps the invariant, and the status of a
    terminal action. -/
theorem ResolutionInv.run {labels : List ApprovalStep} (rule : StatusRule id ok fits)
    (hinv : ResolutionInv ok fits id s) (hlabels : ∀ l ∈ labels, l.Starts ok)
    (hrun : Lib.run ApprovalWriters.step s labels = some s') :
    ResolutionInv ok fits id s' ∧ KeepsTerminal id s s' :=
  run_rel (R := KeepsTerminal id) (fun _ _ h _ => h) KeepsTerminal.trans
    (fun _ _ _ hinv hl h => hinv.step rule hl h) hinv hlabels hrun

/-! ### The resolution of an action -/

/-- An action just ingested as pending, whose id `create_with_hash` has minted. -/
structure IngestedPending (db : EventDatabase) (id : Uuid) : Prop where
  sole : ∃ a, db.actions.filter (fun a => a.action_id == id) = [a] ∧
    a.authorization_status = .PENDING
  fresh : ∀ r ∈ db.approvals, r.action_id ≠ id

theorem IngestedPending.inv (h : IngestedPending db id) :
    ResolutionInv ok fits id (.opened db) where
  action := by
    obtain ⟨a, hsole, hpending⟩ := h.sole
    refine ⟨a, .unresolved hsole (by rw [hpending]; rfl) ?_⟩
    refine List.filter_eq_nil_iff.mpr fun r hr => ?_
    rw [beq_eq_false_iff_ne.mpr (h.fresh r hr), Bool.false_and]
    exact Bool.false_ne_true
  held t := by trivial

/-- The status that a resolution stands for: a timeout, or the decision of its approver. -/
def outcome (approver_type : ApproverType) (decision : ApprovalDecision) : AuthorizationStatus :=
  if approver_type = .TIMEOUT_AUTO_REJECTED then .TIMED_OUT else decision.authStatus

/-- **Resolved once.**  The action is terminal exactly when it has one resolution, and then it
    has the status that the row stands for. -/
structure ResolvedOnce (db : EventDatabase) (id : Uuid) : Prop where
  terminal_iff : (∃ status, db.statusOf id = some status ∧ status.terminal = true) ↔
    ∃ row, db.resolutions id = [row]
  outcome : ∀ row, db.resolutions id = [row] →
    db.statusOf id = some (outcome row.approver_type row.decision)

/-- A timeout is recorded as a rejection, as its callers do. -/
def ApprovalCall.Paired (call : ApprovalCall) : Prop :=
  call.approver_type = .TIMEOUT_AUTO_REJECTED → call.decision = .REJECTED

/-- The timeout of an action, reported by an `APPROVAL_RECORD`. -/
def ApprovalCall.ReportsTimeout (id : Uuid) : ApprovalCall → Prop
  | .ingest _ obj_in => obj_in.action_id = id ∧ obj_in.approver_type = .TIMEOUT_AUTO_REJECTED
  | .chainLink .. => False

theorem authStatus_terminal {decision : ApprovalDecision} (h : decision ≠ .ESCALATED) :
    decision.authStatus.terminal = true := by
  cases decision <;> first | rfl | exact absurd rfl h

/-- Every other call gives its action the status that its row stands for. -/
theorem newStatus_eq_outcome (hreport : ¬ call.ReportsTimeout id) (hid : call.action_id = id) :
    call.newStatus = outcome call.approver_type call.decision := by
  cases call with
  | ingest fresh obj_in =>
    have htype : obj_in.approver_type ≠ .TIMEOUT_AUTO_REJECTED := fun h => hreport ⟨hid, h⟩
    exact (if_neg htype).symm
  | chainLink fresh now args => rfl

theorem outcome_rule (id : Uuid) :
    StatusRule id (fun call => call.Paired ∧ ¬ call.ReportsTimeout id)
      fun approver_type decision status => status = outcome approver_type decision where
  human call hhuman := by
    refine ⟨fun h => absurd (hhuman.symm.trans h) (by simp), fun h => ?_⟩
    cases call with
    | ingest fresh obj_in => exact absurd (hhuman.symm.trans h.2) (by simp)
    | chainLink fresh now args => exact h
  escalated call hok hid hescalated := by
    have htype : call.approver_type ≠ .TIMEOUT_AUTO_REJECTED := fun h => by
      have hrejected := hok.1 h
      rw [hescalated] at hrejected
      exact absurd hrejected (by simp)
    rw [newStatus_eq_outcome hok.2 hid, outcome, if_neg htype, hescalated]
    rfl
  terminal call hok hid hescalated := by
    rw [newStatus_eq_outcome hok.2 hid, outcome]
    split
    · rfl
    · exact authStatus_terminal hescalated
  fits call hok hid _ := newStatus_eq_outcome hok.2 hid

theorem ActionState.resolvedOnce
    (h : ActionState (fun approver_type decision status => status = outcome approver_type decision)
      db id a) : ResolvedOnce db id := by
  have hstatusOf := h.statusOf
  cases h with
  | unresolved _ hstatus hnone =>
    refine ⟨⟨?_, ?_⟩, fun row hrow => ?_⟩
    · rintro ⟨status, hsome, hterminal⟩
      rw [hstatusOf, Option.some.injEq] at hsome
      rw [← hsome, hstatus] at hterminal
      exact absurd hterminal (by simp)
    · rintro ⟨row, hrow⟩
      rw [hnone] at hrow
      exact absurd hrow (by simp)
    · rw [hnone] at hrow
      exact absurd hrow (by simp)
  | resolved row _ hstatus hrow hfits =>
    refine ⟨⟨fun _ => ⟨row, hrow⟩, fun _ => ⟨_, hstatusOf, hstatus⟩⟩, fun row' hrow' => ?_⟩
    obtain rfl := List.singleton_injective (hrow.symm.trans hrow')
    rw [hstatusOf, hfits]

/-- **The resolution of an action.**  In every run of any calls of both entry points and of the
    CLI, in which no `APPROVAL_RECORD` reports the action's timeout: the action is terminal
    exactly when it has one resolution, it has the status that the row stands for, and once
    terminal it never changes again. -/
theorem resolution_kept (hdb : IngestedPending db id) {front rest : List ApprovalStep}
    (hpaired : ∀ l ∈ front ++ rest, l.Starts ApprovalCall.Paired)
    (hreports : ∀ l ∈ front ++ rest, l.Starts fun call => ¬ call.ReportsTimeout id)
    {s₁ s₂ : ApprovalWriters} (h₁ : run ApprovalWriters.step (.opened db) front = some s₁)
    (h₂ : run ApprovalWriters.step s₁ rest = some s₂) :
    ResolvedOnce s₁.db id ∧ ∀ status, s₁.db.statusOf id = some status →
      status.terminal = true → s₂.db.statusOf id = some status := by
  have hstarts : ∀ l ∈ front ++ rest,
      l.Starts fun call => call.Paired ∧ ¬ call.ReportsTimeout id :=
    fun l hl t call hcall => ⟨hpaired l hl t call hcall, hreports l hl t call hcall⟩
  obtain ⟨hinv, -⟩ := hdb.inv.run (outcome_rule id)
    (fun l hl => hstarts l (List.mem_append_left rest hl)) h₁
  obtain ⟨-, hkept⟩ := hinv.run (outcome_rule id)
    (fun l hl => hstarts l (List.mem_append_right front hl)) h₂
  obtain ⟨a, ha⟩ := hinv.action
  exact ⟨ha.resolvedOnce, hkept⟩

/-! ### Two runs -/

/-- An action that waits for its approval, under the hash of its own fields. -/
def waitingRow : ActionRow :=
  let row : ActionRow :=
    { action_id := exampleRecord
      timestamp := mayNoon.time
      session_id := exampleSession
      decision_id := none
      policy_id := none
      tool_name := "deploy"
      input_hash := computePayloadHash exampleRuntime (.obj [])
      output_hash := none
      input_redacted := .null
      output_redacted := .null
      prev_action_hash := none
      self_hash := ""
      duration_ms := none
      authorization_status := .PENDING
      sequence_number := 1 }
  { row with self_hash := row.canonical.selfHash exampleRuntime }

/-- The tables of its session. -/
def waitingTables : EventDatabase where
  sessions := fun id =>
    if id = exampleSession then
      some
        { status := .RUNNING
          chain_head_hash := waitingRow.self_hash
          chain_tail_hash := waitingRow.self_hash
          action_count := 1 }
    else none
  actions := [waitingRow]
  policies := fun _ => false
  agents := fun id => id = exampleAgent
  details := fun id =>
    if id = exampleSession then
      some
        { agent_id := exampleAgent
          user_id := none
          objective := some "deploy"
          start_time := mayNoon.time
          end_time := none
          decision_count := 0
          metadata := .null }
    else none
  decisions := []
  approvals := []

theorem waitingTables_pending : IngestedPending waitingTables exampleRecord where
  sole := ⟨waitingRow, rfl, rfl⟩
  fresh _ hr := absurd hr List.not_mem_nil

/-- What the checkpoint writes at its deadline. -/
def timeoutArgs : ChainLinkArgs where
  action_id := exampleRecord
  action_timestamp := mayNoon.time
  approver_id := "system:timeout"
  approver_type := .TIMEOUT_AUTO_REJECTED
  context_presented := []
  decision := .REJECTED

/-- The CLI picks the action; before it submits, the deadline passes. -/
def timeoutFirst : List ApprovalStep :=
  [.pick 1 exampleRecord, .start 0 (.chainLink exampleEvent mayNoon timeoutArgs), .finish 0]

/-- The approval that comes too late. -/
def approvalLate : List ApprovalStep :=
  [.submit 1 exampleAgent mayNoon "cli:operator" true none, .finish 1]

/-- The object that the CLI has loaded is still pending, but the index refuses its row. -/
theorem resolution_kept_timeout :
    ∃ s₁ s₂, run ApprovalWriters.step (.opened waitingTables) timeoutFirst = some s₁ ∧
      run ApprovalWriters.step s₁ approvalLate = some s₂ ∧
      ResolvedOnce s₁.db exampleRecord ∧ s₂.db.statusOf exampleRecord = some .TIMED_OUT := by
  have hruns : (((run ApprovalWriters.step (.opened waitingTables) timeoutFirst).bind fun s₁ =>
      (run ApprovalWriters.step s₁ approvalLate).map fun _ => s₁.db.statusOf exampleRecord)) =
        some (some .TIMED_OUT) := by
    decide +kernel
  obtain ⟨s₁, h₁, hruns⟩ := Option.bind_eq_some_iff.mp hruns
  obtain ⟨s₂, h₂, hstatus⟩ := Option.map_eq_some_iff.mp hruns
  have hstarts : ∀ l ∈ timeoutFirst ++ approvalLate, ∀ t call, l = .start t call →
      call = .chainLink exampleEvent mayNoon timeoutArgs := by
    simp [timeoutFirst, approvalLate]
  obtain ⟨honce, hkept⟩ := resolution_kept waitingTables_pending
    (fun l hl t call hcall => by
      rw [hstarts l hl t call hcall]
      exact fun _ => rfl)
    (fun l hl t call hcall => by
      rw [hstarts l hl t call hcall]
      exact id) h₁ h₂
  exact ⟨s₁, s₂, h₁, h₂, honce, hkept _ hstatus rfl⟩

/-- A timeout, sent in an `APPROVAL_RECORD`. -/
def timeoutReport : ApprovalCreate where
  action_id := exampleRecord
  session_id := exampleSession
  approver_id := "system:timeout"
  approver_type := .TIMEOUT_AUTO_REJECTED
  context_presented := []
  decision := .REJECTED
  decision_reason := none
  timestamp := mayNoon.time
  response_latency_ms := none
  parent_approval_id := none

/-- The report is ingested. -/
def timeoutReported : List ApprovalStep :=
  [.start 0 (.ingest exampleEvent timeoutReport), .finish 0]

/-- **Ingest takes a timeout for a human's decision**: the row says that the action timed out, its
    status that it was rejected. -/
theorem not_resolvedOnce_reported :
    IngestedPending waitingTables exampleRecord ∧
      (∀ l ∈ timeoutReported, l.Starts ApprovalCall.Paired) ∧
      ∃ s, run ApprovalWriters.step (.opened waitingTables) timeoutReported = some s ∧
        ¬ ResolvedOnce s.db exampleRecord := by
  have hrun : (run ApprovalWriters.step (.opened waitingTables) timeoutReported).map
      (fun s => (s.db.statusOf exampleRecord,
        (s.db.resolutions exampleRecord).map fun row => outcome row.approver_type row.decision)) =
      some (some .HUMAN_REJECTED, [.TIMED_OUT]) := by
    decide +kernel
  obtain ⟨s, hrun, hs⟩ := Option.map_eq_some_iff.mp hrun
  obtain ⟨hstatus, houtcome⟩ := Prod.mk.inj hs
  refine ⟨waitingTables_pending, ?_, s, hrun, fun h => ?_⟩
  · intro l hl t call hcall
    rw [timeoutReported, List.mem_cons, List.mem_singleton] at hl
    obtain rfl | rfl := hl
    · rw [← (ApprovalStep.start.inj hcall).2]
      exact fun _ => rfl
    · exact absurd hcall (by simp)
  · obtain ⟨row, hrow, hout⟩ := List.map_eq_singleton_iff.mp houtcome
    have hs := h.outcome row hrow
    rw [hstatus, hout] at hs
    exact absurd hs (by decide)

end RootSign
