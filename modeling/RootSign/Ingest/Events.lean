import RootSign.Crud.Approval
import RootSign.Ingest.Handler

namespace RootSign

open RootSign.Python

/-!
# The five event types (`rootsign/ingest/handler.py`)

* `handleSessionOpen`, `handleDecisionRecord`, `handleApprovalRecord`, `handleSessionClose` —
  the handlers beside `handleActionRecord`;
* `dispatchEvent` — `_dispatch` over all five;
* `Recorded` — the row that an accepted response describes is in the tables;
* `dispatchEvent_ok` — a handler that returns has recorded what it accepts, and keeps every
  row there was.
-/

/-! ### Payloads -/

/-- `SessionOpenPayload`. -/
structure SessionOpenPayload where
  objective : Option JStr
  user_id : Option JStr
  metadata : Option Dict

/-- `DecisionRecordPayload`, without the field no handler reads. -/
structure DecisionRecordPayload where
  selected_action : JStr
  inputs_summary : Option JStr
  reasoning_summary : Option JStr
  confidence : Option PyFloat
  alternatives_considered : Option (List JStr)
  timestamp : PyDateTime
  reasoning_captured : Option Bool

/-- `ApprovalRecordPayload`. -/
structure ApprovalRecordPayload where
  action_id : Uuid
  approver_id : JStr
  approver_type : JStr
  context_presented : Dict
  decision : JStr
  decision_reason : Option JStr
  timestamp : PyDateTime
  response_latency_ms : Option ℕ
  parent_approval_id : Option Uuid

/-- `SessionClosePayload`, without the fields that are only logged. -/
structure SessionClosePayload where
  status : SessionStatus
  closes : status ≠ .RUNNING

/-- A payload, by event type. -/
inductive EventPayload where
  | sessionOpen (payload : SessionOpenPayload)
  | actionRecord (payload : ActionRecordPayload)
  | decisionRecord (payload : DecisionRecordPayload)
  | approvalRecord (payload : ApprovalRecordPayload)
  | sessionClose (payload : SessionClosePayload)

/-- The event type of a payload. -/
def EventPayload.eventType : EventPayload → EventType
  | .sessionOpen _ => .SESSION_OPEN
  | .actionRecord _ => .ACTION_RECORD
  | .decisionRecord _ => .DECISION_RECORD
  | .approvalRecord _ => .APPROVAL_RECORD
  | .sessionClose _ => .SESSION_CLOSE

/-- An envelope of any event type: the payload as its schema reads it, or the errors it finds. -/
structure EventEnvelope extends IngestEnvelope where
  agent_id : Uuid
  payload : Except InvalidValue EventPayload

/-- What the interpreter supplies to one call: the clock is read once more for a session. -/
structure EventIO extends HandlerIO where
  now : UtcNow

/-! ### The handlers -/

/-- The columns take the details of a session. -/
def SessionDetails.accepted (d : SessionDetails) : Bool :=
  d.user_id.all (fun s => storableText s && maxLength 200 s) &&
    d.objective.all (fun s => storableText s && maxLength 2000 s) && storable d.metadata

/-- `_handle_session_open`. -/
def handleSessionOpen (io : EventIO) (env : EventEnvelope) (payload : SessionOpenPayload)
    (db : EventDatabase) : Except HandlerError (IngestResponse × EventDatabase) :=
  if db.agents env.agent_id = false then
    .error (.ingest .UNKNOWN_AGENT ("agent_id=" ++ env.agent_id.text ++ " not registered") false)
  else if (db.sessions env.session_id).isSome then
    .error (.ingest .SESSION_ALREADY_EXISTS
      ("session_id=" ++ env.session_id.text ++ " already exists") false)
  else
    let details : SessionDetails :=
      { agent_id := env.agent_id
        user_id := payload.user_id
        objective := payload.objective
        start_time := io.now.time
        end_time := none
        decision_count := 0
        metadata := optDict payload.metadata }
    if details.accepted then
      .ok (.accepted env.event_id (some env.session_id),
        { db with
          sessions := Function.update db.sessions env.session_id (some { status := .RUNNING })
          details := Function.update db.details env.session_id
            (some { details with metadata := jsonb details.metadata }) })
    else .error .databaseError

/-- The columns take the row of a decision. -/
def DecisionRow.accepted (row : DecisionRow) : Bool :=
  storableText row.selected_action && maxLength 200 row.selected_action &&
    row.inputs_summary.all (fun s => storableText s && maxLength 5000 s) &&
    row.reasoning_summary.all (fun s => storableText s && maxLength 10000 s) &&
    row.alternatives_considered.all (fun xs => xs.all storableText) &&
    row.timestamp.toUtc.isSome

/-- `_handle_decision_record`: the row, and the session's `decision_count`. -/
def handleDecisionRecord (io : EventIO) (env : EventEnvelope) (payload : DecisionRecordPayload)
    (db : EventDatabase) : Except HandlerError (IngestResponse × EventDatabase) := do
  let _ ← requireRunningSession db.toDatabase env.session_id
  let row : DecisionRow :=
    { decision_id := io.fresh
      session_id := env.session_id
      inputs_summary := payload.inputs_summary
      reasoning_summary := payload.reasoning_summary
      selected_action := payload.selected_action
      confidence := payload.confidence
      alternatives_considered := payload.alternatives_considered
      timestamp := payload.timestamp
      reasoning_captured := payload.reasoning_captured.getD payload.reasoning_summary.isSome }
  match db.details env.session_id with
  | none => .error .noResultFound
  | some details =>
    if row.accepted && (db.decisions.all fun r => r.decision_id != io.fresh) &&
        details.decision_count + 1 ≤ maxInteger then
      .ok (.accepted env.event_id (some io.fresh),
        { db with
          decisions := db.decisions ++ [row]
          details := Function.update db.details env.session_id
            (some { details with decision_count := details.decision_count + 1 }) })
    else .error .databaseError

/-- The `ApprovalCreate` built from a payload; a text outside either enum raises
    `ValidationError`. -/
def ApprovalRecordPayload.approvalCreate (payload : ApprovalRecordPayload) (session_id : Uuid) :
    Except HandlerError ApprovalCreate :=
  match ApproverType.ofText payload.approver_type, ApprovalDecision.ofText payload.decision with
  | some approver_type, some decision =>
    .ok
      { action_id := payload.action_id
        session_id := session_id
        approver_id := payload.approver_id
        approver_type := approver_type
        context_presented := payload.context_presented
        decision := decision
        decision_reason := payload.decision_reason
        timestamp := payload.timestamp
        response_latency_ms := payload.response_latency_ms
        parent_approval_id := payload.parent_approval_id }
  | _, _ => .error .validationError

/-- `_handle_approval_record`. -/
def handleApprovalRecord (io : EventIO) (env : EventEnvelope) (payload : ApprovalRecordPayload)
    (db : EventDatabase) : Except HandlerError (IngestResponse × EventDatabase) := do
  let _ ← requireRunningSession db.toDatabase env.session_id
  let obj_in ← payload.approvalCreate env.session_id
  let (approval, db) ← createWithActionStatusUpdate io.fresh db obj_in
  return (.accepted env.event_id (some approval.approval_id), db)

/-- `_handle_session_close`: a session may not end before it started. -/
def handleSessionClose (io : EventIO) (env : EventEnvelope) (payload : SessionClosePayload)
    (db : EventDatabase) : Except HandlerError (IngestResponse × EventDatabase) := do
  let session ← requireRunningSession db.toDatabase env.session_id
  match db.details env.session_id with
  | none => .error .noResultFound
  | some details =>
    if details.start_time.instant ≤ io.now.time.instant then
      .ok (.accepted env.event_id (some env.session_id),
        { db with
          sessions := Function.update db.sessions env.session_id
            (some { session with status := payload.status })
          details := Function.update db.details env.session_id
            (some { details with end_time := some io.now.time }) })
    else .error .databaseError

/-- `_handle_action_record`, on the tables of all event types. -/
def handleActionEvent (rt : Runtime) (io : EventIO) (env : EventEnvelope)
    (payload : ActionRecordPayload) (db : EventDatabase) :
    Except HandlerError (IngestResponse × EventDatabase) := do
  let (response, tables) ←
    handleActionRecord rt io.toHandlerIO env.toIngestEnvelope payload db.toDatabase
  return (response, { db with toDatabase := tables })

/-- `_dispatch`. -/
def dispatchEvent (rt : Runtime) (io : EventIO) (env : EventEnvelope) (db : EventDatabase) :
    Except HandlerError (IngestResponse × EventDatabase) :=
  match env.payload with
  | .error e => (e.answer env.event_id "payload validation failed: ").map fun response =>
      (response, db)
  | .ok (.sessionOpen payload) => handleSessionOpen io env payload db
  | .ok (.actionRecord payload) => handleActionEvent rt io env payload db
  | .ok (.decisionRecord payload) => handleDecisionRecord io env payload db
  | .ok (.approvalRecord payload) => handleApprovalRecord io env payload db
  | .ok (.sessionClose payload) => handleSessionClose io env payload db

/-! ### What a handler has recorded -/

/-- The row that an accepted response to an event of the given type describes is there: for a
    closed session, with its final status. -/
def Recorded (kind : EventType) (response : IngestResponse) (db : EventDatabase) : Prop :=
  match kind with
  | .SESSION_OPEN => ∃ id ∈ response.entity_id, (db.sessions id).isSome = true
  | .ACTION_RECORD => ∃ row ∈ db.actions, response.entity_id = some row.action_id ∧
      response.sequence_number = some row.sequence_number ∧
      response.self_hash = some row.self_hash
  | .DECISION_RECORD => ∃ row ∈ db.decisions, response.entity_id = some row.decision_id
  | .APPROVAL_RECORD => ∃ row ∈ db.approvals, response.entity_id = some row.approval_id
  | .SESSION_CLOSE => ∃ id ∈ response.entity_id, ∃ row, db.sessions id = some row ∧
      row.status ≠ .RUNNING

/-- Every row there was is still there; an action keeps its place in the chain, and a closed
    session stays closed. -/
structure Keeps (db db' : EventDatabase) : Prop where
  sessions : ∀ id row, db.sessions id = some row →
    ∃ row', db'.sessions id = some row' ∧ (row.status ≠ .RUNNING → row'.status ≠ .RUNNING)
  actions : ∀ row ∈ db.actions, ∃ row' ∈ db'.actions, row'.action_id = row.action_id ∧
    row'.sequence_number = row.sequence_number ∧ row'.self_hash = row.self_hash
  decisions : ∀ row ∈ db.decisions, row ∈ db'.decisions
  approvals : ∀ row ∈ db.approvals, row ∈ db'.approvals

/-- What is recorded stays recorded. -/
theorem Recorded.mono {kind : EventType} {response : IngestResponse} {db db' : EventDatabase}
    (h : Recorded kind response db) (hkeeps : Keeps db db') : Recorded kind response db' := by
  cases kind with
  | SESSION_OPEN =>
    obtain ⟨id, hid, hsome⟩ := h
    obtain ⟨row, hrow⟩ := Option.isSome_iff_exists.mp hsome
    obtain ⟨row', hrow', -⟩ := hkeeps.sessions id row hrow
    exact ⟨id, hid, by rw [hrow']; rfl⟩
  | ACTION_RECORD =>
    obtain ⟨row, hrow, hid, hseq, hself⟩ := h
    obtain ⟨row', hrow', hid', hseq', hself'⟩ := hkeeps.actions row hrow
    exact ⟨row', hrow', by rw [hid, hid'], by rw [hseq, hseq'], by rw [hself, hself']⟩
  | DECISION_RECORD =>
    obtain ⟨row, hrow, hid⟩ := h
    exact ⟨row, hkeeps.decisions row hrow, hid⟩
  | APPROVAL_RECORD =>
    obtain ⟨row, hrow, hid⟩ := h
    exact ⟨row, hkeeps.approvals row hrow, hid⟩
  | SESSION_CLOSE =>
    obtain ⟨id, hid, row, hrow, hclosed⟩ := h
    obtain ⟨row', hrow', hkept⟩ := hkeeps.sessions id row hrow
    exact ⟨id, hid, row', hrow', hkept hclosed⟩

theorem Keeps.refl (db : EventDatabase) : Keeps db db where
  sessions _ row hrow := ⟨row, hrow, fun h => h⟩
  actions row hrow := ⟨row, hrow, rfl, rfl, rfl⟩
  decisions _ h := h
  approvals _ h := h

/-- Writing one session keeps the others, and the one if it was running. -/
theorem keeps_update {db db' : EventDatabase} {session_id : Uuid} {new : SessionRow}
    (hsessions : db'.sessions = Function.update db.sessions session_id (some new))
    (hrunning : ∀ row, db.sessions session_id = some row → row.status = .RUNNING ∨
      new.status ≠ .RUNNING) :
    ∀ id row, db.sessions id = some row →
      ∃ row', db'.sessions id = some row' ∧ (row.status ≠ .RUNNING → row'.status ≠ .RUNNING) := by
  intro id row hrow
  rw [hsessions]
  by_cases hid : id = session_id
  · subst hid
    refine ⟨new, Function.update_self _ _ _, fun hclosed => ?_⟩
    exact (hrunning row hrow).resolve_left hclosed
  · exact ⟨row, by rw [Function.update_of_ne hid]; exact hrow, fun h => h⟩

/-- A session that is required to be running is. -/
theorem requireRunningSession_ok {db : Database} {session_id : Uuid} {row : SessionRow}
    (h : requireRunningSession db session_id = .ok row) :
    db.sessions session_id = some row ∧ row.status = .RUNNING := by
  unfold requireRunningSession at h
  split at h
  · exact absurd h (by simp)
  · next session heq =>
    split at h
    · next hrunning =>
      rw [← Except.ok.inj h]
      exact ⟨heq, hrunning⟩
    · exact absurd h (by simp)

variable {rt : Runtime} {io : EventIO} {env : EventEnvelope} {db db' : EventDatabase}
  {response : IngestResponse}

theorem handleSessionOpen_ok {payload : SessionOpenPayload}
    (h : handleSessionOpen io env payload db = .ok (response, db')) :
    response.isAccepted = true ∧ Recorded .SESSION_OPEN response db' ∧ Keeps db db' := by
  unfold handleSessionOpen at h
  split at h
  · exact absurd h (by simp)
  split at h
  · exact absurd h (by simp)
  next hfresh =>
  dsimp only at h
  split at h
  · obtain ⟨rfl, rfl⟩ := Prod.mk.inj (Except.ok.inj h)
    refine ⟨by simp, ⟨env.session_id, rfl, by simp⟩, ⟨?_, ?_, fun _ h => h, fun _ h => h⟩⟩
    · apply keeps_update rfl
      intro row hrow
      exact absurd hfresh (by simp [hrow])
    · exact fun row hrow => ⟨row, hrow, rfl, rfl, rfl⟩
  · exact absurd h (by simp)

theorem handleDecisionRecord_ok {payload : DecisionRecordPayload}
    (h : handleDecisionRecord io env payload db = .ok (response, db')) :
    response.isAccepted = true ∧ Recorded .DECISION_RECORD response db' ∧ Keeps db db' := by
  unfold handleDecisionRecord at h
  obtain ⟨_, -, h⟩ := bind_eq_ok.mp h
  dsimp only at h
  split at h
  · exact absurd h (by simp)
  split at h
  · obtain ⟨rfl, rfl⟩ := Prod.mk.inj (Except.ok.inj h)
    refine ⟨by simp, ⟨_, List.mem_append_right _ (List.mem_singleton_self _), rfl⟩,
      ⟨fun _ row hrow => ⟨row, hrow, fun h => h⟩, fun row hrow => ⟨row, hrow, rfl, rfl, rfl⟩,
        fun _ h => List.mem_append_left _ h, fun _ h => h⟩⟩
  · exact absurd h (by simp)

theorem handleApprovalRecord_ok {payload : ApprovalRecordPayload}
    (h : handleApprovalRecord io env payload db = .ok (response, db')) :
    response.isAccepted = true ∧ Recorded .APPROVAL_RECORD response db' ∧ Keeps db db' := by
  unfold handleApprovalRecord at h
  obtain ⟨_, -, h⟩ := bind_eq_ok.mp h
  obtain ⟨obj_in, -, h⟩ := bind_eq_ok.mp h
  obtain ⟨⟨row, db₁⟩, hcreate, h⟩ := bind_eq_ok.mp h
  obtain ⟨rfl, rfl⟩ := Prod.mk.inj (Except.ok.inj h)
  obtain ⟨action, happroved, -⟩ := createWithActionStatusUpdate_ok hcreate
  rw [happroved.tables]
  refine ⟨by simp, ⟨row, by simp [EventDatabase.setStatus], rfl⟩,
    ⟨fun _ row hrow => ⟨row, hrow, fun h => h⟩, ?_, fun _ h => h,
      fun _ h => List.mem_append_left _ h⟩⟩
  -- a new status changes nothing of an action's place in the chain
  intro a ha
  refine ⟨_, List.mem_map_of_mem ha, ?_⟩
  split <;> exact ⟨rfl, rfl, rfl⟩

theorem handleSessionClose_ok {payload : SessionClosePayload}
    (h : handleSessionClose io env payload db = .ok (response, db')) :
    response.isAccepted = true ∧ Recorded .SESSION_CLOSE response db' ∧ Keeps db db' := by
  unfold handleSessionClose at h
  obtain ⟨session, hrunning, h⟩ := bind_eq_ok.mp h
  split at h
  · exact absurd h (by simp)
  split at h
  · obtain ⟨rfl, rfl⟩ := Prod.mk.inj (Except.ok.inj h)
    refine ⟨by simp, ⟨env.session_id, rfl, _, Function.update_self _ _ _, payload.closes⟩,
      ⟨?_, fun row hrow => ⟨row, hrow, rfl, rfl, rfl⟩, fun _ h => h, fun _ h => h⟩⟩
    exact keeps_update rfl fun _ _ => Or.inr payload.closes
  · exact absurd h (by simp)

theorem handleActionEvent_ok {payload : ActionRecordPayload}
    (h : handleActionEvent rt io env payload db = .ok (response, db')) :
    response.isAccepted = true ∧ Recorded .ACTION_RECORD response db' ∧ Keeps db db' := by
  unfold handleActionEvent at h
  obtain ⟨⟨answer, tables⟩, hhandle, h⟩ := bind_eq_ok.mp h
  obtain ⟨rfl, rfl⟩ := Prod.mk.inj (Except.ok.inj h)
  obtain ⟨obj_in, row, -, hcreate, rfl⟩ := handleActionRecord_ok hhandle
  obtain ⟨session_row, hsession, hstored, rfl⟩ := createWithHash_ok hcreate
  refine ⟨by simp, ⟨row, by simp [Database.extended], rfl, rfl, rfl⟩, ⟨?_, ?_, fun _ h => h,
    fun _ h => h⟩⟩
  · apply keeps_update rfl
    intro old hold
    -- the row is in the session it was read from, whose status the chain leaves as it is
    have hid : row.session_id = obj_in.session_id := (readBack_chain hstored).1
    rw [hid, hsession] at hold
    rw [← Option.some.inj hold]
    exact em _
  · exact fun a ha => ⟨a, List.mem_append_left _ ha, rfl, rfl, rfl⟩

/-- **What a handler returns.** A response is a rejection that changes nothing, or it is accepted,
    the row it describes is recorded, and every row there was is kept. -/
theorem dispatchEvent_ok (h : dispatchEvent rt io env db = .ok (response, db')) :
    (response.isAccepted = false ∧ db' = db) ∨
      (response.isAccepted = true ∧ Keeps db db' ∧
        ∃ payload, env.payload = .ok payload ∧ Recorded payload.eventType response db') := by
  unfold dispatchEvent at h
  split at h
  · obtain ⟨⟨errors, -, rfl⟩, rfl⟩ := InvalidValue.answer_ok h
    exact Or.inl ⟨by simp, rfl⟩
  · next payload heq =>
    obtain ⟨haccepted, hrecorded, hkeeps⟩ := handleSessionOpen_ok h
    exact Or.inr ⟨haccepted, hkeeps, _, heq, hrecorded⟩
  · next payload heq =>
    obtain ⟨haccepted, hrecorded, hkeeps⟩ := handleActionEvent_ok h
    exact Or.inr ⟨haccepted, hkeeps, _, heq, hrecorded⟩
  · next payload heq =>
    obtain ⟨haccepted, hrecorded, hkeeps⟩ := handleDecisionRecord_ok h
    exact Or.inr ⟨haccepted, hkeeps, _, heq, hrecorded⟩
  · next payload heq =>
    obtain ⟨haccepted, hrecorded, hkeeps⟩ := handleApprovalRecord_ok h
    exact Or.inr ⟨haccepted, hkeeps, _, heq, hrecorded⟩
  · next payload heq =>
    obtain ⟨haccepted, hrecorded, hkeeps⟩ := handleSessionClose_ok h
    exact Or.inr ⟨haccepted, hkeeps, _, heq, hrecorded⟩

end RootSign
