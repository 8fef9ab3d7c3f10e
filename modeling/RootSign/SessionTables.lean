import RootSign.ConcurrentWriters
import RootSign.ManagedClient
import RootSign.Resolution

namespace RootSign

open RootSign.Lib RootSign.Python

/-!
# The tables of a session (`rootsign/ingest/handler.py`)

What `ManagedLocalIngestClient.handle` makes of the tables, call after call, whatever is handed over
and whichever commits fail.

* `Writes` — what one committed transaction can write;
* `Balanced` — the counters count, every row belongs to a session, and a session has an end exactly
  if it is closed;
* `balanced_after` — the tables balance after any calls;
* `closed_for_good` — a closed session keeps its rows as they are, and takes no more.
-/

/-! ### One transaction -/

/-- What one transaction writes, by event type. -/
inductive Writes (env : EventEnvelope) (db : EventDatabase) : EventDatabase → EventType → Prop
  | opened (details : SessionDetails) (hfree : db.sessions env.session_id = none)
      (hcount : details.decision_count = 0) (hend : details.end_time = none) :
      Writes env db
        { db with
          sessions := Function.update db.sessions env.session_id (some { status := .RUNNING })
          details := Function.update db.details env.session_id (some details) } .SESSION_OPEN
  | acted (session advanced : SessionRow) (row : ActionRow)
      (hsession : db.sessions env.session_id = some session) (hrunning : session.status = .RUNNING)
      (hid : row.session_id = env.session_id) (hkey : row.key ∉ db.actions.map ActionRow.key)
      (hcontinues : Continues session row advanced) (hstatus : advanced.status = session.status) :
      Writes env db { db with toDatabase := db.toDatabase.extended row advanced } .ACTION_RECORD
  | decided (session : SessionRow) (details : SessionDetails) (row : DecisionRow)
      (hsession : db.sessions env.session_id = some session) (hrunning : session.status = .RUNNING)
      (hdetails : db.details env.session_id = some details)
      (hid : row.session_id = env.session_id) :
      Writes env db
        { db with
          decisions := db.decisions ++ [row]
          details := Function.update db.details env.session_id
            (some { details with decision_count := details.decision_count + 1 }) } .DECISION_RECORD
  | approved (session : SessionRow) (action : ActionRow) (row : ApprovalRow)
      (status : AuthorizationStatus) (hsession : db.sessions env.session_id = some session)
      (hrunning : session.status = .RUNNING) (haction : action ∈ db.actions)
      (hof : action.session_id = env.session_id) (hid : row.session_id = env.session_id)
      (hrow : row.action_id = action.action_id) :
      Writes env db (({ db with approvals := db.approvals ++ [row] } : EventDatabase).setStatus
        action.action_id action.timestamp status) .APPROVAL_RECORD
  | closed (session : SessionRow) (details : SessionDetails) (status : SessionStatus)
      (end_time : PyDateTime) (hsession : db.sessions env.session_id = some session)
      (hrunning : session.status = .RUNNING) (hdetails : db.details env.session_id = some details)
      (hstatus : status ≠ .RUNNING) (hend : details.start_time.instant ≤ end_time.instant) :
      Writes env db
        { db with
          sessions := Function.update db.sessions env.session_id
            (some { session with status := status })
          details := Function.update db.details env.session_id
            (some { details with end_time := some end_time }) } .SESSION_CLOSE

section

variable {rt : Runtime} {io : EventIO} {env : EventEnvelope} {db db' : EventDatabase}
  {response : IngestResponse}

/-- What an opening writes. -/
theorem handleSessionOpen_writes {payload : SessionOpenPayload}
    (h : handleSessionOpen io env payload db = .ok (response, db')) :
    Writes env db db' .SESSION_OPEN := by
  unfold handleSessionOpen at h
  split at h
  · exact absurd h (by simp)
  split at h
  · exact absurd h (by simp)
  next hfree =>
  dsimp only at h
  split at h
  · obtain ⟨-, rfl⟩ := Prod.mk.inj (Except.ok.inj h)
    exact .opened _ (by simpa using hfree) rfl rfl
  · exact absurd h (by simp)

/-- A row that the columns take has a key of its own. -/
theorem key_not_mem_of_accepts {db : Database} {row : ActionRow} (h : db.accepts row = true) :
    row.key ∉ db.actions.map ActionRow.key := by
  intro hmem
  obtain ⟨other, hother, hkey⟩ := List.mem_map.mp hmem
  unfold Database.accepts at h
  rw [Bool.and_eq_true, List.all_eq_true] at h
  have hne := h.2 other hother
  rw [ActionRow.key, ActionRow.key, Prod.mk.injEq] at hkey
  simp [hkey.1, hkey.2] at hne

/-- What `create_with_hash` inserts is taken by the columns. -/
theorem accepts_of_createWithHash {fresh : Uuid} {tables tables' : Database} {obj_in : ActionCreate}
    {row : ActionRow} (h : createWithHash rt fresh tables obj_in = .ok (row, tables')) :
    tables.accepts row = true := by
  unfold createWithHash at h
  cases hsession : tables.sessions obj_in.session_id with
  | none =>
    rw [hsession] at h
    exact absurd h (by simp)
  | some session =>
    simp only [hsession, extendChain_eq, Database.insertAction] at h
    split at h
    · split at h
      · next haccepts =>
        obtain ⟨rfl, -⟩ := Prod.mk.inj (Except.ok.inj h)
        exact haccepts
      · exact absurd h (by simp)
    · exact absurd h (by simp)

/-- An action is only taken for a running session. -/
theorem running_of_handleActionRecord {hio : HandlerIO} {base : IngestEnvelope}
    {payload : ActionRecordPayload} {tables tables' : Database}
    (h : handleActionRecord rt hio base payload tables = .ok (response, tables')) :
    ∃ session, tables.sessions base.session_id = some session ∧ session.status = .RUNNING := by
  unfold handleActionRecord at h
  by_cases hsealed : (payload.self_hash.isSome || payload.action_id.isSome) = true
  · simp [hsealed, throw, throwThe, MonadExceptOf.throw, bind, Except.bind] at h
  · simp only [hsealed, Bool.false_eq_true, if_false] at h
    obtain ⟨session, hsession, -⟩ := bind_eq_ok.mp h
    exact ⟨session, requireRunningSession_ok hsession⟩

/-- What an action writes. -/
theorem handleActionEvent_writes {payload : ActionRecordPayload}
    (h : handleActionEvent rt io env payload db = .ok (response, db')) :
    Writes env db db' .ACTION_RECORD := by
  unfold handleActionEvent at h
  obtain ⟨⟨answer, tables⟩, hhandle, h⟩ := bind_eq_ok.mp h
  obtain ⟨-, rfl⟩ := Prod.mk.inj (Except.ok.inj h)
  obtain ⟨session, hsession, hrunning⟩ := running_of_handleActionRecord hhandle
  obtain ⟨obj_in, row, hobj, hcreate, -⟩ := handleActionRecord_ok hhandle
  obtain ⟨copy, hcopy, hstored, rfl⟩ := createWithHash_ok hcreate
  obtain ⟨hid, hnumber, hprev, hself⟩ := readBack_chain hstored
  have hof : obj_in.session_id = env.session_id := (actionCreate_ok hobj).1
  have hsame : copy = session := by
    rw [hof, hsession] at hcopy
    exact (Option.some.inj hcopy).symm
  subst hsame
  exact .acted copy _ row hsession hrunning (hid.trans hof)
    (key_not_mem_of_accepts (accepts_of_createWithHash hcreate))
    ⟨hnumber, hprev, rfl, by rw [hself]⟩ rfl

/-- What a decision writes. -/
theorem handleDecisionRecord_writes {payload : DecisionRecordPayload}
    (h : handleDecisionRecord io env payload db = .ok (response, db')) :
    Writes env db db' .DECISION_RECORD := by
  unfold handleDecisionRecord at h
  obtain ⟨session, hsession, h⟩ := bind_eq_ok.mp h
  obtain ⟨hrow, hrunning⟩ := requireRunningSession_ok hsession
  dsimp only at h
  split at h
  · exact absurd h (by simp)
  next details hdetails =>
  split at h
  · obtain ⟨-, rfl⟩ := Prod.mk.inj (Except.ok.inj h)
    exact .decided session details _ hrow hrunning hdetails rfl
  · exact absurd h (by simp)

/-- An approval is stored under the session it was ingested for. -/
theorem session_of_createWithActionStatusUpdate {fresh : Uuid} {obj_in : ApprovalCreate}
    {row : ApprovalRow} (h : createWithActionStatusUpdate fresh db obj_in = .ok (row, db')) :
    row.session_id = obj_in.session_id := by
  unfold createWithActionStatusUpdate at h
  obtain ⟨action, -, h⟩ := bind_eq_ok.mp h
  obtain ⟨_, -, h⟩ := bind_eq_ok.mp h
  obtain ⟨_, -, h⟩ := bind_eq_ok.mp h
  obtain ⟨t, -, rfl⟩ := Option.map_eq_some_iff.mp (insertApproval_tables h).1
  rfl

/-- What an approval writes. -/
theorem handleApprovalRecord_writes {payload : ApprovalRecordPayload}
    (h : handleApprovalRecord io env payload db = .ok (response, db')) :
    Writes env db db' .APPROVAL_RECORD := by
  unfold handleApprovalRecord at h
  obtain ⟨session, hsession, h⟩ := bind_eq_ok.mp h
  obtain ⟨hrow, hrunning⟩ := requireRunningSession_ok hsession
  obtain ⟨obj_in, hobj, h⟩ := bind_eq_ok.mp h
  obtain ⟨⟨row, db₁⟩, hcreate, h⟩ := bind_eq_ok.mp h
  obtain ⟨-, rfl⟩ := Prod.mk.inj (Except.ok.inj h)
  have hof : obj_in.session_id = env.session_id := by
    unfold ApprovalRecordPayload.approvalCreate at hobj
    split at hobj
    · rw [← Except.ok.inj hobj]
    · exact absurd hobj (by simp)
  obtain ⟨action, happroved, hsame, -⟩ := createWithActionStatusUpdate_ok hcreate
  rw [happroved.tables]
  exact .approved session action row _ hrow hrunning happroved.found (hsame.trans hof)
    ((session_of_createWithActionStatusUpdate hcreate).trans hof) happroved.action_id

/-- What a close writes. -/
theorem handleSessionClose_writes {payload : SessionClosePayload}
    (h : handleSessionClose io env payload db = .ok (response, db')) :
    Writes env db db' .SESSION_CLOSE := by
  unfold handleSessionClose at h
  obtain ⟨session, hsession, h⟩ := bind_eq_ok.mp h
  obtain ⟨hrow, hrunning⟩ := requireRunningSession_ok hsession
  split at h
  · exact absurd h (by simp)
  next details hdetails =>
  split at h
  · next hend =>
    obtain ⟨-, rfl⟩ := Prod.mk.inj (Except.ok.inj h)
    exact .closed session details payload.status io.now.time hrow hrunning hdetails payload.closes
      hend
  · exact absurd h (by simp)

/-- **One dispatch** writes what its event type can write, if it accepts at all. -/
theorem dispatchEvent_writes (h : dispatchEvent rt io env db = .ok (response, db')) :
    ((∃ errors, env.payload = .error errors) ∧ response.isAccepted = false ∧ db' = db) ∨
      ∃ payload, env.payload = .ok payload ∧ Writes env db db' payload.eventType := by
  unfold dispatchEvent at h
  split at h
  · next errors heq =>
    obtain ⟨⟨text, -, rfl⟩, rfl⟩ := InvalidValue.answer_ok h
    exact Or.inl ⟨⟨errors, heq⟩, by simp, rfl⟩
  · next payload heq => exact Or.inr ⟨_, heq, handleSessionOpen_writes h⟩
  · next payload heq => exact Or.inr ⟨_, heq, handleActionEvent_writes h⟩
  · next payload heq => exact Or.inr ⟨_, heq, handleDecisionRecord_writes h⟩
  · next payload heq => exact Or.inr ⟨_, heq, handleApprovalRecord_writes h⟩
  · next payload heq => exact Or.inr ⟨_, heq, handleSessionClose_writes h⟩

end

/-! ### One session -/

/-- What the tables hold of one session. -/
@[ext] structure SessionPart where
  row : Option SessionRow
  details : Option SessionDetails
  actions : List ActionRow
  decisions : List DecisionRow
  approvals : List ApprovalRow

/-- The part of a session in the tables. -/
def EventDatabase.part (db : EventDatabase) (id : Uuid) : SessionPart where
  row := db.sessions id
  details := db.details id
  actions := rowsOf db.toDatabase id
  decisions := db.decisions.filter fun row => row.session_id == id
  approvals := db.approvals.filter fun row => row.session_id == id

/-- A new status for an action, which changes nothing else of it. -/
def setStatusOf (action_id : Uuid) (timestamp : PyDateTime) (status : AuthorizationStatus)
    (a : ActionRow) : ActionRow :=
  if a.hasKey action_id timestamp then { a with authorization_status := status } else a

/-- The life of a session: it is opened, takes records while it is running, and is closed. -/
inductive PartStep (p : SessionPart) : SessionPart → Prop
  | opened (details : SessionDetails) (hfree : p.row = none)
      (hcount : details.decision_count = 0) (hend : details.end_time = none) :
      PartStep p { p with row := some { status := .RUNNING }, details := some details }
  | acted (session advanced : SessionRow) (row : ActionRow) (hrow : p.row = some session)
      (hrunning : session.status = .RUNNING) (hcontinues : Continues session row advanced)
      (hstatus : advanced.status = session.status) :
      PartStep p { p with row := some advanced, actions := p.actions ++ [row] }
  | decided (session : SessionRow) (details : SessionDetails) (row : DecisionRow)
      (hrow : p.row = some session) (hrunning : session.status = .RUNNING)
      (hdetails : p.details = some details) :
      PartStep p { p with
        details := some { details with decision_count := details.decision_count + 1 }
        decisions := p.decisions ++ [row] }
  | approved (session : SessionRow) (action : ActionRow) (row : ApprovalRow)
      (status : AuthorizationStatus) (hrow : p.row = some session)
      (hrunning : session.status = .RUNNING) (haction : action ∈ p.actions)
      (hid : row.action_id = action.action_id) :
      PartStep p { p with
        actions := p.actions.map (setStatusOf action.action_id action.timestamp status)
        approvals := p.approvals ++ [row] }
  | closed (session : SessionRow) (details : SessionDetails) (status : SessionStatus)
      (end_time : PyDateTime) (hrow : p.row = some session) (hrunning : session.status = .RUNNING)
      (hdetails : p.details = some details) (hstatus : status ≠ .RUNNING)
      (hend : details.start_time.instant ≤ end_time.instant) :
      PartStep p { p with
        row := some { session with status := status }
        details := some { details with end_time := some end_time } }

/-- The session is in the tables, and no longer running. -/
def SessionPart.Closed (p : SessionPart) : Prop :=
  ∃ session, p.row = some session ∧ session.status ≠ .RUNNING

/-- A closed session takes no step. -/
theorem SessionPart.Closed.no_step {p p' : SessionPart} (h : p.Closed) : ¬ PartStep p p' := by
  obtain ⟨closed, hclosed, hstatus⟩ := h
  -- every step starts from a free id or a running session
  have hrunning : ∀ session, p.row = some session → session.status ≠ .RUNNING := by
    intro session hrow
    rw [hclosed] at hrow
    rwa [← Option.some.inj hrow]
  intro hstep
  cases hstep with
  | opened details hfree => exact absurd (hclosed.symm.trans hfree) (by simp)
  | acted session advanced row hrow hrun => exact hrunning session hrow hrun
  | decided session details row hrow hrun => exact hrunning session hrow hrun
  | approved session action row status hrow hrun => exact hrunning session hrow hrun
  | closed session details status end_time hrow hrun => exact hrunning session hrow hrun

/-- The rows of a session are numbered and linked, its counters count them, its approvals are of
    its actions, and it has an end, not before its start, exactly if it is closed. -/
structure PartOk (p : SessionPart) : Prop where
  described : p.details.isSome = p.row.isSome
  free : p.row = none → p.actions = [] ∧ p.decisions = [] ∧ p.approvals = []
  number : ∀ (i : ℕ) (hi : i < p.actions.length), p.actions[i].sequence_number = i + 1
  linked : LinkedFrom ActionRow.prev_action_hash (fun r => some r.self_hash) none p.actions
  tail : ∀ session, p.row = some session → session.action_count = p.actions.length ∧
    session.chain_tail_hash = lastSelf (fun r : ActionRow => some r.self_hash) none p.actions
  counted : ∀ details, p.details = some details → details.decision_count = p.decisions.length
  approved : ∀ row ∈ p.approvals, ∃ action ∈ p.actions, action.action_id = row.action_id
  ended : ∀ session details, p.row = some session → p.details = some details →
    (session.status ≠ .RUNNING ↔ details.end_time.isSome = true) ∧
      ∀ t ∈ details.end_time, details.start_time.instant ≤ t.instant

section

variable {p p' : SessionPart}

/-- Opening a session. -/
theorem PartOk.opened (h : PartOk p) {details : SessionDetails} (hfree : p.row = none)
    (hcount : details.decision_count = 0) (hend : details.end_time = none) :
    PartOk { p with row := some { status := .RUNNING }, details := some details } := by
  obtain ⟨hactions, hdecisions, happrovals⟩ := h.free hfree
  refine ⟨rfl, nofun, h.number, h.linked, fun session hsession => ?_, fun d hd => ?_, h.approved,
    fun session d hsession hd => ?_⟩
  · obtain rfl := Option.some.inj hsession
    rw [hactions]
    exact ⟨rfl, rfl⟩
  · obtain rfl := Option.some.inj hd
    rw [hcount, hdecisions]
    rfl
  · obtain rfl := Option.some.inj hsession
    obtain rfl := Option.some.inj hd
    rw [hend]
    exact ⟨by simp, nofun⟩

/-- An action continues the chain. -/
theorem PartOk.acted (h : PartOk p) {session advanced : SessionRow} {row : ActionRow}
    (hrow : p.row = some session) (hcontinues : Continues session row advanced)
    (hstatus : advanced.status = session.status) :
    PartOk { p with row := some advanced, actions := p.actions ++ [row] } := by
  obtain ⟨hcount, htail⟩ := h.tail session hrow
  have hdetails : p.details.isSome = true := by rw [h.described, hrow]; rfl
  refine ⟨hdetails, nofun, fun i hi => ?_, ?_, fun session' hsession' => ?_, h.counted,
    fun approval happroval => ?_, fun session' details hsession' hd => ?_⟩
  · rw [List.length_append, List.length_singleton] at hi
    by_cases hlt : i < p.actions.length
    · rw [List.getElem_append_left hlt]
      exact h.number i hlt
    · obtain rfl : i = p.actions.length := by omega
      rw [List.getElem_concat_length rfl, hcontinues.number, hcount]
  · rw [linkedFrom_concat]
    exact ⟨h.linked, by rw [hcontinues.prev, htail]⟩
  · obtain rfl := Option.some.inj hsession'
    rw [lastSelf_concat, List.length_append, hcontinues.count, hcontinues.tail, hcount]
    exact ⟨by simp, rfl⟩
  · obtain ⟨action, haction, hid⟩ := h.approved approval happroval
    exact ⟨action, List.mem_append_left _ haction, hid⟩
  · obtain rfl := Option.some.inj hsession'
    rw [hstatus]
    exact h.ended session details hrow hd

/-- A decision is counted. -/
theorem PartOk.decided (h : PartOk p) {session : SessionRow} {details : SessionDetails}
    (row : DecisionRow) (hrow : p.row = some session) (hdetails : p.details = some details) :
    PartOk { p with
      details := some { details with decision_count := details.decision_count + 1 }
      decisions := p.decisions ++ [row] } := by
  refine ⟨by rw [hrow]; rfl, fun hnone => ?_, h.number, h.linked, h.tail, fun d hd => ?_,
    h.approved, fun session' d hsession' hd => ?_⟩
  · exact absurd (hrow.symm.trans hnone) (by simp)
  · obtain rfl := Option.some.inj hd
    show details.decision_count + 1 = _
    rw [h.counted details hdetails, List.length_append]
    simp
  · obtain rfl := Option.some.inj hd
    exact h.ended session' details hsession' hdetails

/-- An approval changes the status of an action, which is no part of the chain. -/
theorem PartOk.approved_step (h : PartOk p) {session : SessionRow} {action : ActionRow}
    {row : ApprovalRow} (status : AuthorizationStatus) (hrow : p.row = some session)
    (haction : action ∈ p.actions) (hid : row.action_id = action.action_id) :
    PartOk { p with
      actions := p.actions.map (setStatusOf action.action_id action.timestamp status)
      approvals := p.approvals ++ [row] } := by
  -- the status is no field that the clauses of `PartOk` read
  have hkept : ∀ a, (setStatusOf action.action_id action.timestamp status a).sequence_number =
        a.sequence_number ∧
      (setStatusOf action.action_id action.timestamp status a).prev_action_hash =
        a.prev_action_hash ∧
      (setStatusOf action.action_id action.timestamp status a).self_hash = a.self_hash ∧
      (setStatusOf action.action_id action.timestamp status a).action_id = a.action_id := by
    intro a
    unfold setStatusOf
    split <;> exact ⟨rfl, rfl, rfl, rfl⟩
  have hself : (fun r : ActionRow =>
      some (setStatusOf action.action_id action.timestamp status r).self_hash) =
        fun r => some r.self_hash := funext fun a => congrArg some (hkept a).2.2.1
  have hprev : (fun r : ActionRow =>
      (setStatusOf action.action_id action.timestamp status r).prev_action_hash) =
        ActionRow.prev_action_hash := funext fun a => (hkept a).2.1
  refine ⟨h.described, fun hnone => absurd (hrow.symm.trans hnone) (by simp), fun i hi => ?_, ?_,
    fun session' hsession' => ?_, h.counted, fun approval happroval => ?_, h.ended⟩
  · rw [List.length_map] at hi
    simp only [List.getElem_map, (hkept _).1]
    exact h.number i hi
  · rw [linkedFrom_map, hself, hprev]
    exact h.linked
  · rw [List.length_map, lastSelf_map, hself]
    exact h.tail session' hsession'
  · -- every action is still there under its id
    have hthere : ∀ a ∈ p.actions, ∃ a' ∈ p.actions.map
        (setStatusOf action.action_id action.timestamp status), a'.action_id = a.action_id :=
      fun a ha => ⟨_, List.mem_map_of_mem ha, (hkept a).2.2.2⟩
    rcases List.mem_append.mp happroval with hold | hnew
    · obtain ⟨a, ha, haid⟩ := h.approved approval hold
      obtain ⟨a', ha', haid'⟩ := hthere a ha
      exact ⟨a', ha', haid'.trans haid⟩
    · rw [List.mem_singleton.mp hnew, hid]
      exact hthere action haction

/-- A closed session has an end. -/
theorem PartOk.closed (h : PartOk p) {session : SessionRow} {details : SessionDetails}
    {status : SessionStatus} {end_time : PyDateTime} (hrow : p.row = some session)
    (hstatus : status ≠ .RUNNING) (hend : details.start_time.instant ≤ end_time.instant)
    (hdetails : p.details = some details) :
    PartOk { p with
      row := some { session with status := status }
      details := some { details with end_time := some end_time } } := by
  refine ⟨rfl, nofun, h.number, h.linked, fun session' hsession' => ?_, fun d hd => ?_, h.approved,
    fun session' d hsession' hd => ?_⟩
  · obtain rfl := Option.some.inj hsession'
    exact h.tail session hrow
  · obtain rfl := Option.some.inj hd
    exact h.counted details hdetails
  · obtain rfl := Option.some.inj hsession'
    obtain rfl := Option.some.inj hd
    refine ⟨iff_of_true hstatus rfl, fun t ht => ?_⟩
    obtain rfl := Option.some.inj ht
    exact hend

/-- **One step** of a session keeps its books. -/
theorem PartOk.step (h : PartOk p) (hstep : PartStep p p') : PartOk p' := by
  cases hstep with
  | opened details hfree hcount hend => exact h.opened hfree hcount hend
  | acted session advanced row hrow _ hcontinues hstatus => exact h.acted hrow hcontinues hstatus
  | decided session details row hrow _ hdetails => exact h.decided row hrow hdetails
  | approved session action row status hrow _ haction hid =>
    exact h.approved_step status hrow haction hid
  | closed session details status end_time hrow _ hdetails hstatus hend =>
    exact h.closed hrow hstatus hend hdetails

end

/-! ### The tables -/

/-- Every session's books balance, and no two actions have one key. -/
structure Balanced (db : EventDatabase) : Prop where
  parts : ∀ id, PartOk (db.part id)
  keys : (db.actions.map ActionRow.key).Nodup

section

variable {env : EventEnvelope} {db db' : EventDatabase} {kind : EventType} {id : Uuid}

/-- A status is set in the rows of its session. -/
theorem rowsOf_setStatus (db : EventDatabase) (id action_id : Uuid) (timestamp : PyDateTime)
    (status : AuthorizationStatus) :
    rowsOf (db.setStatus action_id timestamp status).toDatabase id =
      (rowsOf db.toDatabase id).map (setStatusOf action_id timestamp status) := by
  show (db.actions.map _).filter _ = _
  rw [List.filter_map]
  refine congrArg _ (List.filter_congr fun a _ => ?_)
  rw [Function.comp_apply]
  split <;> rfl

/-- A transaction is a step of the session it is for. -/
theorem Writes.part_self (h : Writes env db db' kind) :
    PartStep (db.part env.session_id) (db'.part env.session_id) := by
  cases h with
  -- each transaction writes rows of its own session only, so its part makes the same step
  | opened details hfree hcount hend =>
    have hpart := PartStep.opened (p := db.part env.session_id) details hfree hcount hend
    refine cast (congrArg _ ?_) hpart
    ext1
    all_goals simp [EventDatabase.part, rowsOf]
  | acted session advanced row hsession hrunning hid _ hcontinues hstatus =>
    have hpart := PartStep.acted (p := db.part env.session_id) session advanced row hsession
      hrunning hcontinues hstatus
    refine cast (congrArg _ ?_) hpart
    ext1
    all_goals simp [EventDatabase.part, Database.extended, rowsOf, hid]
  | decided session details row hsession hrunning hdetails hid =>
    have hpart := PartStep.decided (p := db.part env.session_id) session details row hsession
      hrunning hdetails
    refine cast (congrArg _ ?_) hpart
    ext1
    all_goals simp [EventDatabase.part, rowsOf, hid]
  | approved session action row status hsession hrunning haction hof hid hrow =>
    have hmem : action ∈ (db.part env.session_id).actions :=
      List.mem_filter.mpr ⟨haction, beq_iff_eq.mpr hof⟩
    have hpart := PartStep.approved (p := db.part env.session_id) session action row status hsession
      hrunning hmem hrow
    refine cast (congrArg _ ?_) hpart
    ext1
    · rfl
    · rfl
    · exact (rowsOf_setStatus _ _ _ _ _).symm
    · rfl
    · simp [EventDatabase.part, EventDatabase.setStatus, hid]
  | closed session details status end_time hsession hrunning hdetails hstatus hend =>
    have hpart := PartStep.closed (p := db.part env.session_id) session details status end_time
      hsession hrunning hdetails hstatus hend
    refine cast (congrArg _ ?_) hpart
    ext1
    all_goals simp [EventDatabase.part, rowsOf]

/-- Two actions with one key are one. -/
theorem eq_of_key {actions : List ActionRow} (h : (actions.map ActionRow.key).Nodup)
    {a b : ActionRow}
    (ha : a ∈ actions) (hb : b ∈ actions) (hkey : a.key = b.key) : a = b :=
  List.inj_on_of_nodup_map h ha hb hkey

/-- A transaction leaves every other session as it is. -/
theorem Writes.part_of_ne (h : Writes env db db' kind)
    (hkeys : (db.actions.map ActionRow.key).Nodup)
    (hne : id ≠ env.session_id) : db'.part id = db.part id := by
  -- every row written names the session of the envelope, so the other parts read the same rows
  have hid : (env.session_id == id) = false := beq_false_of_ne hne.symm
  cases h with
  | opened details hfree hcount hend =>
    ext1
    all_goals simp [EventDatabase.part, rowsOf, hne]
  | acted session advanced row hsession hrunning hof _ hcontinues hstatus =>
    ext1
    all_goals simp [EventDatabase.part, Database.extended, rowsOf, hof, hne, hid]
  | decided session details row hsession hrunning hdetails hof =>
    ext1
    all_goals simp [EventDatabase.part, rowsOf, hof, hne, hid]
  | approved session action row status hsession hrunning haction hof hrowof hrow =>
    ext1
    · rfl
    · rfl
    · -- an action with the key is the approved one, which is in another session
      show rowsOf (EventDatabase.setStatus _ _ _ _).toDatabase id = rowsOf db.toDatabase id
      rw [rowsOf_setStatus]
      refine (List.map_congr_left fun a ha => ?_).trans (List.map_id _)
      obtain ⟨hmem, hsame⟩ := List.mem_filter.mp ha
      refine if_neg fun hkey => hne ?_
      rw [ActionRow.hasKey, Bool.and_eq_true, beq_iff_eq, beq_iff_eq] at hkey
      obtain rfl := eq_of_key hkeys hmem haction (Prod.ext hkey.1 hkey.2)
      rw [← beq_iff_eq.mp hsame, hof]
    · rfl
    · simp [EventDatabase.part, EventDatabase.setStatus, hrowof, hid]
  | closed session details status end_time hsession hrunning hdetails hstatus hend =>
    ext1
    all_goals simp [EventDatabase.part, rowsOf, hne]

/-- No transaction uses the key of an action again. -/
theorem Writes.keys (h : Writes env db db' kind) (hkeys : (db.actions.map ActionRow.key).Nodup) :
    (db'.actions.map ActionRow.key).Nodup := by
  cases h with
  | acted session advanced row hsession hrunning hid hkey hcontinues hstatus =>
    show ((db.actions ++ [row]).map ActionRow.key).Nodup
    rw [List.map_append, List.map_singleton]
    exact List.nodup_append.mpr ⟨hkeys, List.nodup_singleton _, fun a ha b hb hab =>
      hkey (List.mem_singleton.mp hb ▸ hab ▸ ha)⟩
  | approved session action row status hsession hrunning haction hof hrowof hrow =>
    have hsame : ActionRow.key ∘ setStatusOf action.action_id action.timestamp status =
        ActionRow.key := by
      funext a
      rw [Function.comp_apply]
      unfold setStatusOf
      split <;> rfl
    show ((db.actions.map (setStatusOf action.action_id action.timestamp status)).map _).Nodup
    rwa [List.map_map, hsame]
  | _ => exact hkeys

/-- **One transaction** keeps the tables balanced. -/
theorem Balanced.writes (h : Balanced db) (hw : Writes env db db' kind) : Balanced db' := by
  refine ⟨fun id => ?_, hw.keys h.keys⟩
  by_cases hid : id = env.session_id
  · subst hid
    exact (h.parts _).step hw.part_self
  · rw [hw.part_of_ne h.keys hid]
    exact h.parts id

end

/-! ### Calls -/

/-- Tables with registered agents and nothing else. -/
def EventDatabase.empty (agents policies : Uuid → Bool) : EventDatabase where
  toDatabase := .opened (fun _ => none) policies
  agents := agents
  details := fun _ => none
  decisions := []
  approvals := []

/-- The client after some calls. -/
def ManagedState.after (rt : Runtime) (s : ManagedState) (calls : List ManagedCall) :
    ManagedState := calls.foldl (fun s c => (s.handle rt c).2) s

section

variable {rt : Runtime} {s : ManagedState} {c : ManagedCall} {calls : List ManagedCall} {id : Uuid}

/-- A call commits one transaction, or none. -/
theorem handle_writes (rt : Runtime) (s : ManagedState) (c : ManagedCall) :
    (s.handle rt c).2.db = s.db ∨ ∃ kind, Writes c.env s.db (s.handle rt c).2.db kind := by
  have hdb : (s.handle rt c).2.db = s.db ∨ (s.handle rt c).2.db =
      (transact c.io.toHandlerIO (dispatchEvent rt c.io c.env)
        { idempotency := s.idempotency, db := s.db } c.env.toIngestEnvelope).2.db := by
    unfold ManagedState.handle transact
    dsimp only
    split
    · exact Or.inl rfl
    · next response hok =>
      split
      · refine Or.inr ?_
        rw [ManagedCall.handled] at hok
        rw [hok]
        rfl
      · exact Or.inl rfl
  refine hdb.elim Or.inl fun hdb => ?_
  rw [hdb]
  rcases @transact_cases _ c.io.toHandlerIO { idempotency := s.idempotency, db := s.db }
    (dispatchEvent rt c.io c.env) c.env.toIngestEnvelope with
    ⟨hsame, -⟩ | ⟨response, db, hdispatch, -, -, hcommitted⟩
  · exact Or.inl hsame
  · rw [hcommitted]
    rcases dispatchEvent_writes hdispatch with ⟨-, -, hsame⟩ | ⟨payload, -, hwrites⟩
    · exact Or.inl hsame
    · exact Or.inr ⟨_, hwrites⟩

/-- A new accepted response is that of a transaction for the session. -/
theorem writes_of_produces {response : IngestResponse} (h : c.produces rt s = some response) :
    ∃ db' kind, Writes c.env s.db db' kind := by
  unfold ManagedCall.produces at h
  split at h
  case h_2 => cases h
  case h_1 answer hanswer =>
    split at h
    case isFalse => cases h
    case isTrue hnew =>
      rw [Bool.and_eq_true, Bool.not_eq_true'] at hnew
      have htransact : (transact c.io.toHandlerIO (dispatchEvent rt c.io c.env)
          { idempotency := s.idempotency, db := s.db } c.env.toIngestEnvelope).1 = .ok answer :=
        hanswer
      rcases @transact_cases _ c.io.toHandlerIO { idempotency := s.idempotency, db := s.db }
        (dispatchEvent rt c.io c.env) c.env.toIngestEnvelope with
        ⟨-, hcached | hrefused⟩ | ⟨response', db, hdispatch, -, hanswer', -⟩
      · exact absurd (hcached.symm.trans hnew.2) (by simp)
      · rw [htransact] at hrefused
        exact absurd (hrefused.symm.trans hnew.1) (by simp)
      · obtain rfl := Except.ok.inj (htransact.symm.trans hanswer')
        rcases dispatchEvent_writes hdispatch with ⟨-, hno, -⟩ | ⟨payload, -, hwrites⟩
        · exact absurd (hno.symm.trans hnew.1) (by simp)
        · exact ⟨db, _, hwrites⟩

/-- **One call** keeps the tables balanced. -/
theorem balanced_handle (h : Balanced s.db) : Balanced (s.handle rt c).2.db := by
  rcases handle_writes rt s c with hsame | ⟨kind, hwrites⟩
  · rwa [hsame]
  · exact h.writes hwrites

/-- **Any calls** keep the tables balanced. -/
theorem balanced_calls (h : Balanced s.db) : Balanced (s.after rt calls).db := by
  induction calls generalizing s with
  | nil => exact h
  | cons c rest ih => exact ih (balanced_handle h)

/-- Empty tables are balanced. -/
theorem balanced_empty (agents policies : Uuid → Bool) : Balanced (.empty agents policies) where
  parts _ :=
    { described := rfl
      free := fun _ => ⟨rfl, rfl, rfl⟩
      number := fun i hi => absurd hi (Nat.not_lt_zero i)
      linked := trivial
      tail := fun session hsession => absurd (show none = some session from hsession) nofun
      counted := fun details hdetails => absurd (show none = some details from hdetails) nofun
      approved := List.forall_mem_nil _
      ended := fun session _ hsession => absurd (show none = some session from hsession) nofun }
  keys := List.nodup_nil

/-- A call leaves a closed session as it is. -/
theorem part_handle (h : Balanced s.db) (hclosed : (s.db.part id).Closed) :
    (s.handle rt c).2.db.part id = s.db.part id := by
  rcases handle_writes rt s c with hsame | ⟨kind, hwrites⟩
  · rw [hsame]
  · refine hwrites.part_of_ne h.keys ?_
    rintro rfl
    exact hclosed.no_step hwrites.part_self

/-- **Any calls** leave a closed session as it is. -/
theorem part_calls (h : Balanced s.db) (hclosed : (s.db.part id).Closed) :
    (s.after rt calls).db.part id = s.db.part id := by
  induction calls generalizing s with
  | nil => rfl
  | cons c rest ih =>
    have hsame : (s.handle rt c).2.db.part id = s.db.part id := part_handle h hclosed
    exact (ih (balanced_handle h) (hsame ▸ hclosed)).trans hsame

end

/-- **The books balance.**  After any calls, with any commits that fail, every session's actions are
    numbered, linked and counted, its decisions are counted, its approvals are of its actions, and
    it has an end exactly if it is closed. -/
theorem balanced_after (rt : Runtime) (agents policies : Uuid → Bool) (calls : List ManagedCall) :
    Balanced (ManagedState.after rt ⟨[], .empty agents policies⟩ calls).db :=
  balanced_calls (balanced_empty agents policies)

/-- **Closed for good.**  Once a session is closed, all its rows stay as they are whatever is handed
    over, and no envelope for it is accepted anew. -/
theorem closed_for_good (rt : Runtime) (agents policies : Uuid → Bool)
    (before after : List ManagedCall) (id : Uuid)
    (hclosed : ((ManagedState.after rt ⟨[], .empty agents policies⟩ before).db.part id).Closed) :
    (ManagedState.after rt ⟨[], .empty agents policies⟩ (before ++ after)).db.part id =
        (ManagedState.after rt ⟨[], .empty agents policies⟩ before).db.part id ∧
      ∀ c : ManagedCall, c.env.session_id = id →
        c.produces rt (ManagedState.after rt ⟨[], .empty agents policies⟩ (before ++ after)) =
          none := by
  have hbalanced : Balanced (ManagedState.after rt ⟨[], .empty agents policies⟩ before).db :=
    balanced_calls (balanced_empty agents policies)
  have hsame : (ManagedState.after rt ⟨[], .empty agents policies⟩ (before ++ after)).db.part id =
      (ManagedState.after rt ⟨[], .empty agents policies⟩ before).db.part id := by
    rw [ManagedState.after, List.foldl_append]
    exact part_calls hbalanced hclosed
  refine ⟨hsame, fun c hc => ?_⟩
  by_contra hproduces
  obtain ⟨response, hresponse⟩ := Option.ne_none_iff_exists'.mp hproduces
  obtain ⟨db', kind, hwrites⟩ := writes_of_produces hresponse
  subst hc
  rw [← hsame] at hclosed
  exact hclosed.no_step hwrites.part_self

/-- The example session is closed. -/
def closeCall : ManagedCall :=
  { openCall true with
    env := { openEnvelope with
      event_id := exampleAgent
      payload := .ok (.sessionClose ⟨.COMPLETED, nofun⟩) } }

theorem closed_for_good_example :
    (ManagedState.after exampleRuntime ⟨[], .empty (· == exampleAgent) fun _ => false⟩
        ([openCall true, closeCall] ++ [closeCall])).db.part exampleSession =
      (ManagedState.after exampleRuntime ⟨[], .empty (· == exampleAgent) fun _ => false⟩
        [openCall true, closeCall]).db.part exampleSession :=
  (closed_for_good exampleRuntime (· == exampleAgent) (fun _ => false)
    [openCall true, closeCall] [closeCall] exampleSession
    ⟨{ status := .COMPLETED }, by rfl, nofun⟩).1

end RootSign
