import RootSign.ManagedClient
import RootSign.Sdk.HttpClient

namespace RootSign

open RootSign.Python

/-!
# What the ingest handler answers

Every dict handed to `IngestHandler.handle` should come back as a response, over a database that
raises nothing of its own.

* `IncomingEnvelope`, `IngestCall.handled` — `handle` from the parse of the envelope on;
* `SlipsThrough` — the wire schema takes the payload, and the handler builds a stricter schema of
  it that does not;
* `dispatchEvent_error` — what a handler can raise;
* `answers_envelope_iff` — after any calls, the next one is answered exactly when it is a replay, or
  its response can be cached, its payload does not slip through, and the errors that a schema finds
  can be printed.
-/

/-! ### Responses and errors -/

/-- Accepted, or rejected with a code, a message and whether to retry. -/
def IngestResponse.WellFormed (r : IngestResponse) : Prop :=
  r.status = "accepted" ∨ (r.status = "rejected" ∧ r.error_code.isSome = true ∧
    r.error_message.isSome = true ∧ r.retryable.isSome = true)

/-- An acceptance needs nothing else. -/
theorem IngestResponse.WellFormed.accepted {r : IngestResponse} (h : r.isAccepted = true) :
    r.WellFormed :=
  Or.inl (by simpa [IngestResponse.isAccepted] using h)

/-- A rejection that the handler builds has its code and its message. -/
theorem IngestResponse.WellFormed.rejected (event_id : Uuid) (error_code : ErrorCode)
    (error_message : JStr) (retryable : Bool) :
    (IngestResponse.rejected event_id error_code error_message retryable).WellFormed :=
  Or.inr ⟨rfl, rfl, rfl, rfl⟩

/-- The error comes out of the database. -/
def HandlerError.ofDatabase : HandlerError → Bool
  | .noResultFound | .databaseError => true
  | .ingest _ _ _ | .validationError | .renderingError | .python _ => false

/-- A rejection that is not retryable, or an error of the database. -/
inductive HandlerError.Expected : HandlerError → Prop where
  | ingest (code : ErrorCode) (message : JStr) : Expected (.ingest code message false)
  | databaseError : Expected .databaseError
  | noResultFound : Expected .noResultFound

/-! ### What the handlers raise -/

section

variable {rt : Runtime} {io : EventIO} {env : EventEnvelope} {db db' : EventDatabase}
  {e : HandlerError} {response : IngestResponse}

/-- A session that is missing or over is refused for good, and it is not running. -/
theorem requireRunningSession_error {tables : Database} {session_id : Uuid}
    (h : requireRunningSession tables session_id = .error e) :
    e.Expected ∧ ¬ ∃ row, tables.sessions session_id = some row ∧ row.status = .RUNNING := by
  unfold requireRunningSession at h
  split at h
  · next hnone =>
    rw [← Except.error.inj h]
    exact ⟨.ingest _ _, fun ⟨row, hrow, _⟩ => by simp [hnone] at hrow⟩
  · next session hsession =>
    split at h
    · exact absurd h (by simp)
    · next hclosed =>
      rw [← Except.error.inj h]
      refine ⟨.ingest _ _, fun ⟨row, hrow, hrunning⟩ => hclosed ?_⟩
      rw [hsession] at hrow
      rw [Option.some.inj hrow]
      exact hrunning

/-- What the insert of an action raises is expected. -/
theorem createWithHash_error {fresh : Uuid} {tables : Database} {obj_in : ActionCreate}
    (h : createWithHash rt fresh tables obj_in = .error e) : e.Expected := by
  unfold createWithHash at h
  cases hsession : tables.sessions obj_in.session_id with
  | none =>
    simp only [hsession, Except.error.injEq] at h
    exact h ▸ .noResultFound
  | some session_row =>
    simp only [hsession, extendChain_eq, Database.insertAction] at h
    split at h
    · split at h
      · exact absurd h (by simp)
      · exact Except.error.inj h ▸ .databaseError
    · exact Except.error.inj h ▸ .databaseError

/-- An action that is not found is refused for good. -/
theorem findAction_error {session_id action_id : Uuid}
    (h : findAction db session_id action_id = .error e) : e.Expected := by
  unfold findAction at h
  split at h
  · exact Except.error.inj h ▸ .ingest _ _
  · exact absurd h (by simp)
  · exact Except.error.inj h ▸ .databaseError

/-- An action that is resolved is refused for good. -/
theorem requireUnresolved_error {action : ActionRow} (h : requireUnresolved action = .error e) :
    e.Expected := by
  unfold requireUnresolved at h
  split at h
  · exact Except.error.inj h ▸ .ingest _ _
  · exact absurd h (by simp)

/-- An escalation that breaks the rules is refused for good. -/
theorem requireEscalationRules_error {obj_in : ApprovalCreate}
    (h : requireEscalationRules db obj_in = .error e) : e.Expected := by
  unfold requireEscalationRules at h
  split at h
  · exact absurd h (by simp)
  · split at h
    · exact Except.error.inj h ▸ .ingest _ _
    · unfold requireParent at h
      split at h
      · exact Except.error.inj h ▸ .ingest _ _
      · split at h
        · exact Except.error.inj h ▸ .ingest _ _
        · split at h
          · exact Except.error.inj h ▸ .ingest _ _
          · exact absurd h (by simp)

/-- What the insert of an approval raises is expected. -/
theorem insertApproval_error {action : ActionRow} {row : ApprovalRow}
    {status : AuthorizationStatus} (h : db.insertApproval action row status = .error e) :
    e.Expected := by
  unfold EventDatabase.insertApproval at h
  split at h
  · split at h
    · exact absurd h (by simp)
    · exact Except.error.inj h ▸ .databaseError
  · exact Except.error.inj h ▸ .databaseError

/-- What storing an approval raises is expected: each of its checks refuses for good. -/
theorem createWithActionStatusUpdate_error {fresh : Uuid} {obj_in : ApprovalCreate}
    (h : createWithActionStatusUpdate fresh db obj_in = .error e) : e.Expected := by
  unfold createWithActionStatusUpdate at h
  rcases bind_eq_error.mp h with h | ⟨action, -, h⟩
  · exact findAction_error h
  rcases bind_eq_error.mp h with h | ⟨_, -, h⟩
  · exact requireUnresolved_error h
  rcases bind_eq_error.mp h with h | ⟨_, -, h⟩
  · exact requireEscalationRules_error h
  · exact insertApproval_error h

/-- What the handler of a session's opening raises is expected. -/
theorem handleSessionOpen_error {payload : SessionOpenPayload}
    (h : handleSessionOpen io env payload db = .error e) : e.Expected := by
  unfold handleSessionOpen at h
  split at h
  · exact Except.error.inj h ▸ .ingest _ _
  split at h
  · exact Except.error.inj h ▸ .ingest _ _
  dsimp only at h
  split at h
  · exact absurd h (by simp)
  · exact Except.error.inj h ▸ .databaseError

/-- Behind the row of a running session a handler misses the details, or fails to commit. -/
theorem sessionDetails_error {α β : Type} {row : Except HandlerError α}
    {commits : α → SessionDetails → Prop}
    [∀ a details, Decidable (commits a details)] {answer : α → SessionDetails → β}
    (hrow : row = .error e → e.Expected) {details : Option SessionDetails}
    (h : (row >>= fun a => match details with
      | none => .error .noResultFound
      | some details =>
        if commits a details then .ok (answer a details) else .error .databaseError) = .error e) :
    e.Expected := by
  rcases bind_eq_error.mp h with h | ⟨_, -, h⟩
  · exact hrow h
  split at h
  · exact Except.error.inj h ▸ .noResultFound
  · split at h
    · exact absurd h (by simp)
    · exact Except.error.inj h ▸ .databaseError

/-- What the handler of a decision raises is expected. -/
theorem handleDecisionRecord_error {payload : DecisionRecordPayload}
    (h : handleDecisionRecord io env payload db = .error e) : e.Expected :=
  sessionDetails_error (fun hrow => (requireRunningSession_error hrow).1) h

/-- What the handler of a session's end raises is expected. -/
theorem handleSessionClose_error {payload : SessionClosePayload}
    (h : handleSessionClose io env payload db = .error e) : e.Expected :=
  sessionDetails_error (fun hrow => (requireRunningSession_error hrow).1) h

/-- The session of the envelope is running. -/
def Running (db : EventDatabase) (session_id : Uuid) : Prop :=
  ∃ row, db.sessions session_id = some row ∧ row.status = .RUNNING

/-- A running session passes. -/
theorem requireRunningSession_of_running {session_id : Uuid} (h : Running db session_id) :
    ∃ row, requireRunningSession db.toDatabase session_id = .ok row := by
  obtain ⟨row, hrow, hrunning⟩ := h
  refine ⟨row, ?_⟩
  unfold requireRunningSession
  simp only [hrow, hrunning, if_true]

/-- A payload the wire schema takes reaches a create schema that does not take it: a text where
    `ActionCreate` or `ApprovalCreate` has an enum. -/
def SlipsThrough (db : EventDatabase) (env : EventEnvelope) : Prop :=
  Running db env.session_id ∧
    match env.payload with
    | .ok (.actionRecord payload) => payload.self_hash = none ∧ payload.action_id = none ∧
        AuthorizationStatus.ofText payload.authorization_status = none
    | .ok (.approvalRecord payload) => ApproverType.ofText payload.approver_type = none ∨
        ApprovalDecision.ofText payload.decision = none
    | _ => False

/-- The stricter schema of an action raises for a status that is no member of the enum. -/
theorem actionCreate_error {payload : ActionRecordPayload} {session_id : Uuid} :
    payload.actionCreate session_id = .error e ↔
      e = .validationError ∧ AuthorizationStatus.ofText payload.authorization_status = none := by
  unfold ActionRecordPayload.actionCreate
  split
  · next hnone => simp [hnone, eq_comm]
  · next hsome => simp [hsome]

/-- The stricter schema of an approval raises for a text that is no member of its enum. -/
theorem approvalCreate_error {payload : ApprovalRecordPayload} {session_id : Uuid} :
    payload.approvalCreate session_id = .error e ↔
      e = .validationError ∧ (ApproverType.ofText payload.approver_type = none ∨
        ApprovalDecision.ofText payload.decision = none) := by
  unfold ApprovalRecordPayload.approvalCreate
  cases htype : ApproverType.ofText payload.approver_type with
  | none => simp [eq_comm]
  | some approver_type =>
    cases hdecision : ApprovalDecision.ofText payload.decision with
    | none => simp [eq_comm]
    | some decision => simp

/-- **What the handler of an action raises**: an error that becomes a code, or the validation
    error of the stricter schema. -/
theorem handleActionRecord_error {hio : HandlerIO} {base : IngestEnvelope}
    {payload : ActionRecordPayload} {tables : Database}
    (h : handleActionRecord rt hio base payload tables = .error e) :
    e.Expected ∨ e = .validationError ∧ payload.self_hash = none ∧ payload.action_id = none ∧
      AuthorizationStatus.ofText payload.authorization_status = none ∧
      ∃ row, tables.sessions base.session_id = some row ∧ row.status = .RUNNING := by
  unfold handleActionRecord at h
  by_cases hsealed : (payload.self_hash.isSome || payload.action_id.isSome) = true
  · rw [if_pos hsealed] at h
    exact Or.inl (Except.error.inj h ▸ .ingest _ _)
  rw [if_neg hsealed] at h
  rcases bind_eq_error.mp h with h | ⟨row, hrunning, h⟩
  · exact Or.inl (requireRunningSession_error h).1
  rcases bind_eq_error.mp h with h | ⟨obj_in, -, h⟩
  · obtain ⟨rfl, hstatus⟩ := actionCreate_error.mp h
    rw [Bool.or_eq_true, not_or, Option.not_isSome_iff_eq_none, Option.not_isSome_iff_eq_none]
      at hsealed
    exact Or.inr ⟨rfl, hsealed.1, hsealed.2, hstatus, row, requireRunningSession_ok hrunning⟩
  rcases bind_eq_error.mp h with h | ⟨_, -, h⟩
  · exact Or.inl (createWithHash_error h)
  · exact absurd h (by simp [pure, Except.pure])

/-- **What the handler of an approval raises**: an error that becomes a code, or the validation
    error of the stricter schema. -/
theorem handleApprovalRecord_error {payload : ApprovalRecordPayload}
    (h : handleApprovalRecord io env payload db = .error e) :
    e.Expected ∨ e = .validationError ∧ Running db env.session_id ∧
      (ApproverType.ofText payload.approver_type = none ∨
        ApprovalDecision.ofText payload.decision = none) := by
  unfold handleApprovalRecord at h
  rcases bind_eq_error.mp h with h | ⟨row, hrunning, h⟩
  · exact Or.inl (requireRunningSession_error h).1
  rcases bind_eq_error.mp h with h | ⟨obj_in, -, h⟩
  · obtain ⟨rfl, htexts⟩ := approvalCreate_error.mp h
    exact Or.inr ⟨rfl, ⟨row, requireRunningSession_ok hrunning⟩, htexts⟩
  rcases bind_eq_error.mp h with h | ⟨_, -, h⟩
  · exact Or.inl (createWithActionStatusUpdate_error h)
  · exact absurd h (by simp [pure, Except.pure])

/-- The payload has no errors, or their text can be built. -/
def EventEnvelope.ErrorsShown (env : EventEnvelope) : Prop :=
  ∀ invalid, env.payload = .error invalid → invalid.errors.isSome = true

/-- **What a handler raises**: what the `except` clause answers, what the database raises, the
    `ValidationError` of a payload that slips through, or what building a message raises. -/
theorem dispatchEvent_error (h : dispatchEvent rt io env db = .error e) :
    e.Expected ∨ (e = .validationError ∧ SlipsThrough db env) ∨
      (e = .renderingError ∧ ¬ env.ErrorsShown) := by
  -- by the event: a payload that does not validate, or one of the five handlers
  unfold dispatchEvent at h
  split at h
  · next invalid hinvalid =>
    unfold InvalidValue.answer at h
    split at h
    · exact absurd h (by simp [Except.map])
    · next hnone =>
      refine Or.inr (Or.inr ⟨(Except.error.inj h).symm, fun hshown => ?_⟩)
      have hsome := hshown invalid hinvalid
      rw [hnone] at hsome
      exact absurd hsome (by simp)
  · exact Or.inl (handleSessionOpen_error h)
  · next payload hpayload =>
    unfold handleActionEvent at h
    rcases bind_eq_error.mp h with h | ⟨_, -, h⟩
    -- past the checks only the stricter schema is left to raise
    · rcases handleActionRecord_error h with h | ⟨rfl, hself, haction, hstatus, hrunning⟩
      · exact Or.inl h
      · refine Or.inr (Or.inl ⟨rfl, hrunning, ?_⟩)
        rw [hpayload]
        exact ⟨hself, haction, hstatus⟩
    · exact absurd h (by simp [pure, Except.pure])
  · exact Or.inl (handleDecisionRecord_error h)
  -- an approval reaches its stricter schema for a running session only
  · next payload hpayload =>
    rcases handleApprovalRecord_error h with h | ⟨rfl, hrunning, htexts⟩
    · exact Or.inl h
    · refine Or.inr (Or.inl ⟨rfl, hrunning, ?_⟩)
      rw [hpayload]
      exact htexts
  · exact Or.inl (handleSessionClose_error h)

/-- A payload that slips through makes its handler raise. -/
theorem dispatchEvent_of_slipsThrough (h : SlipsThrough db env) :
    dispatchEvent rt io env db = .error .validationError := by
  obtain ⟨hrunning, hpayload⟩ := h
  obtain ⟨row, hrow⟩ := requireRunningSession_of_running hrunning
  unfold dispatchEvent
  split at hpayload
  · next payload heq =>
    obtain ⟨hself, haction, hstatus⟩ := hpayload
    simp only [heq]
    unfold handleActionEvent
    refine bind_eq_error.mpr (Or.inl ?_)
    unfold handleActionRecord
    rw [if_neg (by simp [hself, haction])]
    refine bind_eq_error.mpr (Or.inr ⟨row, hrow, ?_⟩)
    exact bind_eq_error.mpr (Or.inl (actionCreate_error.mpr ⟨rfl, hstatus⟩))
  · next payload heq =>
    simp only [heq]
    unfold handleApprovalRecord
    refine bind_eq_error.mpr (Or.inr ⟨row, hrow, ?_⟩)
    exact bind_eq_error.mpr (Or.inl (approvalCreate_error.mpr ⟨rfl, hpayload⟩))
  · exact absurd hpayload not_false

/-- Errors whose text cannot be built make the dispatch raise. -/
theorem dispatchEvent_of_not_shown (h : ¬ env.ErrorsShown) :
    dispatchEvent rt io env db = .error .renderingError := by
  unfold EventEnvelope.ErrorsShown at h
  push Not at h
  obtain ⟨invalid, hinvalid, hnone⟩ := h
  have herrors : invalid.errors = none := Option.not_isSome_iff_eq_none.mp hnone
  unfold dispatchEvent
  simp only [hinvalid, InvalidValue.answer, herrors, Except.map]

/-- What a handler returns can be cached. -/
theorem dispatchEvent_cacheable (h : dispatchEvent rt io env db = .ok (response, db')) :
    response.WellFormed ∧ (response.isAccepted || response.retryable == some false) = true := by
  have haccepted : response.isAccepted = true → response.WellFormed ∧
      (response.isAccepted || response.retryable == some false) = true :=
    fun h => ⟨.accepted h, by rw [h, Bool.true_or]⟩
  unfold dispatchEvent at h
  split at h
  · obtain ⟨⟨errors, -, rfl⟩, -⟩ := InvalidValue.answer_ok h
    exact ⟨.rejected _ _ _ _, by simp [IngestResponse.rejected]⟩
  · exact haccepted (handleSessionOpen_ok h).1
  · exact haccepted (handleActionEvent_ok h).1
  · exact haccepted (handleDecisionRecord_ok h).1
  · exact haccepted (handleApprovalRecord_ok h).1
  · exact haccepted (handleSessionClose_ok h).1

end

/-! ### One call -/

/-- `envelope.get("event_id")`. -/
inductive RawEventId where
  | text (s : JStr)
  | uuid (u : Uuid)
  | other

/-- What `handle` reads of the dict it is given: the event id as it stands there, and what
    `IngestEnvelope.model_validate` makes of the dict, or the errors it finds. -/
structure IncomingEnvelope where
  raw_event_id : RawEventId
  parsed : Except InvalidValue EventEnvelope

/-- `_safe_event_id`. -/
def safeEventId (rt : Runtime) : RawEventId → Uuid
  | .text s => (rt.parseUuid s).getD nilUuid
  | .uuid u => u
  | .other => nilUuid

/-- A call of `IngestHandler.handle`. -/
structure IngestCall where
  io : EventIO
  envelope : IncomingEnvelope

namespace IngestCall

variable {rt : Runtime} {s : StoreState EventDatabase} {c : IngestCall}

/-- `IngestHandler.handle`, in its caller's transaction. -/
def handled (rt : Runtime) (s : StoreState EventDatabase) (c : IngestCall) :
    Except HandlerError IngestResponse × StoreState EventDatabase :=
  match c.envelope.parsed with
  | .error e =>
    (e.answer (safeEventId rt c.envelope.raw_event_id) "envelope validation failed: ", s)
  | .ok env => transact c.io.toHandlerIO (dispatchEvent rt c.io env) s env.toIngestEnvelope

/-- The state after some calls. -/
def after (rt : Runtime) (s : StoreState EventDatabase) (calls : List IngestCall) :
    StoreState EventDatabase :=
  calls.foldl (fun s c => (c.handled rt s).2) s

/-- The call comes back with a response that is well formed. -/
def Answers (rt : Runtime) (s : StoreState EventDatabase) (c : IngestCall) : Prop :=
  ∃ response : IngestResponse, (c.handled rt s).1 = .ok response ∧ response.WellFormed

/-- The database raises nothing of its own during the call. -/
def Quiet (rt : Runtime) (s : StoreState EventDatabase) (c : IngestCall) : Prop :=
  ∀ env, c.envelope.parsed = .ok env → ∀ e, dispatchEvent rt c.io env s.db = .error e →
    e.ofDatabase = false

/-- The condition on the dict and on the state before the call: if the dict is no envelope, the text
    of its errors can be built; else the call is a replay, or `emitted_at` has an offset and a day
    after it is representable, and the payload of a supported envelope does not slip through, nor
    has it errors whose text cannot be built. -/
def Answerable (s : StoreState EventDatabase) (c : IngestCall) : Prop :=
  match c.envelope.parsed with
  | .error invalid => invalid.errors.isSome = true
  | .ok env =>
    (majorOf env.schema_version = supportedSchemaMajor ∧
      replayed c.io.toHandlerIO s env.toIngestEnvelope = true) ∨
    ((env.emitted_at.aware = true ∧ env.emitted_at.canAdd ttl = true) ∧
      (majorOf env.schema_version = supportedSchemaMajor →
        ¬ SlipsThrough s.db env ∧ env.ErrorsShown))

/-- Every cached entry expires at an offset-aware time and holds a well-formed response. -/
structure CacheInv (store : IdempotencyStore) : Prop where
  aware : store.Aware
  wellFormed : ∀ e ∈ store, e.response.WellFormed

/-- A response is cached when its date allows it; otherwise the call raises. -/
theorem maybeCache_ok_iff (io : HandlerIO) (env : IngestEnvelope) {response : IngestResponse}
    (haware : s.idempotency.Aware)
    (hcacheable : (response.isAccepted || response.retryable == some false) = true) :
    (∃ r, (maybeCache io s env response).1 = .ok r) ↔
      env.emitted_at.aware = true ∧ env.emitted_at.canAdd ttl = true := by
  have hput : (∃ r, (maybeCache io s env response).1 = .ok r) ↔
      (s.idempotency.put io.now_evict io.now_set env.event_id response env.emitted_at).1 =
        .ok () := by
    rw [maybeCache, if_pos hcacheable]
    split
    · next hraises => simp [hraises]
    · next hreturns => simp [hreturns]
  rw [hput]
  constructor
  · intro hok
    by_contra hgood
    have hbad : env.emitted_at.aware = false ∨ env.emitted_at.canAdd ttl = false := by
      simpa only [not_and_or, Bool.not_eq_true] using hgood
    obtain ⟨⟨error, herror⟩, -⟩ := IdempotencyStore.put_raises io.now_evict io.now_set env.event_id
      response haware hbad
    rw [hok] at herror
    exact absurd herror (by simp)
  · rintro ⟨hoffset, hrange⟩
    obtain ⟨_, -, -, hok, -⟩ := IdempotencyStore.put_inserts io.now_evict io.now_set env.event_id
      response haware hoffset hrange
    exact hok

/-- What comes back after caching is the response itself. -/
theorem maybeCache_answers (io : HandlerIO) (env : IngestEnvelope) {response : IngestResponse}
    (haware : s.idempotency.Aware) (hwell : response.WellFormed)
    (hcacheable : (response.isAccepted || response.retryable == some false) = true) :
    (∃ r, (maybeCache io s env response).1 = .ok r ∧ r.WellFormed) ↔
      env.emitted_at.aware = true ∧ env.emitted_at.canAdd ttl = true := by
  rw [← maybeCache_ok_iff io env haware hcacheable]
  refine ⟨fun ⟨r, hr, _⟩ => ⟨r, hr⟩, fun ⟨r, hr⟩ => ?_⟩
  rcases maybeCache_answer io s env response with hok | ⟨e, herror⟩
  · exact ⟨response, hok, hwell⟩
  · rw [hr] at herror
    exact absurd herror (by simp)

/-- Caching a well-formed response keeps the cache well formed. -/
theorem CacheInv.maybeCache (h : CacheInv s.idempotency) (io : HandlerIO) (env : IngestEnvelope)
    {response : IngestResponse} (hwell : response.WellFormed) :
    CacheInv (RootSign.maybeCache io s env response).2.idempotency := by
  unfold RootSign.maybeCache
  split
  · -- the store after `put`, whether it raised or not
    have hput : CacheInv (s.idempotency.access
        (.put io.now_evict io.now_set env.event_id response env.emitted_at)) := by
      refine ⟨h.aware.access _, fun x hx => ?_⟩
      rcases IdempotencyStore.mem_put io.now_evict io.now_set env.event_id response env.emitted_at
        h.aware with ⟨-, hleft⟩ | ⟨-, hleft⟩
      · rcases hleft x hx with ⟨hold, -⟩ | ⟨-, hresponse⟩
        · exact h.wellFormed x hold
        · rw [hresponse]
          exact hwell
      · exact h.wellFormed x (hleft x hx)
    have heq : s.idempotency.access
        (.put io.now_evict io.now_set env.event_id response env.emitted_at) =
          (s.idempotency.put io.now_evict io.now_set env.event_id response env.emitted_at).2 := rfl
    rw [heq] at hput
    split
    · next hraises =>
      rw [hraises] at hput
      exact hput
    · next hreturns =>
      rw [hreturns] at hput
      exact hput
  · exact h

/-- Dropping expired entries keeps the cache well formed. -/
theorem CacheInv.evict {store : IdempotencyStore} (h : CacheInv store) (now : UtcNow) :
    CacheInv (store.access (.get now)) := by
  refine ⟨h.aware.evict now, fun x hx => h.wellFormed x ?_⟩
  rw [IdempotencyStore.access_get now h.aware] at hx
  exact List.mem_of_mem_filter hx

/-- A call that finds a live entry returns it. -/
theorem handle_replayed {io : EventIO} {env : EventEnvelope} (h : CacheInv s.idempotency)
    (hversion : majorOf env.schema_version = supportedSchemaMajor)
    (hreplayed : replayed io.toHandlerIO s env.toIngestEnvelope = true) :
    ∃ e ∈ s.idempotency,
      handle io.toHandlerIO (dispatchEvent rt io env) s env.toIngestEnvelope =
        (.ok e.response, { s with idempotency := s.idempotency.access (.get io.now_get) }) := by
  have hget := IdempotencyStore.get_of_aware io.now_get env.event_id h.aware
  cases hfound : (s.idempotency.access (.get io.now_get)).find?
      fun e => e.key == env.event_id.text with
  | none =>
    rw [hfound, Option.map_none] at hget
    rw [replayed, hget] at hreplayed
    exact absurd hreplayed (by simp)
  | some e =>
    rw [hfound, Option.map_some] at hget
    refine ⟨e, ?_, by rw [handle, if_neg (not_not.mpr hversion), hget]⟩
    have hmem := List.mem_of_find?_eq_some hfound
    rw [IdempotencyStore.access_get io.now_get h.aware] at hmem
    exact List.mem_of_mem_filter hmem

/-- A call that finds none runs its handler. -/
theorem handle_fresh {io : EventIO} {env : EventEnvelope} (h : CacheInv s.idempotency)
    (hversion : majorOf env.schema_version = supportedSchemaMajor)
    (hfresh : replayed io.toHandlerIO s env.toIngestEnvelope = false) :
    handle io.toHandlerIO (dispatchEvent rt io env) s env.toIngestEnvelope =
      match dispatchEvent rt io env s.db with
      | .ok (response, db) => RootSign.maybeCache io.toHandlerIO
          { idempotency := s.idempotency.access (.get io.now_get), db := db }
          env.toIngestEnvelope response
      | .error e => answerError io.toHandlerIO
          { s with idempotency := s.idempotency.access (.get io.now_get) }
          env.toIngestEnvelope e := by
  have hget := IdempotencyStore.get_of_aware io.now_get env.event_id h.aware
  cases hfound : (s.idempotency.access (.get io.now_get)).find?
      fun e => e.key == env.event_id.text with
  | some e =>
    rw [hfound, Option.map_some] at hget
    rw [replayed, hget] at hfresh
    exact absurd hfresh (by simp)
  | none =>
    rw [hfound, Option.map_none] at hget
    rw [handle, if_neg (not_not.mpr hversion), hget]
    dsimp only
    cases dispatchEvent rt io env s.db with
    | error e => rfl
    | ok result => rfl

/-- **No call** puts a malformed response or a naive expiry into the cache. -/
theorem CacheInv.handled (h : CacheInv s.idempotency) (rt : Runtime) (c : IngestCall) :
    CacheInv (c.handled rt s).2.idempotency := by
  unfold IngestCall.handled
  split
  · exact h
  next env hparsed =>
  show CacheInv (handle _ _ s env.toIngestEnvelope).2.idempotency
  by_cases hversion : majorOf env.schema_version = supportedSchemaMajor
  · cases hreplayed : replayed c.io.toHandlerIO s env.toIngestEnvelope with
    | true =>
      obtain ⟨e, -, heq⟩ := handle_replayed h hversion hreplayed
      rw [heq]
      exact h.evict c.io.now_get
    | false =>
      rw [handle_fresh h hversion hreplayed]
      have hevicted := h.evict c.io.now_get
      split
      · next response db hdispatch =>
        exact CacheInv.maybeCache (s := ⟨_, db⟩) hevicted c.io.toHandlerIO _
          (dispatchEvent_cacheable hdispatch).1
      · next e hdispatch =>
        cases e with
        | ingest code message retryable =>
          exact CacheInv.maybeCache (s := ⟨_, s.db⟩) hevicted c.io.toHandlerIO _
            (.rejected _ _ _ _)
        | _ => exact hevicted
  · rw [handle, if_pos hversion]
    exact h.maybeCache c.io.toHandlerIO _ (.rejected _ _ _ _)

/-- The cache keeps its invariant over any calls. -/
theorem cacheInv_after (rt : Runtime) (db : EventDatabase) (calls : List IngestCall) :
    CacheInv (after rt { idempotency := [], db := db } calls).idempotency := by
  have hstart : CacheInv ({ idempotency := [], db := db } : StoreState EventDatabase).idempotency :=
    ⟨fun e he => absurd he List.not_mem_nil, fun e he => absurd he List.not_mem_nil⟩
  unfold after
  generalize ({ idempotency := [], db := db } : StoreState EventDatabase) = s at hstart
  induction calls generalizing s with
  | nil => exact hstart
  | cons c rest ih => exact ih _ (hstart.handled rt c)

/-- A fresh call of a supported envelope. -/
theorem answers_fresh_iff (h : CacheInv s.idempotency) (hquiet : Quiet rt s c)
    {env : EventEnvelope} (hparsed : c.envelope.parsed = .ok env)
    (hversion : majorOf env.schema_version = supportedSchemaMajor)
    (hfresh : replayed c.io.toHandlerIO s env.toIngestEnvelope = false) :
    (∃ response, (handle c.io.toHandlerIO (dispatchEvent rt c.io env) s
        env.toIngestEnvelope).1 = .ok response ∧ response.WellFormed) ↔
      (env.emitted_at.aware = true ∧ env.emitted_at.canAdd ttl = true) ∧
        ¬ SlipsThrough s.db env ∧ env.ErrorsShown := by
  have hquiet := hquiet env hparsed
  rw [handle_fresh h hversion hfresh]
  have hevicted := (h.evict c.io.now_get).aware
  -- A result shows that neither exception was on the way; an expected error does so too.
  cases hdispatch : dispatchEvent rt c.io env s.db with
  | ok result =>
    obtain ⟨response, db⟩ := result
    obtain ⟨hwell, hcacheable⟩ := dispatchEvent_cacheable hdispatch
    have hstrict : ¬ SlipsThrough s.db env ∧ env.ErrorsShown := by
      refine ⟨fun hslips => ?_, by_contra fun hhidden => ?_⟩
      · exact absurd (hdispatch.symm.trans (dispatchEvent_of_slipsThrough hslips)) (by simp)
      · exact absurd (hdispatch.symm.trans (dispatchEvent_of_not_shown hhidden)) (by simp)
    rw [and_iff_left hstrict]
    exact maybeCache_answers (s := ⟨_, db⟩) c.io.toHandlerIO _ hevicted hwell hcacheable
  | error e =>
    rcases dispatchEvent_error hdispatch with hexpected | ⟨rfl, hslips⟩ | ⟨rfl, hhidden⟩
    · have hstrict : ¬ SlipsThrough s.db env ∧ env.ErrorsShown := by
        refine ⟨fun hslips => ?_, by_contra fun hhidden => ?_⟩
        · rw [dispatchEvent_of_slipsThrough hslips, Except.error.injEq] at hdispatch
          rw [← hdispatch] at hexpected
          cases hexpected
        · rw [dispatchEvent_of_not_shown hhidden, Except.error.injEq] at hdispatch
          rw [← hdispatch] at hexpected
          cases hexpected
      rw [and_iff_left hstrict]
      cases hexpected with
      | ingest code message =>
        exact maybeCache_answers (s := ⟨_, s.db⟩) c.io.toHandlerIO _ hevicted
          (.rejected _ _ _ _) (by simp [IngestResponse.rejected])
      | databaseError => exact absurd (hquiet _ hdispatch) (by simp [HandlerError.ofDatabase])
      | noResultFound => exact absurd (hquiet _ hdispatch) (by simp [HandlerError.ofDatabase])
    · -- the `ValidationError` leaves `handle`
      refine iff_of_false ?_ fun h => h.2.1 hslips
      rintro ⟨response, hanswer, -⟩
      exact absurd hanswer (by simp [answerError])
    · -- so does what the `repr` of a value raises
      refine iff_of_false ?_ fun h => hhidden h.2.2
      rintro ⟨response, hanswer, -⟩
      exact absurd hanswer (by simp [answerError])

/-- One call over any well-formed cache. -/
theorem answers_iff (h : CacheInv s.idempotency) (hquiet : Quiet rt s c) :
    Answers rt s c ↔ Answerable s c := by
  unfold Answers Answerable IngestCall.handled
  cases hparsed : c.envelope.parsed with
  | error invalid =>
    -- the dict is no envelope: the answer quotes the errors, if they can be printed
    dsimp only
    unfold InvalidValue.answer
    cases invalid.errors with
    | none => exact iff_of_false (by simp) (by simp)
    | some errors => exact ⟨fun _ => rfl, fun _ => ⟨_, rfl, .rejected _ _ _ _⟩⟩
  | ok env =>
    show (∃ response, (handle c.io.toHandlerIO (dispatchEvent rt c.io env) s
      env.toIngestEnvelope).1 = .ok response ∧ response.WellFormed) ↔ _
    dsimp only
    -- the supported MAJOR is dispatched unless the answer is cached; any other is refused
    by_cases hversion : majorOf env.schema_version = supportedSchemaMajor
    · simp only [hversion, true_and, forall_const]
      cases hreplayed : replayed c.io.toHandlerIO s env.toIngestEnvelope with
      | true =>
        obtain ⟨e, he, heq⟩ := handle_replayed h hversion hreplayed
        rw [heq]
        exact ⟨fun _ => Or.inl rfl, fun _ => ⟨e.response, rfl, h.wellFormed e he⟩⟩
      | false =>
        rw [answers_fresh_iff h hquiet hparsed hversion hreplayed]
        simp only [Bool.false_eq_true, false_or]
    · rw [handle, if_pos hversion]
      simp only [hversion, false_and, false_or, false_imp_iff, and_true]
      exact maybeCache_answers c.io.toHandlerIO _ h.aware (.rejected _ _ _ _)
        (by simp [IngestResponse.rejected])

/-- **The handler and the envelopes it is given.**  After any calls, over any tables, and with a
    database that raises nothing of its own, the next call comes back with a response exactly when
    the dict is no envelope and its errors can be printed, the call is a replay, or its date can be
    cached and its payload neither slips through nor has errors that cannot be printed. -/
theorem answers_envelope_iff (rt : Runtime) (db : EventDatabase) (calls : List IngestCall)
    (c : IngestCall) (hquiet : Quiet rt (after rt { idempotency := [], db := db } calls) c) :
    Answers rt (after rt { idempotency := [], db := db } calls) c ↔
      Answerable (after rt { idempotency := [], db := db } calls) c :=
  answers_iff (cacheInv_after rt db calls) hquiet

/-! ### A date without an offset, and a decision that is no member of the enum -/

/-- `2026-05-01T12:00:00`, without an offset. -/
def naiveNoon : PyDateTime where
  ticks := mayNoon.time.ticks
  offset := none
  ticks_lt := mayNoon.time.ticks_lt
  offset_lt := fun _ h => absurd h (by simp)

/-- Tables with one registered agent and its running session. -/
def runningTables : EventDatabase where
  toDatabase := .opened onlyExampleSession fun _ => false
  agents := fun agent => agent == exampleAgent
  details := fun _ => none
  decisions := []
  approvals := []

/-- An approval as the wire schema takes it, with any texts for type and decision. -/
def wireApproval (approver_type decision : JStr) : ApprovalRecordPayload where
  action_id := exampleRecord
  approver_id := "alice"
  approver_type := approver_type
  context_presented := Dict.ofFields []
  decision := decision
  decision_reason := none
  timestamp := mayNoon.time
  response_latency_ms := none
  parent_approval_id := none

/-- A call at noon that hands over an approval. -/
def approvalCall (emitted_at : PyDateTime) (decision : JStr) : IngestCall where
  io := { fresh := exampleRecord, now_get := mayNoon, now_evict := mayNoon, now_set := mayNoon,
          now := mayNoon }
  envelope :=
    { raw_event_id := .text exampleEvent.text
      parsed := .ok
        { schema_version := "1.1"
          event_id := exampleEvent
          emitted_at := emitted_at
          session_id := exampleSession
          agent_id := exampleAgent
          payload := .ok (.approvalRecord (wireApproval "human" decision)) } }

/-- An approval of an unknown action is answered with a rejection. -/
theorem answers_envelope_approved :
    Quiet exampleRuntime (after exampleRuntime { idempotency := [], db := runningTables } [])
        (approvalCall mayNoon.time "approved") ∧
      Answers exampleRuntime (after exampleRuntime { idempotency := [], db := runningTables } [])
        (approvalCall mayNoon.time "approved") := by
  have hquiet : Quiet exampleRuntime
      (after exampleRuntime { idempotency := [], db := runningTables } [])
      (approvalCall mayNoon.time "approved") := by
    intro env henv e he
    obtain rfl := Except.ok.inj henv
    obtain rfl := Except.error.inj he
    rfl
  refine ⟨hquiet, (answers_envelope_iff _ _ _ _ hquiet).mpr (Or.inr ⟨⟨rfl, ?_⟩, ?_⟩)⟩
  · show PyDateTime.canAdd mayNoon.time ttl = true
    rw [PyDateTime.canAdd]
    decide
  · rintro -
    refine ⟨fun hslips => absurd hslips.2 (by decide), fun invalid hinvalid => ?_⟩
    exact absurd hinvalid (by simp)

/-- A dict that is no envelope, with a value in it whose `repr` raises. -/
def unprintableCall : IngestCall where
  io := { fresh := exampleRecord, now_get := mayNoon, now_evict := mayNoon, now_set := mayNoon,
          now := mayNoon }
  envelope := { raw_event_id := .other, parsed := .error ⟨none⟩ }

/-- A naive `emitted_at` raises `TypeError`; a decision outside the enum raises
    `ValidationError`; and where the errors of a dict cannot be printed, that raises. -/
theorem not_answers_envelope :
    ((approvalCall naiveNoon "approved").handled exampleRuntime
        { idempotency := [], db := runningTables }).1 = .error (.python .typeError) ∧
      ((approvalCall mayNoon.time "maybe").handled exampleRuntime
        { idempotency := [], db := runningTables }).1 = .error .validationError ∧
      (unprintableCall.handled exampleRuntime
        { idempotency := [], db := runningTables }).1 = .error .renderingError := by
  refine ⟨?_, ?_, ?_⟩
  · rfl
  · rfl
  · rfl

end IngestCall

end RootSign
