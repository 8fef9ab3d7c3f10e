import RootSign.Crud.Action
import RootSign.Ingest.Idempotency
import RootSign.Python.Sha256

namespace RootSign

open RootSign.Python

/-!
# The ingest handler (`rootsign/ingest/handler.py`)

`handle` on an envelope that has been parsed: version, idempotency, the handler of the event
type, and the cache.  An `IngestError` becomes a rejection; any other exception escapes, and
whoever owns the transaction rolls it back.

* `handle` — the steps every event type shares, over the event's own `dispatch`;
* `handleActionRecord` — `_handle_action_record`;
* `handleActionRecord_ok` — what an accepted action has done to the tables;
* `transact_cases` — a handled envelope either leaves the tables alone or records an action.
-/

/-! ### Envelopes -/

/-- The envelope fields every event type shares. -/
structure IngestEnvelope where
  schema_version : JStr
  event_id : Uuid
  emitted_at : PyDateTime
  session_id : Uuid

/-- `ActionRecordPayload`, with what the schema promises of its fields. -/
structure ActionRecordPayload where
  tool_name : JStr
  input_hash : JStr
  output_hash : Option JStr
  input_redacted : Option Dict
  output_redacted : Option Dict
  timestamp : PyDateTime
  duration_ms : Option ℕ
  decision_id : Option Uuid
  policy_id : Option Uuid
  authorization_status : JStr
  action_id : Option Uuid
  sequence_number : Option ℤ
  prev_action_hash : Option JStr
  self_hash : Option JStr
  tool_name_length : 1 ≤ (JStr.codePointsOf tool_name.units).length ∧
    (JStr.codePointsOf tool_name.units).length ≤ 200
  input_hash_hex : isHex64 input_hash = true
  output_hash_hex : ∀ h ∈ output_hash, isHex64 h = true
  sequence_number_ge : ∀ n ∈ sequence_number, 1 ≤ n
  prev_action_hash_hex : ∀ h ∈ prev_action_hash, isHex64 h = true
  self_hash_hex : ∀ h ∈ self_hash, isHex64 h = true

/-- The example session is running, and there is no other. -/
def onlyExampleSession (session : Uuid) : Option SessionStatus :=
  if session = exampleSession then some .RUNNING else none

/-- An action without redacted payloads. -/
def examplePayload (timestamp : PyDateTime) : ActionRecordPayload where
  tool_name := "send_email"
  input_hash := "e3b0c44298fc1c149afbf4c8996fb92427ae41e4649b934ca495991b7852b855"
  output_hash := none
  input_redacted := none
  output_redacted := none
  timestamp := timestamp
  duration_ms := none
  decision_id := none
  policy_id := none
  authorization_status := "auto_authorized"
  action_id := none
  sequence_number := none
  prev_action_hash := none
  self_hash := none
  tool_name_length := by decide
  input_hash_hex := by decide
  output_hash_hex := fun _ h => absurd h (by simp)
  sequence_number_ge := fun _ h => absurd h (by simp)
  prev_action_hash_hex := fun _ h => absurd h (by simp)
  self_hash_hex := fun _ h => absurd h (by simp)

/-- What is raised of a value that a schema does not take: the text of `e.errors()`, or nothing
    where building it raises.  The text quotes the value, so that an integer of too many digits, a
    value nested too deep or a `__repr__` of its own raises there. -/
structure InvalidValue where
  errors : Option JStr

/-- The answer to such a value: a rejection, unless its message cannot be built. -/
def InvalidValue.answer (e : InvalidValue) (event_id : Uuid) (introduction : JStr) :
    Except HandlerError IngestResponse :=
  match e.errors with
  | some errors => .ok (.rejected event_id .VALIDATION_ERROR (introduction ++ errors) false)
  | none => .error .renderingError

/-- An answer to it is a rejection, and no row is touched. -/
theorem InvalidValue.answer_ok {e : InvalidValue} {event_id : Uuid} {introduction : JStr}
    {Tables : Type} {db db' : Tables} {response : IngestResponse}
    (h : (e.answer event_id introduction).map (fun response => (response, db)) =
      .ok (response, db')) :
    (∃ errors, e.errors = some errors ∧
      response = .rejected event_id .VALIDATION_ERROR (introduction ++ errors) false) ∧
      db' = db := by
  unfold InvalidValue.answer at h
  split at h
  · next errors herrors =>
    obtain ⟨rfl, rfl⟩ := Prod.mk.inj (Except.ok.inj h)
    exact ⟨⟨errors, herrors, rfl⟩, rfl⟩
  · exact absurd h (by simp [Except.map])

/-- An `ACTION_RECORD` envelope: the payload as the schema reads it, or the errors it finds. -/
structure ActionEnvelope extends IngestEnvelope where
  payload : Except InvalidValue ActionRecordPayload

/-! ### The shared steps -/

/-- What the interpreter supplies to one call. -/
structure HandlerIO where
  fresh : Uuid
  now_get : UtcNow
  now_evict : UtcNow
  now_set : UtcNow

/-- The cache of the process, and the tables as the call's transaction sees them. -/
structure StoreState (Tables : Type) where
  idempotency : IdempotencyStore
  db : Tables

/-- `schema_version.split(".", 1)[0]`. -/
def majorOf (schema_version : JStr) : JStr :=
  ⟨schema_version.units.takeWhile fun u => u.val != 0x2E⟩

/-- The one major version the store supports. -/
def supportedSchemaMajor : JStr := "1"

section

variable {Tables : Type}

/-- `_maybe_cache`, and the response it leaves to return: retryable rejections are not cached. -/
def maybeCache (io : HandlerIO) (s : StoreState Tables) (env : IngestEnvelope)
    (response : IngestResponse) : Except HandlerError IngestResponse × StoreState Tables :=
  if response.isAccepted || response.retryable == some false then
    match s.idempotency.put io.now_evict io.now_set env.event_id response env.emitted_at with
    | (.error e, store) => (.error (.python e), { s with idempotency := store })
    | (.ok (), store) => (.ok response, { s with idempotency := store })
  else (.ok response, s)

/-- The `except IngestError` clause: a rejection; anything else escapes. -/
def answerError (io : HandlerIO) (s : StoreState Tables) (env : IngestEnvelope) :
    HandlerError → Except HandlerError IngestResponse × StoreState Tables
  | .ingest error_code message retryable =>
    maybeCache io s env (.rejected env.event_id error_code message retryable)
  | e => (.error e, s)

/-- `IngestHandler.handle` after the envelope parse. -/
def handle (io : HandlerIO)
    (dispatch : Tables → Except HandlerError (IngestResponse × Tables))
    (s : StoreState Tables) (env : IngestEnvelope) :
    Except HandlerError IngestResponse × StoreState Tables :=
  if majorOf env.schema_version ≠ supportedSchemaMajor then
    maybeCache io s env (.rejected env.event_id .SCHEMA_VERSION_MISMATCH
      ("store supports schema_version MAJOR=" ++ supportedSchemaMajor ++ ", received " ++
        env.schema_version) false)
  else
    match s.idempotency.get io.now_get env.event_id with
    | .error e => (.error (.python e), s)
    | .ok (some cached, store) => (.ok cached, { s with idempotency := store })
    | .ok (none, store) =>
      match dispatch s.db with
      | .ok (response, db) => maybeCache io { idempotency := store, db := db } env response
      | .error e => answerError io { s with idempotency := store } env e

/-- The tables after a transaction: committed when the call returns, rolled back when it
    raises. -/
def settled (before after : Tables) : Except HandlerError IngestResponse → Tables
  | .ok _ => after
  | .error _ => before

/-- The caller's transaction around the call.  The cache is in the process and keeps what it
    has. -/
def transact (io : HandlerIO)
    (dispatch : Tables → Except HandlerError (IngestResponse × Tables)) (s : StoreState Tables)
    (env : IngestEnvelope) : Except HandlerError IngestResponse × StoreState Tables :=
  let result := handle io dispatch s env
  (result.1, { result.2 with db := settled s.db result.2.db result.1 })

/-- The call is answered from the cache. -/
def replayed (io : HandlerIO) (s : StoreState Tables) (env : IngestEnvelope) : Bool :=
  match s.idempotency.get io.now_get env.event_id with
  | .ok (some _, _) => true
  | _ => false

end

/-! ### Actions -/

/-- `_require_running_session`. -/
def requireRunningSession (db : Database) (session_id : Uuid) : Except HandlerError SessionRow :=
  match db.sessions session_id with
  | none => .error (.ingest .SESSION_NOT_FOUND
      ("session_id=" ++ session_id.text ++ " not found") false)
  | some session =>
    if session.status = .RUNNING then .ok session
    else .error (.ingest .SESSION_CLOSED ("session_id=" ++ session_id.text ++ " is '" ++
      JStr.ofString session.status.text ++ "', not running") false)

/-- The `ActionCreate` built from a payload; an unknown status raises `ValidationError`. -/
def ActionRecordPayload.actionCreate (payload : ActionRecordPayload) (session_id : Uuid) :
    Except HandlerError ActionCreate :=
  match AuthorizationStatus.ofText payload.authorization_status with
  | none => .error .validationError
  | some authorization_status =>
    .ok
      { session_id := session_id
        decision_id := payload.decision_id
        policy_id := payload.policy_id
        tool_name := payload.tool_name
        input_hash := payload.input_hash
        output_hash := payload.output_hash
        input_redacted := payload.input_redacted
        output_redacted := payload.output_redacted
        timestamp := payload.timestamp
        duration_ms := payload.duration_ms
        authorization_status := authorization_status }

/-- `_handle_action_record`: a client-sealed record is refused, not recomputed. -/
def handleActionRecord (rt : Runtime) (io : HandlerIO) (env : IngestEnvelope)
    (payload : ActionRecordPayload) (db : Database) :
    Except HandlerError (IngestResponse × Database) := do
  if payload.self_hash.isSome || payload.action_id.isSome then
    throw (.ingest .VALIDATION_ERROR ("client-sealed ACTION_RECORD (action_id / " ++
      "sequence_number / self_hash) is cloud-mode only; the Postgres store assigns chain " ++
      "identity under a row lock. See docs/ingest-spec-v1.md §8.2.") false)
  let _ ← requireRunningSession db env.session_id
  let obj_in ← payload.actionCreate env.session_id
  let (action, db) ← createWithHash rt io.fresh db obj_in
  return (IngestResponse.accepted env.event_id (some action.action_id)
    (some action.sequence_number) (some action.self_hash), db)

/-- `_dispatch` on an action. -/
def dispatchAction (rt : Runtime) (io : HandlerIO) (env : ActionEnvelope) (db : Database) :
    Except HandlerError (IngestResponse × Database) :=
  match env.payload with
  | .error e => (e.answer env.event_id "payload validation failed: ").map fun response =>
      (response, db)
  | .ok payload => handleActionRecord rt io env.toIngestEnvelope payload db

/-! ### What a call does to the tables -/

/-- The answer is an accepted response. -/
def accepts : Except HandlerError IngestResponse → Bool
  | .ok response => response.isAccepted
  | .error _ => false

variable {Tables : Type} {rt : Runtime} {io : HandlerIO} {s : StoreState Tables}
  {dispatch : Tables → Except HandlerError (IngestResponse × Tables)}

/-- Caching changes no table. -/
theorem maybeCache_db (io : HandlerIO) (s : StoreState Tables) (env : IngestEnvelope)
    (response : IngestResponse) : (maybeCache io s env response).2.db = s.db := by
  unfold maybeCache
  split
  · split <;> rfl
  · rfl

/-- Caching returns the response or raises. -/
theorem maybeCache_answer (io : HandlerIO) (s : StoreState Tables) (env : IngestEnvelope)
    (response : IngestResponse) :
    (maybeCache io s env response).1 = .ok response ∨
      ∃ e, (maybeCache io s env response).1 = .error e := by
  unfold maybeCache
  split
  · split
    · exact Or.inr ⟨_, rfl⟩
    · exact Or.inl rfl
  · exact Or.inl rfl

/-- A rejection is not accepted, cached or not. -/
theorem accepts_maybeCache_rejected (io : HandlerIO) (s : StoreState Tables)
    (env : IngestEnvelope) (error_code : ErrorCode) (message : JStr) (retryable : Bool) :
    accepts (maybeCache io s env (.rejected env.event_id error_code message retryable)).1 =
      false := by
  rcases maybeCache_answer io s env (.rejected env.event_id error_code message retryable) with
    h | ⟨e, h⟩
  · rw [h]
    exact IngestResponse.isAccepted_rejected _ _ _ _
  · rw [h]
    rfl

/-- The transaction around a call whose answer and tables are known. -/
theorem transact_eq {env : IngestEnvelope} {answer : Except HandlerError IngestResponse}
    {s' : StoreState Tables} (h : handle io dispatch s env = (answer, s')) :
    (transact io dispatch s env).1 = answer ∧
      (transact io dispatch s env).2.db = settled s.db s'.db answer := by
  rw [transact, h]
  exact ⟨rfl, rfl⟩

/-- **One call.**  Either the tables are as they were and nothing new was accepted, or the
    event's own handler returned what the call returns and what is committed. -/
theorem transact_cases (env : IngestEnvelope) :
    ((transact io dispatch s env).2.db = s.db ∧
      (replayed io s env = true ∨ accepts (transact io dispatch s env).1 = false)) ∨
    ∃ response db, dispatch s.db = .ok (response, db) ∧ replayed io s env = false ∧
      (transact io dispatch s env).1 = .ok response ∧ (transact io dispatch s env).2.db = db := by
  -- an answer that left the tables alone leaves them alone whether or not it is committed
  have hunchanged : ∀ {answer : Except HandlerError IngestResponse} {s' : StoreState Tables},
      handle io dispatch s env = (answer, s') → s'.db = s.db →
        (transact io dispatch s env).2.db = s.db := by
    intro answer s' h hdb
    rw [(transact_eq h).2]
    cases answer
    · rfl
    · exact hdb
  have hrejected :
    ∀ (s' : StoreState Tables) {code : ErrorCode} {message : JStr} {retryable : Bool},
      s'.db = s.db → handle io dispatch s env =
          maybeCache io s' env (.rejected env.event_id code message retryable) →
        (transact io dispatch s env).2.db = s.db ∧
          (replayed io s env = true ∨ accepts (transact io dispatch s env).1 = false) := by
    intro s' code message retryable hdb h
    refine ⟨hunchanged (h.trans Prod.mk.eta.symm) ((maybeCache_db _ _ _ _).trans hdb),
      Or.inr ?_⟩
    rw [(transact_eq (h.trans Prod.mk.eta.symm)).1]
    exact accepts_maybeCache_rejected _ _ _ _ _ _
  by_cases hversion : majorOf env.schema_version ≠ supportedSchemaMajor
  · exact Or.inl (hrejected s rfl (by rw [handle, if_pos hversion]))
  cases hget : s.idempotency.get io.now_get env.event_id with
  | error e =>
    have h : handle io dispatch s env = (.error (.python e), s) := by
      rw [handle, if_neg hversion, hget]
    exact Or.inl ⟨hunchanged h rfl, Or.inr (by rw [(transact_eq h).1]; rfl)⟩
  | ok found =>
    obtain ⟨cached, store⟩ := found
    cases cached with
    | some response =>
      have h : handle io dispatch s env = (.ok response, { s with idempotency := store }) := by
        rw [handle, if_neg hversion, hget]
      exact Or.inl ⟨hunchanged h rfl, Or.inl (by rw [replayed, hget])⟩
    | none =>
      cases hdispatch : dispatch s.db with
      | error e =>
        have hhandle : handle io dispatch s env =
            answerError io { s with idempotency := store } env e := by
          rw [handle, if_neg hversion, hget]
          simp only [hdispatch]
        cases e with
        | ingest code message retryable =>
          exact Or.inl (hrejected { s with idempotency := store } rfl hhandle)
        | _ =>
          refine Or.inl ⟨hunchanged hhandle rfl, Or.inr ?_⟩
          rw [(transact_eq hhandle).1]
          rfl
      | ok result =>
        obtain ⟨response, db⟩ := result
        have h : handle io dispatch s env =
            maybeCache io { idempotency := store, db := db } env response := by
          rw [handle, if_neg hversion, hget]
          simp only [hdispatch]
        obtain ⟨hanswer, hdb⟩ := transact_eq (h.trans Prod.mk.eta.symm)
        rcases maybeCache_answer io { idempotency := store, db := db } env response with
          hok | ⟨e, herror⟩
        · refine Or.inr ⟨response, db, rfl, by rw [replayed, hget], by rw [hanswer, hok], ?_⟩
          rw [hdb, hok]
          exact maybeCache_db _ _ _ _
        · -- the response could not be cached: the whole transaction is rolled back
          exact Or.inl ⟨by rw [hdb, herror]; rfl, Or.inr (by rw [hanswer, herror]; rfl)⟩

/-- The action a payload stands for has the payload's fields. -/
theorem actionCreate_ok {payload : ActionRecordPayload} {session : Uuid} {obj_in : ActionCreate}
    (h : payload.actionCreate session = .ok obj_in) :
    obj_in.session_id = session ∧ obj_in.timestamp = payload.timestamp ∧
      obj_in.input_hash = payload.input_hash ∧ obj_in.output_hash = payload.output_hash ∧
      obj_in.input_redacted = payload.input_redacted ∧
      obj_in.output_redacted = payload.output_redacted := by
  unfold ActionRecordPayload.actionCreate at h
  split at h
  · exact absurd h (by simp)
  · rw [← Except.ok.inj h]
    exact ⟨rfl, rfl, rfl, rfl, rfl, rfl⟩

/-- What an accepted action has done: the payload was unsealed, and `create_with_hash` returned
    the row the response describes. -/
theorem handleActionRecord_ok {env : IngestEnvelope} {payload : ActionRecordPayload}
    {db db' : Database} {response : IngestResponse}
    (h : handleActionRecord rt io env payload db = .ok (response, db')) :
    ∃ obj_in row, payload.actionCreate env.session_id = .ok obj_in ∧
      createWithHash rt io.fresh db obj_in = .ok (row, db') ∧
      response = .accepted env.event_id (some row.action_id) (some row.sequence_number)
        (some row.self_hash) := by
  unfold handleActionRecord at h
  by_cases hsealed : (payload.self_hash.isSome || payload.action_id.isSome) = true
  · simp [hsealed, throw, throwThe, MonadExceptOf.throw, bind, Except.bind] at h
  · simp only [hsealed, Bool.false_eq_true, if_false] at h
    cases hsession : requireRunningSession db env.session_id with
    | error e => simp [hsession, bind, Except.bind] at h
    | ok session =>
      cases hcreate : payload.actionCreate env.session_id with
      | error e => simp [hsession, hcreate, bind, Except.bind] at h
      | ok obj_in =>
        cases hrow : createWithHash rt io.fresh db obj_in with
        | error e => simp [hsession, hcreate, hrow, bind, Except.bind] at h
        | ok result =>
          obtain ⟨row, db''⟩ := result
          simp only [hsession, hcreate, hrow, bind, Except.bind, pure, Except.pure,
            Except.ok.injEq, Prod.mk.injEq] at h
          exact ⟨obj_in, row, rfl, by rw [hrow, h.2], h.1.symm⟩

end RootSign
