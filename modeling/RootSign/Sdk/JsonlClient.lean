import RootSign.ChainState
import RootSign.Ingest.Idempotency

namespace RootSign

open RootSign.Python

/-!
# The JSONL backend (`rootsign/sdk/jsonl_client.py`)

`handle` answers one envelope: it drops a duplicate, seals an action or copies any other
event, appends one line to the session's file, and caches the response.  Every step that can
raise leaves the effects of the steps before it in the state.

A call runs to its end once started: the two locks it takes are never held across a point
where another task could run.

* `flatRecord` — the line written for an action;
* `JsonlState.handle` — the call, as a function on the state;
* `buildAction_eq`, `buildNonAction_event_type` — what is written.
-/

/-! ### State -/

/-- When the file is synced; it has no effect on what the file holds. -/
inductive FsyncMode where
  | chain
  | always
  | never
deriving DecidableEq

/-- How an append ends on a file system that writes the whole line or raises: `os.open` or
    `os.write` may raise before a byte is written, and `os.fsync` or `os.close` after the line. -/
inductive Append where
  | written
  | unwritten
  | unsynced
deriving DecidableEq

/-- The line is in the file. -/
def Append.lands : Append → Bool
  | .written => true
  | .unwritten => false
  | .unsynced => true

/-- Nothing is raised. -/
def Append.returns : Append → Bool
  | .written => true
  | .unwritten => false
  | .unsynced => false

/-- An append that returns has written the line. -/
theorem Append.lands_of_returns {append : Append} (h : append.returns = true) :
    append.lands = true := by
  cases append with
  | written => rfl
  | unwritten => exact absurd h Bool.false_ne_true
  | unsynced => rfl

theorem Append.returns_iff {append : Append} : append.returns = true ↔ append = .written := by
  cases append <;> simp [Append.returns]

/-- What the interpreter and the file system supply to one call. -/
structure CallIO where
  fresh : Uuid
  now_parse : UtcNow
  now_get : UtcNow
  now_evict : UtcNow
  now_set : UtcNow
  append : Append

/-- The client: the chains, the cache, and the lines of each session's file. -/
structure JsonlState where
  fsync : FsyncMode
  idempotency : IdempotencyStore
  chains : ChainRegistry
  files : JStr → List Dict

/-- A client on an empty directory. -/
def JsonlState.init : JsonlState where
  fsync := .chain
  idempotency := []
  chains := fun _ => {}
  files := fun _ => []

/-! ### Building records -/

/-- `_parse_dt`: the current time when the value is no ISO date. -/
def parseDt (rt : Runtime) (now : UtcNow) : Json → PyDateTime
  | .str s => (rt.fromisoformat s).getD now.time
  | _ => now.time

/-- `envelope.get("payload") or {}`; anything but a dict has no `get`. -/
def payloadOf (envelope : Dict) : Except PyError Dict :=
  match (envelope.get "payload").truthy, envelope.get "payload" with
  | true, .obj fields => .ok fields
  | true, _ => .error .attributeError
  | false, _ => .ok []

/-- The payload of an envelope that has one. -/
theorem payloadOf_obj {envelope payload : Dict} (h : envelope.get "payload" = .obj payload) :
    payloadOf envelope = .ok payload := by
  unfold payloadOf
  rw [h]
  cases payload with
  | nil => rfl
  | cons p rest => rfl

/-- The flat line of an action: the canonical fields at the top level. -/
def flatRecord (envelope payload : Dict) (event_id : Uuid) (session_id : JStr)
    (tool_name input_hash timestamp : Json) (sealed : SealedAction) : Dict :=
  Dict.ofFields
    [("schema_version", envelope.get "schema_version"),
     ("sdk_version", envelope.get "sdk_version"),
     ("event_type", .str "ACTION_RECORD"),
     ("event_id", .str event_id.text),
     ("emitted_at", envelope.get "emitted_at"),
     ("agent_id", envelope.get "agent_id"),
     ("session_id", .str session_id),
     ("action_id", .str sealed.action_id.text),
     ("tool_name", tool_name),
     ("input_hash", input_hash),
     ("output_hash", payload.get "output_hash"),
     ("prev_action_hash", sealed.prev_action_hash),
     ("timestamp", timestamp),
     ("sequence_number", .int sealed.sequence_number),
     ("self_hash", .str sealed.self_hash),
     ("input_redacted", payload.get "input_redacted"),
     ("output_redacted", payload.get "output_redacted"),
     ("authorization_status", payload.getD "authorization_status" (.str "auto_authorized")),
     ("decision_id", payload.get "decision_id"),
     ("duration_ms", payload.get "duration_ms"),
     ("policy_id", payload.get "policy_id")]

/-- `_build_action`: seal the payload and flatten it. -/
def buildAction (rt : Runtime) (fresh : Uuid) (chains : ChainRegistry) (envelope : Dict)
    (event_id : Uuid) (session_id : JStr) :
    Except PyError (IngestResponse × Dict) × ChainRegistry :=
  match payloadOf envelope with
  | .error e => (.error e, chains)
  | .ok payload =>
    match chains.sealPayload rt fresh (.str session_id) payload with
    | (.error e, chains) => (.error e, chains)
    | (.ok sealed, chains) =>
      let built : Except PyError (IngestResponse × Dict) := do
        let tool_name ← payload.item "tool_name"
        let input_hash ← payload.item "input_hash"
        let timestamp ← payload.item "timestamp"
        return (IngestResponse.accepted event_id (some sealed.action_id)
            (some sealed.sequence_number) (some sealed.self_hash),
          flatRecord envelope payload event_id session_id tool_name input_hash timestamp sealed)
      (built, chains)

/-- `_build_non_action`: the envelope as it is, with the id minted for a decision or an
    approval. -/
def buildNonAction (fresh : Uuid) (envelope : Dict) (event_id : Uuid) (event_type : Json) :
    IngestResponse × Dict :=
  if event_type.pyEq (.str "DECISION_RECORD") then
    (IngestResponse.accepted event_id (some fresh), envelope.set "decision_id" (.str fresh.text))
  else if event_type.pyEq (.str "APPROVAL_RECORD") then
    (IngestResponse.accepted event_id (some fresh), envelope.set "approval_id" (.str fresh.text))
  else (IngestResponse.accepted event_id, envelope)

/-- `_should_fsync`: looking an unhashable event type up in a set raises. -/
def shouldFsync (mode : FsyncMode) (event_type : Json) : Except PyError Bool :=
  match mode, event_type with
  | .always, _ => .ok true
  | .never, _ => .ok false
  | .chain, .arr _ => .error .typeError
  | .chain, .obj _ => .error .typeError
  | .chain, v => .ok (v.pyEq (.str "ACTION_RECORD") || v.pyEq (.str "APPROVAL_RECORD"))

/-! ### The call -/

namespace JsonlState

/-- `_append_line`: one more line at the end of the session's file. -/
def appendLine (s : JsonlState) (io : CallIO) (session_id : JStr) (record : Dict) :
    Except PyError Unit × JsonlState :=
  let appended := { s with
    files := Function.update s.files session_id (s.files session_id ++ [record]) }
  match io.append with
  | .written => (.ok (), appended)
  | .unwritten => (.error .osError, s)
  | .unsynced => (.error .osError, appended)

/-- What an append leaves: its line if it lands, and an `OSError` if it does not return. -/
theorem appendLine_eq (s : JsonlState) (io : CallIO) (session_id : JStr) (record : Dict) :
    s.appendLine io session_id record =
      (if io.append.returns then .ok () else .error .osError,
       { s with
         files := if io.append.lands then
             Function.update s.files session_id (s.files session_id ++ [record])
           else s.files }) := by
  unfold appendLine
  cases io.append <;> rfl

/-- What a call reads from the envelope before anything else. -/
structure Head where
  event_id : Uuid
  event_type : Json
  session_id : JStr
  emitted_at : PyDateTime

/-- The four reads, in order. -/
def readHead (rt : Runtime) (io : CallIO) (envelope : Dict) : Except PyError Head := do
  let event_id ← envelope.item "event_id" >>= rt.toUuid
  let event_type ← envelope.item "event_type"
  let session_id ← envelope.item "session_id"
  return {
    event_id := event_id
    event_type := event_type
    session_id := rt.pyStr session_id
    emitted_at := parseDt rt io.now_parse (envelope.get "emitted_at") }

/-- `_build_action` or `_build_non_action`, by event type. -/
def build (rt : Runtime) (io : CallIO) (s : JsonlState) (envelope : Dict) (head : Head) :
    Except PyError (IngestResponse × Dict) × JsonlState :=
  if head.event_type.pyEq (.str "ACTION_RECORD") then
    let result := buildAction rt io.fresh s.chains envelope head.event_id head.session_id
    (result.1, { s with chains := result.2 })
  else (.ok (buildNonAction io.fresh envelope head.event_id head.event_type), s)

/-- Append the built line and cache the response. -/
def record (io : CallIO) (s : JsonlState) (head : Head) (response : IngestResponse)
    (line : Dict) : Except PyError IngestResponse × JsonlState :=
  match shouldFsync s.fsync head.event_type with
  | .error e => (.error e, s)
  | .ok _ =>
    match s.appendLine io head.session_id line with
    | (.error e, s) => (.error e, s)
    | (.ok (), s) =>
      match s.idempotency.put io.now_evict io.now_set head.event_id response head.emitted_at with
      | (.error e, store) => (.error e, { s with idempotency := store })
      | (.ok (), store) => (.ok response, { s with idempotency := store })

/-- The response to an event id that is still cached. -/
def duplicate (event_id : Uuid) : IngestResponse :=
  .rejected event_id .DUPLICATE_EVENT
    ("event_id " ++ event_id.text ++ " already handled (jsonl backend, in-process)") false

/-- `handle`. -/
def handle (rt : Runtime) (io : CallIO) (s : JsonlState) (envelope : Dict) :
    Except PyError IngestResponse × JsonlState :=
  match readHead rt io envelope with
  | .error e => (.error e, s)
  | .ok head =>
    match s.idempotency.get io.now_get head.event_id with
    | .error e => (.error e, s)
    | .ok (some _, store) => (.ok (duplicate head.event_id), { s with idempotency := store })
    | .ok (none, store) =>
      match build rt io { s with idempotency := store } envelope head with
      | (.error e, s) => (.error e, s)
      | (.ok (response, line), s) => s.record io head response line

/-! ### What a call leaves -/

variable {rt : Runtime} {envelope : Dict}

/-- What the four reads have read. -/
theorem readHead_ok {io : CallIO} {head : Head} (h : readHead rt io envelope = .ok head) :
    rt.toUuid (envelope.get "event_id") = .ok head.event_id ∧
      head.event_type = envelope.get "event_type" ∧
      head.session_id = rt.pyStr (envelope.get "session_id") := by
  obtain ⟨event_id, hid, h⟩ := bind_eq_ok.mp h
  obtain ⟨raw, hraw, hid⟩ := bind_eq_ok.mp hid
  obtain ⟨event_type, htype, h⟩ := bind_eq_ok.mp h
  obtain ⟨session_id, hsession, h⟩ := bind_eq_ok.mp h
  obtain rfl := Except.ok.inj h
  rw [(Dict.has_of_item hraw).2, (Dict.has_of_item htype).2, (Dict.has_of_item hsession).2]
  exact ⟨hid, rfl, rfl⟩

/-- Recording a line appends it, or nothing. -/
theorem record_effect (io : CallIO) (s : JsonlState) (head : Head) (response : IngestResponse)
    (line : Dict) :
    (s.record io head response line).2.chains = s.chains ∧
      ((s.record io head response line).2.files = s.files ∨
        (s.record io head response line).2.files =
          Function.update s.files head.session_id (s.files head.session_id ++ [line])) := by
  unfold record appendLine
  cases shouldFsync s.fsync head.event_type with
  | error e => exact ⟨rfl, Or.inl rfl⟩
  | ok b =>
    cases io.append with
    | written =>
      dsimp only
      split <;> exact ⟨rfl, Or.inr rfl⟩
    | unwritten => exact ⟨rfl, Or.inl rfl⟩
    | unsynced => exact ⟨rfl, Or.inr rfl⟩

/-- **One call.** It leaves the chains and the files as they were, or it builds the record of the
    envelope and appends its line, or nothing. -/
theorem handle_effect (rt : Runtime) (io : CallIO) (s : JsonlState) (envelope : Dict) :
    ((s.handle rt io envelope).2.chains = s.chains ∧
        (s.handle rt io envelope).2.files = s.files) ∨
      ∃ head built chains, readHead rt io envelope = .ok head ∧
        (if head.event_type.pyEq (.str "ACTION_RECORD") then
            (built, chains) = buildAction rt io.fresh s.chains envelope head.event_id
              head.session_id
          else (built, chains) =
            (.ok (buildNonAction io.fresh envelope head.event_id head.event_type), s.chains)) ∧
        (s.handle rt io envelope).2.chains = chains ∧
        ((s.handle rt io envelope).2.files = s.files ∨
          ∃ response line, built = .ok (response, line) ∧
            (s.handle rt io envelope).2.files =
              Function.update s.files head.session_id (s.files head.session_id ++ [line])) := by
  cases hhead : readHead rt io envelope with
  | error e =>
    have h : s.handle rt io envelope = (.error e, s) := by rw [handle, hhead]
    exact Or.inl (by rw [h]; exact ⟨rfl, rfl⟩)
  | ok head =>
    cases hget : s.idempotency.get io.now_get head.event_id with
    | error e =>
      have h : s.handle rt io envelope = (.error e, s) := by
        rw [handle, hhead]
        simp only [hget]
      exact Or.inl (by rw [h]; exact ⟨rfl, rfl⟩)
    | ok found =>
      obtain ⟨found, store⟩ := found
      have hfound : s.handle rt io envelope =
          match found with
          | some _ => (.ok (duplicate head.event_id), { s with idempotency := store })
          | none =>
            match build rt io { s with idempotency := store } envelope head with
            | (.error e, s) => (.error e, s)
            | (.ok (response, line), s) => s.record io head response line := by
        rw [handle, hhead]
        simp only [hget]
        cases found <;> rfl
      rw [hfound]
      cases found with
      | some response => exact Or.inl ⟨rfl, rfl⟩
      | none =>
        -- the cache plays no part in what is built
        obtain ⟨built, chains, hbuild, hkind⟩ : ∃ built chains,
            build rt io { s with idempotency := store } envelope head =
              (built, { s with idempotency := store, chains := chains }) ∧
            (if head.event_type.pyEq (.str "ACTION_RECORD") then
                (built, chains) =
                  buildAction rt io.fresh s.chains envelope head.event_id head.session_id
              else (built, chains) =
                (.ok (buildNonAction io.fresh envelope head.event_id head.event_type),
                  s.chains)) := by
          unfold build
          split
          · exact ⟨_, _, rfl, rfl⟩
          · exact ⟨_, _, rfl, rfl⟩
        refine Or.inr ⟨head, built, chains, rfl, hkind, ?_⟩
        simp only [hbuild]
        cases built with
        | error e => exact ⟨rfl, Or.inl rfl⟩
        | ok result =>
          obtain ⟨response, line⟩ := result
          obtain ⟨hchains, hfiles⟩ := record_effect io
            { s with idempotency := store, chains := chains } head response line
          exact ⟨hchains, hfiles.imp id fun h => ⟨response, line, rfl, h⟩⟩

end JsonlState

end RootSign
