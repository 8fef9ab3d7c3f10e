import RootSign.Sdk.HttpClient

namespace RootSign

open RootSign.Python

/-!
# The decorator (`rootsign/sdk/decorator.py`)

What `@rootsign.trace` does around a call of a plain function.

* `actionEnvelope`, `approvalEnvelope`, `decisionEnvelope` — the envelopes it hands to the client;
* `tryIngest` — best-effort emission of an action: only a persistence error is raised;
* `emitApprovalRecord`, `emitDecisionRecord` — best-effort emission of an approval and of a
  decision;
* `submitPending` — the gate of a shared store, up to its wait;
* `emitHitlActionSync` — the gate of the JSONL backend, which asks at the terminal.
-/

/-! ### Envelopes -/

/-- `SessionContext`: the counter and the slot of the last decision. -/
structure SessionContext where
  agent_id : Uuid
  session_id : Uuid
  sequence : ℕ := 0
  pending_decision_id : Option Uuid := none

/-- What `uuid4()` and `datetime.now(timezone.utc)` supply to one envelope. -/
structure Minted where
  event_id : Uuid
  emitted_at : UtcNow

/-- `t.isoformat()`. -/
def isoJson (t : UtcNow) : Json := .str (JStr.ofChars t.time.isoformat)

/-- `str(x) if x else None`. -/
def uuidOrNone : Option Uuid → Json
  | some u => .str u.text
  | none => .null

/-- `x if isinstance(x, dict) else None`. -/
def dictOrNone : Json → Json
  | .obj d => .obj d
  | _ => .null

/-- The fields around every payload. -/
def envelopeOf (sdk_version : JStr) (ctx : SessionContext) (event_type : EventType) (m : Minted)
    (payload : Dict) : Dict :=
  Dict.ofFields
    [("schema_version", .str "1.1"),
     ("sdk_version", .str sdk_version),
     ("event_type", .str (JStr.ofString event_type.text)),
     ("event_id", .str m.event_id.text),
     ("emitted_at", isoJson m.emitted_at),
     ("agent_id", .str ctx.agent_id.text),
     ("session_id", .str ctx.session_id.text),
     ("payload", .obj payload)]

/-- The arguments of `_try_ingest` that go into the payload. -/
structure ActionFields where
  tool_name : JStr
  input_hash : JStr
  output_hash : Option JStr
  redacted_input : Json
  redacted_output : Json
  timestamp : UtcNow
  authorization_status : JStr
  decision_id : Option Uuid

/-- The payload of an action. -/
def ActionFields.payload (a : ActionFields) : Dict :=
  Dict.ofFields
    [("tool_name", .str a.tool_name),
     ("input_hash", .str a.input_hash),
     ("output_hash", optStr a.output_hash),
     ("input_redacted", dictOrNone a.redacted_input),
     ("output_redacted", dictOrNone a.redacted_output),
     ("timestamp", isoJson a.timestamp),
     ("authorization_status", .str a.authorization_status),
     ("decision_id", uuidOrNone a.decision_id)]

/-- The envelope `_try_ingest` builds. -/
def actionEnvelope (sdk_version : JStr) (ctx : SessionContext) (m : Minted) (a : ActionFields) :
    Dict :=
  envelopeOf sdk_version ctx .ACTION_RECORD m a.payload

/-- The arguments of `_emit_approval_record`; `action_timestamp` is not serialized. -/
structure ApprovalFields where
  action_id : Uuid
  approver_id : JStr
  approver_type : JStr
  context_presented : Dict
  decision : JStr
  decision_reason : Option JStr
  parent_approval_id : Option Uuid := none
  response_latency_ms : Option ℤ := none

/-- The payload of an approval. -/
def ApprovalFields.payload (a : ApprovalFields) (now : UtcNow) : Dict :=
  Dict.ofFields
    [("action_id", .str a.action_id.text),
     ("approver_id", .str a.approver_id),
     ("approver_type", .str a.approver_type),
     ("context_presented", .obj a.context_presented),
     ("decision", .str a.decision),
     ("decision_reason", optStr a.decision_reason),
     ("parent_approval_id", uuidOrNone a.parent_approval_id),
     ("response_latency_ms", (a.response_latency_ms.map Json.int).getD .null),
     ("timestamp", isoJson now)]

/-- The envelope `_emit_approval_record` builds. -/
def approvalEnvelope (sdk_version : JStr) (ctx : SessionContext) (m : Minted) (now : UtcNow)
    (a : ApprovalFields) : Dict :=
  envelopeOf sdk_version ctx .APPROVAL_RECORD m (a.payload now)

/-- `ReasoningDepth`. -/
inductive ReasoningDepth where
  | MINIMAL
  | SUMMARY
  | FULL

/-- Its value. -/
def ReasoningDepth.text : ReasoningDepth → String
  | .MINIMAL => "minimal"
  | .SUMMARY => "summary"
  | .FULL => "full"

/-- The arguments of `_emit_decision_record`; `confidence` is a number or `None`. -/
structure DecisionFields where
  selected_action : JStr
  reasoning_summary : Option JStr
  confidence : Json
  alternatives_considered : List JStr
  depth : ReasoningDepth

/-- `reasoning_summary[:max_chars] if reasoning_summary else None`. -/
def cutSummary (max_chars : ℕ) : Option JStr → Option JStr
  | some summary =>
    if summary.units.isEmpty then none else some ⟨JStr.firstChars max_chars summary.units⟩
  | none => none

/-- The summary that is kept. -/
def DecisionFields.summary (d : DecisionFields) : Option JStr :=
  match d.depth with
  | .MINIMAL => none
  | .SUMMARY => cutSummary 500 d.reasoning_summary
  | .FULL => cutSummary 10000 d.reasoning_summary

/-- The payload of a decision; it has no id, the store assigns it. -/
def DecisionFields.payload (d : DecisionFields) (now : UtcNow) : Dict :=
  Dict.ofFields
    [("selected_action", .str d.selected_action),
     ("reasoning_summary", optStr d.summary),
     ("confidence", d.confidence),
     ("alternatives_considered", .arr (match d.depth with
        | .FULL => d.alternatives_considered.map Json.str
        | _ => [])),
     ("timestamp", isoJson now),
     ("reasoning_depth", .str (JStr.ofString d.depth.text)),
     ("reasoning_captured", .bool d.summary.isSome)]

/-- The envelope `_emit_decision_record` builds. -/
def decisionEnvelope (sdk_version : JStr) (ctx : SessionContext) (m : Minted) (now : UtcNow)
    (d : DecisionFields) : Dict :=
  envelopeOf sdk_version ctx .DECISION_RECORD m (d.payload now)

/-! ### Best-effort emission -/

/-- `_try_ingest`, after the client has returned or raised: the counter advances if the record has
    landed; what is raised is swallowed unless it is a persistence error. -/
def tryIngest (ctx : SessionContext) :
    Except ClientError IngestResponse → Except ClientError (Option IngestResponse) × SessionContext
  | .ok response =>
    (.ok (some response),
      if response.status = "accepted" ∨ response.status = "buffered" then
        { ctx with sequence := ctx.sequence + 1 }
      else ctx)
  | .error (.python _) => (.ok none, ctx)
  | .error e => (.error e, ctx)

/-- `_emit_approval_record`, after the client has returned or raised. -/
def emitApprovalRecord : Except ClientError IngestResponse → Except ClientError Unit
  | .ok _ => .ok ()
  | .error (.python _) => .ok ()
  | .error e => .error e

/-- `_emit_decision_record`, after the client has returned or raised: the id of the decision. -/
def emitDecisionRecord :
    Except ClientError IngestResponse → Except ClientError (Option Uuid)
  | .ok response => .ok response.entity_id
  | .error (.python _) => .ok none
  | .error e => .error e

/-- `record_decision`: the id goes into the slot, unless something is raised. -/
def recordDecision (ctx : SessionContext) (reply : Except ClientError IngestResponse) :
    SessionContext :=
  match emitDecisionRecord reply with
  | .ok decision_id => { ctx with pending_decision_id := decision_id }
  | .error _ => ctx

/-! ### The gate of a shared store -/

/-- How a gated submission goes on: the gate waits for a decision on the action, or something is
    raised in place of the wait. -/
inductive Submission where
  | waits (action_id : Uuid)
  | notSubmitted
  | persistence (e : ClientError)

/-- `_emit_hitl_action`, after the client has returned or raised for the pending action. -/
def submitPending (ctx : SessionContext) (reply : Except ClientError IngestResponse) :
    Submission × SessionContext :=
  let ingested := tryIngest ctx reply
  match ingested.1 with
  | .error e => (.persistence e, ingested.2)
  | .ok response =>
    match response.bind IngestResponse.entity_id with
    | none => (.notSubmitted, ingested.2)
    | some action_id => (.waits action_id, ingested.2)

/-! ### The gate at the terminal -/

/-- The code units that `str.strip` removes. -/
def isSpaceUnit (u : CodeUnit) : Bool :=
  (0x09 ≤ u.val && u.val ≤ 0x0D) || (0x1C ≤ u.val && u.val ≤ 0x20) || u.val == 0x85 ||
    u.val == 0xA0 || u.val == 0x1680 || (0x2000 ≤ u.val && u.val ≤ 0x200A) ||
    u.val == 0x2028 || u.val == 0x2029 || u.val == 0x202F || u.val == 0x205F || u.val == 0x3000

/-- `s.strip()`. -/
def strip (s : JStr) : JStr :=
  ⟨((s.units.dropWhile isSpaceUnit).reverse.dropWhile isSpaceUnit).reverse⟩

/-- `raw[:1].lower() in ("y", "a")`. -/
def approves (raw : JStr) : Bool :=
  match raw.units with
  | u :: _ => u.val == 0x79 || u.val == 0x59 || u.val == 0x61 || u.val == 0x41
  | [] => false

/-- `raw[1:].strip() or None`. -/
def noteOf (raw : JStr) : Option JStr :=
  let note := strip ⟨JStr.withoutFirst raw.units⟩
  if note.units.isEmpty then none else some note

/-- `handle` on a file system that may cut a line short.  When `torn`, no line of its own comes of
    the append: `os.write` writes a part of the line only, or an earlier part stands right before
    it.  Neither is noticed, and the call goes on as it would. -/
def JsonlState.handleTorn (rt : Runtime) (io : CallIO) (torn : Bool) (s : JsonlState)
    (envelope : Dict) : Except PyError IngestResponse × JsonlState :=
  let result := s.handle rt io envelope
  if torn then (result.1, { result.2 with files := s.files }) else result

/-- A call that other code makes on the same JSONL client. -/
structure OtherCall where
  envelope : Dict
  io : CallIO
  torn : Bool

/-- The client after other calls. -/
def JsonlState.after (rt : Runtime) (s : JsonlState) (calls : List OtherCall) : JsonlState :=
  calls.foldl (fun s c => (s.handleTorn rt c.io c.torn c.envelope).2) s

/-- One gated call.  `redacted_input` and `context_presented` are `none` where coercing, redacting
    or hashing the input, or building the context, raises; `answer` is `none` where the prompt or
    `getpass.getuser` raises.  `before` and `between` are the calls on the client that run before
    the two envelopes of the gate get their turn: those of other tasks, and what a buffering
    client flushes. -/
structure GateCall where
  sdk_version : JStr
  tool_name : JStr
  isatty : Bool
  redacted_input : Option Json
  context_presented : Option Dict
  timestamp : UtcNow
  before : List OtherCall
  pending : Minted
  pending_io : CallIO
  pending_torn : Bool
  answer : Option JStr
  user : JStr
  between : List OtherCall
  approval : Minted
  approval_now : UtcNow
  approval_io : CallIO
  approval_torn : Bool

/-- How a gated call ends: the tool is called for the approved action, or something is raised in
    its place. -/
inductive GateOutcome where
  | called (action_id : Uuid)
  | unsupportedBackend
  | inputRaised
  | notSubmitted
  | promptRaised
  | rejected (action_id : Uuid) (reason : JStr)
  | persistence (e : ClientError)

namespace GateCall

/-- The fields of the pending action. -/
def actionFields (rt : Runtime) (ctx : SessionContext) (c : GateCall) (redacted_input : Json) :
    ActionFields where
  tool_name := c.tool_name
  input_hash := computePayloadHash rt redacted_input
  output_hash := none
  redacted_input := redacted_input
  redacted_output := .null
  timestamp := c.timestamp
  authorization_status := "pending"
  decision_id := ctx.pending_decision_id

/-- The fields of the approval. -/
def approvalFields (c : GateCall) (context_presented : Dict) (action_id : Uuid) (raw : JStr) :
    ApprovalFields where
  action_id := action_id
  approver_id := "tty:" ++ c.user
  approver_type := "human"
  context_presented := context_presented
  decision := if approves raw then "approved" else "rejected"
  decision_reason := noteOf raw

end GateCall

/-- `_emit_hitl_action_sync`, up to the call of the tool. -/
def emitHitlActionSync (rt : Runtime) (ctx : SessionContext) (s : JsonlState) (c : GateCall) :
    GateOutcome × JsonlState :=
  if !c.isatty then (.unsupportedBackend, s)
  else
    match c.redacted_input, c.context_presented with
    | some redacted_input, some context_presented =>
      let ctx' := { ctx with pending_decision_id := none }
      let reply := (s.after rt c.before).handleTorn rt c.pending_io c.pending_torn
        (actionEnvelope c.sdk_version ctx' c.pending (c.actionFields rt ctx redacted_input))
      match (tryIngest ctx' (reply.1.mapError .python)).1 with
      | .error e => (.persistence e, reply.2)
      | .ok response =>
        match response.bind IngestResponse.entity_id with
        | none => (.notSubmitted, reply.2)
        | some action_id =>
          match c.answer with
          | none => (.promptRaised, reply.2)
          | some text =>
            let raw := strip text
            let emitted := (reply.2.after rt c.between).handleTorn rt c.approval_io c.approval_torn
              (approvalEnvelope c.sdk_version ctx' c.approval c.approval_now
                (c.approvalFields context_presented action_id raw))
            match emitApprovalRecord (emitted.1.mapError .python) with
            | .error e => (.persistence e, emitted.2)
            | .ok () =>
              if approves raw then (.called action_id, emitted.2)
              else (.rejected action_id ((noteOf raw).getD "rejected at prompt"), emitted.2)
    | _, _ => (.inputRaised, s)

end RootSign
