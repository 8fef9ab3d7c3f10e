import RootSign.Sdk.JsonlClient
import RootSign.Sdk.LossLedger

namespace RootSign

open RootSign.Python

/-!
# The cloud client (`rootsign/sdk/client.py`)

`HttpIngestClient` seals a batch, posts it with a retry for each element, and hands to the offline
spool what the network would not take.  From then on everything goes to the spool.  The spool is a
JSONL client that seals through the same registry.

Calls are tasks of one event loop.  A call waits only for a reply and for a backoff; between two
waits it runs alone, spool writes included.

* `interpret` — a reply as one response for each element of the batch;
* `HttpBatch` — a call in flight;
* `HttpState.sealAll`, `HttpState.writeToSpool`, `HttpState.finish` — what a call does between
  waits;
* `HttpState.step` — a call is made, answered, woken or cancelled.
-/

/-! ### Replies -/

/-- The settings of a client; `validate` is `IngestResponse.model_validate`, with no value where it
    raises. -/
structure HttpConfig where
  max_retries : ℕ
  one_le_max_retries : 1 ≤ max_retries
  enable_spool : Bool
  fail_on_loss : Bool
  spool_dir : JStr
  timeout_text : JStr
  validate : Json → Option IngestResponse

/-- What one POST comes back with; a body is `none` where it is no JSON. -/
inductive HttpReply where
  | timeout (exception_name : JStr)
  | transportError (text : JStr)
  | response (status_code : ℤ) (body : Option Json)

/-- `UUID(int=0)`. -/
def nilUuid : Uuid := ⟨"00000000-0000-0000-0000-000000000000", by decide⟩

/-- `_event_id_of`. -/
def eventIdOf (rt : Runtime) (envelope : Dict) : Uuid :=
  (rt.parseUuid (rt.pyStr (envelope.get "event_id"))).getD nilUuid

/-- `_needs_retry`. -/
def needsRetry (response : IngestResponse) : Bool :=
  response.status == "rejected" && response.retryable == some true

/-- `_reject_batch`. -/
def rejectBatch (rt : Runtime) (batch : List Dict) (error_code : ErrorCode) (error_message : JStr)
    (retryable : Bool) : List IngestResponse :=
  batch.map fun envelope =>
    IngestResponse.rejected (eventIdOf rt envelope) error_code error_message retryable

/-- `_parse_body`: an array aligned with the batch, or nothing. -/
def parseBody (cfg : HttpConfig) (batch : List Dict) : Option Json → Option (List IngestResponse)
  | some (.arr items) =>
    if items.length = batch.length then items.mapM cfg.validate else none
  | _ => none

/-- What a status without a usable body means. -/
def statusError (batch : List Dict) (status : ℤ) : ErrorCode × Bool × JStr :=
  let text := JStr.ofChars (intText status)
  if status = 200 then
    (.INTERNAL_ERROR, true, "malformed or misaligned batch response (expected " ++
      JStr.ofChars (intText batch.length) ++ " elements)")
  else if status = 401 ∨ status = 403 then
    (.VALIDATION_ERROR, false,
      "authentication rejected (HTTP " ++ text ++ ") — check ROOTSIGN_API_KEY")
  else if status = 429 then (.RATE_LIMITED, true, "rate limited (HTTP 429)")
  else if status = 500 then (.INTERNAL_ERROR, true, "server error (HTTP 500)")
  else if 500 < status then
    (.STORE_UNAVAILABLE, true, "server unavailable (HTTP " ++ text ++ ")")
  else (.VALIDATION_ERROR, false, "request rejected (HTTP " ++ text ++ ")")

/-- `_post_once` and `_interpret`: one response for each element. -/
def interpret (rt : Runtime) (cfg : HttpConfig) (batch : List Dict) :
    HttpReply → List IngestResponse
  | .timeout exception_name =>
    rejectBatch rt batch .WRITE_TIMEOUT
      ("request timed out after " ++ cfg.timeout_text ++ "s (" ++ exception_name ++ ")") true
  | .transportError text =>
    rejectBatch rt batch .STORE_UNAVAILABLE ("transport failure: " ++ text) true
  | .response status body =>
    match parseBody cfg batch body with
    | some responses => responses
    | none =>
      let error := statusError batch status
      rejectBatch rt batch error.1 error.2.2 error.2.1

/-- `_PLACEHOLDER`. -/
def placeholder : IngestResponse :=
  .rejected nilUuid .INTERNAL_ERROR "no response recorded" true

/-! ### A batch in flight -/

/-- A call between its first request and its last: the sealed envelopes, the result so far for each,
    the slots to send, and how many requests were sent before. -/
structure HttpBatch where
  envelopes : List Dict
  results : List IngestResponse
  pending : List ℕ
  attempt : ℕ

namespace HttpBatch

/-- A batch of which nothing was sent. -/
def start (envelopes : List Dict) : HttpBatch where
  envelopes := envelopes
  results := List.replicate envelopes.length placeholder
  pending := List.range envelopes.length
  attempt := 0

/-- The envelopes of the given slots. -/
def select (b : HttpBatch) (slots : List ℕ) : List Dict :=
  slots.filterMap fun i => b.envelopes[i]?

/-- `results[slot] = response`, for each pair. -/
def store (results : List IngestResponse) (pairs : List (ℕ × IngestResponse)) :
    List IngestResponse :=
  pairs.foldl (fun results p => results.set p.1 p.2) results

/-- The responses to the pending slots are stored; those to retry stay pending. -/
def receive (b : HttpBatch) (responses : List IngestResponse) : HttpBatch :=
  { b with
    results := store b.results (b.pending.zip responses)
    pending := ((b.pending.zip responses).filter fun p => needsRetry p.2).map Prod.fst }

/-- Nothing is left to send, or no request is left. -/
def isOver (cfg : HttpConfig) (b : HttpBatch) : Bool :=
  b.pending.isEmpty || b.attempt + 1 == cfg.max_retries

/-- The slots of records the network would not take. -/
def unsent (b : HttpBatch) : List ℕ :=
  (List.range b.results.length).filter fun i => (b.results[i]?).any needsRetry

end HttpBatch

/-! ### The client -/

/-- Where a call waits; `idle` is a task outside the client. -/
inductive HttpTask where
  | idle
  | posting (batch : HttpBatch)
  | backoff (batch : HttpBatch)

/-- An action that was sealed: its event id, its payload before the seal, and the seal. -/
structure SealedRecord where
  event_id : Json
  payload : Dict
  sealed : SealedAction

/-- What a call raises: an exception of the interpreter, or one of the SDK's own. -/
inductive ClientError where
  | python (e : PyError)
  | hitlPersistence (message : JStr)
  | recordPersistence (message : JStr)

/-- What one spool write is supplied with; `reason` names the `OSError`, if there is one. -/
structure SpoolIO extends CallIO where
  reason : JStr
  now_lost : UtcNow
  annotate_ok : Bool
  now_annotated : UtcNow

/-- The client.  The spool's registry is the one the wire path seals with.  The last three fields
    are history: the actions sealed for each session, in order; the envelopes the server accepted;
    what the calls returned. -/
structure HttpState where
  spool : JsonlState
  spooling : Bool
  spool_reason : Option ErrorCode
  ledgers : JStr → Option LossLedger
  calls : ℕ → HttpTask
  sealed : JStr → List SealedRecord
  accepted : List Dict
  returned : List (ℕ × Except ClientError (List IngestResponse))

/-- `_is_control_record`. -/
def isControlRecord (envelope : Dict) : Except PyError Bool :=
  if (envelope.get "event_type").pyEq (.str "APPROVAL_RECORD") then .ok true
  else if !(envelope.get "event_type").pyEq (.str "ACTION_RECORD") then .ok false
  else (payloadOf envelope).map fun payload =>
    (payload.get "authorization_status").pyEq (.str "pending")

namespace HttpState

/-- A client that has not been used. -/
def init : HttpState where
  spool := JsonlState.init
  spooling := false
  spool_reason := none
  ledgers := fun _ => none
  calls := fun _ => .idle
  sealed := fun _ => []
  accepted := []
  returned := []

/-! ### Sealing -/

/-- `_seal` on one envelope: the payload is updated in place. -/
def sealOne (rt : Runtime) (fresh : Uuid) (s : HttpState) (envelope : Dict) :
    Except PyError Dict × HttpState :=
  if !(envelope.get "event_type").pyEq (.str "ACTION_RECORD") then (.ok envelope, s)
  else
    match envelope.get "payload" with
    | .obj payload =>
      if isSealed payload then (.ok envelope, s)
      else
        match s.spool.chains.sealPayload rt fresh (envelope.get "session_id") payload with
        | (.error e, chains) => (.error e, { s with spool := { s.spool with chains := chains } })
        | (.ok sealed, chains) =>
          let session_id := rt.pyStr (envelope.get "session_id")
          (.ok (envelope.set "payload" (.obj (Dict.update payload sealed.asPayloadFields))),
           { s with
             spool := { s.spool with chains := chains }
             sealed := Function.update s.sealed session_id (s.sealed session_id ++
               [{ event_id := envelope.get "event_id", payload := payload, sealed := sealed }]) })
    | _ => (.ok envelope, s)

/-- `_seal`: every envelope in turn, each under the id minted for it. -/
def sealAll (rt : Runtime) (s : HttpState) :
    List (Dict × Uuid) → Except PyError (List Dict) × HttpState
  | [] => (.ok [], s)
  | (envelope, fresh) :: rest =>
    match s.sealOne rt fresh envelope with
    | (.error e, s) => (.error e, s)
    | (.ok envelope, s) =>
      match s.sealAll rt rest with
      | (.error e, s) => (.error e, s)
      | (.ok envelopes, s) => (.ok (envelope :: envelopes), s)

/-! ### The spool -/

/-- `_on_spool_write_failure`: a control record fails closed, anything else is accounted. -/
def onSpoolWriteFailure (rt : Runtime) (cfg : HttpConfig) (io : SpoolIO) (s : HttpState)
    (envelope : Dict) : Except ClientError IngestResponse × HttpState :=
  let session_id := rt.pyStr (envelope.get "session_id")
  match isControlRecord envelope with
  | .error e => (.error (.python e), s)
  | .ok true =>
    (.error (.hitlPersistence
      ("spool write to " ++ cfg.spool_dir ++ " failed (" ++ io.reason ++ ")")), s)
  | .ok false =>
    let ledger := (s.ledgers session_id).getD { session_id := session_id }
    match payloadOf envelope with
    | .error e =>
      (.error (.python e), { s with ledgers := Function.update s.ledgers session_id (some ledger) })
    | .ok payload =>
      let s := { s with
        ledgers := Function.update s.ledgers session_id
          (some (ledger.record io.now_lost (payload.get "sequence_number") io.reason)) }
      if cfg.fail_on_loss then
        (.error (.recordPersistence ("record for session " ++ session_id ++
          " could not be persisted (" ++ io.reason ++ ") and ROOTSIGN_ON_RECORD_LOSS=fail")), s)
      else
        (.ok (.rejected (eventIdOf rt envelope) .INTERNAL_ERROR
          ("record dropped: spool write failed (" ++ io.reason ++ ")") false), s)

/-- `_spool_one`. -/
def spoolOne (rt : Runtime) (cfg : HttpConfig) (io : SpoolIO) (s : HttpState) (envelope : Dict) :
    Except ClientError IngestResponse × HttpState :=
  match s.spool.handle rt io.toCallIO envelope with
  | (.ok response, spool) => (.ok response, { s with spool := spool })
  | (.error .osError, spool) => onSpoolWriteFailure rt cfg io { s with spool := spool } envelope
  | (.error e, spool) => (.error (.python e), { s with spool := spool })

/-- `_flush_ledger`: the tally of a session with losses, if the file can take it. -/
def flushLedger (io : SpoolIO) (s : HttpState) (session_id : JStr) : HttpState :=
  match s.ledgers session_id with
  | none => s
  | some ledger =>
    if ledger.count = 0 || !io.annotate_ok then s
    else
      { s with spool := { s.spool with
          files := Function.update s.spool.files session_id
            (s.spool.files session_id ++ [ledger.asRecord io.now_annotated]) } }

/-- `_write_to_spool`, over envelopes with their slots. -/
def writeToSpool (rt : Runtime) (cfg : HttpConfig) (io : ℕ → SpoolIO) (s : HttpState) :
    List (Dict × ℕ) → Except ClientError (List IngestResponse) × HttpState
  | [] => (.ok [], s)
  | (envelope, slot) :: rest =>
    match s.spoolOne rt cfg (io slot) envelope with
    | (.error e, s) => (.error e, s)
    | (.ok response, s) =>
      let s := if (envelope.get "event_type").pyEq (.str "SESSION_CLOSE") then
          s.flushLedger (io slot) (rt.pyStr (envelope.get "session_id"))
        else s
      match s.writeToSpool rt cfg io rest with
      | (.error e, s) => (.error e, s)
      | (.ok responses, s) => (.ok (response :: responses), s)

/-! ### Calls -/

/-- The call is over. -/
def returns (s : HttpState) (t : ℕ) (result : Except ClientError (List IngestResponse)) :
    HttpState :=
  { s with
    calls := Function.update s.calls t .idle
    returned := s.returned ++ [(t, result)] }

/-- The call waits. -/
def setCall (s : HttpState) (t : ℕ) (task : HttpTask) : HttpState :=
  { s with calls := Function.update s.calls t task }

/-- `_enter_spool_mode`. -/
def enterSpoolMode (s : HttpState) (cause : Option IngestResponse) : HttpState :=
  if s.spooling then s
  else { s with spooling := true, spool_reason := cause.bind IngestResponse.error_code }

/-- `handle_batch`, up to its first request; `handle` is the call with one envelope. -/
def handleBatch (rt : Runtime) (cfg : HttpConfig) (s : HttpState) (t : ℕ)
    (envelopes : List (Dict × Uuid)) (io : ℕ → SpoolIO) : HttpState :=
  if envelopes.isEmpty then s.returns t (.ok [])
  else
    match s.sealAll rt envelopes with
    | (.error e, s) => s.returns t (.error (.python e))
    | (.ok envelopes, s) =>
      if s.spooling then
        let written := s.writeToSpool rt cfg io envelopes.zipIdx
        written.2.returns t written.1
      else s.setCall t (.posting (.start envelopes))

/-- The envelopes that are answered accepted. -/
def acceptedOf (batch : List Dict) (responses : List IngestResponse) : List Dict :=
  ((batch.zip responses).filter fun p => p.2.isAccepted).map Prod.fst

/-- `handle_batch` after its last reply. -/
def finish (rt : Runtime) (cfg : HttpConfig) (s : HttpState) (t : ℕ) (b : HttpBatch)
    (io : ℕ → SpoolIO) : HttpState :=
  if b.unsent.isEmpty || !cfg.enable_spool then s.returns t (.ok b.results)
  else
    let s := s.enterSpoolMode (b.unsent.head?.bind fun i => b.results[i]?)
    let written := s.writeToSpool rt cfg io ((b.select b.unsent).zip b.unsent)
    match written.1 with
    | .error e => written.2.returns t (.error e)
    | .ok spooled => written.2.returns t (.ok (HttpBatch.store b.results (b.unsent.zip spooled)))

/-- A reply to the pending slots. -/
def answered (rt : Runtime) (cfg : HttpConfig) (s : HttpState) (t : ℕ) (b : HttpBatch)
    (reply : HttpReply) (io : ℕ → SpoolIO) : HttpState :=
  let batch := b.select b.pending
  let responses := interpret rt cfg batch reply
  let s := { s with accepted := s.accepted ++ acceptedOf batch responses }
  let b := b.receive responses
  if b.isOver cfg then s.finish rt cfg t b io
  else s.setCall t (.backoff { b with attempt := b.attempt + 1 })

/-- What can happen next: a call by an idle task, the end of a wait, or the cancellation of a
    waiting call. -/
inductive Label where
  | call (t : ℕ) (envelopes : List (Dict × Uuid)) (io : ℕ → SpoolIO)
  | reply (t : ℕ) (reply : HttpReply) (io : ℕ → SpoolIO)
  | wake (t : ℕ)
  | cancel (t : ℕ)

/-- One step; `none` when the task does not wait there. -/
def step (rt : Runtime) (cfg : HttpConfig) (s : HttpState) : Label → Option HttpState
  | .call t envelopes io =>
    match s.calls t with
    | .idle => some (s.handleBatch rt cfg t envelopes io)
    | _ => none
  | .reply t reply io =>
    match s.calls t with
    | .posting b => some (s.answered rt cfg t b reply io)
    | _ => none
  | .wake t =>
    match s.calls t with
    | .backoff b => some (s.setCall t (.posting b))
    | _ => none
  | .cancel t =>
    match s.calls t with
    | .idle => none
    | _ => some (s.setCall t .idle)

end HttpState

end RootSign
