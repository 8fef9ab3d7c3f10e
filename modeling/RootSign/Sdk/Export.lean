import RootSign.ChainState
import RootSign.Sdk.Receipt
import RootSign.Soundness

namespace RootSign

open RootSign.Lib RootSign.Python

/-!
# Evidence bundles (`rootsign/sdk/export.py`)

A session file is flattened into evidence, and the evidence into the bundle's documents; here
the verification document, which says of every record what the verifier proved.

* `loadLocalSession` — read a session file, and run the verifier on it;
* `recordStatus` — the status of one record, from the verdict and the first invalid number;
* `buildVerification` — `verification.json`.
-/

/-! ### Evidence -/

/-- One session, flattened out of the file it came from. -/
structure SessionEvidence where
  session_id : JStr
  source_backend : String
  source_location : JStr
  verify : VerifyResult
  session : Dict
  agent : Option Dict
  actions : List Dict
  decisions : List Dict
  approvals : List Dict
  losses : List Dict
  receipt : Option Dict

/-- What `load_local_session` collects from the lines. -/
structure Collected where
  session_id : Json := .null
  session : Dict := []
  actions : List Dict := []
  decisions : List Dict := []
  approvals : List Dict := []
  losses : List Dict := []

/-- `{**payload, …}` needs a mapping. -/
def asMapping : Json → Except PyError Dict
  | .obj fields => .ok fields
  | _ => .error .typeError

/-- One record of the file. -/
def Collected.add (c : Collected) (record : Dict) : Except PyError Collected := do
  let c := { c with session_id := orValue c.session_id (record.get "session_id") }
  let event_type := record.getD "event_type" (.str "ACTION_RECORD")
  let payload := orValue (record.get "payload") (.obj [])
  if event_type.pyEq (.str "ACTION_RECORD") then
    return { c with actions := c.actions ++ [record] }
  else if event_type.pyEq (.str "SESSION_OPEN") then
    let payload ← asDict payload
    let session := c.session.set "agent_id" (record.get "agent_id")
    let session := session.set "objective" (payload.get "objective")
    let session := session.set "user_id" (payload.get "user_id")
    let session := session.set "start_time" (record.get "emitted_at")
    return { c with session := session.set "status" (.str "running") }
  else if event_type.pyEq (.str "SESSION_CLOSE") then
    let payload ← asDict payload
    let session := c.session.set "end_time" (record.get "emitted_at")
    return { c with session := session.set "status" (payload.get "status") }
  else if event_type.pyEq (.str "DECISION_RECORD") then
    let payload ← asMapping payload
    let decision := payload.set "decision_id" (record.get "decision_id")
    return { c with decisions := c.decisions ++ [decision] }
  else if event_type.pyEq (.str "APPROVAL_RECORD") then
    let payload ← asMapping payload
    let approval := payload.set "approval_id" (record.get "approval_id")
    return { c with approvals := c.approvals ++ [approval] }
  else
    return { c with losses := c.losses ++ [record] }

/-- The lines one by one; one that is no JSON is skipped. -/
def Collected.read : Collected → List Line → Except PyError Collected
  | c, [] => .ok c
  | c, .malformed :: rest => c.read rest
  | _, .raises e :: _ => .error e
  | c, .value v :: rest => do
    let record ← asDict v
    let c ← c.add record
    c.read rest

/-- Whitespace around a line that `str.strip` removes but `json.loads` does not skip: none, some
    before the line, or only after it. -/
inductive Padding where
  | none
  | leading
  | trailing

/-- A nonblank line of the file: what it reads as once stripped, and what stood around it. -/
structure FileLine where
  stripped : Line
  padding : Padding

/-- The line as it stands.  What follows a value is looked at when the value has been read. -/
def FileLine.unstripped (l : FileLine) : Line :=
  match l.padding, l.stripped with
  | .none, stripped => stripped
  | .trailing, .raises e => .raises e
  | _, _ => .malformed

/-- `a.get("sequence_number") or 0`. -/
def sortNumber (r : Dict) : Json := orValue (r.get "sequence_number") (.int 0)

/-- `_load_receipt_for`, around the lookup of the receipt: one that cannot be read is absent, but
    `except (OSError, ValueError)` passes a `RecursionError` on. -/
def loadReceiptFor (load_receipt : JStr → Except PyError (Option Dict)) (session_id : JStr) :
    Except PyError (Option Dict) :=
  match load_receipt session_id with
  | .error .osError => .ok none
  | .error (.valueError _) => .ok none
  | result => result

/-- `load_local_session`, on the lines of the file at `path`; `load_receipt` is what is looked up
    for a session id, beside that path.  The verifier strips the lines, the loader does not. -/
def loadLocalSession (rt : Runtime) (path stem : JStr)
    (load_receipt : JStr → Except PyError (Option Dict)) (lines : List FileLine) :
    Except PyError SessionEvidence := do
  let c ← Collected.read {} (lines.map FileLine.unstripped)
  let sorted ← sortByKey (c.actions.map fun a => (sortNumber a, a))
  let resolved_id := rt.pyStr (orValue c.session_id (.str stem))
  let verify ← verifySessionLocal rt (lines.map FileLine.stripped)
  let receipt ← loadReceiptFor load_receipt resolved_id
  return {
    session_id := resolved_id
    source_backend := "jsonl"
    source_location := path
    verify := verify
    session := c.session
    agent :=
      if (c.session.get "agent_id").truthy then
        some (Dict.ofFields [("agent_id", c.session.get "agent_id")])
      else none
    actions := sorted.map Prod.snd
    decisions := c.decisions
    approvals := c.approvals
    losses := c.losses
    receipt := receipt }

/-! ### The verification document -/

/-- `VerifyResult.summary`. -/
def VerifyResult.summary (rt : Runtime) (res : VerifyResult) : JStr :=
  let missing : JStr := JStr.ofChars (describeMissing res.missing_ranges)
  let detail : JStr :=
    match res.error with
    | some error => if error.units.isEmpty then "" else " (" ++ error ++ ")"
    | none => ""
  match res.verdict with
  | .VALID => "VALID — " ++ JStr.ofChars (intText res.record_count) ++ " records, chain intact"
  | .INCOMPLETE =>
    "INCOMPLETE — " ++ JStr.ofChars (intText (missingCount res.missing_ranges)) ++
      " record(s) missing (sequence " ++ missing ++ "); " ++
      JStr.ofChars (intText res.record_count) ++ " present and intact" ++ detail
  | .TAMPERED =>
    "TAMPERED — chain broken at record #" ++ rt.pyStr res.first_invalid_sequence ++ detail ++
      (if res.missing_ranges.isEmpty then ("" : JStr) else "; also missing sequence " ++ missing)

/-- What the bundle says of one record. -/
inductive RecordStatus where
  | verified
  | failed
  | unverified
deriving DecidableEq, Repr

/-- `_record_status`. -/
def recordStatus (verdict : Verdict) (sequence first_invalid : Json) :
    Except PyError RecordStatus :=
  if verdict = .VALID ∨ Json.isNone first_invalid = true ∨ sequence.asInt = none then .ok .verified
  else
    match sequence.pyLt first_invalid with
    | none => .error .typeError
    | some true => .ok .verified
    | some false => .ok (if sequence.pyEq first_invalid then .failed else .unverified)

/-- One record of `verification.json`. -/
structure RecordEntry where
  sequence_number : Json
  action_id : Json
  timestamp : Json
  tool_name : Json
  prev_action_hash : Json
  self_hash : Json
  chain_status : RecordStatus

/-- `verification.json`; `replay` is there only when the session has a receipt. -/
structure Verification where
  verdict : Verdict
  valid : Bool
  summary : JStr
  record_count : ℕ
  first_invalid_sequence : Json
  missing_ranges : List SeqRange
  error : Option JStr
  records : List RecordEntry
  replay : Option Dict

/-- The entry of one action. -/
def recordEntry (res : VerifyResult) (action : Dict) : Except PyError RecordEntry := do
  let chain_status ←
    recordStatus res.verdict (action.get "sequence_number") res.first_invalid_sequence
  return {
    sequence_number := action.get "sequence_number"
    action_id := action.get "action_id"
    timestamp := action.get "timestamp"
    tool_name := action.get "tool_name"
    prev_action_hash := action.get "prev_action_hash"
    self_hash := action.get "self_hash"
    chain_status := chain_status }

/-- `_replay_block`. -/
def replayBlock : Option Dict → Except PyError (Option Dict)
  | some receipt => (replaySummary receipt).map some
  | none => .ok none

/-- `_build_verification`. -/
def buildVerification (rt : Runtime) (evidence : SessionEvidence) :
    Except PyError Verification := do
  let res := evidence.verify
  let records ← evidence.actions.mapM (recordEntry res)
  let replay ← replayBlock evidence.receipt
  return {
    verdict := res.verdict
    valid := res.valid
    summary := res.summary rt
    record_count := res.record_count
    first_invalid_sequence := res.first_invalid_sequence
    missing_ranges := res.missing_ranges
    error := res.error
    records := records
    replay := replay }

end RootSign
