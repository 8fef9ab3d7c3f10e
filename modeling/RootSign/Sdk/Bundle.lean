import RootSign.ReceiptFiles
import RootSign.Sdk.Export

namespace RootSign

open RootSign.Python

/-!
# The documents of a bundle (`rootsign/sdk/export.py`)

The evidence of a session is turned into the timeline, the redaction inventory and, with the
verification, into a bundle, whose manifest hashes the other documents.

* `buildTimeline` — every event in narrative order, with or without its stored content;
* `redactedPaths`, `buildRedaction` — where the redaction sentinel stands in the payloads;
* `buildBundle`, `EvidenceBundle.manifest` — the bundle, and the hashes of its documents.
-/

/-! ### The timeline -/

/-- `CONTENT_FIELDS`: the timeline fields that carry stored content. -/
def contentFields : List String :=
  ["input_preview", "output_preview", "context_presented", "inputs_summary", "reasoning_summary"]

/-- `_NO_PREVIEWS_STORED`. -/
def noPreviewsStored : JStr :=
  JStr.ofString ("payload previews not retained for this session — only the input/output " ++
    "hashes the chain is built from were stored")

/-- `_PREVIEWS_STRIPPED`. -/
def previewsStripped : JStr :=
  JStr.ofString ("stored content withheld from this bundle (--redact-previews); hashes, " ++
    "identities and timings are unaffected")

/-- The event of a session's opening. -/
def openEvent (session : Dict) : Dict :=
  .ofFields
    [("type", .str "SESSION_OPEN"),
     ("timestamp", session.get "start_time"),
     ("objective", session.get "objective"),
     ("user_id", session.get "user_id")]

/-- The event of a decision. -/
def decisionEvent (decision : Dict) : Dict :=
  .ofFields
    [("type", .str "DECISION"),
     ("timestamp", decision.get "timestamp"),
     ("decision_id", decision.get "decision_id"),
     ("selected_action", decision.get "selected_action"),
     ("confidence", decision.get "confidence"),
     ("alternatives_considered", decision.get "alternatives_considered"),
     ("reasoning_summary", decision.get "reasoning_summary"),
     ("inputs_summary", decision.get "inputs_summary")]

/-- The event of an action. -/
def actionEvent (action : Dict) : Dict :=
  .ofFields
    [("type", .str "ACTION"),
     ("timestamp", action.get "timestamp"),
     ("sequence_number", action.get "sequence_number"),
     ("action_id", action.get "action_id"),
     ("tool_name", action.get "tool_name"),
     ("authorization_status", action.get "authorization_status"),
     ("duration_ms", action.get "duration_ms"),
     ("decision_id", action.get "decision_id"),
     ("input_hash", action.get "input_hash"),
     ("output_hash", action.get "output_hash"),
     ("input_preview", action.get "input_redacted"),
     ("output_preview", action.get "output_redacted")]

/-- The event of an approval. -/
def approvalEvent (approval : Dict) : Dict :=
  .ofFields
    [("type", .str "APPROVAL"),
     ("timestamp", approval.get "timestamp"),
     ("approval_id", approval.get "approval_id"),
     ("action_id", approval.get "action_id"),
     ("approver_id", approval.get "approver_id"),
     ("approver_type", approval.get "approver_type"),
     ("decision", approval.get "decision"),
     ("decision_reason", approval.get "decision_reason"),
     ("response_latency_ms", approval.get "response_latency_ms"),
     ("context_presented", approval.get "context_presented")]

/-- The event of a tally of losses. -/
def lossEvent (loss : Dict) : Dict :=
  .ofFields
    [("type", .str "RECORD_LOSS"),
     ("timestamp", orValue (loss.get "first_loss_at") (loss.get "recorded_at")),
     ("lost_count", loss.get "lost_count"),
     ("first_sequence", loss.get "first_sequence"),
     ("last_sequence", loss.get "last_sequence"),
     ("reasons", loss.get "reasons")]

/-- The event of a session's closing. -/
def closeEvent (session : Dict) : Dict :=
  .ofFields
    [("type", .str "SESSION_CLOSE"),
     ("timestamp", session.get "end_time"),
     ("status", session.get "status")]

/-- The events of a session, by kind. -/
def eventsOf (evidence : SessionEvidence) : List Dict :=
  (if evidence.session.isEmpty then [] else [openEvent evidence.session]) ++
    evidence.decisions.map decisionEvent ++ evidence.actions.map actionEvent ++
    evidence.approvals.map approvalEvent ++ evidence.losses.map lossEvent ++
    (if (evidence.session.get "end_time").truthy then [closeEvent evidence.session] else [])

/-- `_BOUNDARY_RANK.get(event.get("type", ""), 1)`. -/
def boundaryRank (event : Dict) : ℕ :=
  if (event.get "type").pyEq (.str "SESSION_OPEN") then 0
  else if (event.get "type").pyEq (.str "SESSION_CLOSE") then 2
  else 1

/-- The text that events of one rank are ordered by. -/
def narrativeText (rt : Runtime) (event : Dict) : JStr :=
  if Json.isNone (event.get "timestamp") then "9999" else rt.pyStr (event.get "timestamp")

/-- `_narrative_order(a) < _narrative_order(b)`. -/
def narrativeBefore (rt : Runtime) (a b : Dict) : Bool :=
  boundaryRank a < boundaryRank b ||
    (boundaryRank a == boundaryRank b && (narrativeText rt a).lt (narrativeText rt b))

/-- `events.sort(key=_narrative_order)`. -/
def sortEvents (rt : Runtime) (events : List Dict) : List Dict :=
  events.insertionSort fun a b => narrativeBefore rt b a = false

/-- The event has content under a key: a null field held nothing. -/
def carriesContent (event : Dict) (key : String) : Bool := !Json.isNone (event.get key)

/-- `del event[key]`, for every content field. -/
def stripContent (event : Dict) : Dict :=
  event.filter fun p => !(contentFields.any fun key => p.1 == JStr.ofString key)

/-- Stripping a dict display. -/
theorem stripContent_ofFields (fields : List (String × Json)) :
    stripContent (.ofFields fields) =
      .ofFields (fields.filter fun p => !contentFields.contains p.1) := by
  induction fields with
  | nil => rfl
  | cons p rest ih =>
    unfold stripContent Dict.ofFields at ih ⊢
    have hkey : (contentFields.any fun key => JStr.ofString p.1 == JStr.ofString key) =
        contentFields.contains p.1 := by
      simp only [JStr.ofString_beq]
      exact (List.contains_eq_any_beq).symm
    rw [List.map_cons, List.filter_cons, List.filter_cons, hkey, ih]
    split <;> rfl

/-- The `previews` block. -/
structure Previews where
  included : Bool
  note : Option JStr
  withheld_fields : List String
  withheld_from_events : ℕ

/-- `timeline.json`. -/
structure Timeline where
  session : Dict
  previews : Previews
  events : List Dict

/-- The `session` block. -/
def sessionBlock (evidence : SessionEvidence) : Dict :=
  .ofFields
    [("session_id", .str evidence.session_id),
     ("agent_id", evidence.session.get "agent_id"),
     ("objective", evidence.session.get "objective"),
     ("user_id", evidence.session.get "user_id"),
     ("status", evidence.session.get "status"),
     ("start_time", evidence.session.get "start_time"),
     ("end_time", evidence.session.get "end_time"),
     ("action_count", .int evidence.actions.length),
     ("decision_count", .int evidence.decisions.length),
     ("approval_count", .int evidence.approvals.length)]

/-- The names of the fields withheld from a list of events, sorted. -/
def withheldFields (events : List Dict) : List String :=
  (contentFields.filter fun key => events.any fun event => carriesContent event key).insertionSort
    (· ≤ ·)

/-- `_build_timeline`. -/
def buildTimeline (rt : Runtime) (evidence : SessionEvidence)
    (include_previews previews_stored : Bool) : Timeline :=
  let events := sortEvents rt (eventsOf evidence)
  { session := sessionBlock evidence
    previews :=
      { included := include_previews
        note :=
          if include_previews then none
          else some (if previews_stored then previewsStripped else noPreviewsStored)
        withheld_fields := if include_previews then [] else withheldFields events
        withheld_from_events :=
          if include_previews then 0
          else events.countP fun event => contentFields.any (carriesContent event) }
    events := if include_previews then events else events.map stripContent }

/-! ### The redaction inventory -/

/-- `REDACTED_PLACEHOLDER`. -/
def sentinel : JStr := "[REDACTED]"

mutual

/-- `_redacted_paths`: the dotted paths of every value equal to the sentinel. -/
def redactedPaths (path : JStr) : Json → List JStr
  | .obj fields => redactedPathsFields path fields
  | .arr items => redactedPathsItems path 0 items
  | .str s => if s = sentinel ∧ path.units ≠ [] then [path] else []
  | _ => []

/-- The fields of an object. -/
def redactedPathsFields (path : JStr) : List (JStr × Json) → List JStr
  | [] => []
  | (key, value) :: rest =>
    redactedPaths (if path.units.isEmpty then key else path ++ "." ++ key) value ++
      redactedPathsFields path rest

/-- The items of a list, by their index. -/
def redactedPathsItems (path : JStr) (index : ℕ) : List Json → List JStr
  | [] => []
  | value :: rest =>
    redactedPaths (path ++ "[" ++ JStr.ofChars (intText index) ++ "]") value ++
      redactedPathsItems path (index + 1) rest

end

/-- A record of `redaction.json`. -/
structure RedactionEntry where
  sequence_number : Json
  action_id : Json
  input_paths : List JStr
  output_paths : List JStr

/-- `redaction.json`; the sentinel and the provenance are fixed texts. -/
structure RedactionDocument where
  actions_with_redactions : ℕ
  redacted_fields : ℕ
  records : List RedactionEntry

/-- The entry of one action, if a redacted field is left in it. -/
def redactionEntry (action : Dict) : Option RedactionEntry :=
  let input_paths := redactedPaths "" (action.get "input_redacted")
  let output_paths := redactedPaths "" (action.get "output_redacted")
  if input_paths.isEmpty && output_paths.isEmpty then none
  else some
    { sequence_number := action.get "sequence_number"
      action_id := action.get "action_id"
      input_paths := input_paths
      output_paths := output_paths }

/-- `_build_redaction`. -/
def buildRedaction (evidence : SessionEvidence) : RedactionDocument :=
  let records := evidence.actions.filterMap redactionEntry
  { actions_with_redactions := records.length
    redacted_fields := (records.map fun r => r.input_paths.length + r.output_paths.length).sum
    records := records }

/-! ### The documents as JSON -/

/-- `_REDACTION_PROVENANCE`. -/
def redactionProvenance : JStr :=
  JStr.ofString ("RootSign does not record which redaction rule set was active when a " ++
    "session ran, and it is not derivable from stored records. The paths below " ++
    "are the fields that carry the redaction sentinel in the stored payloads — " ++
    "evidence that redaction happened, not evidence of which rule caused it.")

/-- A list of texts as JSON. -/
def textsJson (texts : List JStr) : Json := .arr (texts.map .str)

/-- The status of a record, as written. -/
def RecordStatus.text : RecordStatus → String
  | .verified => "verified"
  | .failed => "failed"
  | .unverified => "unverified"

/-- The value of a verdict. -/
def Verdict.text : Verdict → String
  | .VALID => "VALID"
  | .TAMPERED => "TAMPERED"
  | .INCOMPLETE => "INCOMPLETE"

/-- A record of `verification.json`. -/
def RecordEntry.asDict (r : RecordEntry) : Dict :=
  .ofFields
    [("sequence_number", r.sequence_number),
     ("action_id", r.action_id),
     ("timestamp", r.timestamp),
     ("tool_name", r.tool_name),
     ("prev_action_hash", r.prev_action_hash),
     ("self_hash", r.self_hash),
     ("chain_status", .str r.chain_status.text)]

/-- The note of the `hash` block. -/
def hashNote : JStr :=
  JStr.ofString ("Each record's self_hash is recomputed from its canonical fields " ++
    "and checked against the stored value; each record's " ++
    "prev_action_hash must equal its predecessor's self_hash.")

/-- `verification.json`. -/
def Verification.asDict (v : Verification) : Dict :=
  .ofFields
    ([("verdict", .str v.verdict.text),
      ("valid", .bool v.valid),
      ("summary", .str v.summary),
      ("record_count", .int v.record_count),
      ("first_invalid_sequence", v.first_invalid_sequence),
      ("missing_ranges", .arr (v.missing_ranges.map fun r => .arr [.int r.1, .int r.2])),
      ("error", Attempt.orNull .str v.error),
      ("hash", .obj (Dict.ofFields
        [("algorithm", .str "sha256"), ("canonical_spec", .str "ADR-001"),
         ("note", .str hashNote)])),
      ("records", .arr (v.records.map fun r => .obj r.asDict))] ++
      match v.replay with
      | some replay => [("replay", .obj replay)]
      | none => [])

/-- `timeline.json`. -/
def Timeline.asDict (t : Timeline) : Dict :=
  .ofFields
    [("session", .obj t.session),
     ("previews", .obj (Dict.ofFields
       [("included", .bool t.previews.included),
        ("note", Attempt.orNull .str t.previews.note),
        ("withheld_fields", textsJson (t.previews.withheld_fields.map JStr.ofString)),
        ("withheld_from_events", .int t.previews.withheld_from_events)])),
     ("events", .arr (t.events.map .obj))]

/-- A record of `redaction.json`. -/
def RedactionEntry.asDict (r : RedactionEntry) : Dict :=
  .ofFields
    [("sequence_number", r.sequence_number),
     ("action_id", r.action_id),
     ("input_paths", textsJson r.input_paths),
     ("output_paths", textsJson r.output_paths)]

/-- `redaction.json`. -/
def RedactionDocument.asDict (r : RedactionDocument) : Dict :=
  .ofFields
    [("sentinel", .str sentinel),
     ("rule_set", .obj (Dict.ofFields [("name", .null), ("provenance", .str redactionProvenance)])),
     ("totals", .obj (Dict.ofFields
       [("actions_with_redactions", .int r.actions_with_redactions),
        ("redacted_fields", .int r.redacted_fields)])),
     ("records", .arr (r.records.map fun entry => .obj entry.asDict))]

/-! ### The bundle -/

/-- `EvidenceBundle`; `rendered` holds the attached reports. -/
structure EvidenceBundle where
  session_id : JStr
  verification : Verification
  timeline : Timeline
  redaction : RedactionDocument
  source_backend : String
  source_location : JStr
  agent : Option Dict
  generated_at : JStr
  rendered : List (String × List CodeUnit)
  receipt : Option Dict

/-- `build_bundle`, at the time `generated_at`. -/
def buildBundle (rt : Runtime) (generated_at : JStr) (redact_previews : Bool)
    (evidence : SessionEvidence) : Except PyError EvidenceBundle := do
  let previews_stored := evidence.actions.any fun action =>
    carriesContent action "input_redacted" || carriesContent action "output_redacted"
  let include_previews := previews_stored && !redact_previews
  let verification ← buildVerification rt evidence
  return {
    session_id := evidence.session_id
    verification := verification
    timeline := buildTimeline rt evidence include_previews previews_stored
    redaction := buildRedaction evidence
    source_backend := evidence.source_backend
    source_location := evidence.source_location
    agent := evidence.agent
    generated_at := generated_at
    rendered := []
    receipt := evidence.receipt }

/-- `documents()`. -/
def EvidenceBundle.documents (b : EvidenceBundle) : List (String × Dict) :=
  [("verification.json", b.verification.asDict), ("timeline.json", b.timeline.asDict),
   ("redaction.json", b.redaction.asDict)] ++
    match b.receipt with
    | some receipt => [("sync-receipt.json", receipt)]
    | none => []

/-- `files()`: every file but the manifest. -/
def EvidenceBundle.files (b : EvidenceBundle) (w : JsonLimits) :
    Except ReceiptError (List (String × List CodeUnit)) :=
  (b.documents.mapM fun p => (dumpsReceipt w p.2).map fun text => (p.1, text)).map (· ++ b.rendered)

/-- What the manifest says; its version and generator are those of the package. -/
structure Manifest where
  generated_at : JStr
  generator : JStr
  session_id : JStr
  agent : Dict
  backend : String
  location : JStr
  verdict : Verdict
  files : List (String × JStr)

/-- `manifest`. -/
def EvidenceBundle.manifest (b : EvidenceBundle) (w : JsonLimits) (sdk_version : JStr) :
    Except ReceiptError Manifest := do
  let files ← b.files w
  let hashes ← (files.insertionSort fun p q => p.1 ≤ q.1).mapM fun p =>
    (sha256Text p.2).map fun digest => (p.1, digest)
  return {
    generated_at := b.generated_at
    generator := "rootsign " ++ sdk_version
    session_id := b.session_id
    agent :=
      match b.agent with
      | some (p :: rest) => p :: rest
      | _ => .ofFields [("detail", .str "agent identity not recorded in this source")]
    backend := b.source_backend
    location := b.source_location
    verdict := b.verification.verdict
    files := hashes }

end RootSign
