import RootSign.Hashing
import RootSign.Verdict
import RootSign.Lib.Linked

namespace RootSign

open RootSign.Lib RootSign.Python

/-!
# The offline verifier (`rootsign/sdk/chain.py`)

`verify_session_local` on the stripped nonblank lines of a session file.

* `checkRecord` is one turn of the walk: recompute the hash, compare the link, bind the
  redacted payloads.
* `walk` carries the last hash seen and stops at the first failure.
* `verifyRecords` sorts, computes the gaps, looks for duplicates and walks.
* `verifySessionLocal` parses the lines and selects the action records.
* `verifyRecords_eq` — on integer sequence numbers sorting succeeds and the outcome is that
  of the walk over the sorted records.
-/

/-! ### The verifier -/

/-- A stripped nonblank line: one on which `json.loads` raises `JSONDecodeError`, one on which it
    raises anything else (`ValueError` for a number of too many digits, `RecursionError` for values
    nested too deep), or the value it returns. -/
inductive Line where
  | malformed
  | raises (e : PyError)
  | value (v : Json)

/-- `json.loads` raises nothing but `JSONDecodeError` on the lines. -/
def NoneRaises (lines : List Line) : Prop := ∀ l ∈ lines, ∀ e, l ≠ .raises e

/-- Verification outcome of one session. -/
structure VerifyResult where
  verdict : Verdict
  record_count : ℕ
  session_id : Json
  first_invalid_sequence : Json := .null
  error : Option JStr := none
  missing_ranges : List SeqRange := []

/-- `VerifyResult.valid`. -/
def VerifyResult.valid (res : VerifyResult) : Bool := res.verdict == .VALID

/-- Read lines until one does not parse: the values before it, and whether there is one.  Only
    `JSONDecodeError` is caught. -/
def parseLines : List Line → Except PyError (List Json × Bool)
  | [] => .ok ([], false)
  | .malformed :: _ => .ok ([], true)
  | .raises e :: _ => .error e
  | .value v :: rest => (parseLines rest).map fun p => (v :: p.1, p.2)

/-- A value as a dict; anything else has no `get`. -/
def asDict : Json → Except PyError Dict
  | .obj fields => .ok fields
  | _ => .error .attributeError

/-- `all_records[0].get("session_id") if all_records else None`. -/
def firstSessionId : List Json → Except PyError Json
  | [] => .ok .null
  | v :: _ => (asDict v).map fun r => r.get "session_id"

/-- Action records, and legacy lines that carry no event type. -/
def isActionLine (r : Dict) : Bool :=
  (r.getD "event_type" (.str "ACTION_RECORD")).pyEq (.str "ACTION_RECORD")

/-- `redacted is not None and compute_payload_hash(redacted) != hash`, negated. -/
def bindingHolds (rt : Runtime) (record : Dict) (redacted hash : String) : Bool :=
  match record.get redacted with
  | .null => true
  | payload => (record.get hash).pyEq (.str (computePayloadHash rt payload))

/-- The check of the link: a break is a failure unless a gap explains it. -/
def linkFailure (rt : Runtime) (gaps : List SeqRange) (expected_prev : Json) (record : Dict) :
    Except PyError (Option (FailureKind × JStr)) :=
  if (record.get "prev_action_hash").orNone.pyEq expected_prev then .ok none
  else (explainsBreak rt (record.get "sequence_number") gaps).map fun explained =>
    if explained then none else some (.PREV_HASH_MISMATCH, "prev_action_hash chain broken")

/-- The check of the redacted payloads, input first. -/
def bindingFailure (rt : Runtime) (record : Dict) : Option (FailureKind × JStr) :=
  if !bindingHolds rt record "input_redacted" "input_hash" then
    some (.PAYLOAD_BINDING, "payload_hash mismatch: input_redacted does not match input_hash")
  else if !bindingHolds rt record "output_redacted" "output_hash" then
    some (.PAYLOAD_BINDING, "payload_hash mismatch: output_redacted does not match output_hash")
  else none

/-- One turn of the walk. -/
def checkRecord (rt : Runtime) (gaps : List SeqRange) (expected_prev : Json) (record : Dict) :
    Except PyError (Option (FailureKind × JStr)) :=
  match computeActionSelfHash rt record with
  | .error (.keyError key) =>
    .ok (some (.MISSING_FIELD, "missing canonical field '" ++ JStr.ofString key ++ "'"))
  | .error e => .error e
  | .ok recomputed =>
    if !(record.get "self_hash").pyEq (.str recomputed) then
      .ok (some (.SELF_HASH_MISMATCH, "self_hash mismatch"))
    else do
      match ← linkFailure rt gaps expected_prev record with
      | some failure => return some failure
      | none => return bindingFailure rt record

/-- The walk: carry the last hash, stop at the first failure. -/
def walk (rt : Runtime) (gaps : List SeqRange) :
    Json → List Dict → Except PyError (Option (FailureKind × Json × JStr))
  | _, [] => .ok none
  | expected_prev, record :: rest => do
    match ← checkRecord rt gaps expected_prev record with
    | some (kind, error) => return some (kind, record.get "sequence_number", error)
    | none => walk rt gaps (record.get "self_hash") rest

/-- The second of two adjacent equal sequence numbers. -/
def firstDuplicate : List Json → Option Json
  | a :: b :: rest => if a.pyEq b then some b else firstDuplicate (b :: rest)
  | _ => none

/-- The verifier on the action records, given what it read before. -/
def verifyRecords (rt : Runtime) (session_id : Json) (records : List Dict) :
    Except PyError VerifyResult := do
  let keyed ← records.mapM fun r => (r.item "sequence_number").map fun k => (k, r)
  let sorted ← sortByKey keyed
  let sequences := sorted.map Prod.fst
  let records := sorted.map Prod.snd
  let gaps := missingRanges sequences
  let tampered (kind : FailureKind) (sequence : Json) (error : JStr) : VerifyResult :=
    { verdict := decideVerdict gaps (some kind)
      record_count := records.length
      session_id := session_id
      first_invalid_sequence := sequence
      error := some error
      missing_ranges := gaps }
  match firstDuplicate sequences with
  | some b =>
    return tampered .DUPLICATE_SEQUENCE b
      ("duplicate sequence_number " ++ rt.pyStr b ++ " (chain replay/corruption)")
  | none =>
    match ← walk rt gaps .null records with
    | some (kind, sequence, error) => return tampered kind sequence error
    | none =>
      return {
        verdict := decideVerdict gaps none
        record_count := records.length
        session_id := session_id
        first_invalid_sequence := (gaps.head?.map fun r => Json.int r.1).getD .null
        error :=
          if gaps.isEmpty then none
          else some (JStr.ofChars (intText (missingCount gaps) ++
            " record(s) missing at sequence ".toList ++ describeMissing gaps))
        missing_ranges := gaps }

/-- `verify_session_local`. -/
def verifySessionLocal (rt : Runtime) (raw_lines : List Line) : Except PyError VerifyResult :=
  if raw_lines.isEmpty then
    .ok { verdict := .TAMPERED, record_count := 0, session_id := .null,
          error := some "No records found in file" }
  else do
    let (all_records, stopped) ← parseLines raw_lines
    let session_id ← firstSessionId all_records
    if stopped then
      return {
        verdict := .TAMPERED
        record_count := all_records.length
        session_id := session_id
        error := some
          (if all_records.length + 1 = raw_lines.length then
            "truncated final line — incomplete write (crash mid-append?)"
          else "malformed JSON at line " ++ JStr.ofChars (intText (all_records.length + 1))) }
    else
      let dicts ← all_records.mapM asDict
      let records := dicts.filter isActionLine
      if records.isEmpty then
        return { verdict := .VALID, record_count := 0, session_id := session_id }
      else verifyRecords rt session_id records

/-! ### What one turn checks -/

variable {rt : Runtime} {gaps : List SeqRange}

/-- A record that agrees with its own hashes: the self hash recomputes, and each redacted
    payload hashes to the recorded hash. -/
structure RecordIntact (rt : Runtime) (r : Dict) : Prop where
  self_hash : ∃ h, computeActionSelfHash rt r = .ok h ∧ r.get "self_hash" = .str h
  input_bound : r.get "input_redacted" ≠ .null →
    r.get "input_hash" = .str (computePayloadHash rt (r.get "input_redacted"))
  output_bound : r.get "output_redacted" ≠ .null →
    r.get "output_hash" = .str (computePayloadHash rt (r.get "output_redacted"))

/-- `RecordIntact.input_bound` and `RecordIntact.output_bound`, as the walk tests them. -/
theorem bindingHolds_iff {r : Dict} {redacted hash : String} :
    bindingHolds rt r redacted hash = true ↔
      (r.get redacted ≠ .null → r.get hash = .str (computePayloadHash rt (r.get redacted))) := by
  unfold bindingHolds
  split
  case h_1 heq => simp [heq]
  case h_2 hne => rw [Json.pyEq_str]; exact ⟨fun h _ => h, fun h => h (by simpa using hne)⟩

/-- What is wrong with a record in the walk, given whether a gap excuses its link. -/
def recordFault (rt : Runtime) (explained : Dict → Bool) (expected_prev : Json) (r : Dict) :
    Option (FailureKind × JStr) :=
  match computeActionSelfHash rt r with
  | .error (.keyError key) =>
    some (.MISSING_FIELD, "missing canonical field '" ++ JStr.ofString key ++ "'")
  | .error _ => none
  | .ok recomputed =>
    if !(r.get "self_hash").pyEq (.str recomputed) then
      some (.SELF_HASH_MISMATCH, "self_hash mismatch")
    else if !(r.get "prev_action_hash").orNone.pyEq expected_prev && !explained r then
      some (.PREV_HASH_MISMATCH, "prev_action_hash chain broken")
    else bindingFailure rt r

theorem bindingFailure_eq_none {r : Dict} :
    bindingFailure rt r = none ↔
      bindingHolds rt r "input_redacted" "input_hash" = true ∧
        bindingHolds rt r "output_redacted" "output_hash" = true := by
  unfold bindingFailure
  cases bindingHolds rt r "input_redacted" "input_hash" <;>
    cases bindingHolds rt r "output_redacted" "output_hash" <;> simp

/-- A record passes the walk when it agrees with its hashes and names the record before it,
    or a gap excuses that it does not. -/
theorem recordFault_eq_none {explained : Dict → Bool} {expected_prev : Json} {r : Dict} :
    recordFault rt explained expected_prev r = none ↔
      RecordIntact rt r ∧
        ((r.get "prev_action_hash").orNone.pyEq expected_prev = true ∨ explained r = true) := by
  have hbound := @bindingFailure_eq_none rt r
  rw [bindingHolds_iff, bindingHolds_iff] at hbound
  unfold recordFault
  -- a canonical field is missing, or the digest is compared
  cases hself : computeActionSelfHash rt r with
  | error e =>
    obtain ⟨key, rfl⟩ := computeActionSelfHash_error hself
    refine ⟨fun h => by simp at h, fun ⟨h, _⟩ => ?_⟩
    obtain ⟨_, hok, -⟩ := h.self_hash
    rw [hself] at hok
    exact absurd hok (by simp)
  | ok recomputed =>
    have hintact : RecordIntact rt r ↔
        (r.get "self_hash").pyEq (.str recomputed) = true ∧ bindingFailure rt r = none := by
      rw [Json.pyEq_str, hbound]
      constructor
      · rintro ⟨⟨h, hok, heq⟩, hin, hout⟩
        rw [hself, Except.ok.injEq] at hok
        exact ⟨by rw [heq, hok], hin, hout⟩
      · rintro ⟨heq, hin, hout⟩
        exact ⟨⟨recomputed, hself, heq⟩, hin, hout⟩
    rw [hintact]
    -- the three tests in the order in which the walk makes them
    cases h1 : (r.get "self_hash").pyEq (.str recomputed) <;>
      cases h2 : (r.get "prev_action_hash").orNone.pyEq expected_prev <;>
      cases h3 : explained r <;> simp [h1]

/-! ### The walk as a search for the first fault -/

/-- A fault as the walk reports it, with the record's sequence number. -/
def reportedFault (rt : Runtime) (explained : Dict → Bool) (expected_prev : Json) (r : Dict) :
    Option (FailureKind × Json × JStr) :=
  (recordFault rt explained expected_prev r).map fun f => (f.1, r.get "sequence_number", f.2)

theorem reportedFault_eq_none {explained : Dict → Bool} {expected_prev : Json} {r : Dict} :
    reportedFault rt explained expected_prev r = none ↔
      recordFault rt explained expected_prev r = none :=
  Option.map_eq_none_iff

/-- One turn, when asking for an explanation does not raise. -/
theorem checkRecord_eq {explained : Dict → Bool} {expected_prev : Json} {r : Dict}
    (h : explainsBreak rt (r.get "sequence_number") gaps = .ok (explained r)) :
    checkRecord rt gaps expected_prev r = .ok (recordFault rt explained expected_prev r) := by
  unfold checkRecord recordFault
  cases hself : computeActionSelfHash rt r with
  | error e => obtain ⟨key, rfl⟩ := computeActionSelfHash_error hself; rfl
  | ok recomputed =>
    unfold linkFailure
    rw [h]
    cases h1 : (r.get "self_hash").pyEq (.str recomputed) <;>
      cases h2 : (r.get "prev_action_hash").orNone.pyEq expected_prev <;>
      cases h3 : explained r <;> simp [h1] <;> rfl

/-- **The walk finds the first fault**, when asking for an explanation does not raise. -/
theorem walk_eq {explained : Dict → Bool} {expected_prev : Json} {records : List Dict}
    (h : ∀ r ∈ records, explainsBreak rt (r.get "sequence_number") gaps = .ok (explained r)) :
    walk rt gaps expected_prev records =
      .ok (firstFault (reportedFault rt explained) (fun r => r.get "self_hash")
        expected_prev records) := by
  induction records generalizing expected_prev with
  | nil => rfl
  | cons r rest ih =>
    have hrest := @ih (r.get "self_hash") fun r' hr' => h r' (by simp [hr'])
    rw [walk, checkRecord_eq (h r (by simp))]
    simp only [firstFault, reportedFault, bind, Except.bind]
    cases recordFault rt explained expected_prev r with
    | none => exact hrest
    | some f => rfl

end RootSign
