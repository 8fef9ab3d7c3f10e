import RootSign.Ingest.Schemas
import RootSign.Store.Columns
import RootSign.Verdict
import RootSign.ChainState

namespace RootSign

open RootSign.Lib RootSign.Python

/-!
# The action table (`rootsign/crud/action.py`, `rootsign/models/action.py`)

The write path extends the chain of a session row; the verifier walks the rows again.

* `extendChain` — steps 2 to 7 of `create_with_hash`: number, link and hash the action, and
  advance the copy of the session row at hand;
* `createWithHash` — the whole of it, on the committed tables;
* `verifyChain` — `verify_chain` on the stored rows of a session;
* `rowIntact_of_valid` — the rows of a `VALID` chain are intact;
* `SessionChain` — the shape the write path gives a session's chain, which
  `SessionChain.extended` keeps and `SessionChain.verifyChain_valid` verifies.
-/

/-! ### Rows -/

/-- `SessionStatus`. -/
inductive SessionStatus where
  | RUNNING
  | COMPLETED
  | FAILED
  | ABANDONED
deriving DecidableEq, Repr

/-- `SessionStatus.….value`. -/
def SessionStatus.text : SessionStatus → String
  | .RUNNING => "running"
  | .COMPLETED => "completed"
  | .FAILED => "failed"
  | .ABANDONED => "abandoned"

/-- A row of `sessions`: the status, and the denormalized chain fields. -/
structure SessionRow where
  status : SessionStatus
  chain_head_hash : Option JStr := none
  chain_tail_hash : Option JStr := none
  action_count : ℤ := 0
deriving DecidableEq

/-- `ActionAuthorizationStatus`, and the status only the database knows. -/
inductive AuthorizationStatus where
  | AUTO_AUTHORIZED
  | HUMAN_APPROVED
  | HUMAN_REJECTED
  | PENDING
  | BYPASSED
  | TIMED_OUT
deriving DecidableEq, Repr

/-- The members of the schema's enum, by value; `timed_out` is not one of them. -/
def AuthorizationStatus.ofText (s : JStr) : Option AuthorizationStatus :=
  if s = "auto_authorized" then some .AUTO_AUTHORIZED
  else if s = "human_approved" then some .HUMAN_APPROVED
  else if s = "human_rejected" then some .HUMAN_REJECTED
  else if s = "pending" then some .PENDING
  else if s = "bypassed" then some .BYPASSED
  else none

/-- `ActionCreate`: the fields the caller supplies. -/
structure ActionCreate where
  session_id : Uuid
  decision_id : Option Uuid
  policy_id : Option Uuid
  tool_name : JStr
  input_hash : JStr
  output_hash : Option JStr
  input_redacted : Option Dict
  output_redacted : Option Dict
  timestamp : PyDateTime
  duration_ms : Option ℕ
  authorization_status : AuthorizationStatus

/-- A row of `actions`; a missing redacted payload is `None`. -/
structure ActionRow where
  action_id : Uuid
  timestamp : PyDateTime
  session_id : Uuid
  decision_id : Option Uuid
  policy_id : Option Uuid
  tool_name : JStr
  input_hash : JStr
  output_hash : Option JStr
  input_redacted : Json
  output_redacted : Json
  prev_action_hash : Option JStr
  self_hash : JStr
  duration_ms : Option ℕ
  authorization_status : AuthorizationStatus
  sequence_number : ℤ

/-- `dict | None` as a value. -/
def optDict : Option Dict → Json
  | some fields => .obj fields
  | none => .null

/-- The committed tables. -/
structure Database where
  sessions : Uuid → Option SessionRow
  actions : List ActionRow
  policies : Uuid → Bool

/-- Tables with the given sessions and no actions. -/
def Database.opened (status : Uuid → Option SessionStatus) (policies : Uuid → Bool) :
    Database where
  sessions := fun session => (status session).map fun status => { status := status }
  actions := []
  policies := policies

/-- What a store call can raise: an `IngestError`, which the handler answers, or anything
    else, which escapes it.  A `renderingError` is what a `repr` raises while a message is built. -/
inductive HandlerError where
  | ingest (error_code : ErrorCode) (message : JStr) (retryable : Bool)
  | noResultFound
  | databaseError
  | validationError
  | renderingError
  | python (e : PyError)

/-! ### The canonical input -/

/-- The dict both ends hash, with the `datetime` as the `isoformat()` the hash makes of it. -/
def canonicalInput (action_id session_id : Uuid) (tool_name input_hash : JStr)
    (output_hash prev_action_hash : Option JStr) (timestamp : PyDateTime)
    (sequence_number : ℤ) : Dict :=
  Dict.ofFields
    [("action_id", .str action_id.text),
     ("session_id", .str session_id.text),
     ("tool_name", .str tool_name),
     ("input_hash", .str input_hash),
     ("output_hash", optStr output_hash),
     ("prev_action_hash", optStr prev_action_hash),
     ("timestamp", .str (JStr.ofChars timestamp.isoformat)),
     ("sequence_number", .int sequence_number)]

/-- The canonical fields of a row. -/
def ActionRow.canonical (row : ActionRow) : Canonical where
  action_id := row.action_id.text
  session_id := row.session_id.text
  tool_name := .str row.tool_name
  input_hash := .str row.input_hash
  output_hash := (optStr row.output_hash).orEmpty
  prev_action_hash := (optStr row.prev_action_hash).orEmpty
  timestamp := .str (JStr.ofChars row.timestamp.isoformat)
  sequence_number := .int row.sequence_number

/-- The canonical hash of a row never raises. -/
theorem computeActionSelfHash_row (rt : Runtime) (row : ActionRow) :
    computeActionSelfHash rt
        (canonicalInput row.action_id row.session_id row.tool_name row.input_hash
          row.output_hash row.prev_action_hash row.timestamp row.sequence_number) =
      .ok (row.canonical.selfHash rt) := by
  have hfields : HasCanonicalFields
      (canonicalInput row.action_id row.session_id row.tool_name row.input_hash
        row.output_hash row.prev_action_hash row.timestamp row.sequence_number) := by
    constructor <;> simp [canonicalInput, Dict.has_ofFields, List.lookup_cons]
  rw [computeActionSelfHash_eq rt hfields]
  simp [Canonical.ofDict, canonicalInput, Dict.get_ofFields, List.lookup_cons, ActionRow.canonical]

/-! ### The write path -/

/-- The row built for an action under the next number of the session copy at hand. -/
def newRow (fresh : Uuid) (session_row : SessionRow) (obj_in : ActionCreate)
    (self_hash : JStr) : ActionRow where
  action_id := fresh
  timestamp := obj_in.timestamp
  session_id := obj_in.session_id
  decision_id := obj_in.decision_id
  policy_id := obj_in.policy_id
  tool_name := obj_in.tool_name
  input_hash := obj_in.input_hash
  output_hash := obj_in.output_hash
  input_redacted := optDict obj_in.input_redacted
  output_redacted := optDict obj_in.output_redacted
  prev_action_hash := session_row.chain_tail_hash
  self_hash := self_hash
  duration_ms := obj_in.duration_ms
  authorization_status := obj_in.authorization_status
  sequence_number := session_row.action_count + 1

/-- Steps 2 to 7: read the tail, number, hash, and advance the copy of the session row. -/
def extendChain (rt : Runtime) (fresh : Uuid) (session_row : SessionRow)
    (obj_in : ActionCreate) : Except PyError (ActionRow × SessionRow) := do
  let prev_hash := session_row.chain_tail_hash
  let seq := session_row.action_count + 1
  let self_hash ← computeActionSelfHash rt
    (canonicalInput fresh obj_in.session_id obj_in.tool_name obj_in.input_hash
      obj_in.output_hash prev_hash obj_in.timestamp seq)
  return (newRow fresh session_row obj_in self_hash,
    { session_row with
      chain_head_hash := some (session_row.chain_head_hash.getD self_hash)
      chain_tail_hash := some self_hash
      action_count := seq })

/-- The new row with the hash of its own canonical fields. -/
def sealedRow (rt : Runtime) (fresh : Uuid) (session_row : SessionRow)
    (obj_in : ActionCreate) : ActionRow :=
  newRow fresh session_row obj_in ((newRow fresh session_row obj_in "").canonical.selfHash rt)

theorem sealedRow_self_hash (rt : Runtime) (fresh : Uuid) (session_row : SessionRow)
    (obj_in : ActionCreate) :
    (sealedRow rt fresh session_row obj_in).self_hash =
      (sealedRow rt fresh session_row obj_in).canonical.selfHash rt := rfl

/-- **Extending the chain** never raises: the row is linked to the tail and hashed, and the
    session row advances to it. -/
theorem extendChain_eq (rt : Runtime) (fresh : Uuid) (session_row : SessionRow)
    (obj_in : ActionCreate) :
    extendChain rt fresh session_row obj_in =
      .ok (sealedRow rt fresh session_row obj_in,
        { session_row with
          chain_head_hash := some (session_row.chain_head_hash.getD
            (sealedRow rt fresh session_row obj_in).self_hash)
          chain_tail_hash := some (sealedRow rt fresh session_row obj_in).self_hash
          action_count := session_row.action_count + 1 }) := by
  have hhash : computeActionSelfHash rt
      (canonicalInput fresh obj_in.session_id obj_in.tool_name obj_in.input_hash
        obj_in.output_hash session_row.chain_tail_hash obj_in.timestamp
        (session_row.action_count + 1)) = .ok (sealedRow rt fresh session_row obj_in).self_hash :=
    computeActionSelfHash_row rt (newRow fresh session_row obj_in "")
  unfold extendChain
  simp only [hhash]
  rfl

/-- The largest value of an `Integer` column. -/
def maxInteger : ℤ := 2147483647

/-- The columns, the foreign key and the primary key take the row. -/
def Database.accepts (db : Database) (row : ActionRow) : Bool :=
  storableText row.tool_name && storable row.input_redacted && storable row.output_redacted &&
    row.duration_ms.all (fun d => (d : ℤ) ≤ maxInteger) && row.sequence_number ≤ maxInteger &&
    row.policy_id.all db.policies &&
    db.actions.all fun r => !(r.action_id == row.action_id && r.timestamp == row.timestamp)

/-- The row as its columns give it back, when its instant is representable in UTC. -/
def ActionRow.readBack (row : ActionRow) : Option ActionRow :=
  row.timestamp.toUtc.map fun timestamp =>
    { row with
      timestamp := timestamp
      input_redacted := jsonb row.input_redacted
      output_redacted := jsonb row.output_redacted }

/-- Reading a row back changes its timestamp and its redacted payloads only. -/
theorem readBack_eq_some {row stored : ActionRow} (h : row.readBack = some stored) :
    ∃ t, row.timestamp.toUtc = some t ∧ stored = { row with
      timestamp := t
      input_redacted := jsonb row.input_redacted
      output_redacted := jsonb row.output_redacted } := by
  obtain ⟨t, ht, rfl⟩ := Option.map_eq_some_iff.mp h
  exact ⟨t, ht, rfl⟩

/-- Reading a row back keeps its place in the chain. -/
theorem readBack_chain {row stored : ActionRow} (h : row.readBack = some stored) :
    stored.session_id = row.session_id ∧ stored.sequence_number = row.sequence_number ∧
      stored.prev_action_hash = row.prev_action_hash ∧ stored.self_hash = row.self_hash := by
  obtain ⟨t, -, rfl⟩ := readBack_eq_some h
  exact ⟨rfl, rfl, rfl, rfl⟩

/-- The tables with one more row, and a new session row. -/
def Database.extended (db : Database) (row : ActionRow) (session_row : SessionRow) : Database :=
  { db with
    sessions := Function.update db.sessions row.session_id (some session_row)
    actions := db.actions ++ [row] }

/-- Flush the new row and the advanced session row, and refresh the row. -/
def Database.insertAction (db : Database) (row : ActionRow) (session_row : SessionRow) :
    Except HandlerError (ActionRow × Database) :=
  match row.readBack with
  | some stored =>
    if db.accepts stored then .ok (stored, db.extended stored session_row)
    else .error .databaseError
  | none => .error .databaseError

/-- `create_with_hash`, with nothing else in flight. -/
def createWithHash (rt : Runtime) (fresh : Uuid) (db : Database) (obj_in : ActionCreate) :
    Except HandlerError (ActionRow × Database) :=
  match db.sessions obj_in.session_id with
  | none => .error .noResultFound
  | some session_row =>
    match extendChain rt fresh session_row obj_in with
    | .error e => .error (.python e)
    | .ok (row, session_row) => db.insertAction row session_row

/-- What a successful call has done: the row sealed on the session's tail is stored as its
    columns keep it, and the session row has advanced to it. -/
theorem createWithHash_ok {rt : Runtime} {fresh : Uuid} {db db' : Database}
    {obj_in : ActionCreate} {row : ActionRow}
    (h : createWithHash rt fresh db obj_in = .ok (row, db')) :
    ∃ session_row, db.sessions obj_in.session_id = some session_row ∧
      (sealedRow rt fresh session_row obj_in).readBack = some row ∧
      db' = db.extended row
        { session_row with
          chain_head_hash := some (session_row.chain_head_hash.getD
            (sealedRow rt fresh session_row obj_in).self_hash)
          chain_tail_hash := some (sealedRow rt fresh session_row obj_in).self_hash
          action_count := session_row.action_count + 1 } := by
  unfold createWithHash at h
  cases hsession : db.sessions obj_in.session_id with
  | none => rw [hsession] at h; exact absurd h (by simp)
  | some session_row =>
    simp only [hsession, extendChain_eq, Database.insertAction] at h
    refine ⟨session_row, rfl, ?_⟩
    cases hstored : (sealedRow rt fresh session_row obj_in).readBack with
    | none => rw [hstored] at h; exact absurd h (by simp)
    | some stored =>
      simp only [hstored] at h
      split at h
      · obtain ⟨rfl, rfl⟩ := Prod.mk.inj (Except.ok.inj h)
        exact ⟨rfl, rfl⟩
      · exact absurd h (by simp)

/-! ### The verifier -/

/-- The rows of a session, in the order they were committed. -/
def rowsOf (db : Database) (session_id : Uuid) : List ActionRow :=
  db.actions.filter fun a => a.session_id == session_id

/-- `get_session_chain`: the rows of a session by sequence number. -/
def getSessionChain (db : Database) (session_id : Uuid) : List ActionRow :=
  (rowsOf db session_id).insertionSort fun a b => a.sequence_number ≤ b.sequence_number

/-- `s or None`. -/
def strOrNone : Option JStr → Option JStr
  | some s => if s.units.isEmpty then none else some s
  | none => none

/-- `_payload_binding_error`. -/
def payloadBindingError (rt : Runtime) (action : ActionRow) : Option JStr :=
  let mismatch (what hash : String) : JStr :=
    "payload_hash mismatch at sequence_number=" ++
      JStr.ofChars (intText action.sequence_number) ++ ": " ++ JStr.ofString what ++
      " does not match " ++ JStr.ofString hash
  if !Json.isNone action.input_redacted &&
      computePayloadHash rt action.input_redacted != action.input_hash then
    some (mismatch "input_redacted" "input_hash")
  else if !Json.isNone action.output_redacted &&
      some (computePayloadHash rt action.output_redacted) != action.output_hash then
    some (mismatch "output_redacted" "output_hash")
  else none

/-- One turn of the walk: number, hash, link, payloads. -/
def checkRow (rt : Runtime) (gaps : List SeqRange) (seen : List ℤ)
    (expected_prev : Option JStr) (action : ActionRow) :
    Except PyError (Option (FailureKind × JStr)) := do
  let number := JStr.ofChars (intText action.sequence_number)
  if action.sequence_number ∈ seen then
    return some (.DUPLICATE_SEQUENCE,
      "duplicate sequence_number " ++ number ++ " (chain replay/corruption)")
  let recomputed ← computeActionSelfHash rt
    (canonicalInput action.action_id action.session_id action.tool_name action.input_hash
      action.output_hash action.prev_action_hash action.timestamp action.sequence_number)
  if recomputed ≠ action.self_hash then
    return some (.SELF_HASH_MISMATCH, "self_hash mismatch at sequence_number=" ++ number ++
      " (stored=" ++ action.self_hash ++ ", recomputed=" ++ recomputed ++ ")")
  if strOrNone action.prev_action_hash ≠ expected_prev then
    unless ← explainsBreak rt (.int action.sequence_number) gaps do
      return some (.PREV_HASH_MISMATCH, "prev_action_hash mismatch at sequence_number=" ++ number)
  return (payloadBindingError rt action).map fun error => (.PAYLOAD_BINDING, error)

/-- The walk over the rows: carry the numbers seen and the last hash, stop at the first
    failure. -/
def walkRows (rt : Runtime) (gaps : List SeqRange) :
    List ℤ → Option JStr → List ActionRow →
      Except PyError (Option (FailureKind × ℤ × JStr))
  | _, _, [] => .ok none
  | seen, expected_prev, action :: rest => do
    match ← checkRow rt gaps seen expected_prev action with
    | some (kind, error) => return some (kind, action.sequence_number, error)
    | none => walkRows rt gaps (action.sequence_number :: seen) (some action.self_hash) rest

/-- The published result of `verify_chain`. -/
structure ChainResult where
  valid : Bool
  verdict : Verdict
  record_count : ℕ
  first_invalid_sequence : Option ℤ
  missing_ranges : List SeqRange
  error : Option JStr

/-- `verify_chain`. -/
def verifyChain (rt : Runtime) (db : Database) (session_id : Uuid) :
    Except PyError ChainResult := do
  let actions := getSessionChain db session_id
  if actions.isEmpty then
    return { valid := true, verdict := .VALID, record_count := 0,
             first_invalid_sequence := none, missing_ranges := [], error := none }
  let gaps := missingRanges (actions.map fun a => .int a.sequence_number)
  let result (verdict : Verdict) (sequence : Option ℤ) (error : Option JStr) : ChainResult :=
    { valid := verdict == .VALID
      verdict := verdict
      record_count := actions.length
      first_invalid_sequence := sequence
      missing_ranges := gaps
      error := error }
  match ← walkRows rt gaps [] none actions with
  | some (kind, sequence, error) =>
    return result (decideVerdict gaps (some kind)) (some sequence) (some error)
  | none =>
    match gaps with
    | [] => return result (decideVerdict gaps none) none none
    | first :: _ =>
      return result (decideVerdict gaps none) (some first.1)
        (some (JStr.ofChars (intText (missingCount gaps) ++
          " record(s) missing at sequence ".toList ++ describeMissing gaps)))

/-! ### What a `VALID` verdict says -/

variable {rt : Runtime}

/-- No binding error: each payload present hashes to the hash beside it. -/
theorem payloadBindingError_eq_none {row : ActionRow} :
    payloadBindingError rt row = none ↔
      (Json.isNone row.input_redacted = false →
        computePayloadHash rt row.input_redacted = row.input_hash) ∧
      (Json.isNone row.output_redacted = false →
        some (computePayloadHash rt row.output_redacted) = row.output_hash) := by
  unfold payloadBindingError
  by_cases hin : computePayloadHash rt row.input_redacted = row.input_hash <;>
    by_cases hout : some (computePayloadHash rt row.output_redacted) = row.output_hash <;>
    cases Json.isNone row.input_redacted <;> cases Json.isNone row.output_redacted <;>
    simp [hin, hout]

/-- A row that agrees with its own hashes. -/
structure RowIntact (rt : Runtime) (row : ActionRow) : Prop where
  self_hash : row.canonical.selfHash rt = row.self_hash
  bound : payloadBindingError rt row = none

/-- The hash of an intact row is no empty string. -/
theorem RowIntact.strOrNone_self {row : ActionRow} (h : RowIntact rt row) :
    strOrNone (some row.self_hash) = some row.self_hash := by
  have hne : row.self_hash.units.isEmpty = false := by
    rw [← h.self_hash]
    exact List.isEmpty_eq_false_iff.mpr (rt.sha256_units_ne_nil _)
  simp [strOrNone, hne]

variable {gaps : List SeqRange} {seen : List ℤ} {expected_prev : Option JStr}

/-- A turn that finds nothing leaves an intact row behind. -/
theorem rowIntact_of_checkRow {row : ActionRow}
    (h : checkRow rt gaps seen expected_prev row = .ok none) : RowIntact rt row := by
  unfold checkRow at h
  rw [computeActionSelfHash_row] at h
  by_cases hseen : row.sequence_number ∈ seen
  · rw [if_pos hseen] at h
    exact absurd h (by simp [pure, Except.pure])
  rw [if_neg hseen] at h
  by_cases hself : row.canonical.selfHash rt = row.self_hash
  · refine ⟨hself, ?_⟩
    -- whatever the link check says, it returns `none` or goes on to the payloads
    by_cases hlink : strOrNone row.prev_action_hash = expected_prev
    · simpa [bind, Except.bind, pure, Except.pure, hself, hlink] using h
    · cases hexplains : explainsBreak rt (.int row.sequence_number) gaps with
      | error e => simp [bind, Except.bind, hself, hlink, hexplains] at h
      | ok explained =>
        cases explained with
        | true => simpa [bind, Except.bind, pure, Except.pure, hself, hlink, hexplains] using h
        | false => simp [bind, Except.bind, pure, Except.pure, hself, hlink, hexplains] at h
  · simp [bind, Except.bind, pure, Except.pure, hself] at h

/-- A new number, an intact row and a link that fits: nothing to report. -/
theorem checkRow_eq_none {row : ActionRow} (hseen : row.sequence_number ∉ seen)
    (hintact : RowIntact rt row) (hlink : strOrNone row.prev_action_hash = expected_prev) :
    checkRow rt gaps seen expected_prev row = .ok none := by
  unfold checkRow
  rw [computeActionSelfHash_row, if_neg hseen]
  simp [bind, Except.bind, pure, Except.pure, hintact.self_hash, hlink, hintact.bound]

/-- A walk that finds nothing leaves intact rows behind. -/
theorem rowIntact_of_walkRows {rows : List ActionRow}
    (h : walkRows rt gaps seen expected_prev rows = .ok none) :
    ∀ row ∈ rows, RowIntact rt row := by
  induction rows generalizing seen expected_prev with
  | nil => exact fun row hrow => absurd hrow (by simp)
  | cons r rest ih =>
    rw [walkRows] at h
    obtain ⟨found, hcheck, h⟩ := bind_eq_ok.mp h
    cases found with
    | some failure => exact absurd h (by simp [pure, Except.pure])
    | none =>
      intro row hrow
      rcases List.mem_cons.mp hrow with rfl | hrow
      · exact rowIntact_of_checkRow hcheck
      · exact ih h row hrow

/-- Intact rows with distinct numbers, linked one to the next, leave the walk nothing to
    report. -/
theorem walkRows_eq_none {rows : List ActionRow} (hprev : strOrNone expected_prev = expected_prev)
    (hseen : ∀ row ∈ rows, row.sequence_number ∉ seen)
    (hdistinct : rows.Pairwise fun r s => r.sequence_number ≠ s.sequence_number)
    (hlinked : LinkedFrom ActionRow.prev_action_hash (fun r => some r.self_hash)
      expected_prev rows)
    (hintact : ∀ row ∈ rows, RowIntact rt row) :
    walkRows rt gaps seen expected_prev rows = .ok none := by
  induction rows generalizing seen expected_prev with
  | nil => rfl
  | cons r rest ih =>
    obtain ⟨hlink, hrest⟩ := hlinked
    have hr := hintact r (by simp)
    rw [List.pairwise_cons] at hdistinct
    rw [walkRows, checkRow_eq_none (hseen r (by simp)) hr (by rw [hlink, hprev])]
    refine ih hr.strOrNone_self (fun row hrow => ?_) hdistinct.2 hrest
      fun row hrow => hintact row (by simp [hrow])
    rw [List.mem_cons, not_or]
    exact ⟨(hdistinct.1 row hrow).symm, hseen row (by simp [hrow])⟩

variable {db : Database} {session_id : Uuid}

/-- The rows of a `VALID` chain are intact. -/
theorem rowIntact_of_valid {res : ChainResult} (h : verifyChain rt db session_id = .ok res)
    (hvalid : res.verdict = .VALID) : ∀ row ∈ getSessionChain db session_id, RowIntact rt row := by
  unfold verifyChain at h
  by_cases hempty : (getSessionChain db session_id).isEmpty = true
  · rw [List.isEmpty_iff] at hempty
    rw [hempty]
    exact fun row hrow => absurd hrow (by simp)
  · simp only [hempty, Bool.false_eq_true, if_false] at h
    obtain ⟨found, hwalk, h⟩ := bind_eq_ok.mp h
    cases found with
    | none => exact rowIntact_of_walkRows hwalk
    | some failure =>
      -- a failure decides the verdict whatever the gaps
      obtain ⟨kind, sequence, error⟩ := failure
      rw [← Except.ok.inj h] at hvalid
      exact absurd hvalid (by simp [decideVerdict])

/-! ### Chains as they are written -/

/-- The rows of a session are numbered `1, 2, …` in the order they were committed, each names
    the hash of the one before it, and the session row counts them and names the last hash. -/
structure SessionChain (db : Database) (session_id : Uuid) : Prop where
  number : ∀ (i : ℕ) (hi : i < (rowsOf db session_id).length),
    (rowsOf db session_id)[i].sequence_number = i + 1
  linked : LinkedFrom ActionRow.prev_action_hash (fun r => some r.self_hash) none
    (rowsOf db session_id)
  tail : ∀ session_row, db.sessions session_id = some session_row →
    session_row.action_count = (rowsOf db session_id).length ∧
      session_row.chain_tail_hash = lastSelf (fun r : ActionRow => some r.self_hash) none
        (rowsOf db session_id)

theorem rowsOf_extended_self (db : Database) (row : ActionRow) (session_row : SessionRow) :
    rowsOf (db.extended row session_row) row.session_id = rowsOf db row.session_id ++ [row] := by
  simp [rowsOf, Database.extended, List.filter_append]

theorem rowsOf_extended_of_ne {row : ActionRow} (session_row : SessionRow)
    (h : row.session_id ≠ session_id) :
    rowsOf (db.extended row session_row) session_id = rowsOf db session_id := by
  simp [rowsOf, Database.extended, List.filter_append, beq_eq_false_iff_ne.mpr h]

theorem SessionChain.opened (status : Uuid → Option SessionStatus) (policies : Uuid → Bool)
    (session_id : Uuid) : SessionChain (.opened status policies) session_id where
  number := fun i hi => absurd hi (by simp [rowsOf, Database.opened])
  linked := trivial
  tail := by
    intro session_row hrow
    obtain ⟨_, -, rfl⟩ := Option.map_eq_some_iff.mp hrow
    exact ⟨rfl, rfl⟩

/-- A row numbered and linked by the current session row, which advances to it, extends the
    chain. -/
theorem SessionChain.extended {row : ActionRow} {session_row advanced : SessionRow}
    (h : SessionChain db row.session_id) (hrow : db.sessions row.session_id = some session_row)
    (hnumber : row.sequence_number = session_row.action_count + 1)
    (hprev : row.prev_action_hash = session_row.chain_tail_hash)
    (hcount : advanced.action_count = session_row.action_count + 1)
    (htail : advanced.chain_tail_hash = some row.self_hash) :
    SessionChain (db.extended row advanced) row.session_id := by
  obtain ⟨hlength, hlast⟩ := h.tail session_row hrow
  refine ⟨fun i hi => ?_, ?_, fun session_row' hrow' => ?_⟩
  · simp only [rowsOf_extended_self] at hi ⊢
    rw [List.length_append, List.length_singleton] at hi
    by_cases hlt : i < (rowsOf db row.session_id).length
    · rw [List.getElem_append_left hlt]
      exact h.number i hlt
    · have heq : i = (rowsOf db row.session_id).length := by omega
      subst heq
      rw [List.getElem_concat_length rfl, hnumber, hlength]
  · rw [rowsOf_extended_self, linkedFrom_concat]
    exact ⟨h.linked, by rw [hprev, hlast]⟩
  · have hadvanced : advanced = session_row' := by
      simpa [Database.extended, Function.update_self] using hrow'
    rw [← hadvanced, rowsOf_extended_self, lastSelf_concat, List.length_append]
    refine ⟨?_, htail⟩
    rw [hcount, hlength]
    simp

/-- The chains of the other sessions are as they were. -/
theorem SessionChain.of_ne {row : ActionRow} (session_row : SessionRow)
    (h : SessionChain db session_id) (hne : row.session_id ≠ session_id) :
    SessionChain (db.extended row session_row) session_id := by
  have hrows := @rowsOf_extended_of_ne db session_id row session_row hne
  refine ⟨?_, ?_, fun session_row' hrow' => ?_⟩
  · rw [hrows]
    exact h.number
  · rw [hrows]
    exact h.linked
  · simp only [Database.extended, Function.update_of_ne hne.symm] at hrow'
    rw [hrows]
    exact h.tail session_row' hrow'

theorem SessionChain.pairwise (h : SessionChain db session_id) :
    (rowsOf db session_id).Pairwise fun a b => a.sequence_number < b.sequence_number := by
  rw [List.pairwise_iff_getElem]
  intro i j hi hj hij
  rw [h.number i hi, h.number j hj]
  omega

/-- Reading a chain by number reads it as it was written. -/
theorem SessionChain.getSessionChain_eq (h : SessionChain db session_id) :
    getSessionChain db session_id = rowsOf db session_id :=
  (h.pairwise.imp fun hlt => hlt.le).insertionSort_eq

/-- **A chain as it was written is `VALID`** when its rows are intact, with as many records as
    there are rows. -/
theorem SessionChain.verifyChain_valid (h : SessionChain db session_id)
    (hintact : ∀ row ∈ rowsOf db session_id, RowIntact rt row) :
    ∃ res, verifyChain rt db session_id = .ok res ∧ res.valid = true ∧ res.verdict = .VALID ∧
      res.record_count = (rowsOf db session_id).length := by
  unfold verifyChain
  rw [h.getSessionChain_eq]
  cases hcase : rowsOf db session_id with
  | nil => exact ⟨_, rfl, rfl, rfl, rfl⟩
  | cons first rest =>
    rw [← hcase]
    have hnonempty : (rowsOf db session_id).isEmpty = false := by rw [hcase]; rfl
    have hgaps : missingRanges ((rowsOf db session_id).map fun a => .int a.sequence_number) =
        [] := by
      rw [missingRanges_eq_nil_iff]
      rintro k hk ⟨m, hm, hlt⟩
      have hpresent : ∀ n, n ∈ presentSet
          ((rowsOf db session_id).map fun a => Json.int a.sequence_number) ↔
          ∃ row ∈ rowsOf db session_id, row.sequence_number = n := by
        intro n
        simp [presentSet, List.filterMap_map, Function.comp_def, Json.asInt]
      obtain ⟨row, hrow, rfl⟩ := (hpresent m).mp hm
      obtain ⟨i, hi, rfl⟩ := List.mem_iff_getElem.mp hrow
      rw [h.number i hi] at hlt
      -- the row at position `k - 1` has the number `k`
      have hk' : (k - 1).toNat < (rowsOf db session_id).length := by omega
      refine (hpresent k).mpr ⟨(rowsOf db session_id)[(k - 1).toNat], List.getElem_mem hk', ?_⟩
      rw [h.number _ hk']
      omega
    have hwalk : walkRows rt [] [] none (rowsOf db session_id) = .ok none :=
      walkRows_eq_none rfl (fun _ _ => by simp) (h.pairwise.imp fun hlt => hlt.ne) h.linked
        hintact
    simp only [hnonempty, Bool.false_eq_true, if_false, hgaps, hwalk]
    exact ⟨_, rfl, rfl, rfl, rfl⟩

end RootSign
