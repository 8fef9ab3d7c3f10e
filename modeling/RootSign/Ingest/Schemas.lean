import RootSign.Python.Runtime

namespace RootSign

open RootSign.Python

/-!
# The wire types (`rootsign/ingest/schemas.py`)

* `EventType` and `ErrorCode` with the values they have on the wire;
* `IngestResponse` — the unified accept/reject reply.
-/

/-- The five event types. -/
inductive EventType where
  | SESSION_OPEN
  | ACTION_RECORD
  | DECISION_RECORD
  | APPROVAL_RECORD
  | SESSION_CLOSE
deriving DecidableEq, Repr

/-- `EventType.….value`. -/
def EventType.text : EventType → String
  | .SESSION_OPEN => "SESSION_OPEN"
  | .ACTION_RECORD => "ACTION_RECORD"
  | .DECISION_RECORD => "DECISION_RECORD"
  | .APPROVAL_RECORD => "APPROVAL_RECORD"
  | .SESSION_CLOSE => "SESSION_CLOSE"

theorem EventType.text_inj {a b : EventType} (h : a.text = b.text) : a = b := by
  cases a <;> cases b <;> first | rfl | exact absurd h (by decide)

/-- The error registry: client errors first, then the retryable transient ones. -/
inductive ErrorCode where
  | SCHEMA_VERSION_MISMATCH
  | UNKNOWN_AGENT
  | SESSION_NOT_FOUND
  | SESSION_CLOSED
  | SESSION_ALREADY_EXISTS
  | DUPLICATE_EVENT
  | ACTION_NOT_FOUND
  | ACTION_ALREADY_RESOLVED
  | APPROVAL_PARENT_NOT_FOUND
  | VALIDATION_ERROR
  | HASH_CHAIN_BROKEN
  | STORE_UNAVAILABLE
  | WRITE_TIMEOUT
  | RATE_LIMITED
  | INTERNAL_ERROR
deriving DecidableEq, Repr

/-- `ErrorCode.….value`. -/
def ErrorCode.text : ErrorCode → String
  | .SCHEMA_VERSION_MISMATCH => "SCHEMA_VERSION_MISMATCH"
  | .UNKNOWN_AGENT => "UNKNOWN_AGENT"
  | .SESSION_NOT_FOUND => "SESSION_NOT_FOUND"
  | .SESSION_CLOSED => "SESSION_CLOSED"
  | .SESSION_ALREADY_EXISTS => "SESSION_ALREADY_EXISTS"
  | .DUPLICATE_EVENT => "DUPLICATE_EVENT"
  | .ACTION_NOT_FOUND => "ACTION_NOT_FOUND"
  | .ACTION_ALREADY_RESOLVED => "ACTION_ALREADY_RESOLVED"
  | .APPROVAL_PARENT_NOT_FOUND => "APPROVAL_PARENT_NOT_FOUND"
  | .VALIDATION_ERROR => "VALIDATION_ERROR"
  | .HASH_CHAIN_BROKEN => "HASH_CHAIN_BROKEN"
  | .STORE_UNAVAILABLE => "STORE_UNAVAILABLE"
  | .WRITE_TIMEOUT => "WRITE_TIMEOUT"
  | .RATE_LIMITED => "RATE_LIMITED"
  | .INTERNAL_ERROR => "INTERNAL_ERROR"

theorem ErrorCode.text_inj {a b : ErrorCode} (h : a.text = b.text) : a = b := by
  cases a <;> cases b <;> first | rfl | exact absurd h (by decide)

/-- The unified accept/reject reply. -/
structure IngestResponse where
  status : JStr
  event_id : Uuid
  entity_id : Option Uuid := none
  sequence_number : Option ℤ := none
  self_hash : Option JStr := none
  error_code : Option ErrorCode := none
  error_message : Option JStr := none
  retryable : Option Bool := none
deriving DecidableEq

namespace IngestResponse

/-- `IngestResponse.accepted`. -/
def accepted (event_id : Uuid) (entity_id : Option Uuid := none)
    (sequence_number : Option ℤ := none) (self_hash : Option JStr := none) : IngestResponse where
  status := "accepted"
  event_id := event_id
  entity_id := entity_id
  sequence_number := sequence_number
  self_hash := self_hash

/-- `IngestResponse.rejected`. -/
def rejected (event_id : Uuid) (error_code : ErrorCode) (error_message : JStr)
    (retryable : Bool) : IngestResponse where
  status := "rejected"
  event_id := event_id
  error_code := some error_code
  error_message := some error_message
  retryable := some retryable

/-- `response.status == "accepted"`. -/
def isAccepted (r : IngestResponse) : Bool := r.status == "accepted"

@[simp] theorem isAccepted_accepted (event_id : Uuid) (entity_id : Option Uuid)
    (sequence_number : Option ℤ) (self_hash : Option JStr) :
    (accepted event_id entity_id sequence_number self_hash).isAccepted = true :=
  beq_self_eq_true _

@[simp] theorem isAccepted_rejected (event_id : Uuid) (error_code : ErrorCode)
    (error_message : JStr) (retryable : Bool) :
    (rejected event_id error_code error_message retryable).isAccepted = false := by
  simp [isAccepted, rejected]

end IngestResponse

end RootSign
