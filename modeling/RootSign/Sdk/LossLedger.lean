import RootSign.ChainState

namespace RootSign

open RootSign.Python

/-!
# The loss ledger (`rootsign/sdk/loss_ledger.py`)

Counts, a sequence range and a histogram of reasons for the records of one session that could not
be written.
-/

/-- What was lost for one session, and why. -/
structure LossLedger where
  session_id : JStr
  count : ℕ := 0
  first_sequence : Json := .null
  last_sequence : Json := .null
  reasons : List (JStr × ℕ) := []
  first_at : Option UtcNow := none
  last_at : Option UtcNow := none

namespace LossLedger

/-- One more under the reason. -/
def tally (reason : JStr) : List (JStr × ℕ) → List (JStr × ℕ)
  | [] => [(reason, 1)]
  | (r, n) :: rest => if r = reason then (r, n + 1) :: rest else (r, n) :: tally reason rest

/-- `record`: account for one lost record. -/
def record (l : LossLedger) (now : UtcNow) (sequence_number : Json) (reason : JStr) :
    LossLedger where
  session_id := l.session_id
  count := l.count + 1
  first_sequence := if Json.isNone l.first_sequence then sequence_number else l.first_sequence
  last_sequence := if Json.isNone sequence_number then l.last_sequence else sequence_number
  reasons := tally reason l.reasons
  first_at := if l.count = 0 then some now else l.first_at
  last_at := some now

/-- `x.isoformat() if x else None`. -/
def isoOrNone : Option UtcNow → Json
  | some t => .str (JStr.ofChars t.time.isoformat)
  | none => .null

/-- `as_record`: the annotation appended to the session's file. -/
def asRecord (l : LossLedger) (now : UtcNow) : Dict :=
  Dict.ofFields
    [("event_type", .str "RECORD_LOSS"),
     ("session_id", .str l.session_id),
     ("lost_count", .int l.count),
     ("first_sequence", l.first_sequence),
     ("last_sequence", l.last_sequence),
     ("reasons", .obj ((l.reasons.insertionSort fun a b => !JStr.lt b.1 a.1).map fun p =>
       (p.1, .int p.2))),
     ("first_loss_at", isoOrNone l.first_at),
     ("last_loss_at", isoOrNone l.last_at),
     ("recorded_at", isoOrNone (some now))]

end LossLedger

end RootSign
