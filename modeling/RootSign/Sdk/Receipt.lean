import RootSign.Lib.Ranges
import RootSign.Replay
import RootSign.Sdk.JsonlClient
import RootSign.Verify
import Mathlib.Data.List.Dedup
import Mathlib.Data.List.Sort

namespace RootSign

open RootSign.Lib RootSign.Python

/-!
# Sync receipts (`rootsign/sdk/receipt.py`)

A receipt file is a JSON document with a list of attempts.  An attempt says of every envelope, by
its position in the file, what became of it.

* `compressRanges`, `expandRanges` — positions as ranges, and back;
* `Attempt`, `buildAttempt` — the record of one replay;
* `partitionIsTotal` — every position has one outcome;
* `replaySummary` — the latest attempt, as a bundle reports it.
-/

/-! ### Outcome ranges -/

/-- The loop of `compress_ranges`: the ranges closed so far, and the open one. -/
def compressFrom (ranges : List (ℤ × ℤ)) (start previous : ℤ) : List ℤ → List (ℤ × ℤ)
  | [] => ranges ++ [(start, previous)]
  | position :: rest =>
    if position = previous + 1 then compressFrom ranges start position rest
    else compressFrom (ranges ++ [(start, previous)]) position position rest

/-- `compress_ranges`. -/
def compressRanges (positions : List ℤ) : List (ℤ × ℤ) :=
  match positions.dedup.insertionSort (· ≤ ·) with
  | [] => []
  | first :: rest => compressFrom [] first first rest

/-- `expand_ranges`: a set, each element listed once. -/
def expandRanges (ranges : List (ℤ × ℤ)) : List ℤ := (ranges.flatMap expandRange).dedup

section

variable {ranges : List (ℤ × ℤ)} {start previous k : ℤ} {S : Set ℤ} {positions : List ℤ}

/-- The loop writes what it has read canonically. -/
theorem compressFrom_spec (h : RunScan ranges start previous S)
    (hasc : (previous :: positions).Pairwise (· < ·)) :
    CanonicalRanges (compressFrom ranges start previous positions) ∧
      ∀ k, Covers (compressFrom ranges start previous positions) k ↔ k ∈ S ∨ k ∈ positions := by
  induction positions generalizing ranges start previous S with
  | nil => exact ⟨h.canonical, fun k => (h.covers k).trans (by simp)⟩
  | cons position rest ih =>
    have hlt : previous < position := List.rel_of_pairwise_cons hasc List.mem_cons_self
    by_cases hnext : position = previous + 1
    · subst hnext
      obtain ⟨hcanonical, hcovers⟩ := ih h.extend hasc.of_cons
      rw [compressFrom, if_pos rfl]
      refine ⟨hcanonical, fun k => (hcovers k).trans ?_⟩
      rw [Set.mem_insert_iff, List.mem_cons]
      tauto
    · obtain ⟨hcanonical, hcovers⟩ := ih (h.jump (by omega)) hasc.of_cons
      rw [compressFrom, if_neg hnext]
      refine ⟨hcanonical, fun k => (hcovers k).trans ?_⟩
      rw [Set.mem_insert_iff, List.mem_cons]
      tauto

/-- Sorted, each number once. -/
theorem pairwise_lt_sorted_dedup (positions : List ℤ) :
    (positions.dedup.insertionSort (· ≤ ·)).Pairwise (· < ·) := by
  have hle := List.pairwise_insertionSort (· ≤ ·) positions.dedup
  have hne : (positions.dedup.insertionSort (· ≤ ·)).Nodup :=
    (List.perm_insertionSort _ _).nodup_iff.mpr positions.nodup_dedup
  exact hle.and hne |>.imp fun h => lt_of_le_of_ne h.1 h.2

/-- **Compression** writes a set of positions canonically. -/
theorem compressRanges_spec (positions : List ℤ) :
    CanonicalRanges (compressRanges positions) ∧
      ∀ k, Covers (compressRanges positions) k ↔ k ∈ positions := by
  have hmem : ∀ k, k ∈ positions.dedup.insertionSort (· ≤ ·) ↔ k ∈ positions := fun k => by
    rw [(List.perm_insertionSort _ _).mem_iff, List.mem_dedup]
  have hasc := pairwise_lt_sorted_dedup positions
  unfold compressRanges
  cases hsorted : positions.dedup.insertionSort (· ≤ ·) with
  | nil =>
    rw [hsorted] at hmem
    exact ⟨.nil, fun k => by simpa using hmem k⟩
  | cons first rest =>
    rw [hsorted] at hmem hasc
    obtain ⟨hcanonical, hcovers⟩ := compressFrom_spec (.single first) hasc
    refine ⟨hcanonical, fun k => (hcovers k).trans ?_⟩
    rw [← hmem, List.mem_cons, Set.mem_singleton_iff]

theorem mem_expandRanges : k ∈ expandRanges ranges ↔ Covers ranges k := by
  rw [expandRanges, List.mem_dedup, mem_flatMap_expandRange]

end

/-! ### Building an attempt -/

/-- `_sequence_of`; a payload that is no dict has no `get`. -/
def Receipt.sequenceOf (envelope : Dict) : Except PyError (Option ℤ) :=
  (payloadOf envelope).map fun payload => (payload.get "sequence_number").asInt

/-- A refused envelope: its position, the refusal, and its number if it has one. -/
structure Refusal where
  record : ℤ
  error_code : Option JStr
  retryable : Option Bool
  sequence : Option ℤ
deriving DecidableEq

/-- An entry of `rejected`. -/
structure Rejection extends Refusal where
  error_message : Option JStr
deriving DecidableEq

/-- `DISPOSITION_…`: what an attempt did to the spool file. -/
inductive Disposition where
  | FULLY_ACCEPTED
  | PARTIAL
  | TRANSPORT_FAILED
deriving DecidableEq, Repr

/-- The texts of the dispositions. -/
def Disposition.text : Disposition → String
  | .FULLY_ACCEPTED => "fully_accepted"
  | .PARTIAL => "partial"
  | .TRANSPORT_FAILED => "transport_failed"

/-- One attempt of a receipt; `transport_error` is there only for a transport failure. -/
structure Attempt where
  attempt_id : JStr
  started_at : UtcNow
  finished_at : UtcNow
  endpoint : JStr
  sdk_version : JStr
  operator : JStr
  spool_file_sha256 : JStr
  record_count : ℕ
  accepted : List (ℤ × ℤ)
  duplicate : List (ℤ × ℤ)
  rejected : List Rejection
  not_attempted : List (ℤ × ℤ)
  halted_at_sequence : Option ℤ
  disposition : Disposition
  transport_error : Option JStr

/-- What `build_attempt` is given beside the envelopes and the report. -/
structure AttemptIO where
  attempt_id : JStr
  started_at : UtcNow
  finished_at : UtcNow
  endpoint : JStr
  sdk_version : JStr
  operator : JStr
  spool_file_sha256 : JStr

/-- The positions that the responses fall into. -/
structure Buckets where
  accepted : List ℤ := []
  duplicate : List ℤ := []
  rejected : List Rejection := []

/-- The entry of a refused envelope. -/
def rejection (index : ℕ) (response : IngestResponse) (sequence : Option ℤ) : Rejection where
  record := index + 1
  error_code := response.error_code.map fun code => JStr.ofString code.text
  retryable := response.retryable
  sequence := sequence
  error_message := response.error_message

/-- `_sequence_of(envelopes[index]) if index < total else None`. -/
def sequenceAt (envelopes : List Dict) (index : ℕ) : Except PyError (Option ℤ) :=
  match envelopes[index]? with
  | some envelope => Receipt.sequenceOf envelope
  | none => .ok none

/-- The loop over the responses, from the given index on. -/
def Buckets.place (envelopes : List Dict) (b : Buckets) (index : ℕ) :
    List IngestResponse → Except PyError Buckets
  | [] => .ok b
  | response :: rest =>
    let position : ℤ := index + 1
    if response.isAccepted then
      place envelopes { b with accepted := b.accepted ++ [position] } (index + 1) rest
    else if response.isDuplicate then
      place envelopes { b with duplicate := b.duplicate ++ [position] } (index + 1) rest
    else
      match sequenceAt envelopes index with
      | .error e => .error e
      | .ok sequence =>
        place envelopes { b with rejected := b.rejected ++ [rejection index response sequence] }
          (index + 1) rest

/-- `list(range(first, last + 1))`. -/
def positionsFrom (first last : ℕ) : List ℤ := expandRange (first, last)

/-- `responses[failed_index]`, where there is a failed index. -/
def haltingResponse (report : ReplayReport) : Except PyError (Option IngestResponse) :=
  match report.failed_index with
  | none => .ok none
  | some index =>
    match report.responses[index]? with
    | some response => .ok (some response)
    | none => .error .indexError

/-- `halted_at_sequence`. -/
def haltedAtSequence (envelopes : List Dict) : Option ℕ → Except PyError (Option ℤ)
  | some index => sequenceAt envelopes index
  | none => .ok none

/-- `f"{code.value}: {error_message}"`. -/
def refusalText (response : IngestResponse) : JStr :=
  let code := (response.error_code.map fun code => JStr.ofString code.text).getD "None"
  code ++ ": " ++ response.error_message.getD "None"

/-- `build_attempt`. -/
def buildAttempt (envelopes : List Dict) (report : ReplayReport) (io : AttemptIO)
    (transport_error : Option JStr) : Except PyError Attempt := do
  let total := envelopes.length
  let buckets ← Buckets.place envelopes {} 0 report.responses
  let not_attempted := positionsFrom (report.responses.length + 1) total
  let halting ← haltingResponse report
  -- the client reports an exhausted network as a retryable refusal, without raising
  let gave_up := transport_error.isSome ||
    (halting.bind IngestResponse.retryable).getD false
  let disposition : Disposition :=
    if gave_up then .TRANSPORT_FAILED
    else if report.failed_index.isNone && buckets.rejected.isEmpty then .FULLY_ACCEPTED
    else .PARTIAL
  let halted_at_sequence ← haltedAtSequence envelopes report.failed_index
  return {
    attempt_id := io.attempt_id
    started_at := io.started_at
    finished_at := io.finished_at
    endpoint := io.endpoint
    sdk_version := io.sdk_version
    operator := io.operator
    spool_file_sha256 := io.spool_file_sha256
    record_count := total
    accepted := compressRanges buckets.accepted
    duplicate := compressRanges buckets.duplicate
    rejected := buckets.rejected
    not_attempted := compressRanges not_attempted
    halted_at_sequence := halted_at_sequence
    disposition := disposition
    transport_error := transport_error.or
      (if gave_up then halting.map refusalText else none) }

namespace Attempt

/-- The positions of the buckets, in the order `partition_is_total` reads them. -/
def covered (attempt : Attempt) : List ℤ :=
  expandRanges attempt.accepted ++ expandRanges attempt.duplicate ++
    expandRanges attempt.not_attempted ++ attempt.rejected.map fun r => r.record

/-- `partition_is_total`. -/
def partitionIsTotal (attempt : Attempt) : Bool :=
  attempt.covered.insertionSort (· ≤ ·) == positionsFrom 1 attempt.record_count

/-- A list of ranges as JSON. -/
def rangesJson (ranges : List (ℤ × ℤ)) : Json :=
  .arr (ranges.map fun r => .arr [.int r.1, .int r.2])

/-- A value that may be `None`. -/
def orNull {α : Type} (toJson : α → Json) : Option α → Json
  | some v => toJson v
  | none => .null

/-- An entry of `rejected` as JSON; `sequence` is left out where there is none. -/
def rejectionJson (r : Rejection) : Json :=
  .obj (Dict.ofFields
    ([("record", .int r.record),
      ("error_code", orNull .str r.error_code),
      ("retryable", orNull .bool r.retryable),
      ("error_message", orNull .str r.error_message)] ++
     r.sequence.toList.map fun n => ("sequence", .int n)))

/-- The attempt as the dict that `build_attempt` returns. -/
def asDict (attempt : Attempt) : Dict :=
  Dict.ofFields
    ([("schema_version", .str "receipt/1.1"),
      ("attempt_id", .str attempt.attempt_id),
      ("started_at", .str (JStr.ofChars attempt.started_at.time.isoformat)),
      ("finished_at", .str (JStr.ofChars attempt.finished_at.time.isoformat)),
      ("endpoint", .str attempt.endpoint),
      ("sdk_version", .str attempt.sdk_version),
      ("operator", .str attempt.operator),
      ("spool_file_sha256", .str attempt.spool_file_sha256),
      ("record_count", .int attempt.record_count),
      ("outcomes", .obj (Dict.ofFields
        [("accepted", rangesJson attempt.accepted),
         ("duplicate", rangesJson attempt.duplicate),
         ("rejected", .arr (attempt.rejected.map rejectionJson)),
         ("not_attempted", rangesJson attempt.not_attempted)])),
      ("halted_at_sequence", orNull .int attempt.halted_at_sequence),
      ("disposition", .str (JStr.ofString attempt.disposition.text))] ++
     attempt.transport_error.toList.map fun text => ("transport_error", .str text))

end Attempt

/-! ### Reading a receipt -/

/-- `v or default`. -/
def orValue (v default : Json) : Json := if v.truthy then v else default

/-- `attempts[-1]`, and how many there are; `{}` for no attempts. -/
def latestAttempt : Json → Except PyError (Json × ℕ)
  | .arr xs => .ok (xs.getLastD (.obj []), xs.length)
  | .str s => .ok (.str s, s.units.length)
  | .obj _ => .error (.keyError "-1")
  | _ => .error .typeError

/-- `replay_summary`. -/
def replaySummary (document : Dict) : Except PyError Dict := do
  let (latest, attempts) ← latestAttempt (orValue (document.get "attempts") (.arr []))
  -- `latest.get` needs a dict; a receipt whose last attempt is a string raises
  let latest ← asDict latest
  let outcomes ← asDict (orValue (latest.get "outcomes") (.obj []))
  return Dict.ofFields
    [("attempts", .int attempts),
     ("latest_attempt_id", latest.get "attempt_id"),
     ("latest_disposition", latest.get "disposition"),
     ("finished_at", latest.get "finished_at"),
     ("endpoint", latest.get "endpoint"),
     ("spool_file_sha256", latest.get "spool_file_sha256"),
     ("record_count", latest.get "record_count"),
     ("halted_at_sequence", latest.get "halted_at_sequence"),
     ("observed_and_rejected", orValue (outcomes.get "rejected") (.arr [])),
     ("not_attempted", orValue (outcomes.get "not_attempted") (.arr []))]

end RootSign
