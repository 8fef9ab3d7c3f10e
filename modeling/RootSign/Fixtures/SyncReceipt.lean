import RootSign.Sdk.Receipt
import Mathlib.Data.List.AList

namespace RootSign

open RootSign.Lib RootSign.Python

/-!
# The reference derivation (`tests/fixtures/sync-receipt/v1.1/verify_vectors.py`)

A transcript holds every request of a replay with the answers it got.  `deriveAttempt` makes from
it, and from the lines of the spool file, what a receipt has to say; it is written apart from the
receipt writer.

* `Answer`, `Exchange`, `lastAnswers` — the transcript; the last answer for a record counts;
* `referenceCompress`, `referenceSequenceOf` — `_compress` and `_sequence_of`;
* `deriveAttempt` — the outcomes a transcript implies.
-/

/-! ### The transcript -/

/-- One answer of the store, for the record at a position. -/
structure Answer where
  record : ℤ
  status : JStr
  error_code : Option JStr
  retryable : Option Bool

/-- One request; `responses` is empty where no answer came. -/
structure Exchange where
  responses : List Answer

/-- The `answers` dict. -/
def lastAnswers (exchanges : List Exchange) : AList fun _ : ℤ => Answer :=
  (exchanges.flatMap Exchange.responses).foldl (fun answers a => answers.insert a.record a) ∅

/-! ### Ranges and numbers -/

/-- One position in the loop of `_compress`: it extends the last range, or starts one. -/
def compressInto (ranges : List (ℤ × ℤ)) (position : ℤ) : List (ℤ × ℤ) :=
  match ranges.getLast? with
  | some (start, previous) =>
    if position = previous + 1 then ranges.dropLast ++ [(start, position)]
    else ranges ++ [(position, position)]
  | none => ranges ++ [(position, position)]

/-- `_compress`. -/
def referenceCompress (positions : List ℤ) : List (ℤ × ℤ) :=
  (positions.insertionSort (· ≤ ·)).foldl compressInto []

/-- `_sequence_of`: at the top level of the line, or in its payload. -/
def referenceSequenceOf (record : Dict) : Except PyError Json :=
  match record.lookup (JStr.ofString "sequence_number") with
  | some v => .ok v
  | none => (payloadOf record).map fun payload => payload.get "sequence_number"

/-- `items[index]`; a negative index counts from the end. -/
def itemAt {α : Type} (items : List α) (index : ℤ) : Except PyError α :=
  match items[(if index < 0 then index + items.length else index).toNat]? with
  | some item => if 0 ≤ index + items.length then .ok item else .error .indexError
  | none => .error .indexError

/-! ### The derivation -/

/-- The local variables of the loop. -/
structure Derivation where
  accepted : List ℤ := []
  duplicate : List ℤ := []
  rejected : List Refusal := []
  halting : Option Refusal := none

/-- The `sequence` of a refused record: that of an action whose number is an integer. -/
def deriveSequence (line : Dict) : Except PyError (Option ℤ) :=
  if (line.get "event_type").pyEq (.str "ACTION_RECORD") then
    (referenceSequenceOf line).map fun
      | .int n => some n
      | _ => none
  else .ok none

/-- The loop over the answered positions. -/
def Derivation.place (spool : List Dict) (d : Derivation) :
    List (ℤ × Answer) → Except PyError Derivation
  | [] => .ok d
  | (position, answer) :: rest =>
    if answer.status = "accepted" then
      place spool { d with accepted := d.accepted ++ [position] } rest
    else if answer.error_code = some "DUPLICATE_EVENT" then
      place spool { d with duplicate := d.duplicate ++ [position] } rest
    else
      match itemAt spool (position - 1) >>= deriveSequence with
      | .error e => .error e
      | .ok sequence =>
        let entry : Refusal :=
          { record := position
            error_code := answer.error_code
            retryable := answer.retryable
            sequence := sequence }
        place spool
          { d with rejected := d.rejected ++ [entry], halting := d.halting.or (some entry) } rest

/-- What a transcript implies. -/
structure DerivedAttempt where
  record_count : ℕ
  accepted : List (ℤ × ℤ)
  duplicate : List (ℤ × ℤ)
  rejected : List Refusal
  not_attempted : List (ℤ × ℤ)
  halted_at_sequence : Option ℤ
  disposition : Disposition
deriving DecidableEq

/-- The answers in the order of their positions. -/
def sortedAnswers (answers : AList fun _ : ℤ => Answer) : List (ℤ × Answer) :=
  (answers.keys.insertionSort (· ≤ ·)).filterMap fun position =>
    (answers.lookup position).map fun answer => (position, answer)

/-- `derive_attempt`. -/
def deriveAttempt (spool : List Dict) (exchanges : List Exchange) :
    Except PyError DerivedAttempt :=
  let answers := lastAnswers exchanges
  (Derivation.place spool {} (sortedAnswers answers)).map fun d =>
    { record_count := spool.length
      accepted := referenceCompress d.accepted
      duplicate := referenceCompress d.duplicate
      rejected := d.rejected
      not_attempted := referenceCompress
        ((positionsFrom 1 spool.length).filter fun p => (answers.lookup p).isNone)
      halted_at_sequence := d.halting.bind Refusal.sequence
      disposition :=
        if (d.halting.bind Refusal.retryable).getD false then .TRANSPORT_FAILED
        else if d.halting.isNone then .FULLY_ACCEPTED
        else .PARTIAL }

/-- Of `comparable`, the fields that a transcript implies: no provenance and no free text. -/
def Attempt.comparable (attempt : Attempt) : DerivedAttempt where
  record_count := attempt.record_count
  accepted := attempt.accepted
  duplicate := attempt.duplicate
  rejected := attempt.rejected.map Rejection.toRefusal
  not_attempted := attempt.not_attempted
  halted_at_sequence := attempt.halted_at_sequence
  disposition := attempt.disposition

/-! ### The reference compresses alike -/

section

variable {ranges : List (ℤ × ℤ)} {start previous : ℤ} {S : Set ℤ} {positions : List ℤ}

theorem compressInto_concat (ranges : List (ℤ × ℤ)) (start previous position : ℤ) :
    compressInto (ranges ++ [(start, previous)]) position =
      if position = previous + 1 then ranges ++ [(start, position)]
      else ranges ++ [(start, previous)] ++ [(position, position)] := by
  simp [compressInto]

/-- The loop of the reference, after its first position. -/
theorem foldl_compressInto (h : RunScan ranges start previous S)
    (hasc : (previous :: positions).Pairwise (· < ·)) :
    positions.foldl compressInto (ranges ++ [(start, previous)]) =
      compressFrom ranges start previous positions := by
  induction positions generalizing ranges start previous S with
  | nil => rfl
  | cons position rest ih =>
    rw [List.foldl_cons, compressInto_concat, compressFrom]
    split
    case isTrue hnext =>
      subst hnext
      exact ih h.extend hasc.of_cons
    case isFalse hnext =>
      have hlt : previous < position := List.rel_of_pairwise_cons hasc List.mem_cons_self
      exact ih (h.jump (by omega)) hasc.of_cons

/-- **Two loops, one result.** On positions without repetition the reference's compression is the
    writer's. -/
theorem referenceCompress_eq (hnodup : positions.Nodup) :
    referenceCompress positions = compressRanges positions := by
  have hasc := pairwise_lt_sorted_dedup positions
  unfold referenceCompress compressRanges
  rw [hnodup.dedup] at hasc ⊢
  cases hsorted : positions.insertionSort (· ≤ ·) with
  | nil => rfl
  | cons first rest =>
    rw [hsorted] at hasc
    exact foldl_compressInto (.single first) hasc

end

end RootSign
