import RootSign.ChainState
import RootSign.VerdictExact

namespace RootSign

open RootSign.Lib RootSign.Python

/-!
# Sealed records before the verifier

A writer flattens a payload and its seal into one record.  Whatever else it writes there, a
record that carries the sealed fields as they were sealed is intact, and no choice of records
from one log contains a broken link.

* `CarriesSeal` — the record shows the sealed entry to the verifier;
* `not_bad_of_carriesSeal` — no record chosen from a log is bad;
* `verify_sealed` — the outcome of verifying any file of distinct records of one log.
-/

/-- The redacted payloads present hash to the recorded hashes. -/
structure BoundPayload (rt : Runtime) (payload : Dict) : Prop where
  input : payload.get "input_redacted" ≠ .null →
    payload.get "input_hash" = .str (computePayloadHash rt (payload.get "input_redacted"))
  output : payload.get "output_redacted" ≠ .null →
    payload.get "output_hash" = .str (computePayloadHash rt (payload.get "output_redacted"))

/-- The record carries the fields of a sealed action where the verifier reads them. -/
structure CarriesSeal (session_id : Json) (e : SealedEntry) (r : Dict) : Prop where
  action_line : isActionLine r = true
  fields : HasCanonicalFields r
  action_id : r.get "action_id" = .str e.2.action_id.text
  session_id : r.get "session_id" = session_id
  tool_name : r.get "tool_name" = e.1.get "tool_name"
  input_hash : r.get "input_hash" = e.1.get "input_hash"
  output_hash : r.get "output_hash" = e.1.get "output_hash"
  prev_action_hash : r.get "prev_action_hash" = e.2.prev_action_hash
  timestamp : r.get "timestamp" = e.1.get "timestamp"
  sequence_number : r.get "sequence_number" = .int e.2.sequence_number
  self_hash : r.get "self_hash" = .str e.2.self_hash
  input_redacted : r.get "input_redacted" = e.1.get "input_redacted"
  output_redacted : r.get "output_redacted" = e.1.get "output_redacted"

variable {rt : Runtime} {session_id : Json} {log : List SealedEntry} {state : ChainState}
  {e : SealedEntry} {r : Dict}

theorem CarriesSeal.sequenceOf_eq (h : CarriesSeal session_id e r) :
    sequenceOf r = e.2.sequence_number := by
  rw [sequenceOf, h.sequence_number]

/-- The canonical fields of the record are those that were sealed. -/
theorem CarriesSeal.ofDict_eq (h : CarriesSeal session_id e r) :
    Canonical.ofDict rt r = canonicalOfSeal rt session_id e.1 e.2 := by
  simp [Canonical.ofDict, canonicalOfSeal, h.action_id, h.session_id, h.tool_name, h.input_hash,
    h.output_hash, h.prev_action_hash, h.timestamp, h.sequence_number]

/-- A record that carries a canonically hashed seal of a bound payload is intact. -/
theorem CarriesSeal.intact (h : CarriesSeal session_id e r) (hbound : BoundPayload rt e.1)
    (hhash : e.2.self_hash = (canonicalOfSeal rt session_id e.1 e.2).selfHash rt) :
    RecordIntact rt r where
  self_hash := ⟨_, computeActionSelfHash_eq rt h.fields, by
    rw [h.self_hash, h.ofDict_eq, ← hhash]⟩
  input_bound := by
    rw [h.input_redacted, h.input_hash]
    exact hbound.input
  output_bound := by
    rw [h.output_redacted, h.output_hash]
    exact hbound.output

/-- A sealed entry is found at the position its number says. -/
theorem SealedLog.exists_index (h : SealedLog rt session_id log state) (he : e ∈ log) :
    ∃ (i : ℕ) (hi : i < log.length), log[i] = e ∧ e.2.sequence_number = i + 1 := by
  obtain ⟨i, hi, rfl⟩ := List.mem_iff_getElem.mp he
  exact ⟨i, hi, rfl, h.number i hi⟩

/-- **Any choice of sealed records is clean.**  The record numbered one less carries the
    entry sealed just before, which is the one named. -/
theorem not_bad_of_carriesSeal (h : SealedLog rt session_id log state) {records : List Dict}
    (hbound : ∀ e ∈ log, BoundPayload rt e.1)
    (hcarries : ∀ r ∈ records, ∃ e ∈ log, CarriesSeal session_id e r) (hr : r ∈ records) :
    ¬ Bad rt records r := by
  obtain ⟨e, he, hcar⟩ := hcarries r hr
  obtain ⟨i, hi, rfl, hn⟩ := h.exists_index he
  rintro (hbad | ⟨hone, htruthy⟩ | ⟨p, hp, hpred, hneq⟩)
  · exact hbad (hcar.intact (hbound _ he) (h.hashed _ he))
  · rw [hcar.sequenceOf_eq] at hone
    have hzero : i = 0 := by omega
    subst hzero
    rw [hcar.prev_action_hash, h.linked.getElem_zero hi] at htruthy
    cases htruthy
  · obtain ⟨e', he', hcar'⟩ := hcarries p hp
    obtain ⟨j, hj, rfl, hn'⟩ := h.exists_index he'
    rw [hcar.sequenceOf_eq, hcar'.sequenceOf_eq] at hpred
    have hij : i = j + 1 := by omega
    subst hij
    exact hneq (by rw [hcar.prev_action_hash, hcar'.self_hash, h.linked.getElem_succ j hi])

/-- Distinct records of one log are numbered records. -/
theorem numberedRecords_of_carriesSeal (h : SealedLog rt session_id log state)
    {records : List Dict} (hcarries : ∀ r ∈ records, ∃ e ∈ log, CarriesSeal session_id e r)
    (hdistinct : records.Pairwise fun r s => sequenceOf r ≠ sequenceOf s) :
    NumberedRecords records where
  fields := fun r hr => by
    obtain ⟨e, -, hcar⟩ := hcarries r hr
    exact hcar.fields
  number := fun r hr => by
    obtain ⟨e, -, hcar⟩ := hcarries r hr
    rw [hcar.sequenceOf_eq, hcar.sequence_number]
  pos := fun r hr => by
    obtain ⟨e, he, hcar⟩ := hcarries r hr
    obtain ⟨i, -, -, hn⟩ := h.exists_index he
    rw [hcar.sequenceOf_eq]
    omega
  distinct := hdistinct

/-- **Verifying sealed records.**  A file whose action records are distinct records of one log
    is never `TAMPERED`: it is `VALID` when no number is missing and `INCOMPLETE` otherwise. -/
theorem verify_sealed (h : SealedLog rt session_id log state) {f : SessionFile}
    (hbound : ∀ e ∈ log, BoundPayload rt e.1)
    (hcarries : ∀ r ∈ f.actions, ∃ e ∈ log, CarriesSeal session_id e r)
    (hdistinct : f.actions.Pairwise fun r s => sequenceOf r ≠ sequenceOf s) :
    ∃ res, verifySessionLocal rt f.raw = .ok res ∧ NumberedOutcome rt f.actions res ∧
      ((res.verdict = .VALID ∧ ∀ k, ¬ Absent f.actions k) ∨
        (res.verdict = .INCOMPLETE ∧ ∃ k, Absent f.actions k)) := by
  obtain ⟨res, hres, hout⟩ :=
    verifySessionLocal_numbered rt
      (numberedRecords_of_carriesSeal h hcarries hdistinct).distinctNumbers
  refine ⟨res, hres, hout, ?_⟩
  rcases hout.trichotomy with ⟨⟨r, hr, hbad⟩, -⟩ | ⟨-, hsome, hv⟩ | ⟨-, hnone, hv⟩
  · exact absurd hbad (not_bad_of_carriesSeal h hbound hcarries hr)
  · exact Or.inr ⟨hv, hsome⟩
  · exact Or.inl ⟨hv, hnone⟩

/-! ### Whole logs and parts of them -/

variable {records : List Dict}

/-- The record at a position carries the entry there, so it has the next number. -/
theorem sequenceOf_getElem (h : SealedLog rt session_id log state)
    (hcarries : List.Forall₂ (CarriesSeal session_id) log records) (i : ℕ)
    (hi : i < records.length) : sequenceOf records[i] = i + 1 := by
  have hi' : i < log.length := by rw [hcarries.length_eq]; exact hi
  have hcar := hcarries.get hi' hi
  simp only [List.get_eq_getElem] at hcar
  rw [hcar.sequenceOf_eq, h.number i hi']

theorem exists_entry_of_mem (hcarries : List.Forall₂ (CarriesSeal session_id) log records) :
    ∀ r ∈ records, ∃ e ∈ log, CarriesSeal session_id e r := by
  intro r hr
  obtain ⟨i, hi, rfl⟩ := List.mem_iff_getElem.mp hr
  have hi' : i < log.length := by rw [hcarries.length_eq]; exact hi
  exact ⟨log[i], List.getElem_mem hi', hcarries.get hi' hi⟩

theorem pairwise_of_forall₂ (h : SealedLog rt session_id log state)
    (hcarries : List.Forall₂ (CarriesSeal session_id) log records) :
    records.Pairwise fun r s => sequenceOf r ≠ sequenceOf s := by
  rw [List.pairwise_iff_getElem]
  intro i j hi hj hij
  rw [sequenceOf_getElem h hcarries i hi, sequenceOf_getElem h hcarries j hj]
  omega

/-- A file whose action lines carry a whole log is `VALID`, with one record for each entry. -/
theorem verify_whole_log (h : SealedLog rt session_id log state) {f : SessionFile}
    (hbound : ∀ e ∈ log, BoundPayload rt e.1)
    (hcarries : List.Forall₂ (CarriesSeal session_id) log f.actions) :
    ∃ res, verifySessionLocal rt f.raw = .ok res ∧ res.verdict = .VALID ∧
      res.record_count = log.length := by
  obtain ⟨res, hres, hout, hverdict⟩ := verify_sealed h hbound (exists_entry_of_mem hcarries)
    (pairwise_of_forall₂ h hcarries)
  have hcount : res.record_count = log.length := by rw [hout.record_count, hcarries.length_eq]
  rcases hverdict with ⟨hv, -⟩ | ⟨-, k, hk1, ⟨r, hr, hle⟩, habs⟩
  · exact ⟨res, hres, hv, hcount⟩
  · -- the record at position `k - 1` carries the number `k`
    obtain ⟨i, hi, rfl⟩ := List.mem_iff_getElem.mp hr
    rw [sequenceOf_getElem h hcarries i hi] at hle
    have hk : (k - 1).toNat < f.actions.length := by omega
    refine absurd ?_ (habs _ (List.getElem_mem hk))
    rw [sequenceOf_getElem h hcarries _ hk]
    omega

end RootSign
