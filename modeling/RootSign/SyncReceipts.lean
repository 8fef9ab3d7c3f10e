import RootSign.Fixtures.SyncReceipt
import RootSign.Python.Sha256

namespace RootSign

open RootSign.Lib RootSign.Python

/-!
# What a receipt says (ADR-015)

A client that answers every envelope of a batch is replayed to, and the report becomes an attempt.

* `NumberedEnvelope` — an action with its number, or an event without one;
* `Buckets.place_eq` — the buckets in closed form;
* `buildAttempt_eq` — the attempt in closed form, from which the rest is read off;
* `Faithful` — what a receipt publishes about itself, and `receipt_faithful`: every attempt made
  from a replay is faithful, and the reference derives the same from its transcript.
-/

variable {σ ε : Type}

/-! ### The envelopes, the answers and the transcript -/

/-- An action carries an integer number, any other event none. -/
inductive NumberedEnvelope (envelope : Dict) : Prop
  | action (payload : Dict) (n : ℤ)
      (event_type : envelope.get "event_type" = .str "ACTION_RECORD")
      (payload_eq : payloadOf envelope = .ok payload)
      (number : Dict.get payload "sequence_number" = .int n)
  | other (payload : Dict)
      (event_type : envelope.get "event_type" ≠ .str "ACTION_RECORD")
      (payload_eq : payloadOf envelope = .ok payload)
      (number : Dict.get payload "sequence_number" = .null)

/-- A line of the spool file records an envelope: the type is the same, and so is the number of an
    action, wherever the line holds it. -/
structure Records (line envelope : Dict) : Prop where
  event_type : line.get "event_type" = envelope.get "event_type"
  number : envelope.get "event_type" = .str "ACTION_RECORD" →
    ∀ n, Receipt.sequenceOf envelope = .ok (some n) → referenceSequenceOf line = .ok (.int n)

/-- A response as the transcript notes it. -/
def answerOf (index : ℕ) (r : IngestResponse) : Answer where
  record := index + 1
  status := r.status
  error_code := r.error_code.map fun code => JStr.ofString code.text
  retryable := r.retryable

/-- A transcript of a replay: the last answer for each record is the response the client gave for
    it.  A request that was retried is there more than once. -/
def Transcribes (exchanges : List Exchange) (responses : List IngestResponse) : Prop :=
  ∀ position, (lastAnswers exchanges).lookup position =
    if 1 ≤ position then
      (responses[(position - 1).toNat]?).map (answerOf (position - 1).toNat)
    else none

/-! ### The buckets in closed form -/

/-- The positions of the responses of a kind. -/
def placed (P : IngestResponse → Bool) (index : ℕ) (responses : List IngestResponse) : List ℤ :=
  (responses.zipIdx index).filterMap fun p => if P p.1 then some ((p.2 : ℤ) + 1) else none

/-- A duplicate that was not accepted. -/
def onlyDuplicate (r : IngestResponse) : Bool := !r.isAccepted && r.isDuplicate

/-- The entries of the refused responses. -/
def refused (number : ℕ → Option ℤ) (index : ℕ) (responses : List IngestResponse) :
    List Rejection :=
  (responses.zipIdx index).filterMap fun p =>
    if isSuccess p.1 then none else some (rejection p.2 p.1 (number p.2))

variable {envelopes lines : List Dict} {number : ℕ → Option ℤ} {responses : List IngestResponse}

/-- The loop of `build_attempt`. -/
theorem Buckets.place_eq (hnumber : ∀ i, sequenceAt envelopes i = .ok (number i)) (b : Buckets)
    (index : ℕ) (responses : List IngestResponse) :
    Buckets.place envelopes b index responses = .ok
      { accepted := b.accepted ++ placed IngestResponse.isAccepted index responses
        duplicate := b.duplicate ++ placed onlyDuplicate index responses
        rejected := b.rejected ++ refused number index responses } := by
  induction responses generalizing b index with
  | nil => simp [place, placed, refused]
  | cons r rest ih =>
    unfold place
    by_cases haccepted : r.isAccepted = true
    · simp only [haccepted, if_true, ih]
      simp [placed, refused, onlyDuplicate, isSuccess, haccepted]
    · by_cases hduplicate : r.isDuplicate = true
      · simp only [haccepted, hduplicate, if_true, ih, Bool.false_eq_true, if_false]
        simp [placed, refused, onlyDuplicate, isSuccess, haccepted, hduplicate]
      · simp only [haccepted, hduplicate, ih, Bool.false_eq_true, if_false, hnumber]
        simp [placed, refused, onlyDuplicate, isSuccess, haccepted, hduplicate]

/-- The response that stopped the replay. -/
def halting (report : ReplayReport) : Option IngestResponse :=
  report.failed_index.bind fun i => report.responses[i]?

/-- The client gave up: the refusal that stopped the replay may be retried. -/
def gaveUp (report : ReplayReport) : Bool :=
  ((halting report).bind IngestResponse.retryable).getD false

/-- The attempt in closed form. -/
structure Built (envelopes : List Dict) (number : ℕ → Option ℤ) (report : ReplayReport)
    (attempt : Attempt) : Prop where
  record_count : attempt.record_count = envelopes.length
  accepted : attempt.accepted =
    compressRanges (placed IngestResponse.isAccepted 0 report.responses)
  duplicate : attempt.duplicate = compressRanges (placed onlyDuplicate 0 report.responses)
  rejected : attempt.rejected = refused number 0 report.responses
  not_attempted : attempt.not_attempted =
    compressRanges (positionsFrom (report.responses.length + 1) envelopes.length)
  halted_at_sequence : attempt.halted_at_sequence = report.failed_index.bind number
  disposition : attempt.disposition =
    if gaveUp report then .TRANSPORT_FAILED
    else if report.failed_index.isNone && (refused number 0 report.responses).isEmpty then
      .FULLY_ACCEPTED
    else .PARTIAL
  transport_error : attempt.transport_error =
    if gaveUp report then (halting report).map refusalText else none

variable {report : ReplayReport}

theorem haltingResponse_eq (htallied : Tallied report) :
    haltingResponse report = .ok (halting report) := by
  unfold haltingResponse halting
  cases hfailed : report.failed_index with
  | none => rfl
  | some i =>
    obtain ⟨r, hr, -⟩ := htallied.refusal i hfailed
    simp only [Option.bind_some, hr]

/-- `build_attempt`, where no exception reached it. -/
theorem buildAttempt_eq (hnumber : ∀ i, sequenceAt envelopes i = .ok (number i))
    (htallied : Tallied report) (io : AttemptIO) :
    ∃ attempt, buildAttempt envelopes report io none = .ok attempt ∧
      Built envelopes number report attempt := by
  have hhalted : haltedAtSequence envelopes report.failed_index =
      .ok (report.failed_index.bind number) := by
    cases report.failed_index with
    | none => rfl
    | some i => exact hnumber i
  unfold buildAttempt
  rw [Buckets.place_eq hnumber, haltingResponse_eq htallied, hhalted]
  refine ⟨_, rfl, ?_⟩
  exact ⟨rfl, rfl, rfl, rfl, rfl, rfl, rfl, rfl⟩

/-! ### The buckets partition the file -/

/-- The positions of consecutive responses. -/
theorem positionsFrom_cons (index m : ℕ) :
    positionsFrom (index + 1) (index + (m + 1)) =
      ((index : ℤ) + 1) :: positionsFrom (index + 1 + 1) (index + 1 + m) := by
  have hlength : (((index + (m + 1) : ℕ) : ℤ) + 1 - ((index + 1 : ℕ) : ℤ)).toNat = m + 1 := by omega
  have hlength' : (((index + 1 + m : ℕ) : ℤ) + 1 - ((index + 1 + 1 : ℕ) : ℤ)).toNat = m := by omega
  unfold positionsFrom expandRange
  rw [hlength, hlength', List.range_succ_eq_map, List.map_cons, List.map_map, List.cons_eq_cons]
  refine ⟨by simp, List.map_congr_left fun i _ => ?_⟩
  show ((index + 1 : ℕ) : ℤ) + ((i + 1 : ℕ) : ℤ) = ((index + 1 + 1 : ℕ) : ℤ) + (i : ℤ)
  omega

theorem mem_positionsFrom {first last : ℕ} {k : ℤ} :
    k ∈ positionsFrom first last ↔ first ≤ k ∧ k ≤ last := mem_expandRange

theorem positionsFrom_nodup (first last : ℕ) : (positionsFrom first last).Nodup :=
  (pairwise_expandRange _).imp fun h => ne_of_lt h

/-- Each response falls into one bucket. -/
theorem buckets_perm (number : ℕ → Option ℤ) (index : ℕ) (responses : List IngestResponse) :
    (placed IngestResponse.isAccepted index responses ++ placed onlyDuplicate index responses ++
      (refused number index responses).map fun r => r.record).Perm
      (positionsFrom (index + 1) (index + responses.length)) := by
  -- by induction on the responses: each puts its position into one of the three lists
  induction responses generalizing index with
  | nil => simp [placed, refused, positionsFrom, expandRange]
  | cons r rest ih =>
    rw [List.length_cons, positionsFrom_cons]
    have hrest := ih (index + 1)
    by_cases haccepted : r.isAccepted = true
    · have hplaced : placed IngestResponse.isAccepted index (r :: rest) =
          ((index : ℤ) + 1) :: placed IngestResponse.isAccepted (index + 1) rest := by
        simp [placed, haccepted]
      have hduplicate : placed onlyDuplicate index (r :: rest) =
          placed onlyDuplicate (index + 1) rest := by simp [placed, onlyDuplicate, haccepted]
      have hrefused : refused number index (r :: rest) = refused number (index + 1) rest := by
        simp [refused, isSuccess, haccepted]
      rw [hplaced, hduplicate, hrefused]
      exact hrest.cons _
    · have hplaced : placed IngestResponse.isAccepted index (r :: rest) =
          placed IngestResponse.isAccepted (index + 1) rest := by simp [placed, haccepted]
      by_cases hdup : r.isDuplicate = true
      · have hduplicate : placed onlyDuplicate index (r :: rest) =
            ((index : ℤ) + 1) :: placed onlyDuplicate (index + 1) rest := by
          simp [placed, onlyDuplicate, haccepted, hdup]
        have hrefused : refused number index (r :: rest) = refused number (index + 1) rest := by
          simp [refused, isSuccess, hdup]
        rw [hplaced, hduplicate, hrefused, List.append_assoc, List.cons_append]
        refine List.perm_middle.trans (List.Perm.cons _ ?_)
        rwa [List.append_assoc] at hrest
      · have hduplicate : placed onlyDuplicate index (r :: rest) =
            placed onlyDuplicate (index + 1) rest := by simp [placed, onlyDuplicate, hdup]
        have hrefused : refused number index (r :: rest) =
            rejection index r (number index) :: refused number (index + 1) rest := by
          simp [refused, isSuccess, haccepted, hdup]
        rw [hplaced, hduplicate, hrefused, List.map_cons]
        exact List.perm_middle.trans (hrest.cons _)

/-- Ranges written from distinct positions expand to them. -/
theorem expand_compress_perm {positions : List ℤ} (hnodup : positions.Nodup) :
    (expandRanges (compressRanges positions)).Perm positions := by
  apply (List.perm_ext_iff_of_nodup (List.nodup_dedup _) hnodup).mpr
  intro k
  rw [← expandRanges, mem_expandRanges, (compressRanges_spec positions).2]

/-- Three buckets of ranges and one of positions, as positions. -/
theorem expand_compress_append {a b c : List ℤ} (ha : a.Nodup) (hb : b.Nodup) (hc : c.Nodup)
    (d : List ℤ) :
    (expandRanges (compressRanges a) ++ expandRanges (compressRanges b) ++
      expandRanges (compressRanges c) ++ d).Perm (a ++ b ++ d ++ c) := by
  have hab := (expand_compress_perm ha).append (expand_compress_perm hb)
  refine ((hab.append (expand_compress_perm hc)).append (List.Perm.refl d)).trans ?_
  rw [List.append_assoc (a ++ b), List.append_assoc (a ++ b)]
  exact List.Perm.append_left _ List.perm_append_comm

/-- The positions up to a number, and those after it. -/
theorem positionsFrom_append_perm {m n : ℕ} (hm : m ≤ n) :
    (positionsFrom 1 m ++ positionsFrom (m + 1) n).Perm (positionsFrom 1 n) := by
  have hdisjoint : ∀ k ∈ positionsFrom 1 m, k ∉ positionsFrom (m + 1) n := by
    intro k hk hk'
    rw [mem_positionsFrom] at hk hk'
    omega
  have hnodup : (positionsFrom 1 m ++ positionsFrom (m + 1) n).Nodup :=
    List.Nodup.append (positionsFrom_nodup _ _) (positionsFrom_nodup _ _) hdisjoint
  apply (List.perm_ext_iff_of_nodup hnodup (positionsFrom_nodup _ _)).mpr
  intro k
  rw [List.mem_append, mem_positionsFrom, mem_positionsFrom, mem_positionsFrom]
  omega

section

variable {attempt : Attempt}

/-- **The partition.** Every position of the file is in one bucket, and in one only. -/
theorem Built.covered_perm (h : Built envelopes number report attempt)
    (hlength : report.responses.length ≤ envelopes.length) :
    attempt.covered.Perm (positionsFrom 1 attempt.record_count) := by
  have hbuckets := buckets_perm number 0 report.responses
  have hnodup : (placed IngestResponse.isAccepted 0 report.responses ++
      placed onlyDuplicate 0 report.responses ++
      (refused number 0 report.responses).map fun r => r.record).Nodup :=
    hbuckets.nodup_iff.mpr (positionsFrom_nodup _ _)
  obtain ⟨hboth, -, -⟩ := List.nodup_append.mp hnodup
  obtain ⟨haccepted, hduplicate, -⟩ := List.nodup_append.mp hboth
  unfold Attempt.covered
  rw [h.accepted, h.duplicate, h.not_attempted, h.rejected, h.record_count]
  have hpart := positionsFrom_append_perm hlength
  have hall := expand_compress_append haccepted hduplicate
    (positionsFrom_nodup (report.responses.length + 1) envelopes.length)
    ((refused number 0 report.responses).map fun r => r.record)
  rw [Nat.zero_add, Nat.zero_add] at hbuckets
  exact hall.trans ((hbuckets.append (List.Perm.refl _)).trans hpart)

/-- A response that is no success, by the position it was recorded under. -/
theorem mem_refused {entry : Rejection} : entry ∈ refused number 0 responses ↔
    ∃ i r, responses[i]? = some r ∧ isSuccess r = false ∧ entry = rejection i r (number i) := by
  unfold refused
  rw [List.mem_filterMap]
  constructor
  · rintro ⟨⟨r, i⟩, hmem, heq⟩
    rw [List.mem_zipIdx_iff_getElem?] at hmem
    cases hs : isSuccess r with
    | true => simp [hs] at heq
    | false => exact ⟨i, r, hmem, hs, by simpa [hs, eq_comm] using heq⟩
  · rintro ⟨i, r, hr, hs, rfl⟩
    exact ⟨(r, i), List.mem_zipIdx_iff_getElem?.mpr hr, by simp [hs]⟩

/-- Nothing was refused exactly when every response is a success. -/
theorem refused_eq_nil_iff :
    refused number 0 responses = [] ↔ responses.findIdx? (fun r => !isSuccess r) = none := by
  rw [List.findIdx?_eq_none_iff, List.eq_nil_iff_forall_not_mem]
  constructor
  · intro h r hr
    obtain ⟨i, hi⟩ := List.mem_iff_getElem?.mp hr
    by_contra hs
    exact h _ (mem_refused.mpr ⟨i, r, hi, by simpa using hs, rfl⟩)
  · intro h entry hentry
    obtain ⟨i, r, hr, hs, -⟩ := mem_refused.mp hentry
    have := h r (List.mem_of_getElem? hr)
    simp [hs] at this

/-- The response that stopped the replay is no success. -/
theorem Tallied.halting (h : Tallied report) {i : ℕ} (hi : report.failed_index = some i) :
    ∃ r, report.responses[i]? = some r ∧ isSuccess r = false ∧ halting report = some r := by
  have hfound := h.failed_index.symm.trans hi
  obtain ⟨hlt, hs, -⟩ := List.findIdx?_eq_some_iff_getElem.mp hfound
  have hget : report.responses[i]? = some report.responses[i] := List.getElem?_eq_getElem hlt
  exact ⟨report.responses[i], hget, by simpa using hs, by
    rw [RootSign.halting, hi]
    exact hget⟩

/-- Giving up takes a refusal. -/
theorem failed_of_gaveUp (h : gaveUp report = true) : report.failed_index ≠ none := by
  intro hnone
  simp [gaveUp, RootSign.halting, hnone] at h

/-- What was answered is the beginning of the file. -/
theorem observed_iff {q : ℤ} :
    (q ∈ placed IngestResponse.isAccepted 0 responses ∨ q ∈ placed onlyDuplicate 0 responses ∨
      ∃ r ∈ refused number 0 responses, r.record = q) ↔ 1 ≤ q ∧ q ≤ responses.length := by
  have hmem := (buckets_perm number 0 responses).mem_iff (a := q)
  rw [List.mem_append, List.mem_append, List.mem_map, or_assoc, mem_positionsFrom] at hmem
  simpa using hmem

/-- What was refused is in no other bucket. -/
theorem not_success_of_refused {entry : Rejection} (h : entry ∈ refused number 0 responses) :
    entry.record ∉ placed IngestResponse.isAccepted 0 responses ∧
      entry.record ∉ placed onlyDuplicate 0 responses := by
  have hnodup := (buckets_perm number 0 responses).nodup_iff.mpr (positionsFrom_nodup _ _)
  have hdisjoint := (List.nodup_append.mp hnodup).2.2
  have hrecord : entry.record ∈ (refused number 0 responses).map fun r => r.record :=
    List.mem_map_of_mem h
  exact ⟨fun hacc => hdisjoint _ (List.mem_append_left _ hacc) _ hrecord rfl,
    fun hdup => hdisjoint _ (List.mem_append_right _ hdup) _ hrecord rfl⟩

/-- The published invariants of an attempt. -/
structure Faithful (attempt : Attempt) : Prop where
  partition : attempt.partitionIsTotal = true
  accepted : CanonicalRanges attempt.accepted
  duplicate : CanonicalRanges attempt.duplicate
  not_attempted : CanonicalRanges attempt.not_attempted
  observed_first : ∀ p, Covers attempt.not_attempted p → ∀ q,
    (Covers attempt.accepted q ∨ Covers attempt.duplicate q ∨
      ∃ r ∈ attempt.rejected, r.record = q) → q < p
  halted : ∀ n, attempt.halted_at_sequence = some n → ∃ r ∈ attempt.rejected, r.sequence = some n
  fully_accepted : attempt.disposition = .FULLY_ACCEPTED ↔
    ∀ p ∈ positionsFrom 1 attempt.record_count,
      Covers attempt.accepted p ∨ Covers attempt.duplicate p
  partial_ : attempt.disposition = .PARTIAL →
    attempt.rejected ≠ [] ∧ attempt.transport_error = none
  transport_failed : attempt.disposition = .TRANSPORT_FAILED → attempt.transport_error ≠ none

/-- `partition_is_total` says what it should: the buckets are a permutation of the positions. -/
theorem partitionIsTotal_iff : attempt.partitionIsTotal = true ↔
    attempt.covered.Perm (positionsFrom 1 attempt.record_count) := by
  have hsorted : (positionsFrom 1 attempt.record_count).Pairwise (· ≤ ·) :=
    (pairwise_expandRange _).imp le_of_lt
  unfold Attempt.partitionIsTotal
  rw [beq_iff_eq]
  constructor
  · intro h
    rw [← h]
    exact (List.perm_insertionSort _ _).symm
  · intro h
    exact ((List.perm_insertionSort _ _).trans h).eq_of_pairwise'
      (List.pairwise_insertionSort _ _) hsorted

/-- **What is published holds**, of an attempt made from a report of a client that answers. -/
theorem Built.faithful {Good : IngestResponse → Prop} (h : Built envelopes number report attempt)
    (hreport : Reported Good envelopes.length report) : Faithful attempt := by
  have hcovers := fun positions => (compressRanges_spec positions).2
  have hnil : refused number 0 report.responses = [] ↔ report.failed_index = none := by
    rw [refused_eq_nil_iff, hreport.tallied.failed_index]
  have hgave : gaveUp report = true → report.failed_index ≠ none := failed_of_gaveUp
  -- one case for each clause of the receipt's promise
  constructor
  case partition => exact partitionIsTotal_iff.mpr (h.covered_perm hreport.length_le)
  case accepted => rw [h.accepted]; exact (compressRanges_spec _).1
  case duplicate => rw [h.duplicate]; exact (compressRanges_spec _).1
  case not_attempted => rw [h.not_attempted]; exact (compressRanges_spec _).1
  case observed_first =>
    intro p hp q hq
    rw [h.not_attempted, hcovers, mem_positionsFrom] at hp
    rw [h.accepted, h.duplicate, h.rejected, hcovers, hcovers, observed_iff] at hq
    omega
  case halted =>
    intro n hn
    rw [h.halted_at_sequence] at hn
    obtain ⟨i, hi, hnumber⟩ := Option.bind_eq_some_iff.mp hn
    obtain ⟨r, hr, hs, -⟩ := hreport.tallied.halting hi
    refine ⟨rejection i r (number i), ?_, hnumber⟩
    rw [h.rejected]
    exact mem_refused.mpr ⟨i, r, hr, hs, rfl⟩
  case fully_accepted =>
    rw [h.disposition, h.accepted, h.duplicate, h.record_count]
    constructor
    -- fully accepted means no refusal was observed, so every position was answered and taken
    · intro hfull p hp
      have hnone : report.failed_index = none := by
        by_contra hfailed
        have hrefused := mt hnil.mp hfailed
        split_ifs at hfull with hg hempty
        rw [Bool.and_eq_true, Option.isNone_iff_eq_none] at hempty
        exact hfailed hempty.1
      rw [mem_positionsFrom] at hp
      have hlength := hreport.complete hnone
      have hobserved := (@observed_iff number report.responses p).mpr (by omega)
      rw [hcovers, hcovers]
      rcases hobserved with hacc | hdup | ⟨r, hr, -⟩
      · exact Or.inl hacc
      · exact Or.inr hdup
      · rw [hnil.mpr hnone] at hr
        exact absurd hr (by simp)
    -- a halting response would be refused, and its position is in neither list
    · intro hall
      have hnone : report.failed_index = none := by
        by_contra hfailed
        obtain ⟨i, hi⟩ := Option.ne_none_iff_exists'.mp hfailed
        obtain ⟨r, hr, hs, -⟩ := hreport.tallied.halting hi
        have hentry : rejection i r (number i) ∈ refused number 0 report.responses :=
          mem_refused.mpr ⟨i, r, hr, hs, rfl⟩
        obtain ⟨hacc, hdup⟩ := not_success_of_refused hentry
        have hlt := (List.getElem?_eq_some_iff.mp hr).1
        have hle := hreport.length_le
        have hposition : ((i : ℤ) + 1) ∈ positionsFrom 1 envelopes.length := by
          rw [mem_positionsFrom]
          omega
        rcases hall _ hposition with hcov | hcov
        · exact hacc ((hcovers _ _).mp hcov)
        · exact hdup ((hcovers _ _).mp hcov)
      have hg : gaveUp report ≠ true := fun hg => hgave hg hnone
      rw [if_neg hg, if_pos]
      simp [hnone, hnil.mpr hnone]
  case partial_ =>
    intro hpartial
    rw [h.disposition] at hpartial
    rw [h.rejected, h.transport_error]
    split_ifs at hpartial with hg hempty
    refine ⟨fun hrefused => hempty ?_, if_neg hg⟩
    simp [hnil.mp hrefused, hrefused]
  case transport_failed =>
    intro hfailed
    rw [h.disposition] at hfailed
    split_ifs at hfailed with hg hempty
    rw [h.transport_error, if_pos hg]
    obtain ⟨i, hi⟩ := Option.ne_none_iff_exists'.mp (hgave hg)
    obtain ⟨r, -, -, hr⟩ := hreport.tallied.halting hi
    rw [hr]
    exact Option.some_ne_none _

end

/-! ### The reference derives the same -/

/-- The answers of a transcript in the order of their positions, one for each response. -/
def answersFrom (index : ℕ) (responses : List IngestResponse) : List (ℤ × Answer) :=
  (responses.zipIdx index).map fun p => ((p.2 : ℤ) + 1, answerOf p.2 p.1)

theorem positionsFrom_eq (index : ℕ) (responses : List IngestResponse) :
    positionsFrom (index + 1) (index + responses.length) =
      (responses.zipIdx index).map fun p => (p.2 : ℤ) + 1 := by
  induction responses generalizing index with
  | nil => simp [positionsFrom, expandRange]
  | cons r rest ih => rw [List.length_cons, positionsFrom_cons, ih, List.zipIdx_cons, List.map_cons]

section

variable {exchanges : List Exchange}

/-- The answered positions are those of the responses. -/
theorem Transcribes.mem_iff (h : Transcribes exchanges responses) {k : ℤ} :
    k ∈ (lastAnswers exchanges).keys ↔ k ∈ positionsFrom 1 responses.length := by
  rw [← AList.mem_keys, ← AList.lookup_isSome, h, mem_positionsFrom]
  split
  case isTrue hk =>
    rw [Option.isSome_map, ← Option.ne_none_iff_isSome, ne_eq, List.getElem?_eq_none_iff]
    omega
  case isFalse hk =>
    simp only [Option.isSome_none, Bool.false_eq_true, false_iff]
    omega

/-- A transcript read in the order of its positions gives back the responses. -/
theorem Transcribes.sortedAnswers (h : Transcribes exchanges responses) :
    sortedAnswers (lastAnswers exchanges) = answersFrom 0 responses := by
  have hperm : (lastAnswers exchanges).keys.Perm (positionsFrom 1 responses.length) :=
    (List.perm_ext_iff_of_nodup (lastAnswers exchanges).keys_nodup (positionsFrom_nodup _ _)).mpr
      fun k => h.mem_iff
  have hkeys : (lastAnswers exchanges).keys.insertionSort (· ≤ ·) =
      (responses.zipIdx 0).map fun p => (p.2 : ℤ) + 1 := by
    rw [← positionsFrom_eq, Nat.zero_add, Nat.zero_add]
    exact ((List.perm_insertionSort _ _).trans hperm).eq_of_pairwise'
      (List.pairwise_insertionSort _ _) ((pairwise_expandRange _).imp le_of_lt)
  unfold RootSign.sortedAnswers answersFrom
  rw [hkeys, List.filterMap_map, ← List.filterMap_eq_map]
  apply List.filterMap_congr
  rintro ⟨r, i⟩ hmem
  rw [List.mem_zipIdx_iff_getElem?] at hmem
  have hlookup := h ((i : ℤ) + 1)
  rw [if_pos (by omega), show ((i : ℤ) + 1 - 1).toNat = i by omega, hmem] at hlookup
  show ((lastAnswers exchanges).lookup ((i : ℤ) + 1)).map _ = _
  rw [hlookup]
  rfl

/-- `DUPLICATE_EVENT` on the wire is the member of the registry. -/
theorem answerOf_duplicate (index : ℕ) (r : IngestResponse) :
    (answerOf index r).error_code = some "DUPLICATE_EVENT" ↔ r.isDuplicate = true := by
  have htext : ∀ code : ErrorCode,
      JStr.ofString code.text = "DUPLICATE_EVENT" ↔ code = .DUPLICATE_EVENT := by
    intro code
    refine JStr.ofString_inj.trans ⟨fun h => ?_, fun h => by rw [h]; rfl⟩
    exact ErrorCode.text_inj (b := .DUPLICATE_EVENT) h
  unfold answerOf IngestResponse.isDuplicate
  cases hcode : r.error_code with
  | none => simp
  | some code => simp [htext]

/-- The sequence that the reference gives a refused record is the writer's. -/
theorem itemAt_sequence (hlines : List.Forall₂ Records lines envelopes)
    (hnumbered : ∀ e ∈ envelopes, NumberedEnvelope e)
    (hnumber : ∀ i, sequenceAt envelopes i = .ok (number i)) {i : ℕ} (hi : i < envelopes.length) :
    itemAt lines (((i : ℤ) + 1) - 1) >>= deriveSequence = .ok (number i) := by
  have hi' : i < lines.length := by rwa [hlines.length_eq]
  have hrecords := hlines.get hi' hi
  rw [List.get_eq_getElem, List.get_eq_getElem] at hrecords
  -- the position is that of the line
  have hitem : itemAt lines (((i : ℤ) + 1) - 1) = .ok lines[i] := by
    unfold itemAt
    rw [add_sub_cancel_right, if_neg (by omega), Int.toNat_natCast, List.getElem?_eq_getElem hi']
    exact if_pos (by omega)
  have hown := hnumber i
  rw [sequenceAt, List.getElem?_eq_getElem hi] at hown
  rw [hitem]
  show deriveSequence lines[i] = _
  unfold deriveSequence
  -- an action's number is on its line; another event has none
  rcases hnumbered _ (List.getElem_mem hi) with
    ⟨payload, n, hkind, hpayload, hn⟩ | ⟨payload, hkind, hpayload, hn⟩
  · have hsequence : Receipt.sequenceOf envelopes[i] = .ok (some n) := by
      simp [Receipt.sequenceOf, hpayload, hn, Except.map, Json.asInt]
    rw [hrecords.event_type, hkind, if_pos (Json.pyEq_str.mpr rfl),
      hrecords.number hkind n hsequence]
    exact hsequence.symm.trans hown
  · have hsequence : Receipt.sequenceOf envelopes[i] = .ok none := by
      simp [Receipt.sequenceOf, hpayload, hn, Except.map, Json.asInt]
    rw [hrecords.event_type, if_neg (fun h => hkind (Json.pyEq_str.mp h))]
    exact hsequence.symm.trans hown

/-- The loop of `derive_attempt`, on the answers that tell of the responses. -/
theorem Derivation.place_eq
    (hitem : ∀ i, i < envelopes.length →
      itemAt lines (((i : ℤ) + 1) - 1) >>= deriveSequence = .ok (number i))
    (d : Derivation) (index : ℕ) (hlength : index + responses.length ≤ envelopes.length) :
    Derivation.place lines d (answersFrom index responses) = .ok
      { accepted := d.accepted ++ placed IngestResponse.isAccepted index responses
        duplicate := d.duplicate ++ placed onlyDuplicate index responses
        rejected := d.rejected ++ (refused number index responses).map Rejection.toRefusal
        halting := d.halting.or
          ((refused number index responses).map Rejection.toRefusal).head? } := by
  -- by induction on the responses, each of which `derive_attempt` finds at its own position
  induction responses generalizing d index with
  | nil => simp [answersFrom, place, placed, refused]
  | cons r rest ih =>
    rw [List.length_cons] at hlength
    have hcons : answersFrom index (r :: rest) =
        ((index : ℤ) + 1, answerOf index r) :: answersFrom (index + 1) rest := by
      rw [answersFrom, List.zipIdx_cons, List.map_cons]
      rfl
    rw [hcons, place]
    by_cases haccepted : r.isAccepted = true
    · have hstatus : (answerOf index r).status = "accepted" := beq_iff_eq.mp haccepted
      rw [if_pos hstatus, ih _ _ (by omega)]
      simp [placed, refused, onlyDuplicate, isSuccess, haccepted]
    · have hstatus : (answerOf index r).status ≠ "accepted" :=
        fun h => haccepted (beq_iff_eq.mpr h)
      rw [if_neg hstatus]
      by_cases hduplicate : r.isDuplicate = true
      · have hcode : (answerOf index r).error_code = some "DUPLICATE_EVENT" :=
          (answerOf_duplicate index r).mpr hduplicate
        rw [if_pos hcode, ih _ _ (by omega)]
        simp [placed, refused, onlyDuplicate, isSuccess, haccepted, hduplicate]
      · have hcode : (answerOf index r).error_code ≠ some "DUPLICATE_EVENT" :=
          fun h => hduplicate ((answerOf_duplicate index r).mp h)
        -- a refusal carries its sequence number, read from the spool line
        rw [if_neg hcode, hitem index (by omega)]
        simp only
        rw [ih _ _ (by omega)]
        simp [placed, refused, onlyDuplicate, isSuccess, haccepted, hduplicate, rejection, answerOf]

/-- The first entry is that of the first response that is no success. -/
theorem head?_refused (number : ℕ → Option ℤ) (index : ℕ) (responses : List IngestResponse) :
    (refused number index responses).head? =
      (responses.findIdx? fun r => !isSuccess r).bind fun i =>
        (responses[i]?).map fun r => rejection (index + i) r (number (index + i)) := by
  induction responses generalizing index with
  | nil => rfl
  | cons r rest ih =>
    rw [List.findIdx?_cons]
    cases hs : isSuccess r with
    | true =>
      have hrefused : refused number index (r :: rest) = refused number (index + 1) rest := by
        simp [refused, hs]
      rw [hrefused, ih]
      cases rest.findIdx? fun r => !isSuccess r with
      | none => rfl
      | some i =>
        show (rest[i]?).map _ = (rest[i]?).map _
        rw [show index + 1 + i = index + (i + 1) by omega]
    | false =>
      have hrefused : refused number index (r :: rest) =
          rejection index r (number index) :: refused number (index + 1) rest := by
        simp [refused, hs]
      rw [hrefused]
      rfl

/-- The writer's compression depends on the set of positions only. -/
theorem compressRanges_congr {a b : List ℤ} (h : ∀ k, k ∈ a ↔ k ∈ b) :
    compressRanges a = compressRanges b := by
  apply (compressRanges_spec a).1.eq_of_covers (compressRanges_spec b).1
  intro k
  rw [(compressRanges_spec a).2, (compressRanges_spec b).2, h]

/-- **The same outcomes.** What the reference derives from a transcript is what the attempt says. -/
theorem Built.derived {attempt : Attempt} {Good : IngestResponse → Prop}
    (h : Built envelopes number report attempt) (hreport : Reported Good envelopes.length report)
    (hlines : List.Forall₂ Records lines envelopes)
    (hnumbered : ∀ e ∈ envelopes, NumberedEnvelope e)
    (hnumber : ∀ i, sequenceAt envelopes i = .ok (number i))
    (hexchanges : Transcribes exchanges report.responses) :
    deriveAttempt lines exchanges = .ok attempt.comparable := by
  have hplace := Derivation.place_eq
    (fun i hi => itemAt_sequence hlines hnumbered hnumber hi) {} 0
    (by rw [Nat.zero_add]; exact hreport.length_le)
  rw [← hexchanges.sortedAnswers] at hplace
  have hnodup := (buckets_perm number 0 report.responses).nodup_iff.mpr (positionsFrom_nodup _ _)
  obtain ⟨hboth, -, -⟩ := List.nodup_append.mp hnodup
  obtain ⟨haccepted, hduplicate, -⟩ := List.nodup_append.mp hboth
  have hrest : ∀ k, k ∈ ((positionsFrom 1 envelopes.length).filter fun p =>
      ((lastAnswers exchanges).lookup p).isNone) ↔
      k ∈ positionsFrom (report.responses.length + 1) envelopes.length := by
    intro k
    rw [List.mem_filter, Option.isNone_iff_eq_none, AList.lookup_eq_none, AList.mem_keys,
      hexchanges.mem_iff, mem_positionsFrom, mem_positionsFrom, mem_positionsFrom]
    have := hreport.length_le
    omega
  have hrestNodup := (positionsFrom_nodup 1 envelopes.length).filter fun p =>
    ((lastAnswers exchanges).lookup p).isNone
  -- the first refusal is the one that stopped the replay
  have hhead : (refused number 0 report.responses).head? =
      report.failed_index.bind fun i =>
        (report.responses[i]?).map fun r => rejection i r (number i) := by
    rw [head?_refused, ← hreport.tallied.failed_index]
    simp only [Nat.zero_add]
  have hhalted : ((refused number 0 report.responses).map Rejection.toRefusal).head?.bind
      Refusal.sequence = report.failed_index.bind number := by
    rw [List.head?_map, hhead]
    cases hfailed : report.failed_index with
    | none => rfl
    | some i =>
      obtain ⟨r, hr, -, -⟩ := hreport.tallied.halting hfailed
      simp [hr, rejection]
  have hretry : ((refused number 0 report.responses).map Rejection.toRefusal).head?.bind
      Refusal.retryable = (halting report).bind IngestResponse.retryable := by
    rw [List.head?_map, hhead, halting]
    cases hfailed : report.failed_index with
    | none => rfl
    | some i =>
      obtain ⟨r, hr, -, -⟩ := hreport.tallied.halting hfailed
      simp [hr, rejection]
  have hnone : ((refused number 0 report.responses).map Rejection.toRefusal).head?.isNone =
      (report.failed_index.isNone && (refused number 0 report.responses).isEmpty) := by
    have hnil : refused number 0 report.responses = [] ↔ report.failed_index = none := by
      rw [refused_eq_nil_iff, hreport.tallied.failed_index]
    cases hfailed : report.failed_index with
    | none => simp [hnil.mpr hfailed]
    | some i =>
      have hne : refused number 0 report.responses ≠ [] := fun hempty => by
        rw [hnil.mp hempty] at hfailed
        exact absurd hfailed (by simp)
      simp [hne]
  unfold deriveAttempt
  simp only [hplace, Except.map, List.nil_append, Option.none_or, hlines.length_eq,
    referenceCompress_eq haccepted, referenceCompress_eq hduplicate,
    referenceCompress_eq hrestNodup, compressRanges_congr hrest, hhalted, hretry, hnone]
  rw [Attempt.comparable, h.record_count, h.accepted, h.duplicate, h.rejected, h.not_attempted,
    h.halted_at_sequence, h.disposition]
  rfl

/-! ### A recorder -/

/-- The exchange of one answered batch, after `sent` envelopes. -/
def exchangeOf (sent : ℕ) (responses : List IngestResponse) : Exchange where
  responses := (answersFrom sent responses).map Prod.snd

/-- A client that notes every exchange beside what it was answered so far. -/
def Client.recorded (client : Client σ ε) :
    Client (σ × List IngestResponse × List Exchange) ε :=
  .batching fun s batch =>
    match client.send s.1 batch with
    | (.error e, s') => (.error e, (s', s.2))
    | (.ok responses, s') =>
      (.ok responses,
        (s', s.2.1 ++ responses, s.2.2 ++ [exchangeOf s.2.1.length responses]))

theorem answerOf_record (index : ℕ) (r : IngestResponse) : (answerOf index r).record = index + 1 :=
  rfl

/-- One more answer overwrites at its own record. -/
theorem lastAnswers_concat (exchanges : List Exchange) (answers : List Answer) (a : Answer)
    (position : ℤ) :
    (lastAnswers (exchanges ++ [⟨answers ++ [a]⟩])).lookup position =
      if position = a.record then some a
      else (lastAnswers (exchanges ++ [⟨answers⟩])).lookup position := by
  have hfold : lastAnswers (exchanges ++ [⟨answers ++ [a]⟩]) =
      (lastAnswers (exchanges ++ [⟨answers⟩])).insert a.record a := by
    simp [lastAnswers, List.flatMap_append, List.foldl_append]
  rw [hfold]
  split
  case isTrue h => rw [h, AList.lookup_insert]
  case isFalse h => rw [AList.lookup_insert_ne h]

/-- A batch is noted at the end of a transcript. -/
theorem Transcribes.exchange (h : Transcribes exchanges responses)
    (answers : List IngestResponse) :
    Transcribes (exchanges ++ [exchangeOf responses.length answers]) (responses ++ answers) := by
  -- by induction on the answers from the end, since the last answer of a position counts
  induction answers using List.reverseRecOn with
  | nil =>
    have hnone : lastAnswers (exchanges ++ [exchangeOf responses.length []]) =
        lastAnswers exchanges := by
      simp [lastAnswers, exchangeOf, answersFrom]
    rw [Transcribes, hnone, List.append_nil]
    exact h
  | append_singleton answers r ih =>
    intro position
    have hconcat : exchangeOf responses.length (answers ++ [r]) =
        ⟨(exchangeOf responses.length answers).responses ++
          [answerOf (responses.length + answers.length) r]⟩ := by
      simp [exchangeOf, answersFrom, List.zipIdx_append]
    have hsame : ∀ j, j ≠ responses.length + answers.length →
        (responses ++ (answers ++ [r]))[j]? = (responses ++ answers)[j]? := by
      intro j hj
      rw [← List.append_assoc, List.getElem?_append]
      split
      case isTrue => rfl
      case isFalse hlong =>
        have hover : (responses ++ answers)[j]? = none := List.getElem?_eq_none (by omega)
        rw [List.length_append] at hlong ⊢
        rw [hover, List.getElem?_eq_none]
        show 1 ≤ j - (responses.length + answers.length)
        omega
    rw [hconcat, lastAnswers_concat, answerOf_record]
    split
    case isTrue hposition =>
      subst hposition
      have hlast : (responses ++ (answers ++ [r]))[responses.length + answers.length]? =
        some r := by
        rw [← List.append_assoc, ← List.length_append, List.getElem?_concat_length]
      rw [if_pos (by omega), show ((((responses.length + answers.length : ℕ) : ℤ) + 1) - 1).toNat =
        responses.length + answers.length by omega, hlast]
      rfl
    case isFalse hposition =>
      refine (ih position).trans ?_
      split
      case isTrue hpos => rw [hsame _ (by omega)]
      case isFalse => rfl

/-- **A recorded replay.** Its log is a transcript of what the client answered. -/
theorem recorded_transcribes (client : Client σ ε) (s : σ) (envelopes : List Dict)
    (batch_size : ℤ) {s' : σ × List IngestResponse × List Exchange}
    (h : replayEnvelopes client.recorded (s, [], []) envelopes batch_size = (.ok report, s')) :
    Transcribes s'.2.2 report.responses := by
  -- what the recording client notes is what it was answered with
  have hsend : ∀ a batch responses a', client.recorded.send a batch = (.ok responses, a') →
      a'.2.1 = a.2.1 ++ responses ∧
        a'.2.2 = a.2.2 ++ [exchangeOf a.2.1.length responses] := by
    rintro ⟨s, answered, log⟩ batch responses a' hsend
    simp only [Client.send, Client.recorded] at hsend
    split at hsend
    case h_1 => exact absurd (congrArg Prod.fst hsend) (by simp)
    case h_2 =>
      obtain ⟨hok, rfl⟩ := Prod.mk.inj hsend
      obtain rfl := Except.ok.inj hok
      exact ⟨rfl, rfl⟩
  have hnote : ∀ k {a : σ × List IngestResponse × List Exchange} {report : ReplayReport} batch
      {responses a'}, (Transcribes a.2.2 report.responses ∧ a.2.1 = report.responses) →
      client.recorded.send a batch = (.ok responses, a') →
      Transcribes a'.2.2 (report.observeAll k responses).responses ∧
        a'.2.1 = (report.observeAll k responses).responses := by
    intro k a report batch responses a' hP hok
    obtain ⟨hanswered, hlog⟩ := hsend _ _ _ _ hok
    rw [hanswered, hlog, hP.2, ReplayReport.responses_observeAll]
    exact ⟨hP.1.exchange responses, rfl⟩
  -- the rule of the walk, with the transcript so far as what holds before each batch
  have hrule := @replayEnvelopes_rule _ ε (batchSize batch_size) envelopes client.recorded
    (s, [], []) batch_size
    (fun _ a report => Transcribes a.2.2 report.responses ∧ a.2.1 = report.responses)
    (fun result a => ∀ report, result = .ok report → Transcribes a.2.2 report.responses) rfl
    ⟨fun position => by simp [lastAnswers], rfl⟩ ?_ ?_ ?_ ?_ ?_
  · rw [h] at hrule
    exact hrule report rfl
  · intro k a report responses a' hk hP hok hnone hlong
    exact hnote _ _ hP hok
  · intro k a report responses a' hk hP hok hrefusal report' hreport
    obtain rfl := Except.ok.inj hreport
    exact (hnote _ _ hP hok).1
  · intro k a report responses a' hk hP hok hnone hless report' hreport
    obtain rfl := Except.ok.inj hreport
    exact (hnote _ _ hP hok).1
  · intro k a report e a' hk hP hraise report' hreport
    exact absurd hreport (by simp)
  · intro k a report hk hP report' hreport
    obtain rfl := Except.ok.inj hreport
    exact hP.1

/-! ### Attempts made from replays -/

/-- Every envelope's number can be read. -/
theorem sequenceAt_ok (hnumbered : ∀ e ∈ envelopes, NumberedEnvelope e) (i : ℕ) :
    ∃ v, sequenceAt envelopes i = .ok v := by
  unfold sequenceAt
  cases hi : envelopes[i]? with
  | none => exact ⟨none, rfl⟩
  | some e =>
    rcases hnumbered e (List.mem_of_getElem? hi) with ⟨_, n, _, h, _⟩ | ⟨_, _, h, _⟩
    all_goals
      simp only [Receipt.sequenceOf, h]
      exact ⟨_, rfl⟩

/-- The replay ends with a report, the attempt made from it keeps what it publishes and covers the
    whole file, and the reference derives the same from every transcript of the replay. -/
def FaithfullyRecorded (client : Client σ ε) (s : σ) (envelopes : List Dict) (batch_size : ℤ)
    (io : AttemptIO) : Prop :=
  ∃ report s' attempt, replayEnvelopes client s envelopes batch_size = (.ok report, s') ∧
    buildAttempt envelopes report io none = .ok attempt ∧
    attempt.record_count = envelopes.length ∧ Faithful attempt ∧
    ∀ lines exchanges, List.Forall₂ Records lines envelopes →
      Transcribes exchanges report.responses →
      deriveAttempt lines exchanges = .ok attempt.comparable

/-- **Receipts are faithful.** Of every client that answers each batch with one response for each
    envelope, whatever the responses are and however the list is cut into batches. -/
theorem receipt_faithful (client : Client σ ε) (htotal : client.Total)
    (haligned : client.Answers fun _ => True) (s : σ) (envelopes : List Dict)
    (hnumbered : ∀ e ∈ envelopes, NumberedEnvelope e) (batch_size : ℤ) (io : AttemptIO) :
    FaithfullyRecorded client s envelopes batch_size io := by
  choose number hnumber using sequenceAt_ok hnumbered
  obtain ⟨report, s', hreplay⟩ := replayEnvelopes_total client htotal s envelopes batch_size
  have hreport := replayEnvelopes_reported client haligned s envelopes batch_size hreplay
  obtain ⟨attempt, hattempt, hbuilt⟩ := buildAttempt_eq hnumber hreport.tallied io
  exact ⟨report, s', attempt, hreplay, hattempt, hbuilt.record_count, hbuilt.faithful hreport,
    fun lines exchanges hlines hexchanges =>
      hbuilt.derived hreport hlines hnumbered hnumber hexchanges⟩

/-- A client that refuses every envelope. -/
def refusingClient : Client Unit PyError :=
  .batching fun s batch =>
    (.ok (batch.map fun _ => .rejected exampleEvent .VALIDATION_ERROR "refused" false), s)

/-- A session's opening and its first action, as envelopes. -/
def openedWithAction : List Dict :=
  [Dict.ofFields [("event_type", .str "SESSION_OPEN"), ("payload", .obj [])],
   Dict.ofFields [("event_type", .str "ACTION_RECORD"),
     ("payload", .obj (Dict.ofFields [("sequence_number", .int 1)]))]]

/-- The settings of an attempt at noon. -/
def exampleAttemptIO : AttemptIO where
  attempt_id := exampleRecord.text
  started_at := mayNoon
  finished_at := mayNoon
  endpoint := "https://ingest.example/v1/ingest"
  sdk_version := "0.3.0"
  operator := "operator"
  spool_file_sha256 := ""

theorem openedWithAction_numbered : ∀ e ∈ openedWithAction, NumberedEnvelope e := by
  intro e he
  rcases List.mem_pair.mp he with rfl | rfl
  · refine .other [] ?_ (payloadOf_obj ?_) rfl
    all_goals simp [Dict.get_ofFields, List.lookup_cons]
  · refine .action (Dict.ofFields [("sequence_number", .int 1)]) 1 ?_ (payloadOf_obj ?_) ?_
    all_goals simp [Dict.get_ofFields, List.lookup_cons]

/-- Two records, both refused, in batches of one. -/
theorem receipt_faithful_refused :
    FaithfullyRecorded refusingClient () openedWithAction 1 exampleAttemptIO := by
  apply receipt_faithful refusingClient
  · exact fun s batch => ⟨_, _, rfl⟩
  · intro s batch responses s' h
    obtain rfl := Except.ok.inj (congrArg Prod.fst h)
    exact ⟨List.length_map _, fun _ _ => trivial⟩
  · exact openedWithAction_numbered

end

end RootSign
