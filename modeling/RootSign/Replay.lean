import RootSign.Ingest.Schemas
import RootSign.Lib.Loop

namespace RootSign

open RootSign.Lib RootSign.Python

/-!
# Batch replay (`rootsign/replay.py`)

Envelopes that were recorded go to a store in order, a batch at a time, until one is refused.

* `Client`, `Client.send` — what can be replayed to: a batch endpoint, or one call for each
  envelope;
* `ReplayReport` — how far a replay came;
* `replayEnvelopes` — the walk over the batches;
* `Reported` — what a report says of its own responses, and `replayEnvelopes_reported`.
-/

/-- What a replay achieved, and where it stopped if it did; `failed_index` counts envelopes, not
    batches, and the responses may run past it. -/
structure ReplayReport where
  total : ℕ
  accepted : ℕ := 0
  duplicates : ℕ := 0
  failed_index : Option ℕ := none
  error_code : Option ErrorCode := none
  error_message : Option JStr := none
  responses : List IngestResponse := []

/-- `response.error_code is ErrorCode.DUPLICATE_EVENT`. -/
def IngestResponse.isDuplicate (r : IngestResponse) : Bool :=
  r.error_code == some .DUPLICATE_EVENT

/-- `_is_success`. -/
def isSuccess (response : IngestResponse) : Bool := response.isAccepted || response.isDuplicate

/-! ### Clients -/

variable {σ ε : Type}

/-- A client with its state: it takes batches, or one envelope at a time.  It may raise. -/
inductive Client (σ ε : Type) where
  | batching (handle_batch : σ → List Dict → Except ε (List IngestResponse) × σ)
  | single (handle : σ → Dict → Except ε IngestResponse × σ)

/-- One call for each envelope. -/
def handleEach (handle : σ → Dict → Except ε IngestResponse × σ) (s : σ) :
    List Dict → Except ε (List IngestResponse) × σ
  | [] => (.ok [], s)
  | envelope :: rest =>
    match handle s envelope with
    | (.error e, s) => (.error e, s)
    | (.ok response, s) =>
      match handleEach handle s rest with
      | (.error e, s) => (.error e, s)
      | (.ok responses, s) => (.ok (response :: responses), s)

/-- `_send`. -/
def Client.send (client : Client σ ε) (s : σ) (batch : List Dict) :
    Except ε (List IngestResponse) × σ :=
  match client with
  | .batching handle_batch => handle_batch s batch
  | .single handle => handleEach handle s batch

/-! ### The walk -/

namespace ReplayReport

/-- `report.complete`. -/
def complete (report : ReplayReport) : Bool := report.failed_index.isNone

/-- One response, at its index. -/
def observe (report : ReplayReport) (index : ℕ) (response : IngestResponse) : ReplayReport :=
  let report := { report with responses := report.responses ++ [response] }
  if response.isAccepted then { report with accepted := report.accepted + 1 }
  else if response.isDuplicate then { report with duplicates := report.duplicates + 1 }
  else if report.failed_index.isNone then
    -- the first refusal stands, whatever else the batch was answered
    { report with
      failed_index := some index
      error_code := response.error_code
      error_message := response.error_message }
  else report

/-- The responses to a batch. -/
def observeAll (report : ReplayReport) (start : ℕ) : List IngestResponse → ReplayReport
  | [] => report
  | response :: rest => (report.observe start response).observeAll (start + 1) rest

/-- A store that answers short: the first envelope without an answer counts as failed. -/
def answeredShort (report : ReplayReport) (start answers expected : ℕ) : ReplayReport :=
  { report with
    failed_index := some (start + answers)
    error_code := some .INTERNAL_ERROR
    error_message := some ("store returned " ++ JStr.ofChars (intText answers) ++
      " response(s) for a " ++ JStr.ofChars (intText expected) ++ "-envelope batch") }

@[simp] theorem responses_observe (report : ReplayReport) (index : ℕ)
    (response : IngestResponse) :
    (report.observe index response).responses = report.responses ++ [response] := by
  simp only [observe]
  split_ifs <;> rfl

@[simp] theorem total_observe (report : ReplayReport) (index : ℕ) (response : IngestResponse) :
    (report.observe index response).total = report.total := by
  simp only [observe]
  split_ifs <;> rfl

@[simp] theorem responses_observeAll (report : ReplayReport) (start : ℕ)
    (responses : List IngestResponse) :
    (report.observeAll start responses).responses = report.responses ++ responses := by
  induction responses generalizing report start with
  | nil => exact (List.append_nil _).symm
  | cons response rest ih =>
    rw [observeAll, ih, responses_observe, List.append_assoc, List.singleton_append]

@[simp] theorem total_observeAll (report : ReplayReport) (start : ℕ)
    (responses : List IngestResponse) :
    (report.observeAll start responses).total = report.total := by
  induction responses generalizing report start with
  | nil => rfl
  | cons response rest ih => rw [observeAll, ih, total_observe]

end ReplayReport

/-- The batch with the given number. -/
def batchAt (envelopes : List Dict) (size k : ℕ) : List Dict :=
  (envelopes.drop (k * size)).take size

/-- How many batches there are: the length of `range(0, n, size)`. -/
def batchCount (n size : ℕ) : ℕ := (n + size - 1) / size

/-- `max(1, int(batch_size))`. -/
def batchSize (batch_size : ℤ) : ℕ := (max 1 batch_size).toNat

/-- One round of the walk. -/
def replayBatch (client : Client σ ε) (envelopes : List Dict) (size k : ℕ) :
    σ × ReplayReport → (σ × ReplayReport) ⊕ (Except ε ReplayReport × σ)
  | (s, report) =>
    let batch := batchAt envelopes size k
    match client.send s batch with
    | (.error e, s) => .inr (.error e, s)
    | (.ok responses, s) =>
      let report := report.observeAll (k * size) responses
      if report.failed_index.isSome then .inr (.ok report, s)
      else if responses.length < batch.length then
        .inr (.ok (report.answeredShort (k * size) responses.length batch.length), s)
      else .inl (s, report)

/-- `replay_envelopes`; an exception of the client passes through. -/
def replayEnvelopes (client : Client σ ε) (s : σ) (envelopes : List Dict) (batch_size : ℤ) :
    Except ε ReplayReport × σ :=
  let report : ReplayReport := { total := envelopes.length }
  if envelopes.isEmpty then (.ok report, s)
  else
    let size := batchSize batch_size
    match loop (replayBatch client envelopes size) 0 (batchCount envelopes.length size)
        (s, report) with
    | .inl (s, report) => (.ok report, s)
    | .inr result => result

/-! ### Batches -/

section

variable {n size k : ℕ} {envelopes : List Dict}

theorem one_le_batchSize (batch_size : ℤ) : 1 ≤ batchSize batch_size := by
  unfold batchSize
  omega

theorem lt_batchCount (hsize : 1 ≤ size) : k < batchCount n size ↔ k * size < n := by
  have hdiv : k + 1 ≤ (n + size - 1) / size ↔ (k + 1) * size ≤ n + size - 1 :=
    Nat.le_div_iff_mul_le hsize
  rw [Nat.succ_mul] at hdiv
  show k + 1 ≤ (n + size - 1) / size ↔ _
  omega

theorem le_batchCount_mul (hsize : 1 ≤ size) : n ≤ batchCount n size * size := by
  have h := (lt_batchCount (n := n) hsize).not.mp (lt_irrefl (batchCount n size))
  omega

theorem length_batchAt (envelopes : List Dict) (size k : ℕ) :
    (batchAt envelopes size k).length = min size (envelopes.length - k * size) := by
  simp [batchAt]

/-- The batches up to a number make up the beginning of the list. -/
theorem take_append_batchAt (envelopes : List Dict) (size k : ℕ) :
    envelopes.take (k * size) ++ batchAt envelopes size k = envelopes.take ((k + 1) * size) := by
  rw [batchAt, Nat.succ_mul, List.take_add]

/-! ### Reports -/

/-- What a report says of the responses it holds. -/
structure Tallied (report : ReplayReport) : Prop where
  accepted : report.accepted = report.responses.countP IngestResponse.isAccepted
  duplicates : report.duplicates =
    report.responses.countP fun r => !r.isAccepted && r.isDuplicate
  failed_index : report.failed_index = report.responses.findIdx? fun r => !isSuccess r
  refusal : ∀ i, report.failed_index = some i → ∃ r, report.responses[i]? = some r ∧
    report.error_code = r.error_code ∧ report.error_message = r.error_message

variable {report : ReplayReport} {responses : List IngestResponse}

/-- A refusal is found at the place of the first response that is no success. -/
theorem Tallied.length_of_failed (h : Tallied report) {i : ℕ} (hi : report.failed_index = some i) :
    i < report.responses.length := by
  rw [h.failed_index] at hi
  exact (List.findIdx?_eq_some_iff_findIdx_eq.mp hi).1

/-- A response at the end of what was observed. -/
theorem Tallied.observe (h : Tallied report) (response : IngestResponse) :
    Tallied (report.observe report.responses.length response) := by
  have hold : ∀ i, report.failed_index = some i →
      ∃ r, (report.responses ++ [response])[i]? = some r ∧
        report.error_code = r.error_code ∧ report.error_message = r.error_message := by
    intro i hi
    obtain ⟨r, hr, hrest⟩ := h.refusal i hi
    exact ⟨r, by rw [List.getElem?_append_left (h.length_of_failed hi), hr], hrest⟩
  -- the first refusal is the earlier one, if there is one, and this response otherwise
  have hfind : (report.responses ++ [response]).findIdx? (fun r => !isSuccess r) =
      report.failed_index.or
        (if isSuccess response then none else some report.responses.length) := by
    rw [List.findIdx?_append, ← h.failed_index]
    cases hs : isSuccess response <;> simp [hs]
  unfold ReplayReport.observe
  -- accepted, counted as a duplicate, or refused; a refusal is noted once
  cases haccepted : response.isAccepted with
  | true =>
    refine ⟨by simp [List.countP_append, haccepted, h.accepted],
      by simp [List.countP_append, haccepted, h.duplicates], ?_, hold⟩
    show report.failed_index = (report.responses ++ [response]).findIdx? fun r => !isSuccess r
    rw [hfind]
    simp [isSuccess, haccepted]
  | false =>
    cases hduplicate : response.isDuplicate with
    | true =>
      refine ⟨by simp [List.countP_append, haccepted, h.accepted],
        by simp [List.countP_append, haccepted, hduplicate, h.duplicates], ?_, hold⟩
      show report.failed_index = (report.responses ++ [response]).findIdx? fun r => !isSuccess r
      rw [hfind]
      simp [isSuccess, haccepted, hduplicate]
    | false =>
      have hcount : report.accepted =
          (report.responses ++ [response]).countP IngestResponse.isAccepted := by
        simp [List.countP_append, haccepted, h.accepted]
      have hcount' : report.duplicates =
          (report.responses ++ [response]).countP fun r => !r.isAccepted && r.isDuplicate := by
        simp [List.countP_append, haccepted, hduplicate, h.duplicates]
      cases hfailed : report.failed_index with
      | none =>
        refine ⟨hcount, hcount', ?_, ?_⟩
        · show some report.responses.length =
            (report.responses ++ [response]).findIdx? fun r => !isSuccess r
          rw [hfind, hfailed]
          simp [isSuccess, haccepted, hduplicate]
        · intro i hi
          obtain rfl := Option.some.inj hi
          exact ⟨response, by simp, rfl, rfl⟩
      | some i =>
        refine ⟨hcount, hcount', ?_, ?_⟩
        · show some i = (report.responses ++ [response]).findIdx? fun r => !isSuccess r
          rw [hfind, hfailed]
          rfl
        · intro j hj
          exact hold j (hfailed.trans hj)

/-- The responses to a batch, after those before it. -/
theorem Tallied.observeAll (h : Tallied report) {start : ℕ}
    (hstart : start = report.responses.length) :
    Tallied (report.observeAll start responses) := by
  subst hstart
  induction responses generalizing report with
  | nil => exact h
  | cons response rest ih =>
    have hnext := ih (h.observe response)
    rw [ReplayReport.responses_observe, List.length_append] at hnext
    exact hnext

/-- A finished replay: it was answered no further than the list reaches, and to its end unless it
    found a refusal. -/
structure Reported (Good : IngestResponse → Prop) (n : ℕ) (report : ReplayReport) : Prop where
  tallied : Tallied report
  total : report.total = n
  good : ∀ r ∈ report.responses, Good r
  length_le : report.responses.length ≤ n
  complete : report.failed_index = none → report.responses.length = n

/-- The client answers every batch, and each of its envelopes with a response of a kind. -/
def Client.Answers (client : Client σ ε) (Good : IngestResponse → Prop) : Prop :=
  ∀ s batch responses s', client.send s batch = (.ok responses, s') →
    responses.length = batch.length ∧ ∀ r ∈ responses, Good r

/-- The client raises nothing. -/
def Client.Total (client : Client σ ε) : Prop :=
  ∀ s batch, ∃ responses s', client.send s batch = (.ok responses, s')

/-- What one round can do: the client raises, the batch holds a refusal, it is answered short, or
    it is taken. -/
theorem replayBatch_cases {client : Client σ ε} {s : σ}
    {out : (σ × ReplayReport) ⊕ (Except ε ReplayReport × σ)}
    (h : replayBatch client envelopes size k (s, report) = out) :
    (∃ e s', client.send s (batchAt envelopes size k) = (.error e, s') ∧
      out = .inr (.error e, s')) ∨
    ∃ responses s', client.send s (batchAt envelopes size k) = (.ok responses, s') ∧
      ((report.observeAll (k * size) responses).failed_index ≠ none ∧
          out = .inr (.ok (report.observeAll (k * size) responses), s') ∨
        (report.observeAll (k * size) responses).failed_index = none ∧
          responses.length < (batchAt envelopes size k).length ∧
          out = .inr (.ok ((report.observeAll (k * size) responses).answeredShort (k * size)
            responses.length (batchAt envelopes size k).length), s') ∨
        (report.observeAll (k * size) responses).failed_index = none ∧
          (batchAt envelopes size k).length ≤ responses.length ∧
          out = .inl (s', report.observeAll (k * size) responses)) := by
  subst h
  cases hsend : client.send s (batchAt envelopes size k) with
  | mk result s' =>
    cases result with
    | error e => exact Or.inl ⟨e, s', rfl, by simp only [replayBatch, hsend]⟩
    | ok responses =>
      refine Or.inr ⟨responses, s', rfl, ?_⟩
      -- a refusal ends the walk before the number of responses is looked at
      by_cases hrefusal : (report.observeAll (k * size) responses).failed_index = none
      · by_cases hless : responses.length < (batchAt envelopes size k).length
        · exact Or.inr (Or.inl ⟨hrefusal, hless, by simp [replayBatch, hsend, hrefusal, hless]⟩)
        · exact Or.inr (Or.inr ⟨hrefusal, Nat.le_of_not_lt hless,
            by simp [replayBatch, hsend, hrefusal, hless]⟩)
      · have hsome := Option.isSome_iff_ne_none.mpr hrefusal
        exact Or.inl ⟨hrefusal, by simp [replayBatch, hsend, hsome]⟩

/-- **The rule of the walk.** `P k` holds before batch `k` is sent, with every earlier batch taken;
    `Q` holds of what the walk ends with. -/
theorem replayEnvelopes_rule {client : Client σ ε} {s : σ} {batch_size : ℤ}
    {P : ℕ → σ → ReplayReport → Prop} {Q : Except ε ReplayReport → σ → Prop}
    (hsize : size = batchSize batch_size)
    (hstart : P 0 s { total := envelopes.length })
    (hgo : ∀ k s report responses s', k * size < envelopes.length → P k s report →
      client.send s (batchAt envelopes size k) = (.ok responses, s') →
      (report.observeAll (k * size) responses).failed_index = none →
      (batchAt envelopes size k).length ≤ responses.length →
      P (k + 1) s' (report.observeAll (k * size) responses))
    (hrefused : ∀ k s report responses s', k * size < envelopes.length → P k s report →
      client.send s (batchAt envelopes size k) = (.ok responses, s') →
      (report.observeAll (k * size) responses).failed_index ≠ none →
      Q (.ok (report.observeAll (k * size) responses)) s')
    (hshort : ∀ k s report responses s', k * size < envelopes.length → P k s report →
      client.send s (batchAt envelopes size k) = (.ok responses, s') →
      (report.observeAll (k * size) responses).failed_index = none →
      responses.length < (batchAt envelopes size k).length →
      Q (.ok ((report.observeAll (k * size) responses).answeredShort (k * size) responses.length
        (batchAt envelopes size k).length)) s')
    (hraised : ∀ k s report e s', k * size < envelopes.length → P k s report →
      client.send s (batchAt envelopes size k) = (.error e, s') → Q (.error e) s')
    (hdone : ∀ k s report, envelopes.length ≤ k * size → P k s report → Q (.ok report) s) :
    Q (replayEnvelopes client s envelopes batch_size).1
      (replayEnvelopes client s envelopes batch_size).2 := by
  have hone : 1 ≤ size := by
    rw [hsize]
    exact one_le_batchSize batch_size
  unfold replayEnvelopes
  by_cases hempty : envelopes.isEmpty = true
  · simp only [hempty, if_true]
    apply hdone 0 _ _ _ hstart
    rw [List.isEmpty_iff.mp hempty]
    exact Nat.zero_le _
  · simp only [hempty, Bool.false_eq_true, if_false, ← hsize]
    have hloop := @loop_rule _ _ (replayBatch client envelopes size) (fun k a => P k a.1 a.2)
      (fun b => Q b.1 b.2) 0 (batchCount envelopes.length size)
      (s, { total := envelopes.length }) ?_ ?_ hstart
    · rcases hloop with ⟨⟨s', report⟩, hloop, hP⟩ | ⟨b, hloop, hQ⟩
      · rw [hloop]
        rw [Nat.zero_add] at hP
        exact hdone _ _ _ (le_batchCount_mul hone) hP
      · rw [hloop]
        exact hQ
    -- a batch that was taken leaves `P` of the next one
    · rintro k ⟨s, report⟩ a' - hk hP hbody
      rw [Nat.zero_add, lt_batchCount hone] at hk
      rcases replayBatch_cases hbody with ⟨_, _, -, h⟩ | ⟨responses, s', hsend, h⟩
      · exact absurd h (by simp)
      · rcases h with ⟨-, h⟩ | ⟨-, -, h⟩ | ⟨hnone, hlong, h⟩
        · exact absurd h (by simp)
        · exact absurd h (by simp)
        · obtain rfl := Sum.inl.inj h
          exact hgo k s report responses s' hk hP hsend hnone hlong
    -- a batch that ends the walk leaves `Q`: raised, refused or answered short
    · rintro k ⟨s, report⟩ result - hk hP hbody
      rw [Nat.zero_add, lt_batchCount hone] at hk
      rcases replayBatch_cases hbody with ⟨e, s', hsend, h⟩ | ⟨responses, s', hsend, h⟩
      · obtain rfl := Sum.inr.inj h
        exact hraised k s report e s' hk hP hsend
      · rcases h with ⟨hrefusal, h⟩ | ⟨hnone, hless, h⟩ | ⟨-, -, h⟩
        · obtain rfl := Sum.inr.inj h
          exact hrefused k s report responses s' hk hP hsend hrefusal
        · obtain rfl := Sum.inr.inj h
          exact hshort k s report responses s' hk hP hsend hnone hless
        · exact absurd h (by simp)

variable {Good : IngestResponse → Prop}

/-- Before batch `k` is sent: every earlier batch was answered in full, and nothing was refused. -/
structure Walked (Good : IngestResponse → Prop) (n size k : ℕ) (report : ReplayReport) : Prop where
  tallied : Tallied report
  total : report.total = n
  good : ∀ r ∈ report.responses, Good r
  length : report.responses.length = min (k * size) n
  unrefused : report.failed_index = none

theorem Walked.init (Good : IngestResponse → Prop) (n size : ℕ) :
    Walked Good n size 0 { total := n } :=
  ⟨⟨rfl, rfl, rfl, by simp⟩, rfl, by simp, by simp, rfl⟩

theorem Walked.index (h : Walked Good n size k report) (hk : k * size < n) :
    k * size = report.responses.length := by
  rw [h.length, min_eq_left hk.le]

/-- A batch that is answered in full. -/
theorem Walked.observeAll (h : Walked Good envelopes.length size k report)
    (hk : k * size < envelopes.length)
    (hlength : responses.length = (batchAt envelopes size k).length)
    (hgood : ∀ r ∈ responses, Good r) :
    Tallied (report.observeAll (k * size) responses) ∧
      (∀ r ∈ (report.observeAll (k * size) responses).responses, Good r) ∧
      (report.observeAll (k * size) responses).responses.length =
        min ((k + 1) * size) envelopes.length := by
  refine ⟨h.tallied.observeAll (h.index hk), fun r hr => ?_, ?_⟩
  · rw [ReplayReport.responses_observeAll] at hr
    rcases List.mem_append.mp hr with hr | hr
    · exact h.good r hr
    · exact hgood r hr
  · rw [ReplayReport.responses_observeAll, List.length_append, hlength, length_batchAt,
      ← h.index hk, Nat.succ_mul]
    omega

/-- **The replay loop.** What it returns reports what it was answered. -/
theorem replayEnvelopes_reported (client : Client σ ε) (hclient : client.Answers Good) (s : σ)
    (envelopes : List Dict) (batch_size : ℤ) {s' : σ}
    (h : replayEnvelopes client s envelopes batch_size = (.ok report, s')) :
    Reported Good envelopes.length report := by
  have hrule := @replayEnvelopes_rule σ ε (batchSize batch_size) envelopes client s batch_size
    (fun k _ => Walked Good envelopes.length (batchSize batch_size) k)
    (fun result _ => ∀ report, result = .ok report → Reported Good envelopes.length report) rfl
    (.init Good _ _) ?_ ?_ ?_ ?_ ?_
  · exact hrule report (by rw [h])
  · intro k s report responses s' hk hP hsend hnone hlong
    obtain ⟨hlength, hgood⟩ := hclient _ _ _ _ hsend
    obtain ⟨htallied, hgood, hcount⟩ := hP.observeAll hk hlength hgood
    exact ⟨htallied, by rw [ReplayReport.total_observeAll, hP.total], hgood, hcount, hnone⟩
  · intro k s report responses s' hk hP hsend hrefusal report' hreport
    obtain rfl := Except.ok.inj hreport
    obtain ⟨hlength, hgood⟩ := hclient _ _ _ _ hsend
    obtain ⟨htallied, hgood, hcount⟩ := hP.observeAll hk hlength hgood
    exact ⟨htallied, by rw [ReplayReport.total_observeAll, hP.total], hgood, by omega,
      fun hnone => absurd hnone hrefusal⟩
  · intro k s report responses s' hk hP hsend hnone hless
    -- an aligned client does not answer short
    exact absurd (hclient _ _ _ _ hsend).1 hless.ne
  · intro k s report e s' hk hP hsend report' hreport
    exact absurd hreport (by simp)
  · intro k s report hk hP report' hreport
    obtain rfl := Except.ok.inj hreport
    have hcount := hP.length
    rw [min_eq_right hk] at hcount
    exact ⟨hP.tallied, hP.total, hP.good, hcount.le, fun _ => hcount⟩

/-- A client that raises nothing gets a report. -/
theorem replayEnvelopes_total (client : Client σ ε) (hclient : client.Total) (s : σ)
    (envelopes : List Dict) (batch_size : ℤ) :
    ∃ report s', replayEnvelopes client s envelopes batch_size = (.ok report, s') := by
  have hrule := @replayEnvelopes_rule σ ε (batchSize batch_size) envelopes client s batch_size
    (fun _ _ _ => True) (fun result _ => ∃ report, result = .ok report) rfl trivial
    (fun _ _ _ _ _ _ _ _ _ _ => trivial) (fun _ _ _ _ _ _ _ _ _ => ⟨_, rfl⟩)
    (fun _ _ _ _ _ _ _ _ _ _ => ⟨_, rfl⟩) ?_ (fun _ _ report _ _ => ⟨report, rfl⟩)
  · obtain ⟨report, hreport⟩ := hrule
    exact ⟨report, _, Prod.ext hreport rfl⟩
  · intro k s report e s' hk hP hsend
    obtain ⟨responses, s'', hok⟩ := hclient s (batchAt envelopes (batchSize batch_size) k)
    rw [hok] at hsend
    exact absurd (congrArg Prod.fst hsend) (by simp)

end

end RootSign
