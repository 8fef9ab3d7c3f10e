import RootSign.SyncReceipts

namespace RootSign

open RootSign.Lib RootSign.Python

/-!
# Replays that end early

A client may raise in the middle of a replay, and a store may answer a batch short.  What was
answered before that is known, and the receipt should say so.

* `BatchWalk` — the batches a client took so far, with its answers;
* `Client.answered` — what a client answered of a batch in which it raises;
* `syncAttempt` — the attempt `_sync_one` makes of a replay;
* `observations_kept_iff` — an attempt made after an exception keeps every answer exactly when there
  was none;
* `short_answer_unrecorded` — no attempt is made of a replay that was answered short.
-/

/-! ### The answers of a replay -/

variable {σ ε : Type}

/-- The first batches of a replay, each answered in full and none refused, with the client as they
    leave it. -/
inductive BatchWalk (client : Client σ ε) (s₀ : σ) (envelopes : List Dict) (size : ℕ) :
    ℕ → σ → List (List IngestResponse) → Prop
  | start : BatchWalk client s₀ envelopes size 0 s₀ []
  | next {k : ℕ} {s s' : σ} {answers : List (List IngestResponse)}
      {responses : List IngestResponse}
      (walk : BatchWalk client s₀ envelopes size k s answers)
      (more : k * size < envelopes.length)
      (sent : client.send s (batchAt envelopes size k) = (.ok responses, s'))
      (taken : ∀ r ∈ responses, isSuccess r = true)
      (full : (batchAt envelopes size k).length ≤ responses.length) :
      BatchWalk client s₀ envelopes size (k + 1) s' (answers ++ [responses])

/-- The answer to an envelope, from the answers to the batches. -/
def answerTo (size : ℕ) (answers : List (List IngestResponse)) (i : ℕ) : Option IngestResponse :=
  answers[i / size]?.bind fun responses => responses[i % size]?

/-- The responses that one call for each envelope got, up to the one that raises. -/
def answeredEach (handle : σ → Dict → Except ε IngestResponse × σ) (s : σ) :
    List Dict → List IngestResponse
  | [] => []
  | envelope :: rest =>
    match handle s envelope with
    | (.error _, _) => []
    | (.ok response, s) => response :: answeredEach handle s rest

/-- What a client answered of a batch before it raised: nothing if it takes whole batches. -/
def Client.answered (client : Client σ ε) (s : σ) (batch : List Dict) : List IngestResponse :=
  match client with
  | .batching _ => []
  | .single handle => answeredEach handle s batch

/-- The client raises at its first call: on the first batch, or on the first envelope if it takes
    one at a time. -/
def Client.RaisesFirst (client : Client σ ε) (s : σ) (envelopes : List Dict) (size : ℕ) : Prop :=
  match client with
  | .batching handle_batch => ∃ e s', handle_batch s (batchAt envelopes size 0) = (.error e, s')
  | .single handle => ∃ envelope rest e s',
      envelopes = envelope :: rest ∧ handle s envelope = (.error e, s')

section

variable {client : Client σ ε} {s₀ s s' : σ} {envelopes : List Dict} {size k i : ℕ}
  {answers : List (List IngestResponse)} {responses : List IngestResponse}

theorem BatchWalk.length (h : BatchWalk client s₀ envelopes size k s answers) :
    answers.length = k := by
  induction h with
  | start => rfl
  | next walk more sent taken full ih => rw [List.length_append, ih, List.length_singleton]

/-- The batches a client took before, or its state at the start. -/
theorem BatchWalk.first (h : BatchWalk client s₀ envelopes size k s answers) :
    k = 0 ∧ s = s₀ ∧ answers = [] ∨
      ∃ responses s', client.send s₀ (batchAt envelopes size 0) = (.ok responses, s') ∧
        (batchAt envelopes size 0).length ≤ responses.length ∧ answers[0]? = some responses := by
  induction h with
  | start => exact Or.inl ⟨rfl, rfl, rfl⟩
  | next walk more sent taken full ih =>
    right
    rcases ih with ⟨rfl, rfl, rfl⟩ | ⟨responses', s', hsent, hfull, hget⟩
    · exact ⟨_, _, sent, full, rfl⟩
    · refine ⟨responses', s', hsent, hfull, ?_⟩
      rw [List.getElem?_append_left (List.getElem?_eq_some_iff.mp hget).1, hget]

/-- Every batch of a walk is answered in full. -/
theorem BatchWalk.full_at (h : BatchWalk client s₀ envelopes size k s answers) {j : ℕ}
    (hj : j < k) :
    ∃ responses, answers[j]? = some responses ∧
      (batchAt envelopes size j).length ≤ responses.length := by
  induction h with
  | start => exact absurd hj (Nat.not_lt_zero j)
  | @next k s s' answers responses walk more sent taken full ih =>
    rcases Nat.lt_succ_iff_lt_or_eq.mp hj with hlt | rfl
    · obtain ⟨responses', hget, hfull⟩ := ih hlt
      refine ⟨responses', ?_, hfull⟩
      rw [List.getElem?_append_left (List.getElem?_eq_some_iff.mp hget).1, hget]
    · refine ⟨responses, ?_, full⟩
      rw [← walk.length, List.getElem?_concat_length]

/-- Responses without a refusal do not stop the replay. -/
theorem ReplayReport.failed_index_observeAll {report : ReplayReport} (start : ℕ)
    (hnone : report.failed_index = none) (htaken : ∀ r ∈ responses, isSuccess r = true) :
    (report.observeAll start responses).failed_index = none := by
  induction responses generalizing report start with
  | nil => exact hnone
  | cons response rest ih =>
    apply ih (start + 1) _ fun r hr => htaken r (List.mem_cons_of_mem _ hr)
    have hsuccess := htaken response List.mem_cons_self
    rw [isSuccess, Bool.or_eq_true] at hsuccess
    unfold ReplayReport.observe
    rcases hsuccess with haccepted | hduplicate
    · simp [haccepted, hnone]
    · split_ifs <;> simp_all

/-- **The loop over a walk.** The report holds the answers, one after the other. -/
theorem BatchWalk.loop_eq (h : BatchWalk client s₀ envelopes size k s answers) :
    ∃ report : ReplayReport, loop (replayBatch client envelopes size) 0 k
        (s₀, { total := envelopes.length }) = .inl (s, report) ∧
      report.failed_index = none ∧ report.responses = answers.flatten := by
  induction h with
  | start => exact ⟨_, rfl, rfl, rfl⟩
  | @next k s s' answers responses walk more sent taken full ih =>
    obtain ⟨report, hloop, hnone, hresponses⟩ := ih
    have hnext := ReplayReport.failed_index_observeAll (k * size) hnone taken
    refine ⟨report.observeAll (k * size) responses, ?_, hnext, ?_⟩
    · have hround : replayBatch client envelopes size (0 + k) (s, report) =
          .inl (s', report.observeAll (k * size) responses) := by
        simp only [Nat.zero_add, replayBatch, sent, hnext, Option.isSome_none, Bool.false_eq_true,
          if_false, if_neg (Nat.not_lt.mpr full)]
      rw [loop_add, hloop]
      show loop (replayBatch client envelopes size) (0 + k) 1 (s, report) = _
      simp only [loop, hround]
    · rw [ReplayReport.responses_observeAll, hresponses, List.flatten_append,
        List.flatten_singleton]

/-- A round that leaves the loop ends the replay. -/
theorem BatchWalk.replay_eq {batch_size : ℤ}
    (h : BatchWalk client s₀ envelopes (batchSize batch_size) k s answers)
    (hmore : k * batchSize batch_size < envelopes.length) :
    ∃ report : ReplayReport, report.failed_index = none ∧ report.responses = answers.flatten ∧
      ∀ result, replayBatch client envelopes (batchSize batch_size) k (s, report) = .inr result →
        replayEnvelopes client s₀ envelopes batch_size = result := by
  obtain ⟨report, hloop, hnone, hresponses⟩ := h.loop_eq
  refine ⟨report, hnone, hresponses, fun result hround => ?_⟩
  have hcount := (lt_batchCount (one_le_batchSize batch_size)).mpr hmore
  obtain ⟨rest, hrest⟩ : ∃ rest, batchCount envelopes.length (batchSize batch_size) =
      k + (rest + 1) := Nat.exists_eq_add_of_lt hcount
  have hempty : envelopes.isEmpty = false := by
    rw [List.isEmpty_eq_false_iff]
    rintro rfl
    exact absurd hmore (by simp)
  unfold replayEnvelopes
  simp only [hempty, Bool.false_eq_true, if_false]
  rw [hrest, loop_add, hloop]
  simp only [loop, Nat.zero_add, hround]

/-! ### An exception -/

/-- The attempt `_sync_one` makes of a replay, with `render` the text of an exception.  An exception
    leaves it with a report of its own. -/
def syncAttempt (render : ε → JStr) (client : Client σ ε) (s : σ) (envelopes : List Dict)
    (batch_size : ℤ) (io : AttemptIO) : Except PyError Attempt :=
  match replayEnvelopes client s envelopes batch_size with
  | (.ok report, _) => buildAttempt envelopes report io none
  | (.error e, _) =>
    -- what was observed so far stays in the loop
    buildAttempt envelopes { total := envelopes.length } io (some (render e))

/-- The attempt has each answer in the bucket it belongs to, and says of no answered envelope that
    it was not attempted. -/
structure KeepsObservations (answer : ℕ → Option IngestResponse) (n : ℕ) (attempt : Attempt) :
    Prop where
  accepted : ∀ i < n, ∀ r, answer i = some r → r.isAccepted = true →
    Covers attempt.accepted (i + 1)
  duplicate : ∀ i < n, ∀ r, answer i = some r → onlyDuplicate r = true →
    Covers attempt.duplicate (i + 1)
  rejected : ∀ i < n, ∀ r, answer i = some r → isSuccess r = false →
    ∃ entry ∈ attempt.rejected, entry.record = i + 1
  not_attempted : ∀ i < n, Covers attempt.not_attempted (i + 1) → answer i = none

/-- A replay whose client raises at a batch, after it took the batches before. -/
def Interrupted (client : Client σ ε) (s₀ : σ) (envelopes : List Dict) (size : ℕ)
    (answers : List (List IngestResponse)) (e : ε) : Prop :=
  ∃ k s s' earlier, BatchWalk client s₀ envelopes size k s earlier ∧
    k * size < envelopes.length ∧ client.send s (batchAt envelopes size k) = (.error e, s') ∧
    answers = earlier ++ [client.answered s (batchAt envelopes size k)]

/-- An exception of the client passes through. -/
theorem Interrupted.replay_eq {e : ε} {batch_size : ℤ}
    (h : Interrupted client s₀ envelopes (batchSize batch_size) answers e) :
    ∃ s', replayEnvelopes client s₀ envelopes batch_size = (.error e, s') := by
  obtain ⟨k, s, s', earlier, walk, hmore, hraise, -⟩ := h
  obtain ⟨report, -, -, hreplay⟩ := walk.replay_eq hmore
  refine ⟨s', hreplay _ ?_⟩
  simp only [replayBatch, hraise]

/-- The attempt made after an exception lists nothing but unattempted envelopes. -/
theorem buildAttempt_interrupted (envelopes : List Dict) (io : AttemptIO) (text : JStr) :
    ∃ attempt, buildAttempt envelopes { total := envelopes.length } io (some text) = .ok attempt ∧
      attempt.accepted = [] ∧ attempt.duplicate = [] ∧ attempt.rejected = [] ∧
      attempt.not_attempted = compressRanges (positionsFrom 1 envelopes.length) :=
  ⟨_, rfl, rfl, rfl, rfl, rfl⟩

/-- A client that takes one envelope at a time answered the first before it raises, unless it raises
    on that one. -/
theorem answeredEach_ne_nil {handle : σ → Dict → Except ε IngestResponse × σ} {batch : List Dict}
    {e : ε} (hraise : handleEach handle s batch = (.error e, s')) :
    (∃ r rest, answeredEach handle s batch = r :: rest) ∨
      ∃ envelope rest t, batch = envelope :: rest ∧ handle s envelope = (.error e, t) := by
  cases batch with
  | nil => exact absurd (congrArg Prod.fst hraise) (by simp [handleEach])
  | cons envelope rest =>
    unfold answeredEach
    cases hfirst : handle s envelope with
    | mk result t =>
      cases result with
      | error e' =>
        right
        unfold handleEach at hraise
        rw [hfirst] at hraise
        obtain rfl := Except.error.inj (congrArg Prod.fst hraise)
        exact ⟨envelope, rest, t, rfl, hfirst⟩
      | ok response => exact Or.inl ⟨response, _, rfl⟩

/-- The first batch begins with the first envelope. -/
theorem batchAt_zero (envelopes : List Dict) (size : ℕ) :
    batchAt envelopes size 0 = envelopes.take size := by
  rw [batchAt, Nat.zero_mul, List.drop_zero]

theorem Client.RaisesFirst.send {batch_size : ℤ}
    (h : client.RaisesFirst s envelopes (batchSize batch_size)) :
    ∃ e s', client.send s (batchAt envelopes (batchSize batch_size) 0) = (.error e, s') ∧
      client.answered s (batchAt envelopes (batchSize batch_size) 0) = [] := by
  cases client with
  | batching handle_batch =>
    obtain ⟨e, s', hraise⟩ := h
    exact ⟨e, s', hraise, rfl⟩
  | single handle =>
    obtain ⟨envelope, rest, e, s', rfl, hraise⟩ := h
    obtain ⟨m, hm⟩ := Nat.exists_eq_add_of_le' (one_le_batchSize batch_size)
    refine ⟨e, s', ?_, ?_⟩
    · show handleEach handle s _ = _
      rw [batchAt_zero, hm, List.take_succ_cons, handleEach, hraise]
    · show answeredEach handle s _ = _
      rw [batchAt_zero, hm, List.take_succ_cons, answeredEach, hraise]

/-- **The first envelope is answered**, unless the client raises at its first call. -/
theorem Interrupted.answered_first {e : ε} {batch_size : ℤ}
    (h : Interrupted client s₀ envelopes (batchSize batch_size) answers e) :
    (∃ r, answerTo (batchSize batch_size) answers 0 = some r) ∨
      client.RaisesFirst s₀ envelopes (batchSize batch_size) ∧ answers = [[]] := by
  obtain ⟨k, s, s', earlier, walk, hmore, hraise, rfl⟩ := h
  have hzero : ∀ answers, answerTo (batchSize batch_size) answers 0 =
      answers[0]?.bind fun responses => responses[0]? := by
    intro answers
    rw [answerTo, Nat.zero_div, Nat.zero_mod]
  rw [hzero]
  -- Either the first batch was the one that raised, or it was answered in full.
  rcases walk.first with ⟨rfl, rfl, rfl⟩ | ⟨responses, t, -, hfull, hget⟩
  -- A client that takes whole batches answers none of a batch it raises on; one that takes single
  -- envelopes answers those before.
  · cases client with
    | batching handle_batch => exact Or.inr ⟨⟨e, s', hraise⟩, rfl⟩
    | single handle =>
      rcases answeredEach_ne_nil hraise with
        ⟨r, rest, hanswered⟩ | ⟨envelope, rest, t, hcut, hraise'⟩
      · left
        refine ⟨r, ?_⟩
        show (answeredEach handle s _)[0]? = _
        rw [hanswered]
        rfl
      · right
        rw [batchAt_zero] at hcut
        refine ⟨?_, ?_⟩
        · cases envelopes with
          | nil => exact absurd hmore (by simp)
          | cons first others =>
            obtain ⟨m, hm⟩ := Nat.exists_eq_add_of_le' (one_le_batchSize batch_size)
            rw [hm, List.take_succ_cons] at hcut
            obtain ⟨rfl, -⟩ := List.cons.inj hcut
            exact ⟨first, others, e, t, rfl, hraise'⟩
        · show [] ++ [answeredEach handle s _] = _
          rw [batchAt_zero, hcut, answeredEach, hraise']
          rfl
  · left
    have hone := one_le_batchSize batch_size
    have hlong : 0 < responses.length := by
      rw [length_batchAt] at hfull
      have : 0 < envelopes.length := by omega
      omega
    refine ⟨responses[0], ?_⟩
    rw [List.getElem?_append_left (List.getElem?_eq_some_iff.mp hget).1, hget]
    exact List.getElem?_eq_getElem hlong

/-- What the attempt after an exception keeps. -/
theorem keepsObservations_iff {e : ε} {batch_size : ℤ} {attempt : Attempt}
    (h : Interrupted client s₀ envelopes (batchSize batch_size) answers e)
    (haccepted : attempt.accepted = []) (hduplicate : attempt.duplicate = [])
    (hrejected : attempt.rejected = []) :
    KeepsObservations (answerTo (batchSize batch_size) answers) envelopes.length attempt ↔
      client.RaisesFirst s₀ envelopes (batchSize batch_size) := by
  have hpos : 0 < envelopes.length := by
    obtain ⟨k, -, -, -, -, hmore, -⟩ := h
    omega
  constructor
  · intro hkeeps
    rcases h.answered_first with ⟨r, hr⟩ | ⟨hfirst, -⟩
    · exfalso
      -- no bucket holds the first envelope, whatever it was answered
      have hnone : ∀ k, ¬ Covers [] k := fun k => by simp [Covers]
      by_cases hacc : r.isAccepted = true
      · have hcovers := hkeeps.accepted 0 hpos r hr hacc
        rw [haccepted] at hcovers
        exact hnone _ hcovers
      · by_cases hdup : r.isDuplicate = true
        · have hcovers := hkeeps.duplicate 0 hpos r hr (by simp [onlyDuplicate, hacc, hdup])
          rw [hduplicate] at hcovers
          exact hnone _ hcovers
        · obtain ⟨entry, hentry, -⟩ := hkeeps.rejected 0 hpos r hr (by simp [isSuccess, hacc, hdup])
          rw [hrejected] at hentry
          exact absurd hentry (by simp)
    · exact hfirst
  · intro hfirst
    have hempty : answers = [[]] := by
      rcases h.answered_first with ⟨r, hr⟩ | ⟨-, hempty⟩
      · obtain ⟨k, s, s', earlier, walk, -, -, rfl⟩ := h
        obtain ⟨e', t, hraise, hanswered⟩ := hfirst.send
        rcases walk.first with ⟨rfl, rfl, rfl⟩ | ⟨responses, t', hsent, -, -⟩
        · rw [hanswered]
          rfl
        · rw [hraise] at hsent
          exact absurd (congrArg Prod.fst hsent) (by simp)
      · exact hempty
    have hanswer : ∀ i, answerTo (batchSize batch_size) answers i = none := by
      intro i
      rw [hempty, answerTo]
      cases i / batchSize batch_size <;> rfl
    constructor
    case accepted => exact fun i _ r hr => absurd (hanswer i ▸ hr) (by simp)
    case duplicate => exact fun i _ r hr => absurd (hanswer i ▸ hr) (by simp)
    case rejected => exact fun i _ r hr => absurd (hanswer i ▸ hr) (by simp)
    case not_attempted => exact fun i _ _ => hanswer i

/-- `_sync_one` makes an attempt of the replay, and that keeps what was answered. -/
def RecordsObservations (render : ε → JStr) (client : Client σ ε) (s₀ : σ)
    (envelopes : List Dict) (batch_size : ℤ) (answers : List (List IngestResponse))
    (io : AttemptIO) : Prop :=
  ∃ attempt, syncAttempt render client s₀ envelopes batch_size io = .ok attempt ∧
    KeepsObservations (answerTo (batchSize batch_size) answers) envelopes.length attempt

theorem recordsObservations_iff (render : ε → JStr) (io : AttemptIO) {e : ε} {batch_size : ℤ}
    (h : Interrupted client s₀ envelopes (batchSize batch_size) answers e) :
    RecordsObservations render client s₀ envelopes batch_size answers io ↔
      client.RaisesFirst s₀ envelopes (batchSize batch_size) := by
  obtain ⟨s', hreplay⟩ := h.replay_eq
  obtain ⟨attempt, hattempt, hacc, hdup, hrej, -⟩ :=
    buildAttempt_interrupted envelopes io (render e)
  have hsync : syncAttempt render client s₀ envelopes batch_size io = .ok attempt := by
    unfold syncAttempt
    rw [hreplay]
    exact hattempt
  rw [← keepsObservations_iff h hacc hdup hrej]
  constructor
  · rintro ⟨attempt', hsync', hkeeps⟩
    obtain rfl := Except.ok.inj (hsync.symm.trans hsync')
    exact hkeeps
  · exact fun hkeeps => ⟨attempt, hsync, hkeeps⟩

/-- **Observations are kept** exactly when there are none: in every replay that ends with an
    exception, the attempt has what was answered before it if and only if the client raises at its
    first call. -/
theorem observations_kept_iff (render : ε → JStr) (io : AttemptIO) {e : ε} {batch_size : ℤ}
    (h : Interrupted client s₀ envelopes (batchSize batch_size) answers e) :
    RecordsObservations render client s₀ envelopes batch_size answers io ↔
      client.RaisesFirst s₀ envelopes (batchSize batch_size) :=
  recordsObservations_iff render io h

/-- The connection breaks at the second call of a client that is accepted before. -/
def breakingClient : Client ℕ PyError :=
  .batching fun s batch =>
    if s = 0 then (.ok (batch.map fun _ => .accepted exampleEvent none), s + 1)
    else (.error .osError, s)

/-- The connection is down. -/
def brokenClient : Client ℕ PyError := .batching fun s _ => (.error .osError, s)

/-- An exception that says nothing. -/
def silent : PyError → JStr := fun _ => ""

theorem brokenClient_interrupted :
    Interrupted brokenClient 0 openedWithAction (batchSize 1) [[]] .osError :=
  ⟨0, 0, 0, [], .start, by decide, rfl, rfl⟩

theorem breakingClient_interrupted :
    Interrupted breakingClient 0 openedWithAction (batchSize 1)
      [[.accepted exampleEvent none], []] .osError := by
  have htaken : ∀ r ∈ [IngestResponse.accepted exampleEvent none], isSuccess r = true := by
    intro r hr
    rw [List.mem_singleton.mp hr]
    rfl
  exact ⟨1, 1, 1, [[.accepted exampleEvent none]], .next .start (by decide) rfl htaken (by decide),
    by decide, rfl, rfl⟩

/-- An outage from the start: nothing was answered, and the attempt says so. -/
theorem observations_kept_broken :
    RecordsObservations silent brokenClient 0 openedWithAction 1 [[]] exampleAttemptIO :=
  (observations_kept_iff silent exampleAttemptIO brokenClient_interrupted).mpr
    ⟨.osError, 0, rfl⟩

/-- An outage after the first of two records was accepted: the attempt does not list it. -/
theorem not_observations_kept_breaking :
    ¬ RecordsObservations silent breakingClient 0 openedWithAction 1
      [[.accepted exampleEvent none], []] exampleAttemptIO := by
  rw [recordsObservations_iff silent exampleAttemptIO breakingClient_interrupted]
  rintro ⟨e, s', hraise⟩
  exact absurd (congrArg Prod.fst hraise) (by simp)

/-! ### A short answer -/

/-- A replay that comes to a batch answered short, with no refusal among the answers. -/
def AnsweredShort (client : Client σ ε) (s₀ : σ) (envelopes : List Dict) (size : ℕ)
    (answers : List (List IngestResponse)) : Prop :=
  ∃ k s s' earlier responses, BatchWalk client s₀ envelopes size k s earlier ∧
    k * size < envelopes.length ∧
    client.send s (batchAt envelopes size k) = (.ok responses, s') ∧
    (∀ r ∈ responses, isSuccess r = true) ∧
    responses.length < (batchAt envelopes size k).length ∧ answers = earlier ++ [responses]

/-- The number of the first envelope without an answer. -/
def FirstUnanswered (answer : ℕ → Option IngestResponse) (i : ℕ) : Prop :=
  answer i = none ∧ ∀ j < i, answer j ≠ none

/-- Every envelope has one outcome, those without an answer were not attempted, and the attempt does
    not claim the whole file. -/
structure RecordsGap (answer : ℕ → Option IngestResponse) (n : ℕ) (attempt : Attempt) : Prop where
  record_count : attempt.record_count = n
  partition : attempt.partitionIsTotal = true
  not_attempted : ∀ i < n, answer i = none → Covers attempt.not_attempted (i + 1)
  disposition : attempt.disposition ≠ .FULLY_ACCEPTED

/-- The replay reports the first unanswered envelope as failed. -/
def ReportsGap (client : Client σ ε) (s₀ : σ) (envelopes : List Dict) (batch_size : ℤ)
    (answers : List (List IngestResponse)) : Prop :=
  ∃ report s' i, replayEnvelopes client s₀ envelopes batch_size = (.ok report, s') ∧
    report.failed_index = some i ∧ FirstUnanswered (answerTo (batchSize batch_size) answers) i

/-- An attempt is made of the replay's report, and it records the gap. -/
def RecordsShort (client : Client σ ε) (s₀ : σ) (envelopes : List Dict) (batch_size : ℤ)
    (answers : List (List IngestResponse)) (io : AttemptIO) : Prop :=
  ∃ report s' attempt, replayEnvelopes client s₀ envelopes batch_size = (.ok report, s') ∧
    buildAttempt envelopes report io none = .ok attempt ∧
      RecordsGap (answerTo (batchSize batch_size) answers) envelopes.length attempt

/-- The report of a replay that was answered short. -/
theorem AnsweredShort.replay_eq {batch_size : ℤ}
    (h : AnsweredShort client s₀ envelopes (batchSize batch_size) answers) :
    ∃ report s' k, replayEnvelopes client s₀ envelopes batch_size = (.ok report, s') ∧
      answers.length = k + 1 ∧ report.failed_index = some (k * batchSize batch_size +
        (answers.getLastD []).length) ∧
      k * batchSize batch_size + (answers.getLastD []).length < envelopes.length ∧
      (answers.getLastD []).length < batchSize batch_size ∧
      report.responses = answers.flatten := by
  obtain ⟨k, s, s', earlier, responses, walk, hmore, hsent, htaken, hshort, rfl⟩ := h
  obtain ⟨report, hnone, hresponses, hreplay⟩ := walk.replay_eq hmore
  have hnext := ReplayReport.failed_index_observeAll (k * batchSize batch_size) hnone htaken
  have hlength := length_batchAt envelopes (batchSize batch_size) k
  have hround : replayBatch client envelopes (batchSize batch_size) k (s, report) =
      .inr (.ok ((report.observeAll (k * batchSize batch_size) responses).answeredShort
        (k * batchSize batch_size) responses.length
        (batchAt envelopes (batchSize batch_size) k).length), s') := by
    simp only [replayBatch, hsent, hnext, Option.isSome_none, Bool.false_eq_true, if_false,
      if_pos hshort]
  refine ⟨_, s', k, hreplay _ hround, ?_, ?_⟩
  · rw [List.length_append, walk.length, List.length_singleton]
  · rw [List.getLastD_concat]
    refine ⟨rfl, by omega, by omega, ?_⟩
    show (report.observeAll (k * batchSize batch_size) responses).responses = _
    rw [ReplayReport.responses_observeAll, hresponses, List.flatten_append, List.flatten_singleton]

/-- An attempt is made only of a report that has a response at its failed index, and whatever lies
    after the responses was not attempted. -/
theorem buildAttempt_failed {report : ReplayReport} {io : AttemptIO} {attempt : Attempt}
    (h : buildAttempt envelopes report io none = .ok attempt) (hi : report.failed_index = some i) :
    i < report.responses.length ∧ attempt.not_attempted =
      compressRanges (positionsFrom (report.responses.length + 1) envelopes.length) := by
  obtain ⟨buckets, -, h⟩ := bind_eq_ok.mp h
  obtain ⟨halting, hhalting, h⟩ := bind_eq_ok.mp h
  obtain ⟨halted, -, h⟩ := bind_eq_ok.mp h
  obtain rfl := Except.ok.inj h
  refine ⟨?_, rfl⟩
  unfold haltingResponse at hhalting
  by_contra hlong
  simp only [hi, List.getElem?_eq_none (Nat.le_of_not_lt hlong)] at hhalting
  exact absurd hhalting (by simp)

/-- The first envelope after the answers has none. -/
theorem answerTo_gap {last : List IngestResponse} (hlast : answers.getLastD [] = last)
    (hk : answers.length = k + 1) (hshort : last.length < size) :
    answerTo size answers (k * size + last.length) = none := by
  have hpos : 0 < size := by omega
  have hquot : (k * size + last.length) / size = k := by
    rw [Nat.mul_comm, Nat.mul_add_div hpos, Nat.div_eq_of_lt hshort, Nat.add_zero]
  have hrest : (k * size + last.length) % size = last.length := by
    rw [Nat.mul_comm, Nat.mul_add_mod, Nat.mod_eq_of_lt hshort]
  have hget : answers[k]? = some last := by
    rw [← hlast, List.getLastD_eq_getLast?, List.getLast?_eq_getElem?, hk, Nat.add_sub_cancel]
    rw [List.getElem?_eq_getElem (by omega)]
    rfl
  rw [answerTo, hquot, hrest, hget]
  exact List.getElem?_eq_none le_rfl

/-- The envelopes before the gap have answers. -/
theorem AnsweredShort.reportsGap {batch_size : ℤ}
    (h : AnsweredShort client s₀ envelopes (batchSize batch_size) answers) :
    ReportsGap client s₀ envelopes batch_size answers := by
  obtain ⟨report, s', k, hreplay, hlength, hfailed, hlt, hshort, -⟩ := h.replay_eq
  refine ⟨report, s', _, hreplay, hfailed, answerTo_gap rfl hlength hshort, fun j hj => ?_⟩
  obtain ⟨k', s, t, earlier, responses, walk, -, -, -, -, rfl⟩ := h
  -- The walk's own number of batches is the one the report counts.
  obtain rfl : k' = k := by
    rw [List.length_append, walk.length, List.length_singleton] at hlength
    omega
  rw [List.getLastD_concat] at hj hshort hlt
  have hpos : 0 < batchSize batch_size := by omega
  have hmod := Nat.mod_lt j hpos
  have hsplit := Nat.div_add_mod j (batchSize batch_size)
  rw [Nat.mul_comm] at hsplit
  rw [answerTo]
  -- Before, in and after the short batch; after it there is no position to look up.
  rcases Nat.lt_trichotomy (j / batchSize batch_size) k' with hquot | hquot | hquot
  · -- a batch before the short one is a whole one
    obtain ⟨responses', hget, hfull⟩ := walk.full_at hquot
    have hwhole : (j / batchSize batch_size + 1) * batchSize batch_size ≤
        k' * batchSize batch_size := Nat.mul_le_mul_right _ hquot
    rw [Nat.succ_mul] at hwhole
    rw [length_batchAt] at hfull
    rw [List.getElem?_append_left (List.getElem?_eq_some_iff.mp hget).1, hget, Option.bind_some,
      List.getElem?_eq_getElem (by omega)]
    exact Option.some_ne_none _
  · have hget : (earlier ++ [responses])[k']? = some responses := by
      rw [← walk.length, List.getElem?_concat_length]
    rw [hquot] at hsplit ⊢
    rw [hget, Option.bind_some, List.getElem?_eq_getElem (by omega)]
    exact Option.some_ne_none _
  · have hover : (k' + 1) * batchSize batch_size ≤
        j / batchSize batch_size * batchSize batch_size := Nat.mul_le_mul_right _ hquot
    rw [Nat.succ_mul] at hover
    omega

/-- No attempt records a gap: a response at the failed index makes its envelope an attempted one. -/
theorem not_recordsShort (io : AttemptIO) {batch_size : ℤ}
    (h : AnsweredShort client s₀ envelopes (batchSize batch_size) answers) :
    ¬ RecordsShort client s₀ envelopes batch_size answers io := by
  rintro ⟨report, s', attempt, hreplay, hattempt, hgap⟩
  obtain ⟨report', t, k, hreplay', hlength, hfailed, hlt, hshort, -⟩ := h.replay_eq
  obtain ⟨hreport, -⟩ := Prod.mk.inj (hreplay.symm.trans hreplay')
  obtain rfl := Except.ok.inj hreport
  obtain ⟨hobserved, hrest⟩ := buildAttempt_failed hattempt hfailed
  have hcovers := hgap.not_attempted _ hlt (answerTo_gap rfl hlength hshort)
  rw [hrest, (compressRanges_spec _).2, mem_positionsFrom] at hcovers
  omega

/-- **A short answer is fatal.** The replay reports the first envelope without an answer; but
    whatever the client, the list and the batches are, no attempt is made that records it. -/
theorem short_answer_unrecorded (io : AttemptIO) {batch_size : ℤ}
    (h : AnsweredShort client s₀ envelopes (batchSize batch_size) answers) :
    ReportsGap client s₀ envelopes batch_size answers ∧
      ¬ RecordsShort client s₀ envelopes batch_size answers io :=
  ⟨h.reportsGap, not_recordsShort io h⟩

/-- A store that leaves out the last answer of every batch. -/
def shortClient : Client Unit PyError :=
  .batching fun s batch => (.ok (batch.dropLast.map fun _ => .accepted exampleEvent none), s)

theorem shortClient_short : AnsweredShort shortClient () openedWithAction (batchSize 2)
    [[.accepted exampleEvent none]] := by
  refine ⟨0, (), (), [], [.accepted exampleEvent none], .start, by decide, rfl, ?_, by decide, rfl⟩
  intro r hr
  rw [List.mem_singleton.mp hr]
  rfl

/-- One answer to two records. -/
theorem short_answer_unrecorded_pair :
    ReportsGap shortClient () openedWithAction 2 [[.accepted exampleEvent none]] ∧
      ¬ RecordsShort shortClient () openedWithAction 2 [[.accepted exampleEvent none]]
        exampleAttemptIO :=
  short_answer_unrecorded exampleAttemptIO shortClient_short

/-- The attempt of one answer to two records is an `IndexError`. -/
theorem not_recordsShort_pair :
    ¬ RecordsShort shortClient () openedWithAction 2 [[.accepted exampleEvent none]]
        exampleAttemptIO :=
  not_recordsShort exampleAttemptIO shortClient_short

end

end RootSign
