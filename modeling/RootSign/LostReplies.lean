import RootSign.ApprovalGate
import RootSign.ForwardAnswers
import RootSign.Replay

namespace RootSign

open RootSign.Python

/-!
# Lost replies

One action is sent to a store that knows which events it holds.  A request may be lost, or its
reply after the store took the event; the client sends again, and the store answers a repeat with
the original response or with `DUPLICATE_EVENT`.

* `Schedule` — what happens to each attempt, and what the store holds meanwhile;
* `TakenAsRecorded` — if the store holds the event and said so, the counter advances and a gated
  submission goes on;
* `taken_as_recorded_iff` — a call does so exactly when the answer that ends it is no
  `DUPLICATE_EVENT`.
-/

/-! ### A store that knows its events -/

/-- What an action was accepted with. -/
structure Acceptance where
  entity_id : Uuid
  sequence_number : Option ℤ
  self_hash : Option JStr

/-- The response to an accepted event. -/
def Acceptance.response (a : Acceptance) (event_id : Uuid) : IngestResponse :=
  .accepted event_id (some a.entity_id) a.sequence_number a.self_hash

/-- What the store makes of an event that it does not hold. -/
inductive StoreVerdict where
  | accepts (acceptance : Acceptance)
  | refuses (error_code : ErrorCode) (error_message : JStr) (retryable : Bool)

/-- How it answers an event that it holds. -/
inductive RepeatAnswer where
  | replay
  | duplicate (error_message : JStr)

/-- A loss, as the client sees it. -/
inductive Loss where
  | timeout (exception_name : JStr)
  | transport (text : JStr)

def Loss.reply : Loss → HttpReply
  | .timeout exception_name => .timeout exception_name
  | .transport text => .transportError text

/-- How far a request gets: not to the store, to the store only, or there and back. -/
inductive Passage where
  | requestLost (loss : Loss)
  | replyLost (loss : Loss)
  | answered

/-- One attempt. -/
structure Delivery where
  passage : Passage
  verdict : StoreVerdict
  repeated : RepeatAnswer

/-- The store's answer, by what it holds. -/
def Delivery.answer (a : Delivery) (event_id : Uuid) : Option Acceptance → IngestResponse
  | some held =>
    match a.repeated with
    | .replay => held.response event_id
    | .duplicate error_message => .rejected event_id .DUPLICATE_EVENT error_message false
  | none =>
    match a.verdict with
    | .accepts acceptance => acceptance.response event_id
    | .refuses error_code error_message retryable =>
      .rejected event_id error_code error_message retryable

/-- What the store holds after an attempt. -/
def Delivery.held (a : Delivery) : Option Acceptance → Option Acceptance
  | some held => some held
  | none =>
    match a.passage, a.verdict with
    | .requestLost _, _ => none
    | _, .accepts acceptance => some acceptance
    | _, .refuses _ _ _ => none

/-- What the store holds at first, and what happens to each attempt. -/
structure Schedule where
  before : Option Acceptance
  deliveries : ℕ → Delivery

namespace Schedule

/-- What the store holds before the attempt with the given number. -/
def held (w : Schedule) : ℕ → Option Acceptance
  | 0 => w.before
  | k + 1 => (w.deliveries k).held (w.held k)

/-- What the client gets for an attempt; `wire` is the server's encoder. -/
def reply (w : Schedule) (wire : IngestResponse → Json) (event_id : Uuid) (k : ℕ) : HttpReply :=
  match (w.deliveries k).passage with
  | .requestLost loss => loss.reply
  | .replyLost loss => loss.reply
  | .answered => .response 200 (some (.arr [wire ((w.deliveries k).answer event_id (w.held k))]))

/-- The attempt is lost, or refused for now. -/
def AsksAgain (w : Schedule) (k : ℕ) : Prop :=
  (w.deliveries k).passage = .answered → w.held k = none ∧
    ∃ error_code error_message, (w.deliveries k).verdict = .refuses error_code error_message true

/-- **A duplicate ends the call**: the first attempt that is answered for good finds its event in
    the store, and is answered `DUPLICATE_EVENT`. -/
def EndsInDuplicate (w : Schedule) (attempts : ℕ) : Prop :=
  ∃ k < attempts, (∀ j < k, w.AsksAgain j) ∧ (w.deliveries k).passage = .answered ∧
    (w.held k).isSome = true ∧
      ∃ error_message, (w.deliveries k).repeated = .duplicate error_message

/-- The call of `handle` with the envelope. -/
def call (w : Schedule) (rt : Runtime) (wire : IngestResponse → Json) (envelope : Dict)
    (fresh : Uuid) (io : ℕ → SpoolIO) : CloudCall where
  envelopes := [(envelope, fresh)]
  replies := w.reply wire (eventIdOf rt envelope)
  io := io

end Schedule

/-- `HttpIngestClient.handle`: the first response of the batch. -/
def CloudOutcome.handled (o : CloudOutcome) : Except ClientError IngestResponse :=
  o.result.bind fun responses =>
    match responses with
    | response :: _ => .ok response
    | [] => .error (.python .indexError)

/-- **A lost reply is not a failure.**  If the store holds the event and its last answer was an
    acceptance or `DUPLICATE_EVENT`, the counter advances once and a gated submission goes on. -/
def TakenAsRecorded (w : Schedule) (ctx : SessionContext) (o : CloudOutcome) : Prop :=
  (w.held o.rounds.length).isSome = true →
    (∃ response, lastAnswer o.rounds 0 = some response ∧ isSuccess response = true) →
      (tryIngest ctx o.handled).2.sequence = ctx.sequence + 1 ∧
        ∃ action_id, (submitPending ctx o.handled).1 = .waits action_id

/-! ### One attempt -/

section

variable {rt : Runtime} {cfg : HttpConfig} {w : Schedule} {wire : IngestResponse → Json}
  {event_id : Uuid} {k : ℕ}

/-- A loss is a retryable rejection by the client itself. -/
theorem interpret_loss (loss : Loss) (envelope : Dict) :
    ∃ r, interpret rt cfg [envelope] loss.reply = [r] ∧ needsRetry r = true ∧
      isSuccess r = false := by
  cases loss with
  | timeout exception_name => exact ⟨_, rfl, rfl, rfl⟩
  | transport text => exact ⟨_, rfl, rfl, rfl⟩

/-- An answer is read as it was given. -/
theorem interpret_answered (hwire : ∀ r, cfg.validate (wire r) = some r) (r : IngestResponse)
    (envelope : Dict) :
    interpret rt cfg [envelope] (.response 200 (some (.arr [wire r]))) = [r] := by
  have hparse : parseBody cfg [envelope] (some (.arr [wire r])) = some [r] := by
    show List.mapM cfg.validate [wire r] = some [r]
    exact mapM_eq_some.mpr (.cons (hwire r) .nil)
  unfold interpret
  dsimp only
  rw [hparse]

/-- What an answer asks for. -/
theorem needsRetry_answer (a : Delivery) (held : Option Acceptance) :
    needsRetry (a.answer event_id held) = true ↔ held = none ∧
      ∃ error_code error_message, a.verdict = .refuses error_code error_message true := by
  cases held with
  | some acceptance =>
    refine ⟨fun h => ?_, fun h => absurd h.1 (Option.some_ne_none _)⟩
    unfold Delivery.answer at h
    cases hrepeated : a.repeated with
    | replay => simp [hrepeated, needsRetry, Acceptance.response, IngestResponse.accepted] at h
    | duplicate message => simp [hrepeated, needsRetry, IngestResponse.rejected] at h
  | none =>
    unfold Delivery.answer
    cases hverdict : a.verdict with
    | accepts acceptance =>
      simp [needsRetry, Acceptance.response, IngestResponse.accepted]
    | refuses error_code error_message retryable =>
      simp [needsRetry, IngestResponse.rejected]

/-- **One attempt.**  It asks for another exactly if it is lost or refused for now; if it is
    answered, the client has the answer. -/
theorem interpret_reply (hwire : ∀ r, cfg.validate (wire r) = some r) (w : Schedule) (k : ℕ)
    (envelope : Dict) :
    ∃ r, interpret rt cfg [envelope] (w.reply wire event_id k) = [r] ∧
      (needsRetry r = true ↔ w.AsksAgain k) ∧
      ((w.deliveries k).passage = .answered → r = (w.deliveries k).answer event_id (w.held k)) ∧
      ((w.deliveries k).passage ≠ .answered → isSuccess r = false) := by
  unfold Schedule.reply Schedule.AsksAgain
  cases hpassage : (w.deliveries k).passage with
  | requestLost loss =>
    obtain ⟨r, hr, hretry, hsuccess⟩ := @interpret_loss rt cfg loss envelope
    exact ⟨r, hr, by simp [hretry], nofun, fun _ => hsuccess⟩
  | replyLost loss =>
    obtain ⟨r, hr, hretry, hsuccess⟩ := @interpret_loss rt cfg loss envelope
    exact ⟨r, hr, by simp [hretry], nofun, fun _ => hsuccess⟩
  | answered =>
    refine ⟨_, interpret_answered hwire _ envelope, ?_, fun _ => rfl, fun h => absurd rfl h⟩
    rw [needsRetry_answer]
    exact ⟨fun h _ => h, fun h => h rfl⟩

/-- What the store holds stays. -/
theorem Schedule.held_succ (h : (w.held k).isSome = true) : w.held (k + 1) = w.held k := by
  obtain ⟨acceptance, hheld⟩ := Option.isSome_iff_exists.mp h
  show (w.deliveries k).held (w.held k) = _
  rw [hheld]
  rfl

/-- A refused event is not held. -/
theorem Schedule.held_refused (hnone : w.held k = none) {error_code : ErrorCode}
    {error_message : JStr} {retryable : Bool}
    (hverdict : (w.deliveries k).verdict = .refuses error_code error_message retryable) :
    w.held (k + 1) = none := by
  show (w.deliveries k).held (w.held k) = none
  rw [hnone]
  unfold Delivery.held
  rw [hverdict]
  cases (w.deliveries k).passage <;> rfl

end

/-! ### The whole call -/

section

open HttpBatch

variable {rt : Runtime} {cfg : HttpConfig} {s : HttpState} {envelope : Dict} {c : CloudCall}
  {replies : ℕ → HttpReply} {seen : ℕ → IngestResponse} {k : ℕ}

/-- The envelope stays pending as long as every reply asks for it. -/
theorem pendingAfter_single (hseen : ∀ k, interpret rt cfg [envelope] (replies k) = [seen k])
    (hretry : ∀ j < k, needsRetry (seen j) = true) :
    pendingAfter rt cfg [envelope] replies k = [0] := by
  induction k with
  | zero => rfl
  | succ k ih =>
    unfold pendingAfter
    dsimp only
    rw [ih fun j hj => hretry j (Nat.lt_succ_of_lt hj)]
    show (([0].zip (interpret rt cfg [envelope] (replies k))).filter _).map _ = [0]
    rw [hseen]
    simp [hretry k (Nat.lt_succ_self k)]

/-- The request, while it is pending. -/
theorem request_single (hseen : ∀ k, interpret rt cfg [envelope] (replies k) = [seen k])
    (hpending : pendingAfter rt cfg [envelope] replies k = [0]) :
    request rt cfg [envelope] replies k = [(0, seen k)] := by
  unfold request
  dsimp only
  rw [hpending]
  show [0].zip (interpret rt cfg [envelope] (replies k)) = _
  rw [hseen]
  rfl

/-- After a reply that asks for nothing it is pending no more. -/
theorem pendingAfter_settled (hseen : ∀ k, interpret rt cfg [envelope] (replies k) = [seen k])
    (hretry : ∀ j < k, needsRetry (seen j) = true) (hlast : needsRetry (seen k) = false) :
    pendingAfter rt cfg [envelope] replies (k + 1) = [] := by
  show ((request rt cfg [envelope] replies k).filter _).map _ = []
  rw [request_single hseen (pendingAfter_single hseen hretry)]
  simp [hlast]

/-- What the requests of such a call come to. -/
theorem Sent.single {b : HttpBatch} {rounds : List Round}
    (h : Sent rt cfg [envelope] replies b rounds)
    (hseen : ∀ k, interpret rt cfg [envelope] (replies k) = [seen k]) (hk : k < cfg.max_retries)
    (hretry : ∀ j < k, needsRetry (seen j) = true)
    (hlast : needsRetry (seen k) = true → k + 1 = cfg.max_retries) :
    rounds.length = k + 1 ∧ lastAnswer rounds 0 = some (seen k) := by
  have hpending := pendingAfter_single hseen hretry
  have hround : rounds[k]? = some [(0, seen k)] :=
    (h.rounds_iff k _).mpr ⟨hk, by simp [hpending], (request_single hseen hpending).symm⟩
  have hover : rounds[k + 1]? = none := by
    rw [← Option.not_isSome_iff_eq_none]
    intro hsome
    obtain ⟨round, hround'⟩ := Option.isSome_iff_exists.mp hsome
    obtain ⟨hmore, hleft, -⟩ := (h.rounds_iff (k + 1) round).mp hround'
    cases hagain : needsRetry (seen k) with
    | true => exact absurd (hlast hagain) (Nat.ne_of_lt hmore)
    | false => exact hleft (pendingAfter_settled hseen hretry hagain)
  have hlength : rounds.length = k + 1 :=
    Nat.le_antisymm (List.getElem?_eq_none_iff.mp hover) (List.getElem?_eq_some_iff.mp hround).1
  refine ⟨hlength, lastAnswer_eq hround (by simp) ?_⟩
  rw [← hlength, List.drop_length]
  exact fun later hlater => absurd hlater List.not_mem_nil

/-- **How a call with one envelope ends**, at the first reply that asks for nothing or with the
    last attempt: the caller has that reply, unless the envelope goes to the spool. -/
theorem CloudCall.Sends.single {seen : Dict → ℕ → IngestResponse} (h : c.Sends rt s)
    (hone : c.envelopes.length = 1)
    (hseen : ∀ envelope k, interpret rt cfg [envelope] (c.replies k) = [seen envelope k])
    (hk : k < cfg.max_retries) (hretry : ∀ envelope, ∀ j < k, needsRetry (seen envelope j) = true)
    (hlast : ∀ envelope, needsRetry (seen envelope k) = true → k + 1 = cfg.max_retries) :
    ∃ sealed, (s.handleAlone rt cfg c).rounds.length = k + 1 ∧
      lastAnswer (s.handleAlone rt cfg c).rounds 0 = some (seen sealed k) ∧
      ((needsRetry (seen sealed k) && cfg.enable_spool) = false →
        (s.handleAlone rt cfg c).handled = .ok (seen sealed k)) ∧
      ((needsRetry (seen sealed k) && cfg.enable_spool) = true →
        (s.handleAlone rt cfg c).spooled ≠ []) := by
  have hsome : c.envelopes ≠ [] := by
    intro hempty
    rw [hempty] at hone
    exact absurd hone (by simp)
  obtain ⟨batch, s', hlength, houtcome⟩ := @CloudCall.Sends.handleAlone rt cfg s c h hsome
  obtain ⟨envelope, rfl⟩ := List.length_eq_one_iff.mp
    (hlength.trans ((List.length_map _).trans hone))
  have hsent := @exchange_sent rt cfg [envelope] (List.cons_ne_nil _ _) c.replies
  rw [houtcome]
  generalize (start [envelope]).exchange rt cfg c.replies cfg.max_retries = sent at hsent
  obtain ⟨b, rounds⟩ := sent
  dsimp only at hsent ⊢
  obtain ⟨hrounds, hanswer⟩ := hsent.single (hseen envelope) hk (hretry envelope) (hlast envelope)
  refine ⟨envelope, hrounds, hanswer, fun hkept => ?_, fun hgiven => ?_⟩
  · -- the result of the only slot is what is returned
    have hresult : b.results[0]? = some (seen envelope k) :=
      (hsent.results 0 Nat.one_pos).trans hanswer
    -- nothing is left to spool, or there is no spool
    have hsettle : (s'.settle rt cfg b c.io).1 = .ok b.results := by
      unfold HttpState.settle
      rw [if_pos]
      cases hspool : cfg.enable_spool with
      | false => rw [Bool.not_false, Bool.or_true]
      | true =>
        rw [hspool, Bool.and_true] at hkept
        obtain ⟨m, hm⟩ := Nat.exists_eq_add_of_le (Nat.succ_le_of_lt hk)
        have hnil := pendingAfter_settled (hseen envelope) (hretry envelope) hkept
        rw [Bool.not_true, Bool.or_false, List.isEmpty_iff]
        refine List.eq_nil_iff_forall_not_mem.mpr fun i hi => ?_
        rw [hsent.unsent_iff, hm, pendingAfter_nil hnil] at hi
        exact absurd hi List.not_mem_nil
    show (s'.settle rt cfg b c.io).1.bind _ = .ok (seen envelope k)
    rw [hsettle]
    cases hresults : b.results with
    | nil => exact absurd (hresults ▸ hresult) (by simp)
    | cons r rest =>
      rw [hresults] at hresult
      exact congrArg Except.ok (Option.some.inj hresult)
  · obtain ⟨hagain, hspool⟩ := Bool.and_eq_true_iff.mp hgiven
    have hall : ∀ j < k + 1, needsRetry (seen envelope j) = true := by
      intro j hj
      rcases Nat.lt_succ_iff_lt_or_eq.mp hj with hj | rfl
      · exact hretry envelope j hj
      · exact hagain
    have hpending := pendingAfter_single (hseen envelope) hall
    rw [hlast envelope hagain] at hpending
    rw [hspool, if_pos rfl]
    exact List.ne_nil_of_mem ((hsent.unsent_iff 0).mpr (by rw [hpending]; exact List.mem_cons_self))

end

/-! ### Recorded, or not -/

section

variable {rt : Runtime} {cfg : HttpConfig} {s : HttpState} {w : Schedule}
  {wire : IngestResponse → Json} {ctx : SessionContext} {o : CloudOutcome}

/-- An acceptance advances the counter, and the gate goes on. -/
theorem takenAsRecorded_accepted {acceptance : Acceptance} {event_id : Uuid}
    (h : o.handled = .ok (acceptance.response event_id)) : TakenAsRecorded w ctx o := by
  intro _ _
  rw [h]
  exact ⟨rfl, acceptance.entity_id, rfl⟩

/-- `DUPLICATE_EVENT` does neither. -/
theorem not_takenAsRecorded_duplicate {event_id : Uuid} {error_message : JStr}
    (hheld : (w.held o.rounds.length).isSome = true)
    (hlast : lastAnswer o.rounds 0 =
      some (.rejected event_id .DUPLICATE_EVENT error_message false))
    (h : o.handled = .ok (.rejected event_id .DUPLICATE_EVENT error_message false)) :
    ¬ TakenAsRecorded w ctx o := by
  intro htaken
  obtain ⟨-, action_id, hwaits⟩ := htaken hheld ⟨_, hlast, rfl⟩
  rw [h] at hwaits
  exact absurd hwaits (by simp [submitPending, tryIngest, IngestResponse.rejected])

/-- A duplicate asks for nothing. -/
theorem Schedule.not_asksAgain_held {k : ℕ} (hanswered : (w.deliveries k).passage = .answered)
    (hheld : (w.held k).isSome = true) : ¬ w.AsksAgain k := by
  intro h
  obtain ⟨hnone, -⟩ := h hanswered
  rw [hnone] at hheld
  exact absurd hheld Bool.false_ne_true

/-- The first attempt that is answered for good decides. -/
theorem Schedule.endsInDuplicate_iff {k attempts : ℕ} (hk : k < attempts)
    (hbefore : ∀ j < k, w.AsksAgain j) (hnot : ¬ w.AsksAgain k)
    (hpassage : (w.deliveries k).passage = .answered) :
    w.EndsInDuplicate attempts ↔ (w.held k).isSome = true ∧
      ∃ error_message, (w.deliveries k).repeated = .duplicate error_message := by
  constructor
  · rintro ⟨j, -, hearlier, hanswered, hheld, hrepeated⟩
    have hj := Schedule.not_asksAgain_held hanswered hheld
    obtain rfl : j = k := by
      rcases Nat.lt_trichotomy j k with h | h | h
      · exact absurd (hbefore j h) hj
      · exact h
      · exact absurd (hearlier k h) hnot
    exact ⟨hheld, hrepeated⟩
  · rintro ⟨hheld, hrepeated⟩
    exact ⟨k, hk, hbefore, hpassage, hheld, hrepeated⟩

/-- An attempt is answered for good: the event is not taken as recorded exactly if that answer is a
    duplicate. -/
theorem not_takenAsRecorded_of_settled (hwire : ∀ r, cfg.validate (wire r) = some r)
    {envelope : Dict} {fresh : Uuid} {io : ℕ → SpoolIO}
    (hsends : (w.call rt wire envelope fresh io).Sends rt s) {k : ℕ} (hk : k < cfg.max_retries)
    (hnot : ¬ w.AsksAgain k) (hbefore : ∀ j < k, w.AsksAgain j) :
    ¬ TakenAsRecorded w ctx (s.handleAlone rt cfg (w.call rt wire envelope fresh io)) ↔
      w.EndsInDuplicate cfg.max_retries := by
  choose seen hseen hretry hanswered hlost using fun (e : Dict) (k : ℕ) =>
    @interpret_reply rt cfg wire (eventIdOf rt envelope) hwire w k e
  obtain ⟨sealed, hlength, hlast, hhandled, -⟩ := hsends.single rfl hseen hk
    (fun e j hj => (hretry e j).mpr (hbefore j hj))
    (fun e hagain => absurd ((hretry e k).mp hagain) hnot)
  have hpassage : (w.deliveries k).passage = .answered := by
    by_contra hpassage
    exact hnot fun h => absurd h hpassage
  have hanswer := hanswered sealed k hpassage
  have hsettled := Bool.eq_false_iff.mpr fun h => hnot ((hretry sealed k).mp h)
  have hhandled := hhandled (by rw [hsettled, Bool.false_and])
  rw [hanswer] at hlast hhandled
  rw [Schedule.endsInDuplicate_iff hk hbefore hnot hpassage]
  unfold Delivery.answer at hlast hhandled
  -- the store holds the event already, or decides on it now
  cases hheld : w.held k with
  | some acceptance =>
    have hsome : (w.held k).isSome = true := by rw [hheld]; rfl
    rw [hheld] at hlast hhandled
    dsimp only at hlast hhandled
    cases hrepeated : (w.deliveries k).repeated with
    | replay =>
      rw [hrepeated] at hhandled
      refine ⟨fun h => absurd (takenAsRecorded_accepted hhandled) h, ?_⟩
      rintro ⟨-, error_message, hduplicate⟩
      exact absurd hduplicate (by simp)
    | duplicate error_message =>
      rw [hrepeated] at hlast hhandled
      refine ⟨fun _ => ⟨rfl, error_message, rfl⟩, fun _ => ?_⟩
      refine not_takenAsRecorded_duplicate ?_ hlast hhandled
      rw [hlength, Schedule.held_succ hsome]
      exact hsome
  | none =>
    rw [hheld] at hlast hhandled
    dsimp only at hlast hhandled
    refine ⟨fun h => absurd ?_ h, fun h => absurd h.1 (by simp)⟩
    cases hverdict : (w.deliveries k).verdict with
    | accepts acceptance =>
      rw [hverdict] at hhandled
      exact takenAsRecorded_accepted hhandled
    | refuses error_code error_message retryable =>
      intro hsome
      rw [hlength, Schedule.held_refused hheld hverdict] at hsome
      exact absurd hsome Bool.false_ne_true

/-- Every attempt is lost or refused for now: the store reports no success, so nothing is missed. -/
theorem takenAsRecorded_of_unsettled (hwire : ∀ r, cfg.validate (wire r) = some r)
    {envelope : Dict} {fresh : Uuid} {io : ℕ → SpoolIO}
    (hsends : (w.call rt wire envelope fresh io).Sends rt s)
    (hall : ∀ j < cfg.max_retries, w.AsksAgain j) :
    TakenAsRecorded w ctx (s.handleAlone rt cfg (w.call rt wire envelope fresh io)) ∧
      ¬ w.EndsInDuplicate cfg.max_retries := by
  choose seen hseen hretry hanswered hlost using fun (e : Dict) (k : ℕ) =>
    @interpret_reply rt cfg wire (eventIdOf rt envelope) hwire w k e
  obtain ⟨k, hk⟩ : ∃ k, k + 1 = cfg.max_retries :=
    ⟨_, Nat.sub_add_cancel cfg.one_le_max_retries⟩
  have hlt : k < cfg.max_retries := hk ▸ Nat.lt_succ_self k
  obtain ⟨sealed, hlength, hlast, -, -⟩ := hsends.single rfl hseen hlt
    (fun e j hj => (hretry e j).mpr (hall j (hj.trans hlt))) (fun _ _ => hk)
  refine ⟨fun hsome hsuccess => ?_, ?_⟩
  · obtain ⟨response, hresponse, hsuccess⟩ := hsuccess
    obtain rfl := Option.some.inj (hlast.symm.trans hresponse)
    by_cases hpassage : (w.deliveries k).passage = .answered
    · -- refused for now: the store does not hold the event
      obtain ⟨hnone, error_code, error_message, hverdict⟩ := hall k hlt hpassage
      rw [hlength, Schedule.held_refused hnone hverdict] at hsome
      exact absurd hsome Bool.false_ne_true
    · rw [hlost sealed k hpassage] at hsuccess
      exact absurd hsuccess Bool.false_ne_true
  · rintro ⟨j, hj, -, hanswered, hheld, -⟩
    exact absurd (hall j hj) (Schedule.not_asksAgain_held hanswered hheld)

/-- A call that sends fails to take the event as recorded exactly if a duplicate ends it. -/
theorem not_takenAsRecorded_iff (hwire : ∀ r, cfg.validate (wire r) = some r) {envelope : Dict}
    {fresh : Uuid} {io : ℕ → SpoolIO} (hsends : (w.call rt wire envelope fresh io).Sends rt s) :
    ¬ TakenAsRecorded w ctx (s.handleAlone rt cfg (w.call rt wire envelope fresh io)) ↔
      w.EndsInDuplicate cfg.max_retries := by
  by_cases hfirst : ∃ k < cfg.max_retries, ¬ w.AsksAgain k
  · -- the first attempt that is answered for good ends the call
    obtain ⟨k, ⟨hk, hnot⟩, hbefore⟩ : ∃ k, (k < cfg.max_retries ∧ ¬ w.AsksAgain k) ∧
        ∀ j < k, w.AsksAgain j := by
      classical
      refine ⟨Nat.find hfirst, Nat.find_spec hfirst, fun j hj => ?_⟩
      by_contra hasks
      exact Nat.find_min hfirst hj ⟨hj.trans (Nat.find_spec hfirst).1, hasks⟩
    exact not_takenAsRecorded_of_settled hwire hsends hk hnot hbefore
  · have hall : ∀ j < cfg.max_retries, w.AsksAgain j := by
      intro j hj
      by_contra hnot
      exact hfirst ⟨j, hj, hnot⟩
    obtain ⟨htaken, hends⟩ : TakenAsRecorded w ctx
        (s.handleAlone rt cfg (w.call rt wire envelope fresh io)) ∧ _ :=
      takenAsRecorded_of_unsettled hwire hsends hall
    exact iff_of_false (not_not_intro htaken) hends

/-- **A lost reply is not a failure**, whatever is lost and however the store answers a repeat,
    exactly when the answer that ends the call is no `DUPLICATE_EVENT`. -/
theorem taken_as_recorded_iff (hwire : ∀ r, cfg.validate (wire r) = some r) (s : HttpState)
    (w : Schedule) (ctx : SessionContext) (envelope : Dict) (fresh : Uuid) (io : ℕ → SpoolIO) :
    TakenAsRecorded w ctx (s.handleAlone rt cfg (w.call rt wire envelope fresh io)) ↔
      ((w.call rt wire envelope fresh io).Sends rt s → ¬ w.EndsInDuplicate cfg.max_retries) := by
  by_cases hsends : (w.call rt wire envelope fresh io).Sends rt s
  · rw [← not_takenAsRecorded_iff hwire hsends, not_not]
    exact ⟨fun h _ => h, fun h => h hsends⟩
  · -- nothing is sent, so nothing is answered
    have hrounds := @rounds_of_not_sends rt cfg s _ fun h => hsends h.1
    refine ⟨fun _ h => absurd h hsends, fun _ _ hanswer => ?_⟩
    obtain ⟨response, hlast, -⟩ := hanswer
    rw [hrounds] at hlast
    exact absurd hlast (by simp [lastAnswer])

end

/-! ### One lost reply -/

/-- `null`, or what a value is written as. -/
def writeOptional {α : Type} (write : α → Json) : Option α → Json
  | none => .null
  | some x => write x

/-- The server's encoder: `model_dump` with every field. -/
def encodeResponse (r : IngestResponse) : Json :=
  .obj (Dict.ofFields
    [("status", .str r.status),
     ("event_id", .str r.event_id.text),
     ("entity_id", writeOptional (fun u : Uuid => .str u.text) r.entity_id),
     ("sequence_number", writeOptional .int r.sequence_number),
     ("self_hash", writeOptional .str r.self_hash),
     ("error_code", writeOptional (fun code => .str (JStr.ofString code.text)) r.error_code),
     ("error_message", writeOptional .str r.error_message),
     ("retryable", writeOptional .bool r.retryable)])

/-- An optional field is read back if its values are. -/
theorem readOptional_write {α : Type} {read : Json → Option α} {write : α → Json}
    (hread : ∀ x, readOptional read (write x) = some (some x)) (x : Option α) :
    readOptional read (writeOptional write x) = some x := by
  cases x with
  | none => rfl
  | some x => exact hread x

/-- A response is read back as it was sent. -/
theorem readResponse_encodeResponse (r : IngestResponse) :
    readResponse (encodeResponse r) = some r := by
  have hentity := @readOptional_write _ readUuid (fun u => .str u.text)
    (fun u => congrArg (Option.map some) (readUuid_text u)) r.entity_id
  have hcode := @readOptional_write _ readCode (fun code => .str (JStr.ofString code.text))
    (fun code => congrArg (Option.map some) (readCode_text code)) r.error_code
  have hnumber := @readOptional_write _ readInt .int (fun _ => rfl) r.sequence_number
  have hhash := @readOptional_write _ readStr .str (fun _ => rfl) r.self_hash
  have hmessage := @readOptional_write _ readStr .str (fun _ => rfl) r.error_message
  have hflag := @readOptional_write _ readBool .bool (fun _ => rfl) r.retryable
  unfold encodeResponse readResponse
  dsimp only
  rw [if_pos (by simp [Dict.ofFields, responseFields])]
  simp [readFields, Dict.get_ofFields, List.lookup_cons, readStr, readUuid_text, hentity, hcode,
    hnumber, hhash, hmessage, hflag]

/-- Three attempts, with the strict reader. -/
def threeAttempts : HttpConfig :=
  { strictConfig with max_retries := 3, one_le_max_retries := by decide }

/-- The store takes the event, its reply is lost, and the second request is answered. -/
def firstReplyLost (repeated : RepeatAnswer) : Schedule where
  before := none
  deliveries k :=
    { passage := if k = 0 then .replyLost (.timeout "ReadTimeout") else .answered
      verdict := .accepts ⟨exampleRecord, some 1, none⟩
      repeated := repeated }

theorem taken_as_recorded_replayed :
    TakenAsRecorded (firstReplyLost .replay) exampleContext
      (HttpState.init.handleAlone exampleRuntime threeAttempts
        ((firstReplyLost .replay).call exampleRuntime encodeResponse (exampleAction exampleEvent)
          exampleRecord noonIO)) := by
  refine (taken_as_recorded_iff readResponse_encodeResponse .init (firstReplyLost .replay)
    exampleContext (exampleAction exampleEvent) exampleRecord noonIO).mpr ?_
  rintro - ⟨k, -, -, -, -, error_message, hrepeated⟩
  exact absurd hrepeated (by simp [firstReplyLost])

/-- The same loss, and the store no longer has the original response. -/
theorem not_taken_as_recorded_duplicate :
    ¬ TakenAsRecorded (firstReplyLost (.duplicate "duplicate event")) exampleContext
      (HttpState.init.handleAlone exampleRuntime threeAttempts
        ((firstReplyLost (.duplicate "duplicate event")).call exampleRuntime encodeResponse
          (exampleAction exampleEvent) exampleRecord noonIO)) := by
  obtain ⟨batch, s', hsealed, -⟩ := @sealAll_seals exampleRuntime .init
    [(exampleAction exampleEvent, exampleRecord)] (by
      intro p hp
      rw [List.mem_singleton.mp hp]
      exact exampleAction_emitted _)
  refine (not_takenAsRecorded_iff readResponse_encodeResponse ⟨rfl, batch, s', hsealed⟩).mpr ?_
  refine ⟨1, by decide, fun j hj => ?_, rfl, rfl, _, rfl⟩
  obtain rfl := Nat.lt_one_iff.mp hj
  exact fun hpassage => absurd hpassage (by simp [firstReplyLost])

end RootSign
