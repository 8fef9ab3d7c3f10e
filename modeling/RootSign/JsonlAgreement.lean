import RootSign.SealedRecords
import RootSign.Sdk.JsonlClient
import RootSign.Python.Sha256

namespace RootSign

open RootSign.Lib RootSign.Python

/-!
# The JSONL producer and the verifier

A run of `handle` calls over any mix of sessions and event types, with the envelopes the SDK
emits (`JsonlCall`).

* `JsonlInv` — what holds after any calls: each session's action lines carry its sealed log;
* `handle_step` — one call keeps the invariant, appends one line, and answers with it unless
  caching the response overflows;
* `runCalls_spec` — the same for whole runs;
* `jsonl_agrees_iff` — the files verify `VALID` with as many records as actions were accepted
  exactly when no action's `emitted_at` lies within a day of the end of the year 9999.
-/

/-! ### Calls and runs -/

/-- A call with an envelope as the SDK emits it: one of the five types, UUID ids and an
    offset-aware date; an action's payload is unsealed and bound to its hashes.  The write
    succeeds. -/
structure JsonlCall (rt : Runtime) where
  io : CallIO
  envelope : Dict
  event_id : Uuid
  kind : EventType
  session : Uuid
  emitted_at : PyDateTime
  payload : Dict
  written : io.append = .written
  has_event_id : envelope.has "event_id"
  event_id_eq : rt.toUuid (envelope.get "event_id") = .ok event_id
  event_type_eq : envelope.get "event_type" = .str (JStr.ofString kind.text)
  session_id_eq : envelope.get "session_id" = .str session.text
  emitted_at_eq : parseDt rt io.now_parse (envelope.get "emitted_at") = emitted_at
  emitted_at_aware : emitted_at.aware = true
  payload_eq : kind = .ACTION_RECORD → envelope.get "payload" = .obj payload
  payload_unsealed : kind = .ACTION_RECORD → UnsealedPayload payload
  payload_bound : kind = .ACTION_RECORD → BoundPayload rt payload

/-- A day past `emitted_at` is representable. -/
def JsonlCall.inRange {rt : Runtime} (c : JsonlCall rt) : Bool := c.emitted_at.canAdd ttl

/-- One call after the other: the answers, and the client they leave. -/
def runCalls (rt : Runtime) : JsonlState → List (JsonlCall rt) →
    List (Except PyError IngestResponse) × JsonlState
  | s, [] => ([], s)
  | s, c :: rest =>
    let result := s.handle rt c.io c.envelope
    let tail := runCalls rt result.2 rest
    (result.1 :: tail.1, tail.2)

/-- The call is an action of the session. -/
def JsonlCall.isActionOf {rt : Runtime} (session : JStr) (c : JsonlCall rt) : Bool :=
  c.kind == .ACTION_RECORD && c.session.text == session

/-- The call was answered with an accepted response. -/
def isAcceptedAnswer : Except PyError IngestResponse → Bool
  | .ok response => response.isAccepted
  | .error _ => false

/-- How many actions of the session were accepted. -/
def acceptedActions {rt : Runtime} (session : JStr) (calls : List (JsonlCall rt))
    (answers : List (Except PyError IngestResponse)) : ℕ :=
  (calls.zip answers).countP fun p => p.1.isActionOf session && isAcceptedAnswer p.2

/-! ### One call -/

/-- What holds of one session after the given calls: its chain state is that of a sealed log
    of bound payloads, one for each action, and its action lines carry the log in order. -/
def SessionInv {rt : Runtime} (done : List (JsonlCall rt)) (chains : ChainRegistry)
    (files : JStr → List Dict) (session : JStr) : Prop :=
  ∃ log, SealedLog rt (.str session) log (chains session) ∧ (∀ e ∈ log, BoundPayload rt e.1) ∧
    List.Forall₂ (CarriesSeal (.str session)) log ((files session).filter isActionLine) ∧
    log.length = done.countP (JsonlCall.isActionOf session)

/-- What holds after the given calls. -/
structure JsonlInv {rt : Runtime} (done : List (JsonlCall rt)) (s : JsonlState) : Prop where
  store : StoreInv (done.map JsonlCall.event_id) s.idempotency
  session : ∀ session : JStr, SessionInv done s.chains s.files session

/-- The answer to a call, and the line it stands for. -/
structure Answered {rt : Runtime} (files : JStr → List Dict) (c : JsonlCall rt)
    (answer : Except PyError IngestResponse) : Prop where
  exists_line : ∃ response line, line ∈ files c.session.text ∧
    answer = (if c.inRange then .ok response else .error .overflowError) ∧
    response.isAccepted = true ∧
    (c.kind = .ACTION_RECORD → isActionLine line = true ∧
      line.get "event_id" = .str c.event_id.text ∧
      ∃ n digest, response.sequence_number = some n ∧ response.self_hash = some digest ∧
        line.get "sequence_number" = .int n ∧ line.get "self_hash" = .str digest)

theorem Answered.mono {rt : Runtime} {files files' : JStr → List Dict} {c : JsonlCall rt}
    {answer : Except PyError IngestResponse} (h : Answered files c answer)
    (hsub : ∀ line ∈ files c.session.text, line ∈ files' c.session.text) :
    Answered files' c answer := by
  obtain ⟨response, line, hline, hrest⟩ := h.exists_line
  exact ⟨response, line, hsub line hline, hrest⟩

variable {rt : Runtime}

theorem JsonlInv.init : JsonlInv ([] : List (JsonlCall rt)) JsonlState.init where
  store := ⟨fun e he => absurd he (by simp [JsonlState.init]),
    fun e he => absurd he (by simp [JsonlState.init])⟩
  session := fun _ => ⟨[], SealedLog.nil rt _, fun e he => absurd he (by simp), .nil, rfl⟩

/-- The event type is hashable. -/
theorem shouldFsync_text (mode : FsyncMode) (text : JStr) :
    ∃ b, shouldFsync mode (.str text) = .ok b := by
  cases mode <;> exact ⟨_, rfl⟩

namespace JsonlCall

variable (c : JsonlCall rt)

/-- What `handle` reads first. -/
def head : JsonlState.Head where
  event_id := c.event_id
  event_type := .str (JStr.ofString c.kind.text)
  session_id := c.session.text
  emitted_at := c.emitted_at

theorem readHead_eq : JsonlState.readHead rt c.io c.envelope = .ok c.head := by
  have htype : c.envelope.has "event_type" :=
    Dict.has_of_get_ne_null (by rw [c.event_type_eq]; exact Json.noConfusion)
  have hsession : c.envelope.has "session_id" :=
    Dict.has_of_get_ne_null (by rw [c.session_id_eq]; exact Json.noConfusion)
  simp only [JsonlState.readHead, Dict.item_of_has c.has_event_id, Dict.item_of_has htype,
    Dict.item_of_has hsession, c.event_type_eq, c.session_id_eq, c.emitted_at_eq, bind,
    Except.bind, c.event_id_eq, Runtime.pyStr_str]
  rfl

theorem payloadOf_eq (h : c.kind = .ACTION_RECORD) : payloadOf c.envelope = .ok c.payload := by
  have htruthy : (Json.obj c.payload).truthy = true := by
    have hhas := (c.payload_unsealed h).tool_name
    rw [Json.truthy]
    cases hp : c.payload with
    | nil => rw [hp] at hhas; simp [Dict.has] at hhas
    | cons p rest => rfl
  rw [payloadOf, c.payload_eq h, htruthy]

theorem pyEq_kind (k : EventType) :
    (Json.str (JStr.ofString c.kind.text)).pyEq (.str (JStr.ofString k.text)) =
      decide (c.kind = k) := by
  rw [Bool.eq_iff_iff, Json.pyEq_str, decide_eq_true_eq, Json.str.injEq, JStr.ofString_inj]
  exact ⟨EventType.text_inj, fun h => by rw [h]⟩

end JsonlCall

/-- The flat line carries the seal to the verifier. -/
theorem flatRecord_carriesSeal (envelope payload : Dict) (event_id : Uuid) (session : JStr)
    (sealed : SealedAction) :
    CarriesSeal (.str session) (payload, sealed)
      (flatRecord envelope payload event_id session (payload.get "tool_name")
        (payload.get "input_hash") (payload.get "timestamp") sealed) := by
  constructor
  case fields => constructor <;> simp [flatRecord, Dict.has_ofFields, List.lookup_cons]
  case action_line =>
    simp [isActionLine, flatRecord, Dict.getD_ofFields, List.lookup_cons, Json.pyEq]
  all_goals simp [flatRecord, Dict.get_ofFields, List.lookup_cons]

/-- Any other event's line is no action line. -/
theorem isActionLine_buildNonAction (c : JsonlCall rt) (h : c.kind ≠ .ACTION_RECORD)
    (fresh : Uuid) :
    isActionLine (buildNonAction fresh c.envelope c.event_id
      (.str (JStr.ofString c.kind.text))).2 = false := by
  have hget : ∀ d : Dict, d.lookup (JStr.ofString "event_type") =
      c.envelope.lookup (JStr.ofString "event_type") → isActionLine d = false := by
    intro d hd
    have hhas : c.envelope.has "event_type" :=
      Dict.has_of_get_ne_null (by rw [c.event_type_eq]; exact Json.noConfusion)
    obtain ⟨v, hv⟩ := Option.isSome_iff_exists.mp hhas
    have hval : v = .str (JStr.ofString c.kind.text) := by
      have := c.event_type_eq
      rwa [Dict.get, Dict.getD, hv] at this
    rw [isActionLine, Dict.getD, hd, hv, hval]
    have := c.pyEq_kind .ACTION_RECORD
    rw [decide_eq_false h] at this
    exact this
  unfold buildNonAction
  split
  · exact hget _ (by simp [Dict.lookup_set])
  · split
    · exact hget _ (by simp [Dict.lookup_set])
    · exact hget _ rfl

theorem isAccepted_buildNonAction (fresh : Uuid) (envelope : Dict) (event_id : Uuid)
    (event_type : Json) :
    (buildNonAction fresh envelope event_id event_type).1.isAccepted = true := by
  unfold buildNonAction
  split
  · exact IngestResponse.isAccepted_accepted _ _ _ _
  · split <;> exact IngestResponse.isAccepted_accepted _ _ _ _

/-- What `build` returns for a call: the accepted response and the line, and for an action
    the chain advanced by the seal the line carries. -/
theorem build_eq (c : JsonlCall rt) (s : JsonlState) :
    ∃ response line chains, s.build rt c.io c.envelope c.head =
        (.ok (response, line), { s with chains := chains }) ∧ response.isAccepted = true ∧
      ((c.kind = .ACTION_RECORD ∧ ∃ sealed,
          sealed = (s.chains c.session.text).minted rt c.io.fresh (.str c.session.text)
            c.payload ∧
          chains = Function.update s.chains c.session.text
            { tail := some sealed.self_hash, count := (s.chains c.session.text).count + 1 } ∧
          CarriesSeal (.str c.session.text) (c.payload, sealed) line ∧
          line.get "event_id" = .str c.event_id.text ∧
          response.sequence_number = some sealed.sequence_number ∧
          response.self_hash = some sealed.self_hash) ∨
        (c.kind ≠ .ACTION_RECORD ∧ chains = s.chains ∧ isActionLine line = false)) := by
  have hkind := c.pyEq_kind .ACTION_RECORD
  rw [show EventType.ACTION_RECORD.text = "ACTION_RECORD" from rfl] at hkind
  unfold JsonlState.build
  -- only an action is sealed; an event of another kind leaves the chain alone
  by_cases haction : c.kind = .ACTION_RECORD
  · have hmint := (s.chains c.session.text).seal_mint rt c.io.fresh (.str c.session.text)
      (c.payload_unsealed haction)
    have hunsealed := c.payload_unsealed haction
    simp only [JsonlCall.head, haction, buildAction, c.payloadOf_eq haction,
      ChainRegistry.sealPayload, Runtime.pyStr_str, hmint,
      Dict.item_of_has hunsealed.tool_name, Dict.item_of_has hunsealed.input_hash,
      Dict.item_of_has hunsealed.timestamp]
    refine ⟨_, _, _, rfl, IngestResponse.isAccepted_accepted _ _ _ _,
      Or.inl ⟨trivial, _, rfl, rfl, flatRecord_carriesSeal _ _ _ _ _, ?_, rfl, rfl⟩⟩
    simp [flatRecord, Dict.get_ofFields, List.lookup_cons]
  · simp only [JsonlCall.head, hkind, haction, decide_false, Bool.false_eq_true, if_false]
    exact ⟨_, _, s.chains, rfl, isAccepted_buildNonAction _ _ _ _,
      Or.inr ⟨haction, rfl, isActionLine_buildNonAction c haction _⟩⟩

/-- Appending the line and caching the response: only the cache can raise. -/
theorem record_eq (c : JsonlCall rt) (s : JsonlState) {handled : List Uuid}
    (hstore : StoreInv handled s.idempotency) (response : IngestResponse) (line : Dict) :
    ∃ store, StoreInv (c.event_id :: handled) store ∧
      s.record c.io c.head response line =
        (if c.inRange then .ok response else .error .overflowError,
         { s with
           idempotency := store
           files := Function.update s.files c.session.text
             (s.files c.session.text ++ [line]) }) := by
  obtain ⟨b, hb⟩ := shouldFsync_text s.fsync (JStr.ofString c.kind.text)
  obtain ⟨store, hinv, hput⟩ := IdempotencyStore.put_eq c.io.now_evict c.io.now_set
    c.event_id response hstore c.emitted_at_aware
  refine ⟨store, hinv, ?_⟩
  rw [JsonlState.record, show shouldFsync s.fsync c.head.event_type = .ok b from hb]
  simp only [JsonlState.appendLine, c.written]
  rw [show c.head.event_id = c.event_id from rfl, show c.head.emitted_at = c.emitted_at from rfl,
    hput]
  rw [JsonlCall.inRange]
  cases c.emitted_at.canAdd ttl <;> rfl

/-- Appending a line that is no action, for a call that is no action. -/
theorem SessionInv.other {done : List (JsonlCall rt)} {chains : ChainRegistry}
    {files : JStr → List Dict} {session : JStr} (h : SessionInv done chains files session)
    (c : JsonlCall rt) (hkind : c.kind ≠ .ACTION_RECORD) {line : Dict}
    (hline : isActionLine line = false) :
    SessionInv (done ++ [c]) chains
      (Function.update files c.session.text (files c.session.text ++ [line])) session := by
  obtain ⟨log, hlog, hbound, hlines, hcount⟩ := h
  refine ⟨log, hlog, hbound, ?_, ?_⟩
  · by_cases hsession : session = c.session.text
    · subst hsession
      rw [Function.update_self, List.filter_append, List.filter_singleton, hline]
      simpa using hlines
    · rwa [Function.update_of_ne hsession]
  · simp [hcount, JsonlCall.isActionOf, hkind]

/-- Sealing an action and appending its line extends the session's log by one. -/
theorem SessionInv.action {done : List (JsonlCall rt)} {chains : ChainRegistry}
    {files : JStr → List Dict} {session : JStr} (h : SessionInv done chains files session)
    (c : JsonlCall rt) (hkind : c.kind = .ACTION_RECORD) {sealed : SealedAction} {line : Dict}
    (hsealed : sealed = (chains c.session.text).minted rt c.io.fresh (.str c.session.text)
      c.payload)
    (hcarries : CarriesSeal (.str c.session.text) (c.payload, sealed) line) :
    SessionInv (done ++ [c])
      (Function.update chains c.session.text
        { tail := some sealed.self_hash, count := (chains c.session.text).count + 1 })
      (Function.update files c.session.text (files c.session.text ++ [line])) session := by
  obtain ⟨log, hlog, hbound, hlines, hcount⟩ := h
  -- the line is in the file of its own session, and every other file is as it was
  by_cases hsession : session = c.session.text
  · subst hsession
    refine ⟨log ++ [(c.payload, sealed)], ?_, fun e he => ?_, ?_, ?_⟩
    · rw [Function.update_self, hsealed]
      exact hlog.mint c.io.fresh c.payload
    · rcases List.mem_append.mp he with he | he
      · exact hbound e he
      · rw [List.mem_singleton.mp he]
        exact c.payload_bound hkind
    · rw [Function.update_self, List.filter_append, List.filter_singleton, hcarries.action_line]
      exact List.rel_append hlines (.cons hcarries .nil)
    · simp [hcount, JsonlCall.isActionOf, hkind]
  · refine ⟨log, ?_, hbound, ?_, ?_⟩
    · rwa [Function.update_of_ne hsession]
    · rwa [Function.update_of_ne hsession]
    · have hne : (c.session.text == session) = false :=
        beq_eq_false_iff_ne.mpr fun h => hsession h.symm
      simp [hcount, JsonlCall.isActionOf, hne]

/-- **The step.** One call keeps the invariant, appends one line to its session's file, and
    answers with that line unless caching the response overflows. -/
theorem handle_step {done : List (JsonlCall rt)} {s : JsonlState} (hinv : JsonlInv done s)
    (c : JsonlCall rt) (hfresh : c.event_id ∉ done.map JsonlCall.event_id) :
    JsonlInv (done ++ [c]) (s.handle rt c.io c.envelope).2 ∧
      (∃ line, (s.handle rt c.io c.envelope).2.files =
        Function.update s.files c.session.text (s.files c.session.text ++ [line])) ∧
      Answered (s.handle rt c.io c.envelope).2.files c (s.handle rt c.io c.envelope).1 := by
  -- The id is new, so the call is not answered from the cache: it builds a line and records it.
  obtain ⟨store, hget, hstore⟩ := IdempotencyStore.get_eq c.io.now_get hinv.store hfresh
  obtain ⟨response, line, chains, hbuild, haccepted, hkind⟩ :=
    build_eq c { s with idempotency := store }
  obtain ⟨store', hstore', hrecord⟩ := record_eq c
    { s with idempotency := store, chains := chains } hstore response line
  have hhandle : s.handle rt c.io c.envelope =
      (if c.inRange then .ok response else .error .overflowError,
       { s with
         idempotency := store'
         chains := chains
         files := Function.update s.files c.session.text (s.files c.session.text ++ [line]) }) := by
    rw [JsonlState.handle, c.readHead_eq]
    simp only [show c.head.event_id = c.event_id from rfl, hget, hbuild]
    exact hrecord
  rw [hhandle]
  have hline : line ∈ Function.update s.files c.session.text
      (s.files c.session.text ++ [line]) c.session.text := by simp
  refine ⟨⟨?_, fun session => ?_⟩, ⟨line, rfl⟩, ⟨response, line, hline, rfl, haccepted, ?_⟩⟩
  · refine hstore'.mono (fun e he => he) fun u hu => ?_
    simpa [or_comm] using hu
  · rcases hkind with ⟨haction, sealed, hsealed, rfl, hcarries, -, -, -⟩ | ⟨haction, rfl, hnoline⟩
    · exact (hinv.session session).action c haction hsealed hcarries
    · exact (hinv.session session).other c haction hnoline
  -- What is answered about an action is read off the line itself.
  · intro haction
    rcases hkind with ⟨-, sealed, -, -, hcarries, hevent, hseq, hself⟩ | ⟨hno, -, -⟩
    · exact ⟨hcarries.action_line, hevent, _, _, hseq, hself, hcarries.sequence_number,
        hcarries.self_hash⟩
    · exact absurd haction hno

/-! ### Runs -/

/-- **The run.** After any calls with distinct event ids, every session's action lines carry
    its sealed log, no line is ever dropped, and every call is answered with its line unless
    caching the response overflowed. -/
theorem runCalls_spec {done calls : List (JsonlCall rt)} {s : JsonlState}
    (hinv : JsonlInv done s) (hdistinct : ((done ++ calls).map JsonlCall.event_id).Nodup) :
    JsonlInv (done ++ calls) (runCalls rt s calls).2 ∧
      (∀ session, ∀ line ∈ s.files session, line ∈ (runCalls rt s calls).2.files session) ∧
      List.Forall₂ (Answered (runCalls rt s calls).2.files) calls (runCalls rt s calls).1 := by
  induction calls generalizing done s with
  | nil => exact ⟨by simpa [runCalls] using hinv, fun _ _ h => h, .nil⟩
  | cons c rest ih =>
    have hfresh : c.event_id ∉ done.map JsonlCall.event_id := by
      rw [List.map_append, List.nodup_append] at hdistinct
      exact fun hmem => hdistinct.2.2 _ hmem _ (by simp) rfl
    obtain ⟨hstep, ⟨line, hfiles⟩, hanswer⟩ := handle_step hinv c hfresh
    obtain ⟨hrun, hkept, hanswers⟩ := ih hstep (by simpa using hdistinct)
    refine ⟨by simpa [runCalls] using hrun, fun session x hx => hkept session x ?_,
      .cons (hanswer.mono (hkept c.session.text)) hanswers⟩
    rw [hfiles]
    by_cases hsession : session = c.session.text
    · subst hsession
      simp [hx]
    · rwa [Function.update_of_ne hsession]

/-- The producer and the verifier agree on a run: every session file verifies `VALID` with as
    many records as actions of the session were accepted, and every accepted action's
    response shows the number and hash of its line. -/
structure JsonlAgrees (calls : List (JsonlCall rt))
    (answers : List (Except PyError IngestResponse)) (files : JStr → List Dict) : Prop where
  verdict : ∀ session : JStr, files session ≠ [] → ∃ res,
    verifySessionLocal rt (objectLines (files session)) = .ok res ∧ res.verdict = .VALID ∧
      res.record_count = acceptedActions session calls answers
  returned : ∀ c response, (c, .ok response) ∈ calls.zip answers → c.kind = .ACTION_RECORD →
    response.isAccepted = true → ∃ line ∈ files c.session.text, isActionLine line = true ∧
      line.get "event_id" = .str c.event_id.text ∧
      ∃ n digest, response.sequence_number = some n ∧ response.self_hash = some digest ∧
        line.get "sequence_number" = .int n ∧ line.get "self_hash" = .str digest

/-- Actions are accepted when caching their response does not overflow. -/
theorem acceptedActions_eq {files : JStr → List Dict} {calls : List (JsonlCall rt)}
    {answers : List (Except PyError IngestResponse)} (session : JStr)
    (h : List.Forall₂ (Answered files) calls answers) :
    acceptedActions session calls answers =
      calls.countP fun c => c.isActionOf session && c.inRange := by
  unfold acceptedActions
  induction h with
  | nil => rfl
  | cons hanswer _ ih =>
    rename_i c answer _ _ _
    obtain ⟨response, line, -, hans, haccepted, -⟩ := hanswer.exists_line
    have hiff : isAcceptedAnswer answer = c.inRange := by
      rw [hans]
      cases c.inRange
      · rfl
      · exact haccepted
    simp only [List.zip_cons_cons, List.countP_cons, ih, hiff]

/-- Every session file of a run verifies `VALID` with one record for each action call. -/
theorem verify_session_of_inv {done : List (JsonlCall rt)} {s : JsonlState}
    (hinv : JsonlInv done s) {session : JStr} (hne : s.files session ≠ []) :
    ∃ res, verifySessionLocal rt (objectLines (s.files session)) = .ok res ∧
      res.verdict = .VALID ∧ res.record_count = done.countP (JsonlCall.isActionOf session) := by
  obtain ⟨log, hlog, hbound, hlines, hcount⟩ := hinv.session session
  obtain ⟨res, hres, hv, hrc⟩ := verify_whole_log (f := ⟨s.files session, hne⟩) hlog hbound hlines
  exact ⟨res, hres, hv, hrc.trans hcount⟩

/-- Counting more generously counts more, when some element makes the difference. -/
theorem countP_lt_of_mem {α : Type} {p q : α → Bool} {l : List α} {c : α}
    (himp : ∀ x ∈ l, p x = true → q x = true) (hc : c ∈ l) (hp : p c = false) (hq : q c = true) :
    l.countP p < l.countP q := by
  obtain ⟨a, b, rfl⟩ := List.append_of_mem hc
  have ha := List.countP_mono_left (l := a) fun x hx => himp x (by simp [hx])
  have hb := List.countP_mono_left (l := b) fun x hx => himp x (by simp [hx])
  simp only [List.countP_append, List.countP_cons, hp, hq, Bool.false_eq_true, if_false, if_true]
  omega

/-- When no caching overflows, the run agrees. -/
theorem jsonlAgrees_of_inRange {calls : List (JsonlCall rt)}
    (hdistinct : (calls.map JsonlCall.event_id).Nodup)
    (hrange : ∀ c ∈ calls, c.kind = .ACTION_RECORD → c.inRange = true) :
    JsonlAgrees calls (runCalls rt .init calls).1 (runCalls rt .init calls).2.files := by
  obtain ⟨hinv, -, hanswers⟩ := runCalls_spec JsonlInv.init (by simpa using hdistinct)
  refine ⟨fun session hne => ?_, fun c response hmem haction _ => ?_⟩
  · obtain ⟨res, hres, hv, hcount⟩ := verify_session_of_inv hinv hne
    refine ⟨res, hres, hv, ?_⟩
    rw [hcount, acceptedActions_eq session hanswers, List.nil_append]
    refine List.countP_congr fun c hc => ?_
    rw [Bool.and_eq_true]
    refine ⟨fun h => ⟨h, hrange c hc ?_⟩, fun h => h.1⟩
    rw [JsonlCall.isActionOf, Bool.and_eq_true, beq_iff_eq] at h
    exact h.1
  · obtain ⟨i, hi, heq⟩ := List.mem_iff_getElem.mp hmem
    rw [List.length_zip] at hi
    rw [List.getElem_zip, Prod.mk.injEq] at heq
    have hans := hanswers.get (i := i) (by omega) (by omega)
    simp only [List.get_eq_getElem, heq.1, heq.2] at hans
    obtain ⟨response', line, hline, hif, -, hshow⟩ := hans.exists_line
    rw [if_pos (hrange c (List.of_mem_zip hmem).1 haction), Except.ok.injEq] at hif
    obtain ⟨hisaction, hevent, n, digest, hn, hd, hseq, hself⟩ := hshow haction
    exact ⟨line, hline, hisaction, hevent, n, digest, by rw [hif, hn], by rw [hif, hd], hseq, hself⟩

/-- An action whose caching overflows is in the file and was not accepted. -/
theorem not_jsonlAgrees_of_overflow {calls : List (JsonlCall rt)}
    (hdistinct : (calls.map JsonlCall.event_id).Nodup) {c : JsonlCall rt} (hc : c ∈ calls)
    (haction : c.kind = .ACTION_RECORD) (hrange : c.inRange = false) :
    ¬ JsonlAgrees calls (runCalls rt .init calls).1 (runCalls rt .init calls).2.files := by
  intro hagrees
  obtain ⟨hinv, -, hanswers⟩ := runCalls_spec JsonlInv.init (by simpa using hdistinct)
  obtain ⟨i, hi, rfl⟩ := List.mem_iff_getElem.mp hc
  have hans := hanswers.get hi (by rw [← hanswers.length_eq]; exact hi)
  obtain ⟨_, line, hline, -⟩ := hans.exists_line
  have hne := List.ne_nil_of_mem hline
  obtain ⟨res, hres, -, hcount⟩ := hagrees.verdict _ hne
  obtain ⟨res', hres', -, hcount'⟩ := verify_session_of_inv hinv hne
  rw [hres, Except.ok.injEq] at hres'
  rw [← hres', hcount, acceptedActions_eq _ hanswers, List.nil_append] at hcount'
  -- the overflowing call is counted on one side only
  refine absurd hcount' (ne_of_lt (countP_lt_of_mem (c := calls[i]) ?_ hc ?_ ?_))
  · exact fun x _ hx => (Bool.and_eq_true _ _ ▸ hx).1
  · rw [hrange, Bool.and_false]
  · simp [JsonlCall.isActionOf, haction]

/-- **The JSONL producer and the verifier.**  For every run of calls with distinct event ids,
    the files verify `VALID` with as many records as actions were accepted, and responses show
    what was written, exactly when a day past every action's `emitted_at` is representable. -/
theorem jsonl_agrees_iff (rt : Runtime) (calls : List (JsonlCall rt))
    (hdistinct : (calls.map JsonlCall.event_id).Nodup) :
    JsonlAgrees calls (runCalls rt .init calls).1 (runCalls rt .init calls).2.files ↔
      ∀ c ∈ calls, c.kind = .ACTION_RECORD → c.inRange = true := by
  refine ⟨fun h c hc haction => ?_, jsonlAgrees_of_inRange hdistinct⟩
  by_contra hrange
  exact not_jsonlAgrees_of_overflow hdistinct hc haction (by simpa using hrange) h

/-! ### An action dated on the last day -/

/-- `9999-12-31T23:59:59+00:00`. -/
def lastSecond : PyDateTime where
  ticks := 315537897599000000
  offset := some 0
  ticks_lt := by decide
  offset_lt := zeroOffset_lt

/-- A runtime that reads these two dates. -/
def twoDates : Runtime :=
  cpython fun s =>
    if s = "9999-12-31T23:59:59+00:00" then some lastSecond
    else if s = "2026-05-01T12:00:00+00:00" then some mayNoon.time
    else none

/-- An action payload without redacted values. -/
def plainPayload : Dict :=
  Dict.ofFields
    [("tool_name", .str "send_email"),
     ("input_hash", .str "e3b0c44298fc1c149afbf4c8996fb92427ae41e4649b934ca495991b7852b855"),
     ("timestamp", .str "2026-05-01T12:00:00+00:00")]

theorem plainPayload_unsealed : UnsealedPayload plainPayload := by
  constructor <;> simp [plainPayload, Dict.has_ofFields, Dict.get_ofFields, List.lookup_cons]

theorem plainPayload_bound (rt : Runtime) : BoundPayload rt plainPayload := by
  constructor <;> simp [plainPayload, Dict.get_ofFields, List.lookup_cons]

/-- The envelope of an action emitted at the given time. -/
def exampleEnvelope (emitted_at : JStr) : Dict :=
  Dict.ofFields
    [("schema_version", .str "1.1"), ("sdk_version", .str "0.3.0"),
     ("event_type", .str "ACTION_RECORD"), ("event_id", .str exampleEvent.text),
     ("emitted_at", .str emitted_at), ("agent_id", .str exampleAgent.text),
     ("session_id", .str exampleSession.text), ("payload", .obj plainPayload)]

/-- The call that hands over this action. -/
def exampleCall (text : JStr) (emitted_at : PyDateTime)
    (hread : twoDates.fromisoformat text = some emitted_at) (haware : emitted_at.aware = true) :
    JsonlCall twoDates where
  io := ⟨exampleRecord, mayNoon, mayNoon, mayNoon, mayNoon, .written⟩
  envelope := exampleEnvelope text
  event_id := exampleEvent
  kind := .ACTION_RECORD
  session := exampleSession
  emitted_at := emitted_at
  payload := plainPayload
  written := rfl
  has_event_id := by simp [exampleEnvelope, Dict.has_ofFields, List.lookup_cons]
  event_id_eq := by simp [exampleEnvelope, Dict.get_ofFields, List.lookup_cons]
  event_type_eq := by
    simp [exampleEnvelope, Dict.get_ofFields, List.lookup_cons, EventType.text]
  session_id_eq := by simp [exampleEnvelope, Dict.get_ofFields, List.lookup_cons]
  emitted_at_eq := by
    simp [exampleEnvelope, Dict.get_ofFields, List.lookup_cons, parseDt, hread]
  emitted_at_aware := haware
  payload_eq := fun _ => by simp [exampleEnvelope, Dict.get_ofFields, List.lookup_cons]
  payload_unsealed := fun _ => plainPayload_unsealed
  payload_bound := fun _ => plainPayload_bound _

/-- An action emitted in May 2026. -/
def mayCall : JsonlCall twoDates :=
  exampleCall "2026-05-01T12:00:00+00:00" mayNoon.time (by simp [twoDates, cpython]) mayNoon.aware

/-- An action emitted in the last second of the year 9999. -/
def lastSecondCall : JsonlCall twoDates :=
  exampleCall "9999-12-31T23:59:59+00:00" lastSecond (by simp [twoDates, cpython]) rfl

/-- An event of the session, emitted in May 2026. -/
def mayEvent (kind : EventType) (event_id entity_id : Uuid) : JsonlCall twoDates where
  io := ⟨entity_id, mayNoon, mayNoon, mayNoon, mayNoon, .written⟩
  envelope := Dict.ofFields
    [("schema_version", .str "1.1"), ("sdk_version", .str "0.3.0"),
     ("event_type", .str (JStr.ofString kind.text)), ("event_id", .str event_id.text),
     ("emitted_at", .str "2026-05-01T12:00:00+00:00"), ("agent_id", .str exampleAgent.text),
     ("session_id", .str exampleSession.text), ("payload", .obj plainPayload)]
  event_id := event_id
  kind := kind
  session := exampleSession
  emitted_at := mayNoon.time
  payload := plainPayload
  written := rfl
  has_event_id := by simp [Dict.has_ofFields, List.lookup_cons]
  event_id_eq := by simp [Dict.get_ofFields, List.lookup_cons]
  event_type_eq := by simp [Dict.get_ofFields, List.lookup_cons]
  session_id_eq := by simp [Dict.get_ofFields, List.lookup_cons]
  emitted_at_eq := by simp [Dict.get_ofFields, List.lookup_cons, parseDt, twoDates, cpython]
  emitted_at_aware := mayNoon.aware
  payload_eq := fun _ => by simp [Dict.get_ofFields, List.lookup_cons]
  payload_unsealed := fun _ => plainPayload_unsealed
  payload_bound := fun _ => plainPayload_bound _

/-- A session with a decision between its two actions. -/
def mayCalls : List (JsonlCall twoDates) :=
  [mayEvent .SESSION_OPEN (freshUuid 1) (freshUuid 6),
    mayEvent .ACTION_RECORD (freshUuid 2) (freshUuid 7),
    mayEvent .DECISION_RECORD (freshUuid 4) (freshUuid 8),
    mayEvent .ACTION_RECORD (freshUuid 5) (freshUuid 9)]

/-- Both actions are accepted, and the file verifies with them. -/
theorem jsonl_agrees_mayCalls :
    JsonlAgrees mayCalls (runCalls twoDates .init mayCalls).1
        (runCalls twoDates .init mayCalls).2.files ∧
      acceptedActions exampleSession.text mayCalls (runCalls twoDates .init mayCalls).1 = 2 := by
  refine ⟨(jsonl_agrees_iff twoDates mayCalls (by decide)).mpr fun c hc _ => ?_, by decide +kernel⟩
  simp only [mayCalls, List.mem_cons, List.not_mem_nil, or_false] at hc
  rcases hc with rfl | rfl | rfl | rfl
  all_goals
    rw [JsonlCall.inRange, PyDateTime.canAdd]
    decide

/-- The last second's line is written and sealed, and the call raises `OverflowError`. -/
theorem not_jsonl_agrees_lastSecondCall :
    ¬ JsonlAgrees [lastSecondCall] (runCalls twoDates .init [lastSecondCall]).1
      (runCalls twoDates .init [lastSecondCall]).2.files :=
  not_jsonlAgrees_of_overflow (List.nodup_singleton _) (List.mem_singleton_self _) rfl
    (by rw [JsonlCall.inRange, PyDateTime.canAdd]; decide)

end RootSign
