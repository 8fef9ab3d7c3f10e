import RootSign.CloudCalls

namespace RootSign

open RootSign.Lib RootSign.Python

/-!
# The fate of each element

What becomes of the elements of a batch: each is accepted by the server, refused for good, written
to the spool or lost, and the result at its index says so.

* `Admissible` — the envelopes the wire schema admits;
* `SpoolStop` — where writing a batch to the spool stops;
* `TruthfulFates` — what a call promises;
* `truthful_fates_iff` — after any calls, one at a time, a call keeps the promise exactly when the
  first element that stops the spool, if any, is one whose write failed.
-/

/-! ### Envelopes -/

/-- An action payload with a complete seal. -/
structure SealedPayload (rt : Runtime) (payload : Dict) : Prop where
  tool_name : payload.has "tool_name"
  input_hash : payload.has "input_hash"
  timestamp : payload.has "timestamp"
  isSealed : RootSign.isSealed payload = true
  action_id : Json.isNone (payload.get "action_id") = false ∧
    ∃ u, rt.toUuid (payload.get "action_id") = .ok u
  sequence_number : Json.isNone (payload.get "sequence_number") = false ∧
    ∃ n, rt.pyInt (payload.get "sequence_number") = .ok n

/-- An envelope the schema admits: one of the five types, its ids, a payload, a date with an offset
    if it can be read as one, and an action's payload of the given kind. -/
structure Admissible (rt : Runtime) (kind : Dict → Prop) (envelope : Dict) : Prop where
  event_type : ∃ e : EventType, envelope.get "event_type" = .str (JStr.ofString e.text)
  has_event_id : envelope.has "event_id"
  event_id : ∃ u, rt.toUuid (envelope.get "event_id") = .ok u
  session_id : envelope.has "session_id"
  emitted_at : ∀ text t, envelope.get "emitted_at" = .str text → rt.fromisoformat text = some t →
    t.aware = true
  payload : ∃ payload, envelope.get "payload" = .obj payload ∧
    (envelope.get "event_type" = .str "ACTION_RECORD" → kind payload)

/-- An action's payload is unsealed, or has a complete seal. -/
def SealableOrSealed (rt : Runtime) (payload : Dict) : Prop :=
  UnsealedPayload payload ∨ SealedPayload rt payload

section

variable {rt : Runtime} {envelope : Dict} {kind : Dict → Prop}

/-- The date the spool caches the response with is offset-aware. -/
theorem Admissible.parseDt_aware (h : Admissible rt kind envelope) (now : UtcNow) :
    (parseDt rt now (envelope.get "emitted_at")).aware = true := by
  have hnow : now.time.aware = true := now.aware
  cases htext : envelope.get "emitted_at" with
  | str text =>
    show ((rt.fromisoformat text).getD now.time).aware = true
    cases hdate : rt.fromisoformat text with
    | none => exact hnow
    | some t => exact h.emitted_at text t htext hdate
  | _ => exact hnow

/-- A sealed payload is adopted. -/
theorem SealedPayload.seal {payload : Dict} (h : SealedPayload rt payload) (fresh : Uuid)
    (chains : ChainRegistry) (session_id : Json) :
    ∃ sealed chains', chains.sealPayload rt fresh session_id payload = (.ok sealed, chains') := by
  obtain ⟨hid, u, hu⟩ := h.action_id
  obtain ⟨hnumber, n, hn⟩ := h.sequence_number
  simp only [ChainRegistry.sealPayload, ChainState.sealPayload, h.isSealed, if_true,
    ChainState.adopt, List.filter_cons, hid, hnumber, Bool.false_eq_true, if_false,
    List.filter_nil, List.isEmpty_nil, Bool.not_true, hn, hu]
  exact ⟨_, _, rfl⟩

/-- A minted seal completes the payload. -/
theorem SealedPayload.minted {payload : Dict} (h : UnsealedPayload payload)
    (sealed : SealedAction) :
    SealedPayload rt (Dict.update payload sealed.asPayloadFields) := by
  let r : SealedRecord := { event_id := .null, payload := payload, sealed := sealed }
  constructor
  · exact r.has_sealedPayload h.tool_name
  · exact r.has_sealedPayload h.input_hash
  · exact r.has_sealedPayload h.timestamp
  · show (!Json.isNone (r.sealedPayload.get "self_hash")) = true
    rw [r.get_sealedPayload_self_hash]
    rfl
  · show Json.isNone (r.sealedPayload.get "action_id") = false ∧ _
    rw [show (Dict.update payload sealed.asPayloadFields).get "action_id" = _ from
      r.get_sealedPayload_action_id, r.get_sealedPayload_action_id]
    exact ⟨rfl, _, rt.toUuid_text _⟩
  · show Json.isNone (r.sealedPayload.get "sequence_number") = false ∧ _
    rw [show (Dict.update payload sealed.asPayloadFields).get "sequence_number" = _ from
      r.get_sealedPayload_sequence_number, r.get_sealedPayload_sequence_number]
    exact ⟨rfl, _, rfl⟩

/-- The envelope is a control record. -/
def isControl (envelope : Dict) : Bool :=
  match isControlRecord envelope with
  | .ok control => control
  | .error _ => false

/-- Whether an admissible envelope is a control record can be told. -/
theorem Admissible.isControlRecord_eq (h : Admissible rt kind envelope) :
    isControlRecord envelope = .ok (isControl envelope) := by
  obtain ⟨payload, hpayload, -⟩ := h.payload
  unfold isControl isControlRecord
  rw [payloadOf_obj hpayload]
  split_ifs <;> rfl

/-- What `handle` reads first. -/
theorem Admissible.readHead (h : Admissible rt kind envelope) {u : Uuid}
    (hu : rt.toUuid (envelope.get "event_id") = .ok u) (io : CallIO) :
    JsonlState.readHead rt io envelope = .ok
      { event_id := u
        event_type := envelope.get "event_type"
        session_id := rt.pyStr (envelope.get "session_id")
        emitted_at := parseDt rt io.now_parse (envelope.get "emitted_at") } := by
  obtain ⟨e, he⟩ := h.event_type
  have htype : envelope.has "event_type" :=
    Dict.has_of_get_ne_null (by rw [he]; exact Json.noConfusion)
  simp only [JsonlState.readHead, Dict.item_of_has h.has_event_id, Dict.item_of_has htype,
    Dict.item_of_has h.session_id, bind, Except.bind, hu]
  rfl

/-- The record of the event with the given id. -/
def LineHolds (rt : Runtime) (u : Uuid) (line : Dict) : Prop :=
  line.has "event_id" ∧ rt.toUuid (line.get "event_id") = .ok u

/-- A sealed or other event is built without an exception, under its own id. -/
theorem Admissible.build (h : Admissible rt (SealedPayload rt) envelope) {u : Uuid}
    (hu : rt.toUuid (envelope.get "event_id") = .ok u) (io : CallIO) (st : JsonlState)
    {head : JsonlState.Head} (hhead : JsonlState.readHead rt io envelope = .ok head) :
    ∃ response line chains, st.build rt io envelope head =
        (.ok (response, line), { st with chains := chains }) ∧
      response.isAccepted = true ∧ LineHolds rt u line := by
  rw [h.readHead hu io, Except.ok.injEq] at hhead
  subst hhead
  -- An action carries its seal, which is adopted; every other event is taken as it is.
  unfold JsonlState.build
  by_cases haction : (envelope.get "event_type").pyEq (.str "ACTION_RECORD") = true
  · obtain ⟨payload, hpayload, hkind⟩ := h.payload
    have hsealed := hkind (Json.pyEq_str.mp haction)
    obtain ⟨sealed, chains, hseal⟩ := hsealed.seal io.fresh st.chains
      (.str (rt.pyStr (envelope.get "session_id")))
    simp only [haction, if_true, buildAction, payloadOf_obj hpayload, hseal,
      Dict.item_of_has hsealed.tool_name, Dict.item_of_has hsealed.input_hash,
      Dict.item_of_has hsealed.timestamp]
    refine ⟨_, _, _, rfl, IngestResponse.isAccepted_accepted _ _ _ _, ?_, ?_⟩
    · exact Dict.has_ofFields.mpr rfl
    · rw [flatRecord, Dict.get_ofFields]
      exact rt.toUuid_text u
  · simp only [haction, Bool.false_eq_true, if_false]
    refine ⟨(buildNonAction io.fresh envelope u (envelope.get "event_type")).1,
      (buildNonAction io.fresh envelope u (envelope.get "event_type")).2, st.chains, rfl,
      isAccepted_buildNonAction _ _ _ _, ?_⟩
    have hget := @buildNonAction_get io.fresh envelope u (envelope.get "event_type") "event_id"
      (by decide) (by decide)
    refine ⟨?_, by rw [hget]; exact hu⟩
    unfold buildNonAction
    split
    · exact Dict.has_set h.has_event_id _ _
    · split
      · exact Dict.has_set h.has_event_id _ _
      · exact h.has_event_id

/-- The client's spool holds the record of the event. -/
def HoldsEvent (rt : Runtime) (st : JsonlState) (u : Uuid) : Prop :=
  ∃ session, ∃ line ∈ st.files session, LineHolds rt u line

/-- The cache knows only events handed over before, and so do the files. -/
structure KnowsOnly (rt : Runtime) (handed : List Uuid) (st : JsonlState) : Prop where
  store : StoreInv handed st.idempotency
  lines : ∀ u, HoldsEvent rt st u → u ∈ handed

/-- A day past the date can be represented. -/
def Datable (rt : Runtime) (io : CallIO) (envelope : Dict) : Bool :=
  (parseDt rt io.now_parse (envelope.get "emitted_at")).canAdd ttl

/-- One more line holds one more event. -/
theorem holdsEvent_append {st st' : JsonlState} {session : JStr} {line : Dict} {u : Uuid}
    (hfiles : st'.files = Function.update st.files session (st.files session ++ [line]))
    (hline : LineHolds rt u line) (v : Uuid) :
    HoldsEvent rt st' v ↔ HoldsEvent rt st v ∨ v = u := by
  unfold HoldsEvent
  rw [hfiles]
  constructor
  · rintro ⟨other, l, hl, hv⟩
    by_cases hother : other = session
    · subst hother
      rw [Function.update_self, List.mem_append, List.mem_singleton] at hl
      rcases hl with hl | rfl
      · exact Or.inl ⟨other, l, hl, hv⟩
      · exact Or.inr (Except.ok.inj (hv.2.symm.trans hline.2))
    · rw [Function.update_of_ne hother] at hl
      exact Or.inl ⟨other, l, hl, hv⟩
  · rintro (⟨other, l, hl, hv⟩ | rfl)
    · by_cases hother : other = session
      · subst hother
        exact ⟨other, l, by simp [hl], hv⟩
      · exact ⟨other, l, by rw [Function.update_of_ne hother]; exact hl, hv⟩
    · exact ⟨session, line, by simp, hline⟩

/-- Recording a line when nothing is raised. -/
theorem record_written {st : JsonlState} {handed : List Uuid} {io : CallIO}
    {head : JsonlState.Head} {b : Bool} (hstore : StoreInv handed st.idempotency)
    (haware : head.emitted_at.aware = true) (hb : shouldFsync st.fsync head.event_type = .ok b)
    (hwrite : io.append.returns = true) (response : IngestResponse) (line : Dict) :
    ∃ store, StoreInv (head.event_id :: handed) store ∧ st.record io head response line =
      (if head.emitted_at.canAdd ttl then .ok response else .error .overflowError,
       { st with
         idempotency := store
         files := Function.update st.files head.session_id
           (st.files head.session_id ++ [line]) }) := by
  obtain ⟨store, hinv, hput⟩ := IdempotencyStore.put_eq io.now_evict io.now_set
    head.event_id response hstore haware
  refine ⟨store, hinv, ?_⟩
  rw [JsonlState.record, hb]
  simp only [JsonlState.appendLine_eq, hwrite, Append.lands_of_returns hwrite, if_true]
  rw [hput]
  cases head.emitted_at.canAdd ttl <;> rfl

/-- Recording a line when the append raises: the line may be there all the same. -/
theorem record_raised {st : JsonlState} {io : CallIO} {head : JsonlState.Head} {b : Bool}
    (hb : shouldFsync st.fsync head.event_type = .ok b) (hwrite : io.append.returns = false)
    (response : IngestResponse) (line : Dict) :
    st.record io head response line = (.error .osError,
      { st with
        files := if io.append.lands then
            Function.update st.files head.session_id (st.files head.session_id ++ [line])
          else st.files }) := by
  rw [JsonlState.record, hb]
  simp only [JsonlState.appendLine_eq, hwrite, Bool.false_eq_true, if_false]

/-- An event whose id is new is built and recorded. -/
theorem Admissible.handle_eq (h : Admissible rt (SealedPayload rt) envelope) {handed : List Uuid}
    {st : JsonlState} (hstore : StoreInv handed st.idempotency) {u : Uuid}
    (hu : rt.toUuid (envelope.get "event_id") = .ok u) (hfresh : u ∉ handed) (io : CallIO) :
    ∃ head response line store chains, head.event_id = u ∧
      head.event_type = envelope.get "event_type" ∧
      head.session_id = rt.pyStr (envelope.get "session_id") ∧
      head.emitted_at = parseDt rt io.now_parse (envelope.get "emitted_at") ∧
      response.isAccepted = true ∧ LineHolds rt u line ∧ StoreInv handed store ∧
      st.handle rt io envelope =
        { st with idempotency := store, chains := chains }.record io head response line := by
  have hhead := h.readHead hu io
  obtain ⟨store, hget, hstore'⟩ := IdempotencyStore.get_eq io.now_get hstore hfresh
  obtain ⟨response, line, chains, hbuild, haccepted, hline⟩ :=
    h.build hu io { st with idempotency := store } hhead
  refine ⟨{ event_id := u
            event_type := envelope.get "event_type"
            session_id := rt.pyStr (envelope.get "session_id")
            emitted_at := parseDt rt io.now_parse (envelope.get "emitted_at") },
    response, line, store, chains, rfl, rfl, rfl, rfl, haccepted, hline, hstore', ?_⟩
  rw [JsonlState.handle, hhead]
  simp only [hget, hbuild]

/-- **One spool write.**  A write that returns leaves the record, and the answer is accepted if the
    date can be cached; one that raises leaves the record or nothing. -/
theorem Admissible.handle (h : Admissible rt (SealedPayload rt) envelope) {handed : List Uuid}
    {st : JsonlState} (hinv : KnowsOnly rt handed st) {u : Uuid}
    (hu : rt.toUuid (envelope.get "event_id") = .ok u) (hfresh : u ∉ handed) (io : CallIO) :
    ∃ response st', response.isAccepted = true ∧ KnowsOnly rt (u :: handed) st' ∧
      st.handle rt io envelope =
        (if io.append.returns then
            if Datable rt io envelope then .ok response else .error .overflowError
          else .error .osError, st') ∧
      ∀ v, HoldsEvent rt st' v ↔ HoldsEvent rt st v ∨ (io.append.lands = true ∧ v = u) := by
  obtain ⟨head, response, line, store, chains, hid, htype, hsession, hdate, haccepted,
    hline, hstore, hhandle⟩ := h.handle_eq hinv.store hu hfresh io
  obtain ⟨e, he⟩ := h.event_type
  obtain ⟨b, hb⟩ := shouldFsync_text st.fsync (JStr.ofString e.text)
  rw [← he, ← htype] at hb
  have hids : ∀ v ∈ handed, v ∈ u :: handed := fun v hv => List.mem_cons_of_mem u hv
  -- Either the write returned and the cache decides, or it raised and the line may be there all the
  -- same.
  by_cases hwrite : io.append.returns = true
  · have hlands := Append.lands_of_returns hwrite
    have haware : head.emitted_at.aware = true := by
      rw [hdate]
      exact h.parseDt_aware io.now_parse
    obtain ⟨store', hstore', hrecord⟩ := @record_written
      { st with idempotency := store, chains := chains } handed io head b hstore haware hb hwrite
      response line
    let st' : JsonlState := { st with
      idempotency := store'
      chains := chains
      files := Function.update st.files head.session_id (st.files head.session_id ++ [line]) }
    have hholds := @holdsEvent_append rt st st' head.session_id line u rfl hline
    refine ⟨response, st', haccepted, ⟨?_, fun v hv => ?_⟩, ?_, fun v => ?_⟩
    · rw [← hid]
      exact hstore'
    · rcases (hholds v).mp hv with hv | rfl
      · exact hids v (hinv.lines v hv)
      · exact List.mem_cons_self
    · rw [hhandle, hrecord, hwrite, if_pos rfl, Datable, ← hdate]
    · rw [hholds v, hlands]
      simp only [true_and]
  · rw [Bool.not_eq_true] at hwrite
    have hrecord := @record_raised { st with idempotency := store, chains := chains } io head b hb
      hwrite response line
    let st' : JsonlState := { st with
      idempotency := store
      chains := chains
      files := if io.append.lands then
          Function.update st.files head.session_id (st.files head.session_id ++ [line])
        else st.files }
    have hholds : ∀ v, HoldsEvent rt st' v ↔
        HoldsEvent rt st v ∨ (io.append.lands = true ∧ v = u) := by
      intro v
      by_cases hlands : io.append.lands = true
      · rw [@holdsEvent_append rt st st' head.session_id line u (if_pos hlands) hline v, hlands]
        simp only [true_and]
      · have hsame : st'.files = st.files := if_neg hlands
        simp only [HoldsEvent, hsame, hlands, Bool.false_eq_true, false_and, or_false]
    refine ⟨response, st', haccepted, ⟨hstore.mono (fun _ he => he) hids, fun v hv => ?_⟩, ?_,
      hholds⟩
    · rcases (hholds v).mp hv with hv | ⟨-, rfl⟩
      · exact hids v (hinv.lines v hv)
      · exact List.mem_cons_self
    · rw [hhandle, hrecord, hwrite, if_neg Bool.false_ne_true]

/-- A cache that knows only some ids knows only more. -/
theorem KnowsOnly.mono {handed handed' : List Uuid} {st : JsonlState} (h : KnowsOnly rt handed st)
    (hids : ∀ u ∈ handed, u ∈ handed') : KnowsOnly rt handed' st where
  store := h.store.mono (fun _ he => he) hids
  lines u hu := hids u (h.lines u hu)

end

/-! ### Writing a batch -/

/-- An envelope after sealing: complete, with the same fields, and a control record if it was. -/
structure Prepared (rt : Runtime) (input envelope : Dict) : Prop where
  ready : Admissible rt (SealedPayload rt) envelope
  fields : ∀ key, key ≠ "payload" → envelope.get key = input.get key
  control : isControl envelope = isControl input

/-- What stops the writing of a batch: a date that cannot be cached, behind a write that returns,
    or a control record whose write raises. -/
def stopsSpool (rt : Runtime) (io : ℕ → SpoolIO) (p : Dict × ℕ) : Bool :=
  if (io p.2).append.returns then !Datable rt (io p.2).1 p.1 else isControl p.1

/-- The exception it stops with. -/
def SpoolStop (io : ℕ → SpoolIO) (p : Dict × ℕ) (e : ClientError) : Prop :=
  if (io p.2).append.returns then e = .python .overflowError
  else ∃ message, e = .hitlPersistence message

/-- An element of the session whose write raises: the ledger counts it. -/
def countedIn (rt : Runtime) (io : ℕ → SpoolIO) (session_id : JStr) (p : Dict × ℕ) : Bool :=
  !(io p.2).append.returns && rt.pyStr (p.1.get "session_id") == session_id

/-- An element of the session whose write leaves no line: it is lost. -/
def lostIn (rt : Runtime) (io : ℕ → SpoolIO) (session_id : JStr) (p : Dict × ℕ) : Bool :=
  !(io p.2).append.lands && rt.pyStr (p.1.get "session_id") == session_id

/-- How many records the session's ledger has counted. -/
def HttpState.lossCount (s : HttpState) (session_id : JStr) : ℕ :=
  ((s.ledgers session_id).map LossLedger.count).getD 0

section

variable {rt : Runtime} {cfg : HttpConfig} {input envelope : Dict} {s : HttpState}
  {handed : List Uuid}

/-- Sealing decides nothing about the spool. -/
theorem Prepared.stopsSpool (h : Prepared rt input envelope) (io : ℕ → SpoolIO) (slot : ℕ) :
    stopsSpool rt io (envelope, slot) = stopsSpool rt io (input, slot) := by
  unfold RootSign.stopsSpool Datable
  dsimp only
  rw [h.fields "emitted_at" (by decide), h.control]

/-- One more record in the ledger. -/
theorem lossCount_record (now : UtcNow) (number : Json) (reason session_id id : JStr) :
    { s with ledgers := Function.update s.ledgers session_id (some (((s.ledgers session_id).getD
        { session_id := session_id }).record now number reason)) }.lossCount id =
      s.lossCount id + if session_id == id then 1 else 0 := by
  unfold HttpState.lossCount
  dsimp only
  by_cases hid : id = session_id
  · subst hid
    rw [Function.update_self, beq_self_eq_true, if_pos rfl]
    cases s.ledgers id <;> rfl
  · rw [Function.update_of_ne hid, beq_eq_false_iff_ne.mpr (Ne.symm hid), if_neg Bool.false_ne_true]
    rfl

/-- `_spool_one` on an event whose id is new. -/
theorem spoolOne_spec (hwarn : cfg.fail_on_loss = false)
    (h : Admissible rt (SealedPayload rt) envelope) (hinv : KnowsOnly rt handed s.spool) {u : Uuid}
    (hu : rt.toUuid (envelope.get "event_id") = .ok u) (hfresh : u ∉ handed) (io : ℕ → SpoolIO)
    (slot : ℕ) :
    ∃ result s', s.spoolOne rt cfg (io slot) envelope = (result, s') ∧
      KnowsOnly rt (u :: handed) s'.spool ∧
      (∀ v, HoldsEvent rt s'.spool v ↔
        HoldsEvent rt s.spool v ∨ ((io slot).append.lands = true ∧ v = u)) ∧
      (stopsSpool rt io (envelope, slot) = true →
        ∃ e, result = .error e ∧ SpoolStop io (envelope, slot) e) ∧
      (stopsSpool rt io (envelope, slot) = false →
        (∃ response, result = .ok response ∧ response.isAccepted = (io slot).append.returns) ∧
        ∀ id, s'.lossCount id =
          s.lossCount id + if countedIn rt io id (envelope, slot) then 1 else 0) := by
  obtain ⟨response, st', haccepted, hinv', hhandle, hholds⟩ := h.handle hinv hu hfresh (io slot).1
  unfold HttpState.spoolOne
  rw [hhandle]
  unfold stopsSpool SpoolStop countedIn
  dsimp only
  -- The write returned, so only the date is left to raise; or it raised, and the ledger takes the
  -- loss.
  cases hwrite : (io slot).append.returns with
  | true =>
    simp only [if_true]
    cases hdate : Datable rt (io slot).1 envelope with
    | true =>
      refine ⟨.ok response, { s with spool := st' }, rfl, hinv', hholds, by simp,
        fun _ => ⟨⟨response, rfl, haccepted⟩, fun id => ?_⟩⟩
      simp [HttpState.lossCount]
    | false =>
      exact ⟨.error (.python .overflowError), { s with spool := st' }, rfl, hinv', hholds,
        fun _ => ⟨_, rfl, rfl⟩, by simp⟩
  | false =>
    simp only [Bool.false_eq_true, if_false]
    obtain ⟨payload, hpayload, -⟩ := h.payload
    unfold HttpState.onSpoolWriteFailure
    rw [h.isControlRecord_eq]
    cases hcontrol : isControl envelope with
    | true =>
      exact ⟨_, { s with spool := st' }, rfl, hinv', hholds, fun _ => ⟨_, rfl, _, rfl⟩, by simp⟩
    | false =>
      simp only [payloadOf_obj hpayload, hwarn, Bool.false_eq_true, if_false]
      refine ⟨_, _, rfl, hinv', hholds, by simp, fun _ => ⟨⟨_, rfl, ?_⟩, fun id => ?_⟩⟩
      · exact IngestResponse.isAccepted_rejected _ _ _ _
      · rw [Bool.not_false, Bool.true_and]
        exact @lossCount_record { s with spool := st' } _ _ _ _ id

/-- An annotation is no record of an event. -/
theorem flushLedger_spec (io : SpoolIO) (session_id : JStr) (hinv : KnowsOnly rt handed s.spool) :
    KnowsOnly rt handed (s.flushLedger io session_id).spool ∧
      (∀ v, HoldsEvent rt (s.flushLedger io session_id).spool v ↔ HoldsEvent rt s.spool v) ∧
      (s.flushLedger io session_id).ledgers = s.ledgers := by
  have hsame : ∀ v, HoldsEvent rt (s.flushLedger io session_id).spool v ↔
      HoldsEvent rt s.spool v := by
    -- Flushing writes an annotation, which has no event id, into the file of the session.
    intro v
    unfold HttpState.flushLedger
    cases s.ledgers session_id with
    | none => exact Iff.rfl
    | some ledger =>
      dsimp only
      split_ifs
      · exact Iff.rfl
      · constructor
        · rintro ⟨other, line, hline, hholds⟩
          dsimp only at hline
          by_cases hother : other = session_id
          · subst hother
            rw [Function.update_self, List.mem_append, List.mem_singleton] at hline
            rcases hline with hline | rfl
            · exact ⟨other, line, hline, hholds⟩
            · exact absurd (Dict.has_ofFields.mp hholds.1) (by simp)
          · rw [Function.update_of_ne hother] at hline
            exact ⟨other, line, hline, hholds⟩
        · rintro ⟨other, line, hline, hholds⟩
          refine ⟨other, line, ?_, hholds⟩
          dsimp only
          by_cases hother : other = session_id
          · subst hother
            rw [Function.update_self]
            exact List.mem_append_left _ hline
          · rw [Function.update_of_ne hother]
            exact hline
  have hrest : (s.flushLedger io session_id).spool.idempotency = s.spool.idempotency ∧
      (s.flushLedger io session_id).ledgers = s.ledgers := by
    unfold HttpState.flushLedger
    cases s.ledgers session_id with
    | none => exact ⟨rfl, rfl⟩
    | some ledger =>
      dsimp only
      split_ifs
      · exact ⟨rfl, rfl⟩
      · exact ⟨rfl, rfl⟩
  refine ⟨⟨?_, fun u hu => hinv.lines u ((hsame u).mp hu)⟩, hsame, hrest.2⟩
  rw [hrest.1]
  exact hinv.store

/-- What writing `sent` to the spool did.  It stops at the first element that stops it; up to
    there the spool holds exactly what was written, and the answers and the ledgers say so. -/
structure BatchWritten (rt : Runtime) (io : ℕ → SpoolIO) (sent : List (Dict × ℕ))
    (handed : List Uuid) (s s' : HttpState)
    (result : Except ClientError (List IngestResponse)) : Prop where
  knows : KnowsOnly rt handed s'.spool
  holds : ∀ v, HoldsEvent rt s'.spool v → HoldsEvent rt s.spool v ∨
    ∃ p ∈ sent, (io p.2).append.lands = true ∧ rt.toUuid (p.1.get "event_id") = .ok v
  stopped : ∀ p, sent.find? (stopsSpool rt io) = some p → ∃ e, result = .error e ∧ SpoolStop io p e
  done : sent.find? (stopsSpool rt io) = none → ∃ responses, result = .ok responses ∧
    List.Forall₂ (fun p r => r.isAccepted = (io p.2).append.returns) sent responses ∧
    (∀ v, HoldsEvent rt s'.spool v ↔ HoldsEvent rt s.spool v ∨
      ∃ p ∈ sent, (io p.2).append.lands = true ∧ rt.toUuid (p.1.get "event_id") = .ok v) ∧
    ∀ id, s'.lossCount id = s.lossCount id + sent.countP (countedIn rt io id)

section

variable {io : ℕ → SpoolIO} {p : Dict × ℕ} {sent : List (Dict × ℕ)} {ids : List Uuid} {u : Uuid}
  {s' : HttpState}

/-- The first element stops the batch: nothing behind it is written. -/
theorem BatchWritten.of_stop (hstops : stopsSpool rt io p = true)
    (hu : rt.toUuid (p.1.get "event_id") = .ok u) (hinv : KnowsOnly rt (u :: handed) s'.spool)
    (hholds : ∀ v, HoldsEvent rt s'.spool v ↔
      HoldsEvent rt s.spool v ∨ ((io p.2).append.lands = true ∧ v = u))
    {e : ClientError} (he : SpoolStop io p e) :
    BatchWritten rt io (p :: sent) (u :: ids ++ handed) s s' (.error e) where
  knows := by
    refine hinv.mono fun v hv => ?_
    rcases List.mem_cons.mp hv with rfl | hv
    · exact List.mem_cons_self
    · exact List.mem_append_right _ hv
  holds := by
    intro v hv
    rcases (hholds v).mp hv with hv | ⟨hwrite, rfl⟩
    · exact Or.inl hv
    · exact Or.inr ⟨p, List.mem_cons_self, hwrite, hu⟩
  stopped := by
    intro q hq
    rw [List.find?_cons, hstops, Option.some.injEq] at hq
    subst hq
    exact ⟨e, rfl, he⟩
  done := by
    intro hnone
    rw [List.find?_cons, hstops] at hnone
    exact absurd hnone (by simp)

/-- The first element is behind the client, which is then `s₂`; the rest goes on from there. -/
theorem BatchWritten.cons {s₂ : HttpState} {tail : Except ClientError (List IngestResponse)}
    (h : BatchWritten rt io sent (ids ++ (u :: handed)) s₂ s' tail)
    (hgo : stopsSpool rt io p = false) (hu : rt.toUuid (p.1.get "event_id") = .ok u)
    (hholds : ∀ v, HoldsEvent rt s₂.spool v ↔
      HoldsEvent rt s.spool v ∨ ((io p.2).append.lands = true ∧ v = u))
    {response : IngestResponse} (haccepted : response.isAccepted = (io p.2).append.returns)
    (hlost : ∀ id, s₂.lossCount id =
      s.lossCount id + if countedIn rt io id p then 1 else 0) :
    BatchWritten rt io (p :: sent) (u :: ids ++ handed) s s' (tail.map (response :: ·)) where
  knows := by
    refine h.knows.mono fun v hv => ?_
    rcases List.mem_append.mp hv with hv | hv
    · exact List.mem_append_left _ (List.mem_cons_of_mem u hv)
    · rcases List.mem_cons.mp hv with rfl | hv
      · exact List.mem_append_left _ List.mem_cons_self
      · exact List.mem_append_right _ hv
  holds := by
    intro v hv
    rcases h.holds v hv with hv | ⟨q, hq, hwrite, hqv⟩
    · rcases (hholds v).mp hv with hv | ⟨hwrite, rfl⟩
      · exact Or.inl hv
      · exact Or.inr ⟨p, List.mem_cons_self, hwrite, hu⟩
    · exact Or.inr ⟨q, List.mem_cons_of_mem _ hq, hwrite, hqv⟩
  stopped := by
    intro q hq
    rw [List.find?_cons, hgo] at hq
    obtain ⟨e, rfl, he⟩ := h.stopped q hq
    exact ⟨e, rfl, he⟩
  done := by
    intro hnone
    rw [List.find?_cons, hgo] at hnone
    obtain ⟨responses, rfl, hresponses, hheld, hcount⟩ := h.done hnone
    refine ⟨response :: responses, rfl, .cons haccepted hresponses, fun v => ?_, fun id => ?_⟩
    · rw [hheld v, hholds v, List.exists_mem_cons_iff, or_assoc, hu, Except.ok.injEq,
        eq_comm (a := v)]
    · rw [hcount id, hlost id, List.countP_cons, Nat.add_assoc, Nat.add_comm (sent.countP _)]

end

/-- Closing a session may add its annotation. -/
theorem flushLedger_ite (b : Bool) (io : SpoolIO) (session_id : JStr)
    (hinv : KnowsOnly rt handed s.spool) :
    KnowsOnly rt handed (if b then s.flushLedger io session_id else s).spool ∧
      (∀ v, HoldsEvent rt (if b then s.flushLedger io session_id else s).spool v ↔
        HoldsEvent rt s.spool v) ∧
      (if b then s.flushLedger io session_id else s).ledgers = s.ledgers := by
  split_ifs
  · exact flushLedger_spec _ _ hinv
  · exact ⟨hinv, fun v => Iff.rfl, rfl⟩

/-- The elements of a batch on its way to the spool, as handed over and as sealed. -/
abbrev ForSpool (rt : Runtime) : List (Dict × ℕ) → List (Dict × ℕ) → Prop :=
  List.Forall₂ fun p q => Prepared rt p.1 q.1 ∧ p.2 = q.2

/-- **Writing a batch.** -/
theorem writeToSpool_spec (hwarn : cfg.fail_on_loss = false) (io : ℕ → SpoolIO)
    {sent batch : List (Dict × ℕ)} {ids : List Uuid} (hbatch : ForSpool rt sent batch)
    (hnamed : sent.map (fun p => rt.toUuid (p.1.get "event_id")) = ids.map .ok)
    (hnodup : ids.Nodup) (hfresh : ∀ u ∈ ids, u ∉ handed) (hinv : KnowsOnly rt handed s.spool) :
    ∃ result s', s.writeToSpool rt cfg io batch = (result, s') ∧
      BatchWritten rt io sent (ids ++ handed) s s' result := by
  -- The induction is over the batch as it was prepared; the ids handed over so far grow with it.
  induction hbatch generalizing s handed ids with
  | nil =>
    obtain rfl := List.map_eq_nil_iff.mp hnamed.symm
    exact ⟨.ok [], s, rfl, hinv, fun v hv => Or.inl hv, fun p hp => absurd hp (by simp),
      fun _ => ⟨[], rfl, .nil, fun v => by simp, fun id => rfl⟩⟩
  | @cons p q sent batch hpq hrest ih =>
    obtain ⟨input, slot⟩ := p
    obtain ⟨envelope, slot'⟩ := q
    obtain ⟨hprepared, hslot⟩ := hpq
    obtain rfl : slot = slot' := hslot
    obtain ⟨u, ids, rfl⟩ : ∃ u us, ids = u :: us := by
      cases ids with
      | nil => exact absurd hnamed (by simp)
      | cons u us => exact ⟨u, us, rfl⟩
    rw [List.map_cons, List.map_cons, List.cons.injEq] at hnamed
    obtain ⟨hinput, hnamed⟩ := hnamed
    obtain ⟨hnew, hnodup⟩ := List.nodup_cons.mp hnodup
    have hu : rt.toUuid (envelope.get "event_id") = .ok u := by
      rw [hprepared.fields "event_id" (by decide)]
      exact hinput
    -- Preparing an envelope keeps the fields that the ledger reads.
    have hcounted :
      ∀ id, countedIn rt io id (envelope, slot) = countedIn rt io id (input, slot) := by
      intro id
      unfold countedIn
      dsimp only
      rw [hprepared.fields "session_id" (by decide)]
    obtain ⟨result, s₁, hone, hinv₁, hholds₁, hstop, hgo⟩ := spoolOne_spec hwarn hprepared.ready
      hinv hu (hfresh u List.mem_cons_self) io slot
    rw [hprepared.stopsSpool io slot] at hstop hgo
    cases hstops : stopsSpool rt io (input, slot) with
    | true =>
      obtain ⟨e, rfl, he⟩ := hstop hstops
      exact ⟨.error e, s₁, by simp only [HttpState.writeToSpool, hone],
        .of_stop hstops hinput hinv₁ hholds₁ he⟩
    | false =>
      obtain ⟨⟨response, rfl, haccepted⟩, hlost⟩ := hgo hstops
      obtain ⟨hinv₂, hholds₂, hledgers⟩ := flushLedger_ite (s := s₁)
        ((envelope.get "event_type").pyEq (.str "SESSION_CLOSE")) (io slot)
        (rt.pyStr (envelope.get "session_id")) hinv₁
      generalize hs₂ : (if (envelope.get "event_type").pyEq (.str "SESSION_CLOSE") then
        s₁.flushLedger (io slot) (rt.pyStr (envelope.get "session_id")) else s₁) = s₂ at *
      have hfresh' : ∀ v ∈ ids, v ∉ u :: handed := by
        intro v hv hmem
        rcases List.mem_cons.mp hmem with rfl | hmem
        · exact hnew hv
        · exact hfresh v (List.mem_cons_of_mem u hv) hmem
      obtain ⟨tail, s₃, htail, hrest⟩ := ih hnamed hnodup hfresh' hinv₂
      have hlost₂ : ∀ id, s₂.lossCount id =
          s.lossCount id + if countedIn rt io id (input, slot) then 1 else 0 := by
        intro id
        rw [← hcounted id, ← hlost id]
        unfold HttpState.lossCount
        rw [hledgers]
      refine ⟨tail.map (response :: ·), s₃, ?_,
        hrest.cons hstops hinput (fun v => (hholds₂ v).trans (hholds₁ v)) haccepted hlost₂⟩
      simp only [HttpState.writeToSpool, hone, hs₂, htail]
      cases tail <;> rfl

end

/-! ### Sealing a batch -/

section

variable {rt : Runtime} {input : Dict} {s : HttpState}

/-- What sealing leaves alone. -/
structure SameSpool (s s' : HttpState) : Prop where
  idempotency : s'.spool.idempotency = s.spool.idempotency
  files : s'.spool.files = s.spool.files
  spooling : s'.spooling = s.spooling
  ledgers : s'.ledgers = s.ledgers

/-- A minted seal replaces the missing fields of the payload, and nothing else. -/
theorem prepared_minted (h : Admissible rt (SealableOrSealed rt) input) {payload : Dict}
    (hpayload : input.get "payload" = .obj payload) (hunsealed : UnsealedPayload payload)
    (sealed : SealedAction) :
    Prepared rt input
      (input.set "payload" (.obj (Dict.update payload sealed.asPayloadFields))) := by
  -- `payload` is the one key that is replaced
  have hget : ∀ key, key ≠ "payload" →
      (input.set "payload" (.obj (Dict.update payload sealed.asPayloadFields))).get key =
        input.get key := by
    intro key hkey
    rw [Dict.get_set, if_neg hkey]
  have hnew : (input.set "payload" (.obj (Dict.update payload sealed.asPayloadFields))).get
      "payload" = .obj (Dict.update payload sealed.asPayloadFields) := by
    rw [Dict.get_set, if_pos rfl]
  refine ⟨⟨?_, Dict.has_set h.has_event_id _ _, ?_, Dict.has_set h.session_id _ _, ?_,
    ⟨_, hnew, fun _ => .minted hunsealed sealed⟩⟩, hget, ?_⟩
  · rw [hget "event_type" (by decide)]
    exact h.event_type
  · rw [hget "event_id" (by decide)]
    exact h.event_id
  · rw [hget "emitted_at" (by decide)]
    exact h.emitted_at
  · -- the status is no field of the seal, so the record is control as it was
    let r : SealedRecord := { event_id := .null, payload := payload, sealed := sealed }
    have hstatus : (Dict.update payload sealed.asPayloadFields).get "authorization_status" =
        Dict.get payload "authorization_status" := by
      show r.sealedPayload.get "authorization_status" = _
      rw [r.get_sealedPayload]
      simp [r]
    unfold isControl isControlRecord
    rw [hget "event_type" (by decide), payloadOf_obj hnew, payloadOf_obj hpayload]
    simp only [Except.map, hstatus]

/-- `_seal` on one envelope. -/
theorem sealOne_prepared (h : Admissible rt (SealableOrSealed rt) input) (fresh : Uuid) :
    ∃ envelope s', s.sealOne rt fresh input = (.ok envelope, s') ∧ SameSpool s s' ∧
      Prepared rt input envelope := by
  -- an envelope that is returned as it came is prepared already
  have hsame : (∀ payload, input.get "payload" = .obj payload →
      input.get "event_type" = .str "ACTION_RECORD" → SealedPayload rt payload) →
      Prepared rt input input := by
    intro hkind
    obtain ⟨payload, hpayload, -⟩ := h.payload
    exact ⟨⟨h.event_type, h.has_event_id, h.event_id, h.session_id, h.emitted_at,
      ⟨payload, hpayload, hkind payload hpayload⟩⟩, fun _ _ => rfl, rfl⟩
  obtain ⟨payload, hpayload, hkind⟩ := h.payload
  unfold HttpState.sealOne
  by_cases haction : (input.get "event_type").pyEq (.str "ACTION_RECORD") = true
  case neg =>
    simp only [haction, Bool.not_false, if_true]
    refine ⟨input, s, rfl, ⟨rfl, rfl, rfl, rfl⟩, hsame fun _ _ htype => ?_⟩
    exact absurd (Json.pyEq_str.mpr htype) haction
  simp only [haction, Bool.not_true, Bool.false_eq_true, if_false, hpayload]
  have htype := Json.pyEq_str.mp haction
  rcases hkind htype with hunsealed | hsealed
  · -- the seal is minted, and its four fields replace the missing ones
    have hsealed : isSealed payload = false := by
      simp [isSealed, hunsealed.no_self_hash, Json.isNone]
    have hmint := (s.spool.chains (rt.pyStr (input.get "session_id"))).seal_mint rt fresh
      (input.get "session_id") hunsealed
    simp only [hsealed, Bool.false_eq_true, if_false, ChainRegistry.sealPayload, hmint]
    refine ⟨_, _, rfl, ⟨rfl, rfl, rfl, rfl⟩, ?_⟩
    exact prepared_minted h hpayload hunsealed _
  · simp only [hsealed.isSealed, if_true]
    refine ⟨input, s, rfl, ⟨rfl, rfl, rfl, rfl⟩, hsame fun payload' hpayload' _ => ?_⟩
    rw [hpayload, Json.obj.injEq] at hpayload'
    exact hpayload' ▸ hsealed

/-- **Sealing a batch** raises nothing, and leaves the cache and the files alone. -/
theorem sealAll_prepared {envelopes : List (Dict × Uuid)}
    (h : ∀ p ∈ envelopes, Admissible rt (SealableOrSealed rt) p.1) :
    ∃ batch s', s.sealAll rt envelopes = (.ok batch, s') ∧ SameSpool s s' ∧
      List.Forall₂ (fun p e => Prepared rt p.1 e) envelopes batch := by
  induction envelopes generalizing s with
  | nil => exact ⟨[], s, rfl, ⟨rfl, rfl, rfl, rfl⟩, .nil⟩
  | cons p rest ih =>
    obtain ⟨input, fresh⟩ := p
    obtain ⟨envelope, s₁, hone, hsame₁, hprepared⟩ :=
      sealOne_prepared (s := s) (h (input, fresh) List.mem_cons_self) fresh
    obtain ⟨batch, s₂, hrest, hsame₂, hall⟩ :=
      ih (s := s₁) fun p hp => h p (List.mem_cons_of_mem _ hp)
    refine ⟨envelope :: batch, s₂, by simp only [HttpState.sealAll, hone, hrest], ?_,
      .cons hprepared hall⟩
    exact ⟨hsame₂.idempotency.trans hsame₁.idempotency, hsame₂.files.trans hsame₁.files,
      hsame₂.spooling.trans hsame₁.spooling, hsame₂.ledgers.trans hsame₁.ledgers⟩

end

/-! ### What a call promises -/

namespace CloudCall

/-- The envelopes handed over, in their slots. -/
def slots (c : CloudCall) : List (Dict × ℕ) := (c.envelopes.map Prod.fst).zipIdx

/-- What goes to the spool: everything once the client spools, else what every reply asks to send
    again. -/
def handedToSpool (rt : Runtime) (cfg : HttpConfig) (c : CloudCall) (s : HttpState) :
    List (Dict × ℕ) :=
  let left := HttpBatch.pendingAfter rt cfg (c.envelopes.map Prod.fst) c.replies cfg.max_retries
  c.slots.filter fun p => s.spooling || left.contains p.2

/-- The element that stops the writing, if any. -/
def stop (rt : Runtime) (cfg : HttpConfig) (c : CloudCall) (s : HttpState) : Option (Dict × ℕ) :=
  (c.handedToSpool rt cfg s).find? (stopsSpool rt c.io)

end CloudCall

/-- The spool holds the record of the envelope's event. -/
def Spooled (rt : Runtime) (st : JsonlState) (envelope : Dict) : Prop :=
  ∃ u, rt.toUuid (envelope.get "event_id") = .ok u ∧ HoldsEvent rt st u

/-- **What a call promises.**  A bounded number of requests, each element sent again only if asked
    to; unless a control record could not be persisted, a result for each element, accepted exactly
    if the server's last answer was or the spool holds the record, and a ledger entry for each
    record lost; nothing refused for good in the spool; and a control record that cannot be written
    is raised for. -/
structure TruthfulFates (rt : Runtime) (cfg : HttpConfig) (s : HttpState) (c : CloudCall) :
    Prop where
  bounded : (s.handleAlone rt cfg c).rounds.length ≤ cfg.max_retries
  resent : ResentIfAsked (s.handleAlone rt cfg c).rounds
  aligned : (∃ message, (s.handleAlone rt cfg c).result = .error (.hitlPersistence message)) ∨
    ∃ responses, (s.handleAlone rt cfg c).result = .ok responses ∧
      responses.length = c.envelopes.length ∧
      (∀ p ∈ c.slots, ∀ response, responses[p.2]? = some response →
        (response.isAccepted = true ↔
          (∃ answer, lastAnswer (s.handleAlone rt cfg c).rounds p.2 = some answer ∧
            answer.isAccepted = true) ∨
          Spooled rt (s.handleAlone rt cfg c).state.spool p.1)) ∧
      ∀ session_id, (s.handleAlone rt cfg c).state.lossCount session_id =
        s.lossCount session_id + (c.handedToSpool rt cfg s).countP (lostIn rt c.io session_id)
  refused : ∀ p ∈ c.slots, ∀ answer,
    lastAnswer (s.handleAlone rt cfg c).rounds p.2 = some answer → needsRetry answer = false →
      ¬ Spooled rt (s.handleAlone rt cfg c).state.spool p.1
  control : ∀ p ∈ c.handedToSpool rt cfg s, isControl p.1 = true →
    (c.io p.2).append.returns = false →
    ∃ message, (s.handleAlone rt cfg c).result = .error (.hitlPersistence message)

/-- The call hands over admissible envelopes under new and different ids. -/
structure Fresh (rt : Runtime) (handed : List Uuid) (c : CloudCall) (ids : List Uuid) : Prop where
  admissible : ∀ p ∈ c.envelopes, Admissible rt (SealableOrSealed rt) p.1
  named : c.slots.map (fun p => rt.toUuid (p.1.get "event_id")) = ids.map .ok
  nodup : ids.Nodup
  new : ∀ u ∈ ids, u ∉ handed

/-- What becomes of each element, in terms of what was handed over. -/
structure Fates (rt : Runtime) (cfg : HttpConfig) (s : HttpState) (c : CloudCall)
    (known : List Uuid) (o : CloudOutcome) : Prop where
  bounded : o.rounds.length ≤ cfg.max_retries
  resent : ResentIfAsked o.rounds
  asked : ∀ p ∈ c.slots, ∀ answer, lastAnswer o.rounds p.2 = some answer →
    (needsRetry answer = true ↔ p ∈ c.handedToSpool rt cfg s)
  knows : KnowsOnly rt known o.state.spool
  holds : ∀ v, HoldsEvent rt o.state.spool v → HoldsEvent rt s.spool v ∨
    ∃ p ∈ c.handedToSpool rt cfg s, (c.io p.2).append.lands = true ∧
      rt.toUuid (p.1.get "event_id") = .ok v
  stopped : ∀ p, c.stop rt cfg s = some p → ∃ e, o.result = .error e ∧ SpoolStop c.io p e
  answered : c.stop rt cfg s = none → ∃ responses, o.result = .ok responses ∧
    responses.length = c.envelopes.length ∧
    (∀ p ∈ c.handedToSpool rt cfg s, ∃ response, responses[p.2]? = some response ∧
      response.isAccepted = (c.io p.2).append.returns) ∧
    (∀ p ∈ c.slots, p ∉ c.handedToSpool rt cfg s → responses[p.2]? = lastAnswer o.rounds p.2) ∧
    (∀ v, HoldsEvent rt o.state.spool v ↔ HoldsEvent rt s.spool v ∨
      ∃ p ∈ c.handedToSpool rt cfg s, (c.io p.2).append.lands = true ∧
        rt.toUuid (p.1.get "event_id") = .ok v) ∧
    ∀ id, o.state.lossCount id =
      s.lossCount id + (c.handedToSpool rt cfg s).countP (countedIn rt c.io id)

section

variable {rt : Runtime} {cfg : HttpConfig} {s : HttpState} {c : CloudCall} {handed ids : List Uuid}
  {batch : List Dict}

/-- The slots of the batch that a test on slots picks. -/
theorem select_zip (b : HttpBatch) (P : ℕ → Bool)
    (hunsent : b.unsent = (List.range b.envelopes.length).filter P) :
    (b.select b.unsent).zip b.unsent = b.envelopes.zipIdx.filter fun p => P p.2 := by
  -- the slots are positions of the batch, so selecting and pairing is looking each up
  have hselect : ∀ slots : List ℕ, (∀ i ∈ slots, i < b.envelopes.length) →
      (b.select slots).zip slots = slots.filterMap fun i => b.envelopes[i]?.map (·, i) := by
    intro slots hslots
    induction slots with
    | nil => rfl
    | cons i rest ih =>
      have hi := List.getElem?_eq_getElem (hslots i List.mem_cons_self)
      have hrest := ih fun j hj => hslots j (List.mem_cons_of_mem i hj)
      unfold HttpBatch.select at hrest ⊢
      rw [List.filterMap_cons_some hi, List.zip_cons_cons, hrest, List.filterMap_cons_some]
      rw [hi]
      rfl
  have hall : b.envelopes.zipIdx =
      (List.range b.envelopes.length).filterMap fun i => b.envelopes[i]?.map (·, i) := by
    rw [← hselect _ fun i hi => List.mem_range.mp hi]
    unfold HttpBatch.select
    rw [HttpBatch.filterMap_range, List.take_length, List.zipIdx_eq_zip_range',
      List.range_eq_range']
  rw [hunsent, hselect _ fun i hi => List.mem_range.mp (List.mem_of_mem_filter hi), hall,
    List.filter_filterMap, List.filterMap_filter]
  refine List.filterMap_congr fun i _ => ?_
  cases hi : b.envelopes[i]? with
  | none => simp
  | some e => by_cases hP : P i = true <;> simp [Option.filter, hP]

/-- The elements that a test on slots picks, sealed. -/
theorem forSpool_filter {inputs batch : List Dict} (h : List.Forall₂ (Prepared rt) inputs batch)
    (P : ℕ → Bool) :
    ForSpool rt (inputs.zipIdx.filter fun p => P p.2) (batch.zipIdx.filter fun p => P p.2) := by
  have hzip : ∀ k, ForSpool rt (inputs.zipIdx k) (batch.zipIdx k) := by
    induction h with
    | nil => exact fun k => .nil
    | cons hp _ ih => exact fun k => .cons ⟨hp, rfl⟩ (ih (k + 1))
  refine List.rel_filter ?_ (hzip 0)
  intro p q hpq
  show P p.2 = true ↔ P q.2 = true
  rw [hpq.2]

/-- The answers to different slots are found under them. -/
theorem lookup_zip {R : Dict × ℕ → IngestResponse → Prop} {sent : List (Dict × ℕ)}
    {responses : List IngestResponse} (h : List.Forall₂ R sent responses)
    (hnodup : (sent.map Prod.snd).Nodup) {p : Dict × ℕ} (hp : p ∈ sent) :
    ∃ response, ((sent.map Prod.snd).zip responses).lookup p.2 = some response ∧ R p response := by
  induction h with
  | nil => exact absurd hp List.not_mem_nil
  | @cons q r sent responses hqr _ ih =>
    rw [List.map_cons, List.nodup_cons] at hnodup
    rw [List.map_cons, List.zip_cons_cons, List.lookup_cons]
    rcases List.mem_cons.mp hp with rfl | hp
    · rw [beq_self_eq_true]
      exact ⟨r, rfl, hqr⟩
    · have hne : p.2 ≠ q.2 := fun heq => hnodup.1 (List.mem_map.mpr ⟨p, hp, heq⟩)
      rw [beq_eq_false_iff_ne.mpr hne]
      exact ih hnodup.2 hp

/-- The slots of the elements handed to the spool. -/
theorem CloudCall.map_snd_handedToSpool (c : CloudCall) (s : HttpState) :
    (c.handedToSpool rt cfg s).map Prod.snd = (List.range c.envelopes.length).filter fun i =>
      s.spooling || (HttpBatch.pendingAfter rt cfg (c.envelopes.map Prod.fst) c.replies
        cfg.max_retries).contains i := by
  have hlength : (c.envelopes.map Prod.fst).length = c.envelopes.length := List.length_map _
  unfold handedToSpool slots
  dsimp only
  rw [← hlength, List.range_eq_range', ← List.zipIdx_map_snd 0 (c.envelopes.map Prod.fst),
    List.filter_map]
  rfl

/-- What writing to the spool comes to, in terms of what was handed over. -/
theorem Fresh.writeToSpool (h : Fresh rt handed c ids) (hwarn : cfg.fail_on_loss = false)
    {s' : HttpState} (hinv : KnowsOnly rt handed s'.spool)
    (hprepared : List.Forall₂ (Prepared rt) (c.envelopes.map Prod.fst) batch) (P : ℕ → Bool) :
    ∃ result s₂, s'.writeToSpool rt cfg c.io (batch.zipIdx.filter fun p => P p.2) = (result, s₂) ∧
      BatchWritten rt c.io (c.slots.filter fun p => P p.2) (ids ++ handed) s' s₂ result := by
  -- the ids of what is handed to the spool are some of the ids of the call
  obtain ⟨used, hused, hnamed⟩ : ∃ used, List.Sublist used ids ∧
      (c.slots.filter fun p => P p.2).map (fun p => rt.toUuid (p.1.get "event_id")) =
        used.map .ok := by
    refine List.sublist_map_iff.mp ?_
    rw [← h.named]
    exact List.filter_sublist.map _
  obtain ⟨result, s₂, hwritten, hbatch⟩ := writeToSpool_spec hwarn c.io
    (forSpool_filter hprepared P) hnamed (h.nodup.sublist hused)
    (fun u hu => h.new u (hused.subset hu)) hinv
  refine ⟨result, s₂, hwritten, { hbatch with knows := hbatch.knows.mono fun u hu => ?_ }⟩
  rcases List.mem_append.mp hu with hu | hu
  · exact List.mem_append_left _ (hused.subset hu)
  · exact List.mem_append_right _ hu

/-- What is left after the last reply goes to the spool; nothing is written if nothing is left. -/
theorem settle_eq (hspool : cfg.enable_spool = true) (b : HttpBatch) (io : ℕ → SpoolIO) :
    ∃ s₂ : HttpState, s₂.spool = s.spool ∧ s₂.ledgers = s.ledgers ∧ s.settle rt cfg b io =
      ((s₂.writeToSpool rt cfg io ((b.select b.unsent).zip b.unsent)).1.map fun spooled =>
          HttpBatch.store b.results (b.unsent.zip spooled),
        (s₂.writeToSpool rt cfg io ((b.select b.unsent).zip b.unsent)).2) := by
  unfold HttpState.settle
  rw [hspool]
  by_cases hnone : b.unsent = []
  · refine ⟨s, rfl, rfl, ?_⟩
    rw [hnone]
    rfl
  · rw [if_neg (by simp [hnone])]
    refine ⟨s.enterSpoolMode (b.unsent.head?.bind fun i => b.results[i]?), ?_, ?_, rfl⟩
    all_goals
      unfold HttpState.enterSpoolMode
      split_ifs <;> rfl

/-- A slot has one element. -/
theorem CloudCall.mem_slots {p : Dict × ℕ} :
    p ∈ c.slots ↔ (c.envelopes.map Prod.fst)[p.2]? = some p.1 := List.mem_zipIdx_iff_getElem?

/-- Each slot has one element. -/
theorem CloudCall.slot_unique {p q : Dict × ℕ} (hp : p ∈ c.slots) (hq : q ∈ c.slots)
    (h : p.2 = q.2) : p = q := by
  rw [mem_slots] at hp hq
  rw [h, hq, Option.some.injEq] at hp
  exact Prod.ext hp.symm h

/-- What goes to the spool is of the batch. -/
theorem CloudCall.mem_slots_of_handed {p : Dict × ℕ} (hp : p ∈ c.handedToSpool rt cfg s) :
    p ∈ c.slots := List.mem_of_mem_filter hp

/-- A slot is a position of the batch. -/
theorem CloudCall.slot_lt {p : Dict × ℕ} (hp : p ∈ c.slots) : p.2 < c.envelopes.length := by
  rw [mem_slots] at hp
  obtain ⟨hlt, -⟩ := List.getElem?_eq_some_iff.mp hp
  rwa [List.length_map] at hlt

/-- An equal spool knows the same ids. -/
theorem SameSpool.knowsOnly {s₁ : HttpState} (h : SameSpool s s₁)
    (hinv : KnowsOnly rt handed s.spool) : KnowsOnly rt handed s₁.spool := by
  refine ⟨h.idempotency ▸ hinv.store, fun u hu => hinv.lines u ?_⟩
  unfold HoldsEvent at hu ⊢
  rwa [h.files] at hu

/-- An equal spool holds the same events. -/
theorem SameSpool.holdsEvent {s₁ : HttpState} (h : SameSpool s s₁) (v : Uuid) :
    HoldsEvent rt s₁.spool v ↔ HoldsEvent rt s.spool v := by
  unfold HoldsEvent
  rw [h.files]

/-- An equal spool has counted the same losses. -/
theorem SameSpool.lossCount {s₁ : HttpState} (h : SameSpool s s₁) (id : JStr) :
    s₁.lossCount id = s.lossCount id := by
  unfold HttpState.lossCount
  rw [h.ledgers]

/-- A call of a client that spools: everything is written, nothing is sent. -/
theorem spooling_fates {s₁ : HttpState} (hspooling : s.spooling = true)
    (hwarn : cfg.fail_on_loss = false) (hinv : KnowsOnly rt handed s.spool)
    (h : Fresh rt handed c ids) (hsame : SameSpool s s₁)
    (hprepared : List.Forall₂ (Prepared rt) (c.envelopes.map Prod.fst) batch) :
    Fates rt cfg s c (ids ++ handed)
      { result := (s₁.writeToSpool rt cfg c.io batch.zipIdx).1
        state := (s₁.writeToSpool rt cfg c.io batch.zipIdx).2
        rounds := []
        spooled := List.range batch.length } := by
  have hall : batch.zipIdx.filter (fun _ => true) = batch.zipIdx :=
    List.filter_eq_self.mpr fun p _ => rfl
  have hslots : c.handedToSpool rt cfg s = c.slots := by
    unfold CloudCall.handedToSpool
    rw [hspooling]
    exact List.filter_eq_self.mpr fun p _ => rfl
  obtain ⟨result, s₂, hwritten, hbatch⟩ :=
    h.writeToSpool hwarn (hsame.knowsOnly hinv) hprepared fun _ => true
  rw [hall] at hwritten
  rw [show (c.slots.filter fun _ => true) = c.handedToSpool rt cfg s by
    rw [hslots, List.filter_eq_self.mpr fun p _ => rfl]] at hbatch
  rw [hwritten]
  refine ⟨Nat.zero_le _, .nil, ?_, hbatch.knows, fun v hv => ?_, hbatch.stopped, fun hnone => ?_⟩
  · exact fun p _ answer hanswer => absurd hanswer (by simp [lastAnswer])
  · rw [← hsame.holdsEvent v]
    exact hbatch.holds v hv
  obtain ⟨responses, rfl, hanswers, hheld, hlost⟩ := hbatch.done hnone
  have hcounted : responses.length = c.envelopes.length := by
    rw [← hanswers.length_eq, hslots]
    simp [CloudCall.slots]
  -- every slot was handed over, so the answers are the spool's, position by position
  refine ⟨responses, rfl, hcounted, fun p hp => ?_, fun p hp hnot => ?_, fun v => ?_,
    fun id => ?_⟩
  · rw [hslots] at hp hanswers
    have hlt := CloudCall.slot_lt hp
    have hget : c.slots[p.2]? = some p := by
      unfold CloudCall.slots
      rw [List.getElem?_zipIdx, CloudCall.mem_slots.mp hp]
      simp
    obtain ⟨hlt', hget⟩ := List.getElem?_eq_some_iff.mp hget
    have hone := (List.forall₂_iff_get.mp hanswers).2 p.2 hlt' (hcounted.symm ▸ hlt)
    rw [List.get_eq_getElem, List.get_eq_getElem, hget] at hone
    exact ⟨_, List.getElem?_eq_getElem _, hone⟩
  · exact absurd (hslots.symm ▸ hp) hnot
  · rw [hheld v, hsame.holdsEvent v]
  · rw [hlost id, hsame.lossCount id]

/-- A call that sends: what every reply asks to send again is written. -/
theorem sending_fates {s₁ : HttpState} (hspooling : s.spooling = false)
    (hspool : cfg.enable_spool = true) (hwarn : cfg.fail_on_loss = false)
    (hinv : KnowsOnly rt handed s.spool) (h : Fresh rt handed c ids) (hsame : SameSpool s s₁)
    (hprepared : List.Forall₂ (Prepared rt) (c.envelopes.map Prod.fst) batch) :
    Fates rt cfg s c (ids ++ handed)
      { result := (s₁.settle rt cfg
          ((HttpBatch.start batch).exchange rt cfg c.replies cfg.max_retries).1 c.io).1
        state := (s₁.settle rt cfg
          ((HttpBatch.start batch).exchange rt cfg c.replies cfg.max_retries).1 c.io).2
        rounds := ((HttpBatch.start batch).exchange rt cfg c.replies cfg.max_retries).2
        spooled := if cfg.enable_spool then
            ((HttpBatch.start batch).exchange rt cfg c.replies cfg.max_retries).1.unsent
          else [] } := by
  have hstart := HttpBatch.start_sound batch
  have hlength : batch.length = (c.envelopes.map Prod.fst).length := hprepared.length_eq.symm
  have hcounted : batch.length = c.envelopes.length := hlength.trans (List.length_map _)
  obtain ⟨henvelopes, hbounded, -, hresent, -⟩ :=
    HttpBatch.exchange_spec rt cfg c.replies cfg.max_retries hstart
  have hunsent := @HttpBatch.unsent_exchange rt cfg c.replies batch
  rw [HttpBatch.pendingAfter_congr hlength, hcounted] at hunsent
  have hlast := fun i (hi : i < batch.length) =>
    HttpBatch.results_exchange rt cfg c.replies batch cfg.one_le_max_retries hi
  have hsound := (HttpBatch.exchange_pending rt cfg c.replies cfg.max_retries hstart
    (HttpBatch.start_pendingExact batch) rfl (Nat.zero_add _) cfg.one_le_max_retries).1
  generalize (HttpBatch.start batch).exchange rt cfg c.replies cfg.max_retries = sent at *
  obtain ⟨b, rounds⟩ := sent
  dsimp only at *
  let left := HttpBatch.pendingAfter rt cfg (c.envelopes.map Prod.fst) c.replies cfg.max_retries
  have hhanded : c.handedToSpool rt cfg s = c.slots.filter fun p => left.contains p.2 := by
    unfold CloudCall.handedToSpool
    rw [hspooling]
    rfl
  have hsnd : (c.handedToSpool rt cfg s).map Prod.snd = b.unsent := by
    rw [hunsent, CloudCall.map_snd_handedToSpool, hspooling]
    rfl
  have henvelopes : b.envelopes = batch := henvelopes
  have hzip : (b.select b.unsent).zip b.unsent = batch.zipIdx.filter fun p =>
    left.contains p.2 := by
    rw [select_zip b (fun i => left.contains i) (by rw [hunsent, henvelopes, hcounted]), henvelopes]
  have hnodup : ((c.handedToSpool rt cfg s).map Prod.snd).Nodup := by
    rw [hsnd, hunsent]
    exact List.nodup_range.filter _
  have hresults : b.results.length = c.envelopes.length := by
    rw [hsound.length, henvelopes, hcounted]
  -- an element is handed to the spool exactly if its slot is
  have hslot : ∀ p ∈ c.slots, p ∈ c.handedToSpool rt cfg s ↔ p.2 ∈ b.unsent := by
    intro p hp
    rw [← hsnd, List.mem_map]
    constructor
    · exact fun hmem => ⟨p, hmem, rfl⟩
    · rintro ⟨q, hq, hqp⟩
      rwa [← CloudCall.slot_unique (CloudCall.mem_slots_of_handed hq) hp hqp]
  obtain ⟨s₂, hspool₂, hledgers₂, hsettle⟩ := @settle_eq rt cfg s₁ hspool b c.io
  have hsame₂ : SameSpool s { s₂ with spooling := s.spooling } :=
    ⟨hspool₂ ▸ hsame.idempotency, hspool₂ ▸ hsame.files, rfl, hledgers₂.trans hsame.ledgers⟩
  obtain ⟨result, s₃, hwritten, hbatch⟩ :=
    @Fresh.writeToSpool rt cfg c handed ids batch h hwarn s₂ (hsame₂.knowsOnly hinv) hprepared
      fun i => left.contains i
  rw [hsettle, hzip, hwritten]
  rw [← hhanded] at hbatch
  refine ⟨hbounded, hresent, fun p hp answer hanswer => ?_, hbatch.knows, fun v hv => ?_,
    fun p hp => ?_, fun hnone => ?_⟩
  · have hlt := CloudCall.slot_lt hp
    have hresult : b.results[p.2]? = some answer := (hlast p.2 (hcounted ▸ hlt)).trans hanswer
    rw [hslot p hp]
    show _ ↔ p.2 ∈ (List.range b.results.length).filter _
    rw [List.mem_filter, hresult, List.mem_range, hresults]
    exact ⟨fun hretry => ⟨hlt, hretry⟩, fun hretry => hretry.2⟩
  · rw [← hsame₂.holdsEvent v]
    exact hbatch.holds v hv
  · obtain ⟨e, rfl, he⟩ := hbatch.stopped p hp
    exact ⟨e, rfl, he⟩
  obtain ⟨spooled, rfl, hanswers, hheld, hlost⟩ := hbatch.done hnone
  have hpairs : (b.unsent.zip spooled).map Prod.fst = b.unsent := by
    rw [List.map_fst_zip]
    rw [← hanswers.length_eq, ← hsnd, List.length_map]
  have hstored := @HttpBatch.getElem?_store (b.unsent.zip spooled)
    (by rw [hpairs, ← hsnd]; exact hnodup) b.results
  refine ⟨HttpBatch.store b.results (b.unsent.zip spooled), rfl, ?_, fun p hp => ?_,
    fun p hp hnot => ?_, fun v => ?_, fun id => ?_⟩
  · rw [HttpBatch.length_store, hresults]
  · obtain ⟨response, hlookup, haccepted⟩ := lookup_zip hanswers hnodup hp
    have hlt := CloudCall.slot_lt (CloudCall.mem_slots_of_handed hp)
    rw [hsnd] at hlookup
    refine ⟨response, ?_, haccepted⟩
    rw [hstored, hlookup, List.getElem?_eq_getElem (hresults.symm ▸ hlt)]
    rfl
  · rw [hslot p hp] at hnot
    have hlookup : (b.unsent.zip spooled).lookup p.2 = none := by
      rw [List.lookup_eq_none_iff]
      intro q hq
      refine bne_iff_ne.mpr fun heq => hnot ?_
      rw [heq]
      exact (List.of_mem_zip hq).1
    rw [hstored, hlookup, hlast p.2 (hcounted ▸ CloudCall.slot_lt hp)]
    exact Option.map_id'
  · rw [hheld v]
    exact or_congr_left (hsame₂.holdsEvent v)
  · rw [hlost id]
    exact congrArg (· + _) (hsame₂.lossCount id)

/-- **One call.**  What becomes of each element is told by what was handed over. -/
theorem handleAlone_fates (hspool : cfg.enable_spool = true) (hwarn : cfg.fail_on_loss = false)
    (hinv : KnowsOnly rt handed s.spool) (h : Fresh rt handed c ids) :
    Fates rt cfg s c (ids ++ handed) (s.handleAlone rt cfg c) := by
  unfold HttpState.handleAlone
  by_cases hempty : c.envelopes.isEmpty = true
  · -- an empty batch
    rw [if_pos hempty]
    have hnil := List.isEmpty_iff.mp hempty
    have hslots : c.slots = [] := by
      unfold CloudCall.slots
      rw [hnil]
      rfl
    have hhanded : c.handedToSpool rt cfg s = [] := by
      unfold CloudCall.handedToSpool
      rw [hslots]
      rfl
    refine ⟨Nat.zero_le _, .nil, ?_, hinv.mono fun u hu => List.mem_append_right _ hu,
      fun v hv => Or.inl hv, ?_, fun _ => ⟨[], rfl, ?_⟩⟩
    · exact fun p _ answer hanswer => absurd hanswer (by simp [lastAnswer])
    · intro p hp
      unfold CloudCall.stop at hp
      rw [hhanded] at hp
      exact absurd hp (by simp)
    · rw [hhanded, hslots, hnil]
      simp
  rw [if_neg hempty]
  obtain ⟨batch, s₁, hsealed, hsame, hall⟩ := sealAll_prepared (s := s) h.admissible
  have hprepared : List.Forall₂ (Prepared rt) (c.envelopes.map Prod.fst) batch :=
    List.forall₂_map_left_iff.mpr hall
  rw [hsealed]
  dsimp only
  rw [hsame.spooling]
  cases hspooling : s.spooling with
  | true =>
    rw [if_pos rfl]
    exact spooling_fates hspooling hwarn hinv h hsame hprepared
  | false =>
    rw [if_neg Bool.false_ne_true]
    exact sending_fates hspooling hspool hwarn hinv h hsame hprepared

/-! ### Calls, one at a time -/

/-- The client after the calls, each awaited before the next one. -/
def HttpState.afterCalls (rt : Runtime) (cfg : HttpConfig) (s : HttpState)
    (calls : List CloudCall) : HttpState :=
  calls.foldl (fun s c => (s.handleAlone rt cfg c).state) s

/-- Each call hands over admissible envelopes, under ids no call handed over before. -/
def FreshCalls (rt : Runtime) : List Uuid → List CloudCall → Prop
  | _, [] => True
  | handed, c :: rest => ∃ ids, Fresh rt handed c ids ∧ FreshCalls rt (ids ++ handed) rest

/-- What the spool knows stays what was handed over. -/
theorem afterCalls_knows (hspool : cfg.enable_spool = true) (hwarn : cfg.fail_on_loss = false)
    {earlier : List CloudCall} (hinv : KnowsOnly rt handed s.spool)
    (hcalls : FreshCalls rt handed (earlier ++ [c])) :
    ∃ handed' ids, KnowsOnly rt handed' (s.afterCalls rt cfg earlier).spool ∧
      Fresh rt handed' c ids := by
  induction earlier generalizing s handed with
  | nil =>
    obtain ⟨ids, hfresh, -⟩ := hcalls
    exact ⟨handed, ids, hinv, hfresh⟩
  | cons first rest ih =>
    obtain ⟨ids, hfresh, hrest⟩ := hcalls
    exact ih (handleAlone_fates hspool hwarn hinv hfresh).knows hrest

/-- A client that has not been used knows nothing. -/
theorem knowsOnly_init : KnowsOnly rt [] HttpState.init.spool := by
  refine ⟨⟨?_, ?_⟩, ?_⟩
  · exact fun e he => absurd he List.not_mem_nil
  · exact fun e he => absurd he List.not_mem_nil
  · rintro u ⟨session, line, hline, -⟩
    exact absurd hline List.not_mem_nil

/-- The ids of a call are new, and tell its elements apart. -/
theorem Fresh.new_of_mem (h : Fresh rt handed c ids) {p : Dict × ℕ} (hp : p ∈ c.slots) {u : Uuid}
    (hu : rt.toUuid (p.1.get "event_id") = .ok u) : u ∉ handed := by
  have hmem : Except.ok u ∈ ids.map (Except.ok (ε := PyError)) := by
    rw [← h.named, ← hu]
    exact List.mem_map_of_mem hp
  obtain ⟨v, hv, hvu⟩ := List.mem_map.mp hmem
  exact h.new u (Except.ok.inj hvu ▸ hv)

/-- The elements of a fresh batch have different ids. -/
theorem Fresh.unique (h : Fresh rt handed c ids) {p q : Dict × ℕ} (hp : p ∈ c.slots)
    (hq : q ∈ c.slots)
    (hpq : rt.toUuid (p.1.get "event_id") = rt.toUuid (q.1.get "event_id")) : p = q := by
  have hnodup : (c.slots.map fun p => rt.toUuid (p.1.get "event_id")).Nodup := by
    rw [h.named]
    exact h.nodup.map fun u v huv => Except.ok.inj huv
  exact List.inj_on_of_nodup_map hnodup hp hq hpq

/-- A spooled element of the call was handed to the spool, and its write left the line. -/
theorem Fates.handed_of_spooled {o : CloudOutcome} {known : List Uuid}
    (hfates : Fates rt cfg s c known o) (hinv : KnowsOnly rt handed s.spool)
    (h : Fresh rt handed c ids) {p : Dict × ℕ} (hp : p ∈ c.slots)
    (hspooled : Spooled rt o.state.spool p.1) :
    p ∈ c.handedToSpool rt cfg s ∧ (c.io p.2).append.lands = true := by
  obtain ⟨u, hu, hholds⟩ := hspooled
  rcases hfates.holds u hholds with hold | ⟨q, hq, hwrite, hqu⟩
  · exact absurd (hinv.lines u hold) (h.new_of_mem hp hu)
  · obtain rfl := h.unique (CloudCall.mem_slots_of_handed hq) hp (hqu.trans hu.symm)
    exact ⟨hq, hwrite⟩

/-- An answer that asks for a retry accepts nothing. -/
theorem not_isAccepted_of_needsRetry {answer : IngestResponse} (h : needsRetry answer = true) :
    answer.isAccepted = false := by
  have hstatus : answer.status = "rejected" := beq_iff_eq.mp (Bool.and_eq_true_iff.mp h).1
  show (answer.status == "accepted") = false
  rw [hstatus]
  rfl

/-- The first element that stops the writing, if any does, is a control record whose write raised;
    and if none does, no write raised behind its line. -/
structure WritesOrRaises (rt : Runtime) (cfg : HttpConfig) (s : HttpState) (c : CloudCall) :
    Prop where
  stop : ∀ p, c.stop rt cfg s = some p → (c.io p.2).append.returns = false
  synced : c.stop rt cfg s = none →
    ∀ p ∈ c.handedToSpool rt cfg s, (c.io p.2).append ≠ .unsynced

/-- An append returns exactly if its line is there, unless it raises behind its line. -/
theorem Append.lands_eq_returns {append : Append} (h : append ≠ .unsynced) :
    append.lands = append.returns := by
  cases append with
  | written => rfl
  | unwritten => rfl
  | unsynced => exact absurd rfl h

/-- An element in the spool is spooled if its write left the line. -/
theorem Fates.spooled_of_lands (hfates : Fates rt cfg s c (ids ++ handed) (s.handleAlone rt cfg c))
    (hstop : c.stop rt cfg s = none) (h : Fresh rt handed c ids) {p : Dict × ℕ}
    (hp : p ∈ c.handedToSpool rt cfg s) (hlands : (c.io p.2).append.lands = true) :
    Spooled rt (s.handleAlone rt cfg c).state.spool p.1 := by
  obtain ⟨responses, -, -, -, -, hheld, -⟩ := hfates.answered hstop
  have hmem : rt.toUuid (p.1.get "event_id") ∈ ids.map .ok := by
    rw [← h.named]
    exact List.mem_map_of_mem (CloudCall.mem_slots_of_handed hp)
  obtain ⟨u, -, hu⟩ := List.mem_map.mp hmem
  exact ⟨u, hu.symm, (hheld u).mpr (Or.inr ⟨p, hp, hlands, hu.symm⟩)⟩

/-- **The promise of one call**, for a client that knows only what was handed over before. -/
theorem handleAlone_truthful_iff (hspool : cfg.enable_spool = true)
    (hwarn : cfg.fail_on_loss = false) (hinv : KnowsOnly rt handed s.spool)
    (h : Fresh rt handed c ids) :
    TruthfulFates rt cfg s c ↔ WritesOrRaises rt cfg s c := by
  have hfates := handleAlone_fates hspool hwarn hinv h
  constructor
  · intro htrue
    refine ⟨fun p hp => ?_, fun hstop p hp hunsynced => ?_⟩
    · by_contra hwrite
      rw [Bool.not_eq_false] at hwrite
      obtain ⟨e, hresult, he⟩ := hfates.stopped p hp
      unfold SpoolStop at he
      rw [if_pos hwrite] at he
      rcases htrue.aligned with ⟨message, herror⟩ | ⟨responses, hok, -⟩
      · rw [hresult, he] at herror
        exact absurd herror (by simp)
      · rw [hresult] at hok
        exact absurd hok (by simp)
    · -- the line is there, and the answer is a rejection
      obtain ⟨responses, hresult, -, hhanded, -⟩ := hfates.answered hstop
      obtain ⟨response, hresponse, haccepted⟩ := hhanded p hp
      rw [hunsynced] at haccepted
      have hspooled := hfates.spooled_of_lands hstop h hp (by rw [hunsynced]; rfl)
      rcases htrue.aligned with ⟨message, herror⟩ | ⟨responses', hok, -, hfate, -⟩
      · rw [hresult] at herror
        exact absurd herror (by simp)
      · obtain rfl : responses = responses' := Except.ok.inj (hresult.symm.trans hok)
        have haccept := (hfate p (CloudCall.mem_slots_of_handed hp) response hresponse).mpr
          (Or.inr hspooled)
        rw [haccepted] at haccept
        exact absurd haccept Bool.false_ne_true
  · intro hwrites
    -- a stop is a control record that could not be written
    have hraised : ∀ p, c.stop rt cfg s = some p →
        ∃ message, (s.handleAlone rt cfg c).result = .error (.hitlPersistence message) := by
      intro p hp
      obtain ⟨e, hresult, he⟩ := hfates.stopped p hp
      unfold SpoolStop at he
      rw [if_neg (by rw [hwrites.stop p hp]; exact Bool.false_ne_true)] at he
      obtain ⟨message, rfl⟩ := he
      exact ⟨message, hresult⟩
    refine ⟨hfates.bounded, hfates.resent, ?_, fun p hp answer hanswer hretry hspooled => ?_,
      fun p hp hpcontrol hwrite => ?_⟩
    · cases hstop : c.stop rt cfg s with
      | some p => exact Or.inl (hraised p hstop)
      | none =>
        obtain ⟨responses, hresult, hlength, hhanded, hkept, hheld, hlost⟩ := hfates.answered hstop
        refine Or.inr ⟨responses, hresult, hlength, fun p hp response hresponse => ?_,
          fun id => (hlost id).trans (congrArg _ (List.countP_congr fun p hp => ?_))⟩
        swap
        · unfold countedIn lostIn
          rw [Append.lands_eq_returns (hwrites.synced hstop p hp)]
        by_cases hmem : p ∈ c.handedToSpool rt cfg s
        · obtain ⟨spooled, hspooled, haccepted⟩ := hhanded p hmem
          obtain rfl : spooled = response := Option.some.inj (hspooled.symm.trans hresponse)
          rw [haccepted, ← Append.lands_eq_returns (hwrites.synced hstop p hmem)]
          constructor
          · exact fun hlands => Or.inr (hfates.spooled_of_lands hstop h hmem hlands)
          · rintro (⟨answer, hanswer, haccept⟩ | hspooled)
            · have hretry := (hfates.asked p hp answer hanswer).mpr hmem
              rw [not_isAccepted_of_needsRetry hretry] at haccept
              exact absurd haccept Bool.false_ne_true
            · exact (hfates.handed_of_spooled hinv h hp hspooled).2
        · rw [hkept p hp hmem] at hresponse
          rw [hresponse]
          constructor
          · exact fun haccept => Or.inl ⟨response, rfl, haccept⟩
          · rintro (⟨answer, hanswer, haccept⟩ | hspooled)
            · rwa [Option.some.inj hanswer]
            · exact absurd (hfates.handed_of_spooled hinv h hp hspooled).1 hmem
    · have hmem := (hfates.handed_of_spooled hinv h hp hspooled).1
      rw [(hfates.asked p hp answer hanswer).mpr hmem] at hretry
      exact Bool.false_ne_true hretry.symm
    · have hstops : stopsSpool rt c.io p = true := by
        unfold stopsSpool
        rw [if_neg (by rw [hwrite]; exact Bool.false_ne_true)]
        exact hpcontrol
      obtain ⟨q, hq⟩ : ∃ q, c.stop rt cfg s = some q := by
        rw [← Option.isSome_iff_exists]
        exact List.find?_isSome.mpr ⟨p, hp, hstops⟩
      exact hraised q hq

end

/-- A call with one action emitted at the given time; its request times out, and the spool can be
    written. -/
def timedOut (emitted_at : JStr) : CloudCall where
  envelopes := [(exampleEnvelope emitted_at, exampleRecord)]
  replies _ := .timeout "ReadTimeout"
  io := noonIO

/-- The example is the first call of its client. -/
theorem timedOut_fresh (emitted_at : JStr) :
    FreshCalls twoDates [] ([] ++ [timedOut emitted_at]) := by
  refine ⟨[exampleEvent], ⟨fun p hp => ?_, ?_, List.nodup_singleton _, fun u _ => ?_⟩, trivial⟩
  · rw [List.mem_singleton.mp hp]
    constructor
    · exact ⟨.ACTION_RECORD, by
        simp [exampleEnvelope, Dict.get_ofFields, List.lookup_cons, EventType.text]⟩
    · simp [exampleEnvelope, Dict.has_ofFields, List.lookup_cons]
    · exact ⟨exampleEvent, by simp [exampleEnvelope, Dict.get_ofFields, List.lookup_cons]⟩
    · simp [exampleEnvelope, Dict.has_ofFields, List.lookup_cons]
    · intro text t _ ht
      -- both dates that the runtime reads have an offset
      unfold twoDates cpython at ht
      dsimp only at ht
      split_ifs at ht
      · rw [← Option.some.inj ht]
        rfl
      · rw [← Option.some.inj ht]
        exact mayNoon.aware
    · refine ⟨plainPayload, ?_, fun _ => Or.inl plainPayload_unsealed⟩
      simp [exampleEnvelope, Dict.get_ofFields, List.lookup_cons]
  · simp [CloudCall.slots, timedOut, exampleEnvelope, Dict.get_ofFields, List.lookup_cons]
  · exact List.not_mem_nil

/-- After a timeout the one element of the example goes to the spool. -/
theorem handedToSpool_timedOut (emitted_at : JStr) :
    (timedOut emitted_at).handedToSpool twoDates oneAttempt .init =
      [(exampleEnvelope emitted_at, 0)] := by
  simp [CloudCall.handedToSpool, CloudCall.slots, timedOut, HttpState.init,
    HttpBatch.pendingAfter, oneAttempt, interpret, rejectBatch, needsRetry,
    IngestResponse.rejected]

/-- The example is stopped exactly by a date that the cache cannot add a day to. -/
theorem stop_timedOut (emitted_at : JStr) :
    (timedOut emitted_at).stop twoDates oneAttempt .init =
      if Datable twoDates ( noonIO 0).1 (exampleEnvelope emitted_at) then none
      else some (exampleEnvelope emitted_at, 0) := by
  have hstops : stopsSpool twoDates (timedOut emitted_at).io (exampleEnvelope emitted_at, 0) =
      !Datable twoDates ( noonIO 0).1 (exampleEnvelope emitted_at) := rfl
  unfold CloudCall.stop
  rw [handedToSpool_timedOut, List.find?_cons, hstops]
  cases Datable twoDates ( noonIO 0).1 (exampleEnvelope emitted_at) <;> rfl

/-- The date of the example is the one its text is read as. -/
theorem datable_example {text : JStr} {t : PyDateTime} (ht : twoDates.fromisoformat text = some t) :
    Datable twoDates ( noonIO 0).1 (exampleEnvelope text) = t.canAdd ttl := by
  have htext : (exampleEnvelope text).get "emitted_at" = .str text := by
    simp [exampleEnvelope, Dict.get_ofFields, List.lookup_cons]
  unfold Datable
  rw [htext]
  simp only [parseDt, ht, Option.getD_some]

end RootSign
