import RootSign.Ingest.Handler
import RootSign.Python.Sha256

namespace RootSign

open RootSign.Lib RootSign.Python

/-!
# The Postgres producer and its verifier

A run of actions through the handler, one transaction after the other, and `verify_chain` on
the tables it leaves.  The stored hash is that of the values in memory; the recomputed one is
that of the values the columns give back.

* `ChainInv` — what holds of a session after any calls: its rows are numbered, linked, and
  each is the stored form of a recorded action;
* `transact_step`, `handleAll_spec` — one call, and a run of them;
* `postgres_agrees` — the session verifies `VALID` exactly when every recorded action comes
  back from its columns with the text it was hashed by.
-/

/-! ### Calls and runs -/

/-- The redacted payloads present hash to the recorded hashes. -/
structure PayloadBound (rt : Runtime) (payload : ActionRecordPayload) : Prop where
  input : ∀ d, payload.input_redacted = some d →
    payload.input_hash = computePayloadHash rt (.obj d)
  output : ∀ d, payload.output_redacted = some d →
    payload.output_hash = some (computePayloadHash rt (.obj d))

/-- A call with an action envelope: its timestamp carries a UTC offset, and its hashes are
    those of its redacted payloads. -/
structure ActionCall (rt : Runtime) where
  io : HandlerIO
  env : ActionEnvelope
  aware : ∀ payload, env.payload = .ok payload → payload.timestamp.aware = true
  bound : ∀ payload, env.payload = .ok payload → PayloadBound rt payload

/-- A call that has been answered, from the cache or by the handler. -/
structure Handled (rt : Runtime) where
  call : ActionCall rt
  replayed : Bool
  answer : Except HandlerError IngestResponse

/-- The call on a state, in its own transaction. -/
def ActionCall.run {rt : Runtime} (c : ActionCall rt) (s : StoreState Database) :
    Except HandlerError IngestResponse × StoreState Database :=
  transact c.io (dispatchAction rt c.io c.env) s c.env.toIngestEnvelope

/-- One call after the other: what was answered, and the store they leave. -/
def handleAll (rt : Runtime) :
    StoreState Database → List (ActionCall rt) → List (Handled rt) × StoreState Database
  | s, [] => ([], s)
  | s, c :: rest =>
    let result := c.run s
    let tail := handleAll rt result.2 rest
    (⟨c, replayed c.io s c.env.toIngestEnvelope, result.1⟩ :: tail.1, tail.2)

/-- The call accepted a new action of the session. -/
def Handled.records {rt : Runtime} (session : Uuid) (h : Handled rt) : Bool :=
  !h.replayed && accepts h.answer && h.call.env.session_id == session

/-- A store with the given sessions and no actions. -/
def StoreState.opened (status : Uuid → Option SessionStatus) (policies : Uuid → Bool) :
    StoreState Database where
  idempotency := []
  db := .opened status policies

/-- The values hashed survive their columns: a timestamp at UTC, and no number in a redacted
    payload whose text the column changes. -/
def ActionRecordPayload.survives (payload : ActionRecordPayload) : Bool :=
  payload.timestamp.offset == some 0 && plainNumbers (optDict payload.input_redacted) &&
    plainNumbers (optDict payload.output_redacted)

/-- The recorded action survives its columns. -/
def Handled.survives {rt : Runtime} (h : Handled rt) : Prop :=
  ∀ payload, h.call.env.payload = .ok payload → payload.survives = true

/-! ### Stored actions -/

/-- The row is the stored form of the action the call recorded, under the hash of the values
    in memory. -/
structure Produced {rt : Runtime} (h : Handled rt) (row : ActionRow) : Prop where
  exists_payload : ∃ payload, h.call.env.payload = .ok payload ∧
    payload.timestamp.toUtc = some row.timestamp ∧
    row.input_hash = payload.input_hash ∧ row.output_hash = payload.output_hash ∧
    row.input_redacted = jsonb (optDict payload.input_redacted) ∧
    row.output_redacted = jsonb (optDict payload.output_redacted) ∧
    row.self_hash = { row with timestamp := payload.timestamp }.canonical.selfHash rt

/-- The digest tells two texts apart. -/
def TellsApart (rt : Runtime) (a b : List Char) : Prop := rt.sha256 a = rt.sha256 b → a = b

/-- No collision between what was hashed of an action and what its columns give back. -/
structure NoCollision {rt : Runtime} (h : Handled rt) (row : ActionRow) : Prop where
  row : ∀ payload, h.call.env.payload = .ok payload →
    TellsApart rt row.canonical.serialized
      { row with timestamp := payload.timestamp }.canonical.serialized
  input : ∀ payload d, h.call.env.payload = .ok payload → payload.input_redacted = some d →
    TellsApart rt (dumps (jsonb (.obj d))) (dumps (.obj d))
  output : ∀ payload d, h.call.env.payload = .ok payload → payload.output_redacted = some d →
    TellsApart rt (dumps (jsonb (.obj d))) (dumps (.obj d))

variable {rt : Runtime} {h : Handled rt} {row : ActionRow}

/-- Rows that differ in their timestamps only have the same canonical text exactly when the
    timestamps have the same text. -/
theorem canonical_timestamp (row : ActionRow) (t : PyDateTime) :
    row.canonical.serialized = { row with timestamp := t }.canonical.serialized ↔
      row.timestamp.isoformat = t.isoformat := by
  have hscalar : ∀ r : ActionRow, r.canonical.Scalar := by
    intro r
    have hopt : ∀ o : Option JStr, (optStr o).orEmpty.IsScalar := by
      intro o
      cases o with
      | none => trivial
      | some s =>
        rw [optStr, Json.orEmpty]
        split <;> trivial
    exact ⟨trivial, trivial, hopt _, hopt _, trivial, trivial⟩
  constructor
  · intro heq
    have htext :=
      congrArg Canonical.timestamp (Canonical.serialized_inj (hscalar _) (hscalar _) heq)
    rw [ActionRow.canonical, ActionRow.canonical, Json.str.injEq, JStr.ofChars_inj] at htext
    exact htext
  · intro heq
    rw [ActionRow.canonical, ActionRow.canonical, heq]

/-- A redacted payload's text after its column. -/
theorem computePayloadHash_jsonb (rt : Runtime) (d : Dict) :
    computePayloadHash rt (jsonb (.obj d)) = rt.sha256 (dumps (jsonb (.obj d))) := by
  rw [jsonb, computePayloadHash]
  exact fun h => Json.noConfusion h

/-- **A surviving action is intact** when it is read back. -/
theorem Produced.intact (hp : Produced h row) (hs : h.survives) : RowIntact rt row := by
  obtain ⟨payload, hpayload, hutc, hin, hout, hinr, houtr, hself⟩ := hp.exists_payload
  have hsurvives := hs payload hpayload
  rw [ActionRecordPayload.survives, Bool.and_eq_true, Bool.and_eq_true, beq_iff_eq] at hsurvives
  obtain ⟨⟨hoffset, hinput⟩, houtput⟩ := hsurvives
  have hbound := h.call.bound payload hpayload
  have htext := (PyDateTime.isoformat_toUtc_iff (h.call.aware payload hpayload) hutc).mpr hoffset
  rw [jsonb_of_plainNumbers _ hinput] at hinr
  rw [jsonb_of_plainNumbers _ houtput] at houtr
  refine ⟨?_, payloadBindingError_eq_none.mpr ⟨fun hne => ?_, fun hne => ?_⟩⟩
  · rw [hself, Canonical.selfHash, Canonical.selfHash, (canonical_timestamp row _).mpr htext]
  · cases hd : payload.input_redacted with
    | none => rw [hinr, hd] at hne; exact absurd hne (by decide)
    | some d => rw [hinr, hd, hin, hbound.input d hd]; rfl
  · cases hd : payload.output_redacted with
    | none => rw [houtr, hd] at hne; exact absurd hne (by decide)
    | some d => rw [houtr, hd, hout, hbound.output d hd]; rfl

/-- **An intact row is that of a surviving action**, unless the digest collides. -/
theorem Produced.survives (hp : Produced h row) (hfree : NoCollision h row)
    (hi : RowIntact rt row) : h.survives := by
  obtain ⟨payload, hpayload, hutc, hin, hout, hinr, houtr, hself⟩ := hp.exists_payload
  have hbound := h.call.bound payload hpayload
  obtain ⟨hibound, hobound⟩ := payloadBindingError_eq_none.mp hi.bound
  -- equal digests of texts that can be told apart are digests of one text
  have hplain :
    ∀ d : Dict, computePayloadHash rt (jsonb (.obj d)) = computePayloadHash rt (.obj d) →
      TellsApart rt (dumps (jsonb (.obj d))) (dumps (.obj d)) → plainNumbers (.obj d) = true := by
    intro d heq hapart
    rw [computePayloadHash_jsonb] at heq
    exact plainNumbers_of_dumps_jsonb (hapart heq)
  intro payload' hpayload'
  obtain rfl : payload = payload' := Except.ok.inj (hpayload.symm.trans hpayload')
  rw [ActionRecordPayload.survives, Bool.and_eq_true, Bool.and_eq_true, beq_iff_eq]
  refine ⟨⟨?_, ?_⟩, ?_⟩
  -- the timestamp is in the canonical record; the columns give it back in UTC
  · rw [← PyDateTime.isoformat_toUtc_iff (h.call.aware payload hpayload) hutc]
    exact (canonical_timestamp row _).mp (hfree.row payload hpayload (hi.self_hash.trans hself))
  · cases hd : payload.input_redacted with
    | none => rfl
    | some d =>
      refine hplain d ?_ (hfree.input payload d hpayload hd)
      rw [← hbound.input d hd, ← hin]
      rw [hinr, hd] at hibound
      exact hibound rfl
  -- the payloads are bound by their own digests
  · cases hd : payload.output_redacted with
    | none => rfl
    | some d =>
      refine hplain d ?_ (hfree.output payload d hpayload hd)
      rw [houtr, hd, hout, hbound.output d hd] at hobound
      exact Option.some.inj (hobound rfl)

/-! ### The invariant -/

/-- What holds of a session after the given calls. -/
structure ChainInv (done : List (Handled rt)) (db : Database) (session : Uuid) : Prop where
  produced : List.Forall₂ Produced (done.filter (Handled.records session)) (rowsOf db session)
  chain : SessionChain db session

theorem ChainInv.opened (rt : Runtime) (status : Uuid → Option SessionStatus)
    (policies : Uuid → Bool) (session : Uuid) :
    ChainInv ([] : List (Handled rt)) (StoreState.opened status policies).db session where
  produced := .nil
  chain := SessionChain.opened status policies session

/-- A call that records nothing leaves the session as it was. -/
theorem ChainInv.skip {done : List (Handled rt)} {db : Database} {session : Uuid}
    (hinv : ChainInv done db session) (hrecords : h.records session = false) :
    ChainInv (done ++ [h]) db session where
  produced := by
    rw [List.filter_append, List.filter_singleton, hrecords]
    simpa using hinv.produced
  chain := hinv.chain

/-- The row a call has sealed is the stored form of its action. -/
theorem produced_of_readBack {payload : ActionRecordPayload} {session : Uuid}
    {obj_in : ActionCreate} {session_row : SessionRow} {fresh : Uuid}
    (hpayload : h.call.env.payload = .ok payload)
    (hcreate : payload.actionCreate session = .ok obj_in)
    (hstored : (sealedRow rt fresh session_row obj_in).readBack = some row) : Produced h row := by
  obtain ⟨-, htime, hin, hout, hinr, houtr⟩ := actionCreate_ok hcreate
  obtain ⟨t, ht, rfl⟩ := readBack_eq_some hstored
  refine ⟨payload, hpayload, by rw [← htime]; exact ht, hin, hout, by rw [← hinr]; rfl,
    by rw [← houtr]; rfl, ?_⟩
  rw [← htime]
  exact sealedRow_self_hash rt fresh session_row obj_in

/-- Recording an action extends its session's chain by one row. -/
theorem ChainInv.record {done : List (Handled rt)} {db db' : Database} {session : Uuid}
    {payload : ActionRecordPayload} {obj_in : ActionCreate} {fresh : Uuid}
    (hinv : ChainInv done db session) (hpayload : h.call.env.payload = .ok payload)
    (hcreate : payload.actionCreate h.call.env.session_id = .ok obj_in)
    (hrow : createWithHash rt fresh db obj_in = .ok (row, db'))
    (hrecords : h.records session = (h.call.env.session_id == session)) :
    ChainInv (done ++ [h]) db' session := by
  obtain ⟨session_row, hsession, hstored, rfl⟩ := createWithHash_ok hrow
  have hproduced := produced_of_readBack hpayload hcreate hstored
  obtain ⟨hsame, -⟩ := actionCreate_ok hcreate
  obtain ⟨hrowid, hrowseq, hrowprev, hrowself⟩ := readBack_chain hstored
  have hid : row.session_id = obj_in.session_id := hrowid
  rw [← hid] at hsession hsame
  by_cases heq : row.session_id = session
  · -- the new row is the session's next one
    subst heq
    rw [hsame, beq_self_eq_true] at hrecords
    refine ⟨?_, hinv.chain.extended hsession hrowseq hrowprev rfl ?_⟩
    · rw [rowsOf_extended_self, List.filter_append, List.filter_singleton, hsame, hrecords]
      exact List.rel_append (by rw [← hsame]; exact hinv.produced) (.cons hproduced .nil)
    · rw [hrowself]
  · -- another session's rows and session row are as they were
    rw [← hsame, beq_eq_false_iff_ne.mpr heq] at hrecords
    have hskip := hinv.skip hrecords
    refine ⟨?_, hskip.chain.of_ne _ heq⟩
    rw [rowsOf_extended_of_ne _ heq]
    exact hskip.produced

/-- **The step.** One call keeps every session's invariant. -/
theorem transact_step {done : List (Handled rt)} {s : StoreState Database} (c : ActionCall rt)
    (hinv : ∀ session, ChainInv done s.db session) (session : Uuid) :
    ChainInv (done ++ [⟨c, replayed c.io s c.env.toIngestEnvelope, (c.run s).1⟩])
      (c.run s).2.db session := by
  rcases @transact_cases Database c.io s (dispatchAction rt c.io c.env)
    c.env.toIngestEnvelope with ⟨hdb, hno⟩ | ⟨response, db, hdispatch, hfresh, hanswer, hdb⟩
  -- the transaction was not committed, or the call was answered from the cache
  · rw [ActionCall.run, hdb]
    refine (hinv session).skip ?_
    show (!replayed c.io s c.env.toIngestEnvelope && accepts _ && _) = false
    rcases hno with hno | hno
    · rw [hno]
      rfl
    · rw [hno, Bool.and_false]
      rfl
  -- it was committed: a payload that does not validate is refused, any other is recorded
  · rw [ActionCall.run, hdb, hanswer, hfresh]
    unfold dispatchAction at hdispatch
    cases hpayload : c.env.payload with
    | error errors =>
      rw [hpayload] at hdispatch
      obtain ⟨⟨text, -, rfl⟩, rfl⟩ := InvalidValue.answer_ok hdispatch
      refine (hinv session).skip ?_
      simp [Handled.records, accepts]
    | ok payload =>
      rw [hpayload] at hdispatch
      obtain ⟨obj_in, row, hcreate, hrow, rfl⟩ := handleActionRecord_ok hdispatch
      refine (hinv session).record hpayload hcreate hrow ?_
      simp [Handled.records, accepts]

/-- **The run.** After any calls, every session's invariant holds. -/
theorem handleAll_spec {done : List (Handled rt)} {calls : List (ActionCall rt)}
    {s : StoreState Database}
    (hinv : ∀ session, ChainInv done s.db session) (session : Uuid) :
    ChainInv (done ++ (handleAll rt s calls).1) (handleAll rt s calls).2.db session := by
  induction calls generalizing done s with
  | nil => simpa [handleAll] using hinv session
  | cons c rest ih =>
    have hstep := ih fun session => transact_step c hinv session
    rw [List.append_assoc] at hstep
    exact hstep

/-! ### The producer and the verifier -/

/-- `verify_chain` finds the session `VALID` with that many records. -/
def VerifiesValid (rt : Runtime) (db : Database) (session : Uuid) (count : ℕ) : Prop :=
  ∃ res, verifyChain rt db session = .ok res ∧ res.verdict = .VALID ∧ res.record_count = count

/-- No collision between what was hashed of the session's actions and what was stored. -/
def NoCollisions (handled : List (Handled rt)) (db : Database) (session : Uuid) : Prop :=
  ∀ p ∈ (handled.filter (Handled.records session)).zip (rowsOf db session), NoCollision p.1 p.2

/-- Every row stands beside the call that recorded it. -/
theorem ChainInv.exists_call {done : List (Handled rt)} {db : Database} {session : Uuid}
    (hinv : ChainInv done db session) (hrow : row ∈ rowsOf db session) :
    ∃ h ∈ done, h.records session = true ∧ Produced h row := by
  obtain ⟨i, hi, rfl⟩ := List.mem_iff_getElem.mp hrow
  have hi' : i < (done.filter (Handled.records session)).length := by
    rwa [hinv.produced.length_eq]
  obtain ⟨hmem, hrecords⟩ := List.mem_filter.mp (List.getElem_mem hi')
  exact ⟨_, hmem, hrecords, hinv.produced.get hi' hi⟩

/-- Every recording call stands beside its row. -/
theorem ChainInv.exists_row {done : List (Handled rt)} {db : Database} {session : Uuid}
    (hinv : ChainInv done db session) (hmem : h ∈ done) (hrecords : h.records session = true) :
    ∃ row ∈ rowsOf db session, Produced h row ∧
      (h, row) ∈ (done.filter (Handled.records session)).zip (rowsOf db session) := by
  obtain ⟨i, hi, rfl⟩ := List.mem_iff_getElem.mp (List.mem_filter.mpr ⟨hmem, hrecords⟩)
  have hi' : i < (rowsOf db session).length := by rwa [← hinv.produced.length_eq]
  refine ⟨_, List.getElem_mem hi', hinv.produced.get hi hi', ?_⟩
  rw [List.mem_iff_getElem]
  exact ⟨i, by rw [List.length_zip]; omega, List.getElem_zip⟩

/-- Everything survives: the session verifies with one record for each accepted action. -/
theorem ChainInv.verifies {done : List (Handled rt)} {db : Database} {session : Uuid}
    (hinv : ChainInv done db session)
    (hsurvive : ∀ h ∈ done, h.records session = true → h.survives) :
    VerifiesValid rt db session (done.countP (Handled.records session)) := by
  have hintact : ∀ row ∈ rowsOf db session, RowIntact rt row := by
    intro row hrow
    obtain ⟨h, hmem, hrecords, hproduced⟩ := hinv.exists_call hrow
    exact hproduced.intact (hsurvive h hmem hrecords)
  obtain ⟨res, hres, -, hv, hcount⟩ := hinv.chain.verifyChain_valid hintact
  refine ⟨res, hres, hv, ?_⟩
  rw [List.countP_eq_length_filter, hinv.produced.length_eq]
  exact hcount

/-- A `VALID` session holds surviving actions only. -/
theorem ChainInv.survives {done : List (Handled rt)} {db : Database} {session : Uuid}
    (hinv : ChainInv done db session) (hfree : NoCollisions done db session) {count : ℕ}
    (hvalid : VerifiesValid rt db session count) :
    ∀ h ∈ done, h.records session = true → h.survives := by
  intro h hmem hrecords
  obtain ⟨res, hres, hv, -⟩ := hvalid
  obtain ⟨row, hrow, hproduced, hzip⟩ := hinv.exists_row hmem hrecords
  refine hproduced.survives (hfree _ hzip) (rowIntact_of_valid hres hv row ?_)
  -- the chain is the session's rows, sorted
  exact (List.perm_insertionSort _ _).mem_iff.mpr hrow

/-- **The Postgres producer and its verifier.**  After any run of action envelopes on any
    sessions, a session verifies `VALID` with one record for each accepted action when every
    accepted action has a timestamp at offset zero and plain numbers in its redacted payloads,
    and, short of a hash collision, only then. -/
theorem postgres_agrees (rt : Runtime) (status : Uuid → Option SessionStatus)
    (policies : Uuid → Bool) (calls : List (ActionCall rt)) (session : Uuid) :
    ((∀ h ∈ (handleAll rt (.opened status policies) calls).1,
        h.records session = true → h.survives) →
      VerifiesValid rt (handleAll rt (.opened status policies) calls).2.db session
        ((handleAll rt (.opened status policies) calls).1.countP (Handled.records session))) ∧
    (NoCollisions (handleAll rt (.opened status policies) calls).1
        (handleAll rt (.opened status policies) calls).2.db session →
      VerifiesValid rt (handleAll rt (.opened status policies) calls).2.db session
        ((handleAll rt (.opened status policies) calls).1.countP (Handled.records session)) →
      ∀ h ∈ (handleAll rt (.opened status policies) calls).1,
        h.records session = true → h.survives) := by
  have hinv := @handleAll_spec rt [] calls (.opened status policies)
    (fun session => ChainInv.opened rt status policies session) session
  rw [List.nil_append] at hinv
  exact ⟨hinv.verifies, fun hfree hvalid => hinv.survives hfree hvalid⟩

/-! ### Actions at UTC and at another offset -/

/-- A store where the example session is running. -/
def exampleStore : StoreState Database := .opened onlyExampleSession fun _ => false

/-- The call that records the example action under the given ids. -/
def exampleActionCall (event_id action_id : Uuid) (timestamp : PyDateTime)
    (haware : timestamp.aware = true) : ActionCall exampleRuntime where
  io := ⟨action_id, mayNoon, mayNoon, mayNoon⟩
  env :=
    { schema_version := "1.1"
      event_id := event_id
      emitted_at := mayNoon.time
      session_id := exampleSession
      payload := .ok (examplePayload timestamp) }
  aware := fun payload h => by rw [← Except.ok.inj h]; exact haware
  bound := fun payload h => by
    rw [← Except.ok.inj h]
    exact ⟨fun _ h => absurd h (by simp [examplePayload]),
      fun _ h => absurd h (by simp [examplePayload])⟩

/-- `2026-05-01T14:00:00+02:00`, the same instant as noon at UTC. -/
def mayNoonInBerlin : PyDateTime where
  ticks := 63913240800000000
  offset := some 7200000000
  ticks_lt := by decide
  offset_lt := by decide

/-- Two actions at UTC, the first one sent twice. -/
def noonCalls : List (ActionCall exampleRuntime) :=
  [exampleActionCall exampleEvent exampleRecord mayNoon.time mayNoon.aware,
    exampleActionCall exampleAgent exampleAgent mayNoon.time mayNoon.aware,
    exampleActionCall exampleEvent exampleEvent mayNoon.time mayNoon.aware]

/-- The session verifies, with the two actions that were accepted. -/
theorem postgres_agrees_noonCalls :
    VerifiesValid exampleRuntime (handleAll exampleRuntime exampleStore noonCalls).2.db
      exampleSession 2 := by
  have hcount : (handleAll exampleRuntime exampleStore noonCalls).1.countP
      (Handled.records exampleSession) = 2 := by
    decide +kernel
  obtain ⟨hvalid, -⟩ := postgres_agrees exampleRuntime onlyExampleSession (fun _ => false)
    noonCalls exampleSession
  rw [← hcount]
  refine hvalid fun h hmem _ payload hpayload => ?_
  simp only [noonCalls, handleAll, List.mem_cons, List.not_mem_nil, or_false] at hmem
  rcases hmem with rfl | rfl | rfl
  all_goals
    rw [← Except.ok.inj hpayload]
    rfl

/-- Two hours ahead of it, the accepted action is found tampered with. -/
theorem postgres_disagrees_berlin :
    (handleAll exampleRuntime exampleStore
      [exampleActionCall exampleEvent exampleEvent mayNoonInBerlin rfl]).1.countP
        (Handled.records exampleSession) = 1 ∧
      ¬ VerifiesValid exampleRuntime
        (handleAll exampleRuntime exampleStore
          [exampleActionCall exampleEvent exampleEvent mayNoonInBerlin rfl]).2.db
        exampleSession 1 := by
  have hverdict : (verifyChain exampleRuntime
      (handleAll exampleRuntime exampleStore
        [exampleActionCall exampleEvent exampleEvent mayNoonInBerlin rfl]).2.db
      exampleSession).map ChainResult.verdict = .ok .TAMPERED := by
    decide +kernel
  refine ⟨by decide +kernel, ?_⟩
  rintro ⟨res, hres, hvalid, -⟩
  rw [hres, Except.map, Except.ok.injEq, hvalid] at hverdict
  exact absurd hverdict (by decide)

end RootSign
