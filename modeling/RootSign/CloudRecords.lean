import RootSign.JsonlAgreement
import RootSign.Lib.Runs
import RootSign.Sdk.HttpClient
import RootSign.Sdk.Spool

namespace RootSign

open RootSign.Lib RootSign.Python

/-!
# The records of a cloud session

What `HttpIngestClient` seals, holds in flight, has had accepted and writes to the spool, over any
calls, replies, failovers and cancellations.

* `Emitted` — the envelopes the SDK hands over;
* `SealedRecord.Carried` — an envelope carries a sealed action;
* `SpoolEffect` — what spool writes change;
* `CloudInv` — every envelope in flight, accepted or spooled carries one of the actions sealed, and
  these are numbered `1, 2, …`; it holds throughout every run (`cloud_inv_run`).
-/

/-! ### Envelopes -/

/-- An envelope as the SDK emits it: one of the five types, with a payload, and unsealed if it is an
    action. -/
structure Emitted (envelope : Dict) : Prop where
  event_type : ∃ e : EventType, envelope.get "event_type" = .str (JStr.ofString e.text)
  payload : ∃ payload, envelope.get "payload" = .obj payload
  unsealed : envelope.get "event_type" = .str "ACTION_RECORD" →
    ∀ payload, envelope.get "payload" = .obj payload → UnsealedPayload payload

/-- The payload with the seal. -/
def SealedRecord.sealedPayload (r : SealedRecord) : Dict :=
  Dict.update r.payload r.sealed.asPayloadFields

/-- `str(envelope.get("session_id"))`. -/
def sessionOf (rt : Runtime) (envelope : Dict) : JStr := rt.pyStr (envelope.get "session_id")

/-- The envelope carries the sealed action in its session. -/
structure SealedRecord.Carried (rt : Runtime) (session : JStr) (r : SealedRecord)
    (envelope : Dict) : Prop where
  event_type : envelope.get "event_type" = .str "ACTION_RECORD"
  session_id : sessionOf rt envelope = session
  event_id : envelope.get "event_id" = r.event_id
  payload : envelope.get "payload" = .obj r.sealedPayload
  unsealed : UnsealedPayload r.payload

/-- The number of an action of the session, in its envelope. -/
def numberIn (rt : Runtime) (session : JStr) (envelope : Dict) : Option ℤ :=
  if (envelope.get "event_type").pyEq (.str "ACTION_RECORD") &&
      sessionOf rt envelope == session then
    match envelope.get "payload" with
    | .obj payload => (Dict.get payload "sequence_number").asInt
    | _ => none
  else none

namespace SealedRecord

variable {rt : Runtime} {session : JStr} {r : SealedRecord} {envelope : Dict}

/-- The seal replaces the four chain fields and nothing else. -/
theorem get_sealedPayload (r : SealedRecord) (key : String) :
    r.sealedPayload.get key =
      if key = "self_hash" then .str r.sealed.self_hash
      else if key = "prev_action_hash" then r.sealed.prev_action_hash
      else if key = "sequence_number" then .int r.sealed.sequence_number
      else if key = "action_id" then .str r.sealed.action_id.text
      else r.payload.get key := by
  simp only [sealedPayload, Dict.update, SealedAction.asPayloadFields, List.foldl_cons,
    List.foldl_nil, Dict.get_set]

theorem get_sealedPayload_action_id (r : SealedRecord) :
    r.sealedPayload.get "action_id" = .str r.sealed.action_id.text := by
  simp [get_sealedPayload]

theorem get_sealedPayload_sequence_number (r : SealedRecord) :
    r.sealedPayload.get "sequence_number" = .int r.sealed.sequence_number := by
  simp [get_sealedPayload]

theorem get_sealedPayload_self_hash (r : SealedRecord) :
    r.sealedPayload.get "self_hash" = .str r.sealed.self_hash := by
  simp [get_sealedPayload]

/-- No field is taken away by the seal. -/
theorem has_sealedPayload {key : String} (h : r.payload.has key) : r.sealedPayload.has key := by
  simp only [sealedPayload, Dict.update, SealedAction.asPayloadFields, List.foldl_cons,
    List.foldl_nil]
  exact Dict.has_set (Dict.has_set (Dict.has_set (Dict.has_set h _ _) _ _) _ _) _ _

/-- A carried record is numbered in its own session. -/
theorem Carried.numberIn_self (h : r.Carried rt session envelope) :
    numberIn rt session envelope = some r.sealed.sequence_number := by
  rw [numberIn, if_pos, h.payload]
  · show (r.sealedPayload.get "sequence_number").asInt = _
    rw [get_sealedPayload]
    rfl
  · rw [h.event_type, h.session_id, Json.pyEq_str.mpr rfl]
    simp

/-- A carried record has no number in another session. -/
theorem Carried.numberIn_other (h : r.Carried rt session envelope) {other : JStr}
    (hne : other ≠ session) : numberIn rt other envelope = none := by
  rw [numberIn, if_neg]
  rw [h.session_id, Bool.and_eq_true, beq_iff_eq]
  exact fun hboth => hne hboth.2.symm

/-- A dict with a tool name is not empty. -/
theorem Carried.payloadOf_eq (h : r.Carried rt session envelope) :
    payloadOf envelope = .ok r.sealedPayload := by
  have hhas := has_sealedPayload (r := r) h.unsealed.tool_name
  have htruthy : (Json.obj r.sealedPayload).truthy = true := by
    rw [Json.truthy]
    cases hp : r.sealedPayload with
    | nil => rw [hp] at hhas; simp [Dict.has] at hhas
    | cons p rest => rfl
  rw [payloadOf, h.payload, htruthy]

end SealedRecord

/-- An event that is no action has no number. -/
theorem numberIn_other {rt : Runtime} {envelope : Dict}
    (h : envelope.get "event_type" ≠ .str "ACTION_RECORD") (session : JStr) :
    numberIn rt session envelope = none := by
  rw [numberIn, if_neg]
  rw [Bool.and_eq_true, Json.pyEq_str]
  exact fun hboth => h hboth.1

/-- An envelope has a number only in its own session. -/
theorem session_eq_of_numberIn {rt : Runtime} {envelope : Dict} {session : JStr} {n : ℤ}
    (h : numberIn rt session envelope = some n) : session = sessionOf rt envelope := by
  unfold numberIn at h
  split at h
  case isTrue hboth =>
    rw [Bool.and_eq_true, beq_iff_eq] at hboth
    exact hboth.2.symm
  case isFalse => exact absurd h (by simp)

/-! ### Lines -/

/-- A line of the session's spool file: one a writer makes, and one that carries a sealed action
    if it is an action's. -/
structure LineOf (rt : Runtime) (sealed : List SealedRecord) (session : JStr) (line : Dict) :
    Prop where
  written : Written line
  carries : isActionLine line = true → ∃ r ∈ sealed,
    CarriesSeal (.str session) (r.payload, r.sealed) line ∧
      ∃ event_id : Uuid, rt.toUuid r.event_id = .ok event_id ∧
        line.get "event_id" = .str event_id.text

section

variable {rt : Runtime} {sealed : List SealedRecord} {session : JStr} {r : SealedRecord}
  {envelope : Dict}

/-- The flat line of a sealed action. -/
theorem LineOf.flat {event_id : Uuid} (hr : r ∈ sealed) (envelope : Dict)
    (hid : rt.toUuid r.event_id = .ok event_id) {adopted : SealedAction}
    (hadopted : adopted = { r.sealed with adopted := true }) :
    LineOf rt sealed session (flatRecord envelope r.sealedPayload event_id session
      (r.sealedPayload.get "tool_name") (r.sealedPayload.get "input_hash")
      (r.sealedPayload.get "timestamp") adopted) ∧
    actionNumber (flatRecord envelope r.sealedPayload event_id session
      (r.sealedPayload.get "tool_name") (r.sealedPayload.get "input_hash")
      (r.sealedPayload.get "timestamp") adopted) = some r.sealed.sequence_number := by
  have hcarries := flatRecord_carriesSeal envelope r.sealedPayload event_id session adopted
  subst hadopted
  refine ⟨⟨⟨⟨"ACTION_RECORD", ?_⟩, fun _ => ⟨hcarries.fields.tool_name, hcarries.fields.input_hash,
    r.sealed.sequence_number, hcarries.sequence_number⟩, fun _ hne => absurd ?_ hne⟩,
    fun _ => ⟨r, hr, ?_, event_id, hid, ?_⟩⟩, ?_⟩
  · simp [flatRecord, Dict.get_ofFields, List.lookup_cons]
  · simp [flatRecord, Dict.get_ofFields, List.lookup_cons]
  -- the seal stands on the line as it does in the payload, `adopted` being no field of either
  · constructor
    case action_line => exact hcarries.action_line
    case fields => exact hcarries.fields
    all_goals
      simp [flatRecord, Dict.get_ofFields, List.lookup_cons, SealedRecord.get_sealedPayload]
  · simp [flatRecord, Dict.get_ofFields, List.lookup_cons]
  · have htype : (flatRecord envelope r.sealedPayload event_id session
        (r.sealedPayload.get "tool_name") (r.sealedPayload.get "input_hash")
        (r.sealedPayload.get "timestamp") { r.sealed with adopted := true }).get "event_type" =
        .str "ACTION_RECORD" := by
      simp [flatRecord, Dict.get_ofFields, List.lookup_cons]
    rw [actionNumber, htype, if_pos (Json.pyEq_str.mpr rfl), hcarries.sequence_number]
    rfl

/-- A line whose event type is a text other than an action's. -/
theorem LineOf.other {line : Dict} {text : JStr} (htext : line.get "event_type" = .str text)
    (hne : text ≠ "ACTION_RECORD")
    (hpayload : isEventType (.str text) = .ok true → ∃ payload, line.get "payload" = .obj payload) :
    LineOf rt sealed session line ∧ actionNumber line = none := by
  have hkind : (Json.str text).pyEq (.str "ACTION_RECORD") = false := by
    rw [Bool.eq_false_iff, ne_eq, Json.pyEq_str, Json.str.injEq]
    exact hne
  have hline : isActionLine line = false := by
    have hhas : line.has "event_type" :=
      Dict.has_of_get_ne_null (by rw [htext]; exact Json.noConfusion)
    obtain ⟨v, hv⟩ := Option.isSome_iff_exists.mp hhas
    have hval : v = .str text := by rwa [Dict.get, Dict.getD, hv] at htext
    rw [isActionLine, Dict.getD, hv, hval]
    exact hkind
  refine ⟨⟨⟨⟨text, htext⟩, fun h => ?_, fun h _ => hpayload (by rwa [htext] at h)⟩,
    fun h => ?_⟩, ?_⟩
  · rw [htext, Json.str.injEq] at h
    exact absurd h hne
  · rw [hline] at h
    exact absurd h (by simp)
  · rw [actionNumber, htext, hkind]
    rfl

end

/-! ### Spool writes -/

/-- The envelope carries an action that was sealed, or it is another event with its payload. -/
inductive Ready (rt : Runtime) (sealed : JStr → List SealedRecord) (envelope : Dict) : Prop where
  | action (session : JStr) (r : SealedRecord) (mem : r ∈ sealed session)
      (carried : r.Carried rt session envelope)
  | other (not_action : envelope.get "event_type" ≠ .str "ACTION_RECORD")
      (event_type : ∃ e : EventType, envelope.get "event_type" = .str (JStr.ofString e.text))
      (payload : ∃ payload, envelope.get "payload" = .obj payload)

/-- Every sealed action is numbered within the count of its chain. -/
def Counted (sealed : JStr → List SealedRecord) (chains : ChainRegistry) : Prop :=
  ∀ session, ∀ r ∈ sealed session, r.sealed.sequence_number ≤ (chains session).count

/-- What writing the envelopes changes in the JSONL client: the tails of chains, and the files, by
    lines for some of the envelopes in their order. -/
structure FileEffect (rt : Runtime) (sealed : JStr → List SealedRecord) (s s' : JsonlState)
    (written : List Dict) : Prop where
  count : ∀ session, (s'.chains session).count = (s.chains session).count
  files : ∀ session, ∃ lines, s'.files session = s.files session ++ lines ∧
    (lines.filterMap actionNumber).Sublist (written.filterMap (numberIn rt session)) ∧
    ∀ line ∈ lines, LineOf rt (sealed session) session line

/-- And in the cloud client. -/
structure SpoolEffect (rt : Runtime) (s s' : HttpState) (written : List Dict) : Prop where
  store : FileEffect rt s.sealed s.spool s'.spool written
  calls : s'.calls = s.calls
  sealed : s'.sealed = s.sealed
  accepted : s'.accepted = s.accepted
  spooling : s'.spooling = s.spooling

section

variable {rt : Runtime} {sealed : JStr → List SealedRecord} {st st' : JsonlState}
  {s s' : HttpState} {envelope : Dict} {written : List Dict}

/-- A state that is not touched has no effect on the files. -/
theorem FileEffect.refl (st : JsonlState) (written : List Dict) :
    FileEffect rt sealed st st written where
  count _ := rfl
  files session := ⟨[], by simp, by simp, fun line hline => absurd hline (by simp)⟩

/-- Two calls add the lines of the first and then those of the second. -/
theorem FileEffect.trans {st₁ : JsonlState} {written₁ : List Dict}
    (h : FileEffect rt sealed st st₁ written) (h₁ : FileEffect rt sealed st₁ st' written₁) :
    FileEffect rt sealed st st' (written ++ written₁) where
  count session := (h₁.count session).trans (h.count session)
  files session := by
    obtain ⟨lines, hlines, hsub, hof⟩ := h.files session
    obtain ⟨lines₁, hlines₁, hsub₁, hof₁⟩ := h₁.files session
    refine ⟨lines ++ lines₁, by rw [hlines₁, hlines, List.append_assoc], ?_, ?_⟩
    · rw [List.filterMap_append, List.filterMap_append]
      exact hsub.append hsub₁
    · exact fun line hline => (List.mem_append.mp hline).elim (hof line) (hof₁ line)

/-- One line more in one file, and no count changed. -/
theorem FileEffect.append {session : JStr} {line : Dict}
    (hcount : ∀ other, (st'.chains other).count = (st.chains other).count)
    (hfiles : st'.files = Function.update st.files session (st.files session ++ [line]))
    (hline : LineOf rt (sealed session) session line)
    (hnumber : ∀ n, actionNumber line = some n → numberIn rt session envelope = some n) :
    FileEffect rt sealed st st' [envelope] where
  count := hcount
  files other := by
    by_cases hsession : other = session
    · subst hsession
      refine ⟨[line], by rw [hfiles, Function.update_self], ?_, ?_⟩
      · cases hn : actionNumber line with
        | none => simp [hn]
        | some n => simp [hn, hnumber n hn]
      · intro l hl
        rwa [List.mem_singleton.mp hl]
    · exact ⟨[], by rw [hfiles, Function.update_of_ne hsession, List.append_nil], by simp,
        fun l hl => absurd hl (by simp)⟩

/-- Building the record of a carried action adopts its seal. -/
theorem buildAction_carried {session : JStr} {r : SealedRecord}
    (h : r.Carried rt session envelope) (fresh : Uuid) (chains : ChainRegistry) (event_id : Uuid) :
    ∃ response, buildAction rt fresh chains envelope event_id session =
      (.ok (response, flatRecord envelope r.sealedPayload event_id session
          (r.sealedPayload.get "tool_name") (r.sealedPayload.get "input_hash")
          (r.sealedPayload.get "timestamp") { r.sealed with adopted := true }),
       Function.update chains session
        { tail := some r.sealed.self_hash
          count := max (chains session).count r.sealed.sequence_number }) := by
  have hadopt := (chains session).seal_adopt rt fresh (.str session)
    (SealedRecord.get_sealedPayload_action_id r)
    (SealedRecord.get_sealedPayload_sequence_number r)
    (SealedRecord.get_sealedPayload_self_hash r)
  have hprev : r.sealedPayload.get "prev_action_hash" = r.sealed.prev_action_hash := by
    simp [SealedRecord.get_sealedPayload]
  rw [hprev] at hadopt
  have hhas := fun {key} => @SealedRecord.has_sealedPayload r key
  unfold buildAction
  simp only [h.payloadOf_eq, ChainRegistry.sealPayload, Runtime.pyStr_str, hadopt,
    Dict.item_of_has (hhas h.unsealed.tool_name), Dict.item_of_has (hhas h.unsealed.input_hash),
    Dict.item_of_has (hhas h.unsealed.timestamp)]
  exact ⟨_, rfl⟩

/-- The line of another event is its envelope, but for the ids the writer mints. -/
theorem buildNonAction_get (fresh : Uuid) (envelope : Dict) (event_id : Uuid) (event_type : Json)
    {key : String} (hdecision : key ≠ "decision_id") (happroval : key ≠ "approval_id") :
    (buildNonAction fresh envelope event_id event_type).2.get key = envelope.get key := by
  unfold buildNonAction
  split
  · show (envelope.set "decision_id" _).get key = _
    rw [Dict.get_set, if_neg hdecision]
  · split
    · show (envelope.set "approval_id" _).get key = _
      rw [Dict.get_set, if_neg happroval]
    · rfl

/-- Handing a ready envelope to the spool. -/
theorem Ready.handle (h : Ready rt sealed envelope) (hcounted : Counted sealed st.chains)
    (io : CallIO) : FileEffect rt sealed st (st.handle rt io envelope).2 [envelope] := by
  rcases st.handle_effect rt io envelope with ⟨hchains, hfiles⟩ |
    ⟨head, built, chains, hhead, hbuilt, hchains, hfiles⟩
  · exact ⟨fun session => by rw [hchains], fun session => ⟨[], by rw [hfiles, List.append_nil],
      by simp, fun line hline => absurd hline (by simp)⟩⟩
  obtain ⟨hid, htype, hsession⟩ := JsonlState.readHead_ok hhead
  -- An action is taken in with the seal it carries; any other event writes a line without a number.
  cases h with
  | action session r mem carried =>
    rw [htype, carried.event_type, if_pos (Json.pyEq_str.mpr rfl)] at hbuilt
    replace hsession := hsession.trans carried.session_id
    rw [carried.event_id] at hid
    obtain ⟨response, hbuild⟩ := buildAction_carried carried io.fresh st.chains head.event_id
    rw [hsession, hbuild] at hbuilt
    obtain ⟨rfl, rfl⟩ := Prod.mk.inj hbuilt
    -- The number carried is not above the count, so adopting it leaves the count.
    have hcount : ∀ other, ((st.handle rt io envelope).2.chains other).count =
        (st.chains other).count := by
      intro other
      rw [hchains]
      by_cases hother : other = session
      · subst hother
        rw [Function.update_self]
        exact max_eq_left (hcounted other r mem)
      · rw [Function.update_of_ne hother]
    rcases hfiles with hfiles | ⟨response', line, hline, hfiles⟩
    · exact ⟨hcount, fun other => ⟨[], by rw [hfiles, List.append_nil], by simp,
        fun l hl => absurd hl (by simp)⟩⟩
    · obtain ⟨-, rfl⟩ := Prod.mk.inj (Except.ok.inj hline)
      rw [hsession] at hfiles
      obtain ⟨hof, hnumber⟩ := LineOf.flat mem envelope hid rfl
      refine .append hcount hfiles hof fun n hn => ?_
      rw [carried.numberIn_self, ← hn, hnumber]
  | other not_action event_type payload =>
    have hkind : (envelope.get "event_type").pyEq (.str "ACTION_RECORD") = false := by
      rw [Bool.eq_false_iff, ne_eq, Json.pyEq_str]
      exact not_action
    rw [htype, hkind] at hbuilt
    obtain ⟨rfl, rfl⟩ := Prod.mk.inj hbuilt
    have hcount : ∀ other, ((st.handle rt io envelope).2.chains other).count =
        (st.chains other).count := fun other => by rw [hchains]
    rcases hfiles with hfiles | ⟨response', line, hline, hfiles⟩
    · exact ⟨hcount, fun other => ⟨[], by rw [hfiles, List.append_nil], by simp,
        fun l hl => absurd hl (by simp)⟩⟩
    · obtain ⟨e, he⟩ := event_type
      obtain ⟨fields, hfields⟩ := payload
      have hline : (buildNonAction io.fresh envelope head.event_id (envelope.get "event_type")).2 =
          line := congrArg Prod.snd (Except.ok.inj hline)
      have hkeep : ∀ key, key ≠ "decision_id" → key ≠ "approval_id" →
          line.get key = envelope.get key := by
        intro key hdecision happroval
        rw [← hline]
        exact buildNonAction_get _ _ _ _ hdecision happroval
      obtain ⟨hof, hnumber⟩ := @LineOf.other rt (sealed head.session_id)
        head.session_id line (JStr.ofString e.text)
        (by rw [hkeep "event_type" (by decide) (by decide), he])
        (fun heq => not_action (by rw [he, heq]))
        (fun _ => ⟨fields, by rw [hkeep "payload" (by decide) (by decide), hfields]⟩)
      refine .append hcount hfiles hof fun n hn => ?_
      rw [hnumber] at hn
      exact absurd hn (by simp)

/-- Nothing written has no effect. -/
theorem SpoolEffect.refl (s : HttpState) (written : List Dict) : SpoolEffect rt s s written :=
  ⟨.refl _ _, rfl, rfl, rfl, rfl⟩

/-- Two effects, one after the other. -/
theorem SpoolEffect.trans {s₁ : HttpState} {written₁ : List Dict}
    (h : SpoolEffect rt s s₁ written) (h₁ : SpoolEffect rt s₁ s' written₁) :
    SpoolEffect rt s s' (written ++ written₁) where
  store := h.store.trans (by have := h₁.store; rwa [h.sealed] at this)
  calls := h₁.calls.trans h.calls
  sealed := h₁.sealed.trans h.sealed
  accepted := h₁.accepted.trans h.accepted
  spooling := h₁.spooling.trans h.spooling

/-- Accounting for a lost record touches only the ledgers. -/
theorem onSpoolWriteFailure_effect (cfg : HttpConfig) (io : SpoolIO) (s : HttpState)
    (envelope : Dict) :
    ∃ ledgers, (s.onSpoolWriteFailure rt cfg io envelope).2 = { s with ledgers := ledgers } := by
  unfold HttpState.onSpoolWriteFailure
  cases isControlRecord envelope with
  | error e => exact ⟨s.ledgers, rfl⟩
  | ok control =>
    cases control with
    | true => exact ⟨s.ledgers, rfl⟩
    | false =>
      cases payloadOf envelope with
      | error e => exact ⟨_, rfl⟩
      | ok payload =>
        by_cases hfail : cfg.fail_on_loss = true
        · simp only [hfail, if_true]
          exact ⟨_, rfl⟩
        · simp only [hfail, Bool.false_eq_true, if_false]
          exact ⟨_, rfl⟩

/-- `_spool_one` on a ready envelope. -/
theorem spoolOne_effect (cfg : HttpConfig) (io : SpoolIO) (h : Ready rt s.sealed envelope)
    (hcounted : Counted s.sealed s.spool.chains) :
    SpoolEffect rt s (s.spoolOne rt cfg io envelope).2 [envelope] := by
  have hstore := h.handle hcounted io.toCallIO
  have hset : SpoolEffect rt s
      { s with spool := (s.spool.handle rt io.toCallIO envelope).2 } [envelope] :=
    ⟨hstore, rfl, rfl, rfl, rfl⟩
  unfold HttpState.spoolOne
  cases hresult : s.spool.handle rt io.toCallIO envelope with
  | mk result spool =>
    rw [hresult] at hset
    cases result with
    | ok response => exact hset
    | error e =>
      by_cases hos : e = .osError
      · subst hos
        obtain ⟨ledgers, hledgers⟩ := @onSpoolWriteFailure_effect rt cfg io
          { s with spool := spool } envelope
        simp only [hledgers]
        exact ⟨hset.store, rfl, rfl, rfl, rfl⟩
      · cases e <;> first | exact hset | exact absurd rfl hos

/-- `_flush_ledger` appends an annotation, or nothing. -/
theorem flushLedger_effect (io : SpoolIO) (s : HttpState) (session : JStr) :
    SpoolEffect rt s (s.flushLedger io session) [] := by
  unfold HttpState.flushLedger
  cases s.ledgers session with
  | none => exact .refl _ _
  | some ledger =>
    by_cases hskip : (ledger.count = 0 || !io.annotate_ok) = true
    · simp only [hskip, if_true]
      exact .refl _ _
    · simp only [hskip, Bool.false_eq_true, if_false]
      refine ⟨⟨fun _ => rfl, fun other => ?_⟩, rfl, rfl, rfl, rfl⟩
      by_cases hother : other = session
      · subst hother
        obtain ⟨hof, hnumber⟩ := @LineOf.other rt (s.sealed other)
          other (ledger.asRecord io.now_annotated) "RECORD_LOSS"
          (by simp [LossLedger.asRecord, Dict.get_ofFields])
          (fun h => absurd (JStr.ofString_inj.mp h) (by decide))
          (fun h => absurd h (by simp [isEventType, EventType.text, Json.pyEq_str]))
        refine ⟨[ledger.asRecord io.now_annotated], by simp, by simp [hnumber], fun l hl => ?_⟩
        rwa [List.mem_singleton.mp hl]
      · exact ⟨[], by simp [hother], by simp, fun l hl => absurd hl (by simp)⟩

/-- **Spool writes.** Writing ready envelopes appends lines for some of them, in their order. -/
theorem writeToSpool_effect (cfg : HttpConfig) (io : ℕ → SpoolIO) {batch : List (Dict × ℕ)}
    (h : ∀ p ∈ batch, Ready rt s.sealed p.1) (hcounted : Counted s.sealed s.spool.chains) :
    SpoolEffect rt s (s.writeToSpool rt cfg io batch).2 (batch.map Prod.fst) := by
  -- The induction is over the batch; what one envelope leaves of the chains is what the next one
  -- needs.
  induction batch generalizing s with
  | nil => exact .refl _ _
  | cons p rest ih =>
    obtain ⟨envelope, slot⟩ := p
    have hone := spoolOne_effect cfg (io slot) (h (envelope, slot) List.mem_cons_self) hcounted
    unfold HttpState.writeToSpool
    cases hresult : s.spoolOne rt cfg (io slot) envelope with
    | mk result s₁ =>
      rw [hresult] at hone
      cases result with
      | error e => simpa using hone.trans (.refl s₁ (rest.map Prod.fst))
      | ok response =>
        -- A close hands over the session's losses behind its own line, which adds no line of the
        -- batch.
        have hflush : SpoolEffect rt s
            (if (envelope.get "event_type").pyEq (.str "SESSION_CLOSE") then
              s₁.flushLedger (io slot) (rt.pyStr (envelope.get "session_id")) else s₁)
            [envelope] := by
          split
          · exact hone.trans (flushLedger_effect _ _ _)
          · exact hone
        simp only []
        generalize (if (envelope.get "event_type").pyEq (.str "SESSION_CLOSE") then
          s₁.flushLedger (io slot) (rt.pyStr (envelope.get "session_id")) else s₁) = s₂ at hflush ⊢
        have hrest := ih (s := s₂)
          (fun p hp => by rw [hflush.sealed]; exact h p (List.mem_cons_of_mem _ hp))
          (fun session r hr => by
            rw [hflush.sealed] at hr
            rw [hflush.store.count]
            exact hcounted session r hr)
        have hall := hflush.trans hrest
        cases htail : s₂.writeToSpool rt cfg io rest with
        | mk tail s₃ =>
          rw [htail] at hall
          cases tail <;> exact hall

end

/-! ### Sealing -/

/-- The client after the action was sealed. -/
def HttpState.extend (s : HttpState) (session : JStr) (r : SealedRecord) : HttpState :=
  { s with
    spool := { s.spool with
      chains := Function.update s.spool.chains session
        { tail := some r.sealed.self_hash, count := (s.spool.chains session).count + 1 } }
    sealed := Function.update s.sealed session (s.sealed session ++ [r]) }

/-- What sealing the envelopes of a call does: other events are left alone, and each action is
    minted a seal at the end of its session's chain. -/
inductive Seals (rt : Runtime) : HttpState → List Dict → List Dict → HttpState → Prop
  | nil (s : HttpState) : Seals rt s [] [] s
  | skip {s s' : HttpState} {envelope : Dict} {inputs batch : List Dict}
      (not_action : envelope.get "event_type" ≠ .str "ACTION_RECORD")
      (event_type : ∃ e : EventType, envelope.get "event_type" = .str (JStr.ofString e.text))
      (payload : ∃ payload, envelope.get "payload" = .obj payload)
      (rest : Seals rt s inputs batch s') : Seals rt s (envelope :: inputs) (envelope :: batch) s'
  | mint {s s' : HttpState} {input envelope : Dict} {inputs batch : List Dict} (fresh : Uuid)
      (r : SealedRecord) (action : input.get "event_type" = .str "ACTION_RECORD")
      (payload : input.get "payload" = .obj r.payload)
      (carried : r.Carried rt (sessionOf rt input) envelope)
      (minted : r.sealed = (s.spool.chains (sessionOf rt input)).minted rt fresh
        (.str (sessionOf rt input)) r.payload)
      (rest : Seals rt (s.extend (sessionOf rt input) r) inputs batch s') :
      Seals rt s (input :: inputs) (envelope :: batch) s'

section

variable {rt : Runtime} {s s' : HttpState} {batch : List Dict}

/-- **Sealing** what the SDK emits raises nothing. -/
theorem sealAll_seals {envelopes : List (Dict × Uuid)} (h : ∀ p ∈ envelopes, Emitted p.1) :
    ∃ batch s', s.sealAll rt envelopes = (.ok batch, s') ∧
      Seals rt s (envelopes.map Prod.fst) batch s' := by
  induction envelopes generalizing s with
  | nil => exact ⟨[], s, rfl, .nil s⟩
  | cons p rest ih =>
    obtain ⟨envelope, fresh⟩ := p
    have hemitted := h (envelope, fresh) List.mem_cons_self
    have hrest := fun p hp => h p (List.mem_cons_of_mem _ hp)
    obtain ⟨payload, hpayload⟩ := hemitted.payload
    by_cases haction : envelope.get "event_type" = .str "ACTION_RECORD"
    · have hunsealed := hemitted.unsealed haction payload hpayload
      have hmint := (s.spool.chains (rt.pyStr (envelope.get "session_id"))).seal_mint rt fresh
        (envelope.get "session_id") hunsealed
      -- the record of the action, and its envelope with the seal
      let r : SealedRecord :=
        { event_id := envelope.get "event_id"
          payload := payload
          sealed := (s.spool.chains (rt.pyStr (envelope.get "session_id"))).minted rt fresh
            (envelope.get "session_id") payload }
      have hone : s.sealOne rt fresh envelope =
          (.ok (envelope.set "payload" (.obj r.sealedPayload)),
           s.extend (sessionOf rt envelope) r) := by
        unfold HttpState.sealOne
        have hsealed : isSealed payload = false := by
          simp [isSealed, hunsealed.no_self_hash, Json.isNone]
        simp only [haction, Json.pyEq_str.mpr rfl, hpayload, hsealed, ChainRegistry.sealPayload,
          hmint]
        rfl
      have hcarried : r.Carried rt (sessionOf rt envelope)
          (envelope.set "payload" (.obj r.sealedPayload)) := by
        constructor
        case unsealed => exact hunsealed
        all_goals simp [sessionOf, Dict.get_set, haction, r]
      obtain ⟨batch, s', hbatch, hseals⟩ :=
        ih (s := s.extend (sessionOf rt envelope) r) hrest
      refine ⟨envelope.set "payload" (.obj r.sealedPayload) :: batch, s', ?_,
        .mint fresh r haction hpayload hcarried rfl hseals⟩
      simp only [HttpState.sealAll, hone, hbatch]
    · have hkind : (envelope.get "event_type").pyEq (.str "ACTION_RECORD") = false := by
        rw [Bool.eq_false_iff, ne_eq, Json.pyEq_str]
        exact haction
      obtain ⟨batch, s', hbatch, hseals⟩ := ih (s := s) hrest
      refine ⟨envelope :: batch, s', ?_,
        .skip haction hemitted.event_type hemitted.payload hseals⟩
      simp only [HttpState.sealAll, HttpState.sealOne, hkind, Bool.not_false, if_true, hbatch]

/-- The count of each chain is the number of its actions, which are numbered `1, 2, …`. -/
def Numbered (s : HttpState) : Prop :=
  ∀ session, (s.spool.chains session).count = (s.sealed session).length ∧
    ∀ (i : ℕ) (hi : i < (s.sealed session).length),
      (s.sealed session)[i].sealed.sequence_number = i + 1

/-- No number sealed so far lies beyond the count of its chain. -/
theorem Numbered.counted (h : Numbered s) : Counted s.sealed s.spool.chains := by
  intro session r hr
  obtain ⟨i, hi, rfl⟩ := List.mem_iff_getElem.mp hr
  obtain ⟨hcount, hnumber⟩ := h session
  rw [hcount, hnumber i hi]
  omega

/-- One more action gets the next number. -/
theorem Numbered.extend (h : Numbered s) {session : JStr} {r : SealedRecord}
    (hr : r.sealed.sequence_number = (s.spool.chains session).count + 1) :
    Numbered (s.extend session r) := by
  intro other
  obtain ⟨hcount, hnumber⟩ := h other
  by_cases hother : other = session
  · subst hother
    simp only [HttpState.extend, Function.update_self, List.length_append, List.length_singleton]
    refine ⟨by omega, fun i hi => ?_⟩
    rcases Nat.lt_or_ge i (s.sealed other).length with hlt | hge
    · rw [List.getElem_append_left hlt]
      exact hnumber i hlt
    · have heq : i = (s.sealed other).length := by omega
      subst heq
      simp [hr, hcount]
  · simp only [HttpState.extend, Function.update_of_ne hother]
    exact ⟨hcount, hnumber⟩

/-- What sealing a batch leaves as it was, and what it adds. -/
structure SealEffect (rt : Runtime) (s s' : HttpState) (batch : List Dict) : Prop where
  files : s'.spool.files = s.spool.files
  calls : s'.calls = s.calls
  accepted : s'.accepted = s.accepted
  spooling : s'.spooling = s.spooling
  numbered : Numbered s'
  sealed : ∀ session, ∃ minted : List SealedRecord, s'.sealed session = s.sealed session ++ minted ∧
    batch.filterMap (numberIn rt session) = minted.map fun r => r.sealed.sequence_number
  ready : ∀ envelope ∈ batch, Ready rt s'.sealed envelope

/-- **A sealed batch.** Its numbers are those of the new actions, in order. -/
theorem Seals.effect {inputs : List Dict} (h : Seals rt s inputs batch s')
    (hnumbered : Numbered s) :
    SealEffect rt s s' batch := by
  -- The induction is over the derivation: nothing, an event that is no action, or an action.
  induction h with
  | nil s =>
    exact ⟨rfl, rfl, rfl, rfl, hnumbered, fun _ => ⟨[], by simp, by simp⟩,
      fun e he => absurd he (by simp)⟩
  | skip not_action event_type payload rest ih =>
    have heffect := ih hnumbered
    refine ⟨heffect.files, heffect.calls, heffect.accepted, heffect.spooling, heffect.numbered,
      fun session => ?_, ?_⟩
    · rw [List.filterMap_cons_none (numberIn_other not_action session)]
      exact heffect.sealed session
    · intro e he
      rcases List.mem_cons.mp he with rfl | he
      · exact .other not_action event_type payload
      · exact heffect.ready e he
  | @mint s s' input envelope inputs batch fresh r action payload carried minted rest ih =>
    have heffect := ih (hnumbered.extend (by rw [minted]; rfl))
    refine ⟨heffect.files, heffect.calls, heffect.accepted, heffect.spooling, heffect.numbered,
      fun other => ?_, ?_⟩
    · obtain ⟨more, hmore, hnumbers⟩ := heffect.sealed other
      -- The new record counts for its own session only.
      by_cases hother : other = sessionOf rt input
      · subst hother
        refine ⟨r :: more, ?_, ?_⟩
        · rw [hmore]
          simp [HttpState.extend]
        · rw [List.filterMap_cons_some carried.numberIn_self, hnumbers]
          rfl
      · refine ⟨more, ?_, ?_⟩
        · rw [hmore]
          simp [HttpState.extend, hother]
        · rw [List.filterMap_cons_none (carried.numberIn_other hother), hnumbers]
    · intro e he
      rcases List.mem_cons.mp he with rfl | he
      · obtain ⟨more, hmore, -⟩ := heffect.sealed (sessionOf rt input)
        refine .action _ r ?_ carried
        rw [hmore]
        simp [HttpState.extend]
      · exact heffect.ready e he

end

/-! ### One step -/

/-- The batch of a waiting call. -/
def HttpTask.batch : HttpTask → Option HttpBatch
  | .idle => none
  | .posting b => some b
  | .backoff b => some b

/-- The batch after a reply. -/
def HttpBatch.replied (rt : Runtime) (cfg : HttpConfig) (b : HttpBatch) (reply : HttpReply) :
    HttpBatch :=
  b.receive (interpret rt cfg (b.select b.pending) reply)

/-- The label hands over envelopes as the SDK emits them, if any. -/
def HttpState.Label.Emitted : HttpState.Label → Prop
  | .call _ envelopes _ => ∀ p ∈ envelopes, RootSign.Emitted p.1
  | _ => True

/-- What one step does: it seals the batch of a call, and it writes to the spool that batch, or what
    a call gives up on. -/
structure HttpMoves (rt : Runtime) (cfg : HttpConfig) (l : HttpState.Label) (s s₁ s' : HttpState)
    (inputs batch written : List Dict) : Prop where
  seals : Seals rt s inputs batch s₁
  origin : inputs = [] ∨ ∃ t envelopes io, l = .call t envelopes io ∧
    inputs = envelopes.map Prod.fst
  store : FileEffect rt s₁.sealed s₁.spool s'.spool written
  sealed : s'.sealed = s₁.sealed
  writes : written = [] ∨ written = batch ∨ ∃ t reply io b, l = .reply t reply io ∧
    s.calls t = .posting b ∧ (b.replied rt cfg reply).isOver cfg = true ∧
    cfg.enable_spool = true ∧
    written = (b.replied rt cfg reply).select (b.replied rt cfg reply).unsent
  accepted : ∀ e ∈ s'.accepted, e ∈ s.accepted ∨
    ∃ t b, (s.calls t).batch = some b ∧ e ∈ b.envelopes
  flight : ∀ t b', (s'.calls t).batch = some b' → b'.envelopes = batch ∨
    ∃ b, (s.calls t).batch = some b ∧ b'.envelopes = b.envelopes

namespace HttpBatch

variable {b : HttpBatch} {e : Dict}

/-- The envelopes of the first slots are the first envelopes. -/
theorem filterMap_range (envelopes : List Dict) (n : ℕ) :
    (List.range n).filterMap (fun i => envelopes[i]?) = envelopes.take n := by
  induction n with
  | zero => simp
  | succ n ih =>
    rw [List.range_succ, List.filterMap_append, ih, List.take_add_one]
    cases h : envelopes[n]? <;> simp [h]

/-- What is left unsent is some of the envelopes, in their order. -/
theorem select_unsent_sublist (b : HttpBatch) : (b.select b.unsent).Sublist b.envelopes := by
  have hslots : b.unsent.Sublist (List.range b.results.length) := List.filter_sublist
  have h := hslots.filterMap fun i => b.envelopes[i]?
  rw [filterMap_range] at h
  exact h.trans (List.take_sublist _ _)

/-- No more envelopes are selected than there are slots. -/
theorem length_select_le (b : HttpBatch) (slots : List ℕ) :
    (b.select slots).length ≤ slots.length :=
  List.length_filterMap_le _ _

/-- What is selected is of the batch. -/
theorem mem_select {slots : List ℕ} (h : e ∈ b.select slots) : e ∈ b.envelopes := by
  obtain ⟨i, -, hi⟩ := List.mem_filterMap.mp h
  exact List.mem_of_getElem? hi

end HttpBatch

section

variable {rt : Runtime} {cfg : HttpConfig} {s s' : HttpState} {l : HttpState.Label}

/-- A task that is set in flight with a batch of its own leaves the batches of the others. -/
theorem flight_of_update {t : ℕ} {task : HttpTask} {batch : List Dict} {calls : ℕ → HttpTask}
    (h : ∀ b', task.batch = some b' → b'.envelopes = batch ∨
      ∃ b, (calls t).batch = some b ∧ b'.envelopes = b.envelopes) (u : ℕ) (b' : HttpBatch)
    (hb' : (Function.update calls t task u).batch = some b') :
    b'.envelopes = batch ∨ ∃ b, (calls u).batch = some b ∧ b'.envelopes = b.envelopes := by
  by_cases hu : u = t
  · subst hu
    rw [Function.update_self] at hb'
    exact h b' hb'
  · rw [Function.update_of_ne hu] at hb'
    exact Or.inr ⟨b', hb', rfl⟩

/-- A call moves. -/
theorem handleBatch_moves (hnumbered : Numbered s) {t : ℕ} {envelopes : List (Dict × Uuid)}
    (io : ℕ → SpoolIO) (h : ∀ p ∈ envelopes, Emitted p.1) :
    ∃ s₁ inputs batch written, HttpMoves rt cfg (.call t envelopes io) s s₁
      (s.handleBatch rt cfg t envelopes io) inputs batch written := by
  unfold HttpState.handleBatch
  -- Nothing to send, a spool that takes everything, or a batch to post.
  by_cases hempty : envelopes.isEmpty = true
  · refine ⟨s, [], [], [], .nil s, Or.inl rfl, ?_, ?_, Or.inl rfl, ?_, ?_⟩ <;>
      simp only [hempty, if_true, HttpState.returns]
    · exact .refl _ _
    · exact fun e he => Or.inl he
    · exact flight_of_update fun b' hb' => absurd hb' (by simp [HttpTask.batch])
  · obtain ⟨batch, s₁, hbatch, hseals⟩ := @sealAll_seals rt s _ h
    have heffect := hseals.effect hnumbered
    simp only [hempty, Bool.false_eq_true, if_false, hbatch]
    by_cases hspooling : s₁.spooling = true
    · -- the whole batch goes to the spool at once
      have hspool := @writeToSpool_effect rt s₁ cfg io batch.zipIdx
        (fun p hp => heffect.ready _ (List.fst_mem_of_mem_zipIdx hp)) heffect.numbered.counted
      rw [List.zipIdx_map_fst] at hspool
      refine ⟨s₁, _, batch, batch, hseals, Or.inr ⟨t, envelopes, io, rfl, rfl⟩, ?_, ?_,
        Or.inr (Or.inl rfl), ?_, ?_⟩ <;> simp only [hspooling, if_true, HttpState.returns]
      · exact hspool.store
      · exact hspool.sealed
      · rw [hspool.accepted, heffect.accepted]
        exact fun e he => Or.inl he
      · rw [hspool.calls, heffect.calls]
        exact flight_of_update fun b' hb' => absurd hb' (by simp [HttpTask.batch])
    · refine ⟨s₁, _, batch, [], hseals, Or.inr ⟨t, envelopes, io, rfl, rfl⟩, ?_, ?_, Or.inl rfl,
        ?_, ?_⟩ <;> simp only [hspooling, Bool.false_eq_true, if_false, HttpState.setCall]
      · exact .refl _ _
      · rw [heffect.accepted]
        exact fun e he => Or.inl he
      · rw [heffect.calls]
        refine flight_of_update fun b' hb' => Or.inl ?_
        obtain rfl := Option.some.inj hb'
        rfl

/-- The end of a call moves. -/
theorem finish_moves {b : HttpBatch} (hready : ∀ e ∈ b.envelopes, Ready rt s.sealed e)
    (hcounted : Counted s.sealed s.spool.chains) (t : ℕ) (io : ℕ → SpoolIO) :
    ∃ written, FileEffect rt s.sealed s.spool (s.finish rt cfg t b io).spool written ∧
      (s.finish rt cfg t b io).sealed = s.sealed ∧
      (s.finish rt cfg t b io).accepted = s.accepted ∧
      (s.finish rt cfg t b io).calls = Function.update s.calls t .idle ∧
      (written = [] ∨ cfg.enable_spool = true ∧ written = b.select b.unsent) := by
  unfold HttpState.finish
  by_cases hskip : (b.unsent.isEmpty || !cfg.enable_spool) = true
  · simp only [hskip, if_true, HttpState.returns]
    exact ⟨[], .refl _ _, trivial, trivial, trivial, Or.inl rfl⟩
  · have henable : cfg.enable_spool = true := by
      cases he : cfg.enable_spool
      · exact absurd (by simp [he]) hskip
      · rfl
    -- entering spool mode moves no record
    obtain ⟨s₁, hs₁, hspool, hsealed, haccepted, hcalls⟩ : ∃ s₁,
        s.enterSpoolMode (b.unsent.head?.bind fun i => b.results[i]?) = s₁ ∧
          s₁.spool = s.spool ∧ s₁.sealed = s.sealed ∧ s₁.accepted = s.accepted ∧
          s₁.calls = s.calls := by
      unfold HttpState.enterSpoolMode
      split <;> exact ⟨_, rfl, rfl, rfl, rfl, rfl⟩
    have hwrite := @writeToSpool_effect rt s₁ cfg io
      ((b.select b.unsent).zip b.unsent)
      (fun p hp => by
        rw [hsealed]
        exact hready _ (b.mem_select (List.of_mem_zip hp).1))
      (by rwa [hsealed, hspool])
    rw [List.map_fst_zip (b.length_select_le _)] at hwrite
    have hstore := hwrite.store
    rw [hsealed, hspool] at hstore
    simp only [hskip, Bool.false_eq_true, if_false, hs₁]
    refine ⟨b.select b.unsent, ?_⟩
    split <;>
      exact ⟨hstore, hwrite.sealed.trans hsealed, hwrite.accepted.trans haccepted,
        by simp only [HttpState.returns, hwrite.calls, hcalls], Or.inr ⟨henable, rfl⟩⟩

/-- A reply moves. -/
theorem answered_moves (hready : ∀ t b, (s.calls t).batch = some b →
      ∀ e ∈ b.envelopes, Ready rt s.sealed e) (hcounted : Counted s.sealed s.spool.chains)
    {t : ℕ} {b : HttpBatch} (hb : s.calls t = .posting b) (reply : HttpReply) (io : ℕ → SpoolIO) :
    ∃ written, HttpMoves rt cfg (.reply t reply io) s s (s.answered rt cfg t b reply io) [] []
      written := by
  have hbatch : (s.calls t).batch = some b := by rw [hb]; rfl
  -- the history of accepted envelopes grows by some of the batch
  obtain ⟨s₁, hs₁, hspool, hsealed, hcalls, haccepted⟩ : ∃ s₁,
      ({ s with
          accepted := s.accepted ++ HttpState.acceptedOf (b.select b.pending)
            (interpret rt cfg (b.select b.pending) reply) } : HttpState) = s₁ ∧
        s₁.spool = s.spool ∧ s₁.sealed = s.sealed ∧ s₁.calls = s.calls ∧
        ∀ e ∈ s₁.accepted, e ∈ s.accepted ∨ ∃ t b, (s.calls t).batch = some b ∧
          e ∈ b.envelopes := by
    refine ⟨_, rfl, rfl, rfl, rfl, fun e he => ?_⟩
    refine (List.mem_append.mp he).imp id fun he => ⟨t, b, hbatch, ?_⟩
    obtain ⟨p, hp, rfl⟩ := List.mem_map.mp he
    exact b.mem_select (List.of_mem_zip (List.mem_of_mem_filter hp)).1
  have hshow : s.answered rt cfg t b reply io =
      if (b.replied rt cfg reply).isOver cfg then s₁.finish rt cfg t (b.replied rt cfg reply) io
      else s₁.setCall t (.backoff { b.replied rt cfg reply with attempt := b.attempt + 1 }) := by
    rw [← hs₁]
    rfl
  rw [hshow]
  by_cases hover : (b.replied rt cfg reply).isOver cfg = true
  · obtain ⟨written, hstore, hsealed', haccepted', hcalls', hwritten⟩ :=
      @finish_moves rt cfg s₁ (b.replied rt cfg reply)
        (fun e he => by
          rw [hsealed]
          exact hready t b hbatch e he) (by rwa [hsealed, hspool]) t io
    rw [hsealed, hspool] at hstore
    rw [if_pos hover]
    refine ⟨written, .nil s, Or.inl rfl, hstore, ?_, ?_, ?_, ?_⟩
    · exact hsealed'.trans hsealed
    · exact hwritten.imp id fun h => Or.inr ⟨t, reply, io, b, rfl, hb, hover, h.1, h.2⟩
    · rwa [haccepted']
    · rw [hcalls', hcalls]
      exact flight_of_update fun b' hb' => absurd hb' (by simp [HttpTask.batch])
  · rw [if_neg hover]
    refine ⟨[], .nil s, Or.inl rfl, ?_, hsealed, Or.inl rfl, haccepted, ?_⟩
    · show FileEffect rt s.sealed s.spool s₁.spool []
      rw [hspool]
      exact .refl _ _
    · simp only [HttpState.setCall, hcalls]
      refine flight_of_update fun b' hb' => Or.inr ⟨b, hbatch, ?_⟩
      obtain rfl := Option.some.inj hb'
      rfl

/-- Waiting elsewhere with the same batch, or no longer. -/
theorem setCall_moves (t : ℕ) (task : HttpTask)
    (h : ∀ b', task.batch = some b' → ∃ b, (s.calls t).batch = some b ∧ b' = b) :
    HttpMoves rt cfg l s s (s.setCall t task) [] [] [] where
  seals := .nil s
  origin := Or.inl rfl
  store := .refl _ _
  sealed := rfl
  writes := Or.inl rfl
  accepted e he := Or.inl he
  flight := flight_of_update fun b' hb' => by
    obtain ⟨b, hb, rfl⟩ := h b' hb'
    exact Or.inr ⟨_, hb, rfl⟩

/-! ### The invariant -/

/-- What holds in every state: the actions of each session are numbered `1, 2, …`; everything in
    flight, accepted or spooled carries one of them; a batch in flight is in order. -/
structure CloudInv (rt : Runtime) (s : HttpState) : Prop where
  numbered : Numbered s
  lines : ∀ session, ∀ line ∈ s.spool.files session, LineOf rt (s.sealed session) session line
  flight : ∀ t b, (s.calls t).batch = some b → ∀ e ∈ b.envelopes, Ready rt s.sealed e
  ascending : ∀ t b, (s.calls t).batch = some b → ∀ session,
    (b.envelopes.filterMap (numberIn rt session)).Pairwise (· < ·)
  accepted : ∀ e ∈ s.accepted, Ready rt s.sealed e

/-- **Every step** moves as a step may. -/
theorem step_moves (hinv : CloudInv rt s) (hl : l.Emitted) (hstep : s.step rt cfg l = some s') :
    ∃ s₁ inputs batch written, HttpMoves rt cfg l s s₁ s' inputs batch written := by
  cases l with
  | call t envelopes io =>
    -- a call that is not idle cannot be called, one that is not posting gets no reply
    unfold HttpState.step at hstep
    cases htask : s.calls t with
    | posting b => simp [htask] at hstep
    | backoff b => simp [htask] at hstep
    | idle =>
      simp only [htask] at hstep
      obtain rfl := Option.some.inj hstep
      exact handleBatch_moves hinv.numbered io hl
  | reply t reply io =>
    unfold HttpState.step at hstep
    cases htask : s.calls t with
    | idle => simp [htask] at hstep
    | backoff b => simp [htask] at hstep
    | posting b =>
      simp only [htask] at hstep
      obtain rfl := Option.some.inj hstep
      obtain ⟨written, hmoves⟩ :=
        answered_moves hinv.flight hinv.numbered.counted htask reply io
      exact ⟨s, [], [], written, hmoves⟩
  | wake t =>
    unfold HttpState.step at hstep
    cases htask : s.calls t with
    | idle => simp [htask] at hstep
    | posting b => simp [htask] at hstep
    | backoff b =>
      simp only [htask] at hstep
      obtain rfl := Option.some.inj hstep
      refine ⟨s, [], [], [], setCall_moves t _ fun b' hb' => ⟨b, by rw [htask]; rfl, ?_⟩⟩
      exact (Option.some.inj hb').symm
  | cancel t =>
    have hnone : ∀ b', HttpTask.idle.batch = some b' → ∃ b, (s.calls t).batch = some b ∧ b' = b :=
      fun b' hb' => absurd hb' (by simp [HttpTask.batch])
    unfold HttpState.step at hstep
    cases htask : s.calls t with
    | idle => simp [htask] at hstep
    -- a cancelled call forgets its batch, and nothing else
    | posting b =>
      simp only [htask] at hstep
      obtain rfl := Option.some.inj hstep
      exact ⟨s, [], [], [], setCall_moves t _ hnone⟩
    | backoff b =>
      simp only [htask] at hstep
      obtain rfl := Option.some.inj hstep
      exact ⟨s, [], [], [], setCall_moves t _ hnone⟩

/-- A line of a record stays one when more are sealed. -/
theorem LineOf.mono {sealed sealed' : List SealedRecord} {session : JStr} {line : Dict}
    (h : LineOf rt sealed session line) (hsub : ∀ r ∈ sealed, r ∈ sealed') :
    LineOf rt sealed' session line where
  written := h.written
  carries hline := by
    obtain ⟨r, hr, hrest⟩ := h.carries hline
    exact ⟨r, hsub r hr, hrest⟩

/-- An envelope that is ready stays so when more records are sealed. -/
theorem Ready.mono {sealed sealed' : JStr → List SealedRecord} {e : Dict}
    (h : Ready rt sealed e) (hsub : ∀ session, ∀ r ∈ sealed session, r ∈ sealed' session) :
    Ready rt sealed' e := by
  cases h with
  | action session r mem carried => exact .action session r (hsub session r mem) carried
  | other not_action event_type payload => exact .other not_action event_type payload

/-- The numbers of a session's actions ascend. -/
theorem Numbered.ascending (h : Numbered s) (session : JStr) :
    ((s.sealed session).map fun r => r.sealed.sequence_number).Pairwise (· < ·) := by
  rw [List.pairwise_map, List.pairwise_iff_getElem]
  intro i j hi hj hij
  rw [(h session).2 i hi, (h session).2 j hj]
  omega

/-- A sealed batch is in order, after all that was sealed before. -/
theorem SealEffect.ascending {s₁ : HttpState} {batch : List Dict} (h : SealEffect rt s s₁ batch)
    (session : JStr) :
    (batch.filterMap (numberIn rt session)).Pairwise (· < ·) ∧
      ∀ r ∈ s.sealed session, ∀ n ∈ batch.filterMap (numberIn rt session),
        r.sealed.sequence_number < n := by
  obtain ⟨minted, hminted, hnumbers⟩ := h.sealed session
  have hall := h.numbered.ascending session
  rw [hminted, List.map_append, List.pairwise_append] at hall
  rw [hnumbers]
  exact ⟨hall.2.1, fun r hr n hn => hall.2.2 _ (List.mem_map_of_mem hr) n hn⟩

/-- A record once sealed is not forgotten. -/
theorem SealEffect.mem {s₁ : HttpState} {batch : List Dict} (h : SealEffect rt s s₁ batch)
    (session : JStr) : ∀ r ∈ s.sealed session, r ∈ s₁.sealed session := by
  intro r hr
  obtain ⟨minted, hminted, -⟩ := h.sealed session
  rw [hminted]
  exact List.mem_append_left _ hr

/-- A new client has sealed nothing and written nothing. -/
theorem CloudInv.init (rt : Runtime) : CloudInv rt HttpState.init where
  numbered _ := ⟨rfl, fun i hi => absurd hi (by simp [HttpState.init])⟩
  lines _ line hline := absurd hline (by simp [HttpState.init, JsonlState.init])
  flight t b hb := absurd hb (by simp [HttpState.init, HttpTask.batch])
  ascending t b hb := absurd hb (by simp [HttpState.init, HttpTask.batch])
  accepted e he := absurd he (by simp [HttpState.init])

/-- **What a step may do keeps the invariant.** -/
theorem HttpMoves.inv {s₁ : HttpState} {inputs batch written : List Dict}
    (h : HttpMoves rt cfg l s s₁ s' inputs batch written) (hinv : CloudInv rt s) :
    CloudInv rt s' := by
  have heffect := h.seals.effect hinv.numbered
  have hmem : ∀ session, ∀ r ∈ s.sealed session, r ∈ s'.sealed session := by
    rw [h.sealed]
    exact heffect.mem
  refine ⟨fun session => ?_, fun session line hline => ?_, fun t b' hb' => ?_,
    fun t b' hb' session => ?_, fun e he => ?_⟩
  · rw [h.sealed, h.store.count]
    exact heffect.numbered session
  -- a line was there before or is of a record written now
  · obtain ⟨lines, hlines, -, hof⟩ := h.store.files session
    rw [hlines, heffect.files] at hline
    rcases List.mem_append.mp hline with hline | hline
    · exact (hinv.lines session line hline).mono (hmem session)
    · rw [h.sealed]
      exact hof line hline
  -- a batch in flight is the one just sealed or was in flight before
  · rcases h.flight t b' hb' with hbatch | ⟨b, hb, hbatch⟩
    · rw [hbatch, h.sealed]
      exact heffect.ready
    · rw [hbatch]
      exact fun e he => (hinv.flight t b hb e he).mono hmem
  · rcases h.flight t b' hb' with hbatch | ⟨b, hb, hbatch⟩
    · rw [hbatch]
      exact (heffect.ascending session).1
    · rw [hbatch]
      exact hinv.ascending t b hb session
  · rcases h.accepted e he with he | ⟨t, b, hb, he⟩
    · exact (hinv.accepted e he).mono hmem
    · exact (hinv.flight t b hb e he).mono hmem

end

/-! ### Calls for the examples -/

/-- A client that sends each request once. -/
def oneAttempt : HttpConfig where
  max_retries := 1
  one_le_max_retries := Nat.le_refl 1
  enable_spool := true
  fail_on_loss := false
  spool_dir := "~/.rootsign/spool"
  timeout_text := "10.0"
  validate _ := none

/-- Writes that succeed at noon. -/
def noonIO : ℕ → SpoolIO := fun _ =>
  { fresh := exampleRecord, now_parse := mayNoon, now_get := mayNoon, now_evict := mayNoon,
    now_set := mayNoon, append := .written, reason := "", now_lost := mayNoon, annotate_ok := true,
    now_annotated := mayNoon }

/-- An unsealed action. -/
def exampleAction (event_id : Uuid) : Dict :=
  (exampleEnvelope "2026-05-01T12:00:00+00:00").set "event_id" (.str event_id.text)

/-- The example action is as the SDK emits it. -/
theorem exampleAction_emitted (event_id : Uuid) : Emitted (exampleAction event_id) where
  event_type := ⟨.ACTION_RECORD, by
    simp [exampleAction, Dict.get_set, exampleEnvelope, Dict.get_ofFields, List.lookup_cons,
      EventType.text]⟩
  payload := ⟨plainPayload, by
    simp [exampleAction, Dict.get_set, exampleEnvelope, Dict.get_ofFields, List.lookup_cons]⟩
  unsealed _ payload hpayload := by
    have hplain : (exampleAction event_id).get "payload" = .obj plainPayload := by
      simp [exampleAction, Dict.get_set, exampleEnvelope, Dict.get_ofFields, List.lookup_cons]
    obtain rfl := Json.obj.inj (hplain.symm.trans hpayload)
    exact plainPayload_unsealed

/-- A call with one action, under its event id. -/
def callWith (t : ℕ) (event_id : Uuid) : HttpState.Label :=
  .call t [(exampleAction event_id, event_id)] noonIO

/-- A call with the example action hands over what the SDK emits. -/
theorem callWith_emitted (t : ℕ) (event_id : Uuid) : (callWith t event_id).Emitted := by
  intro p hp
  rw [List.mem_singleton.mp hp]
  exact exampleAction_emitted event_id

/-- The request of the call times out. -/
def timesOut (t : ℕ) : HttpState.Label := .reply t (.timeout "ReadTimeout") noonIO

theorem timesOut_emitted (t : ℕ) : (timesOut t).Emitted := trivial

end RootSign
