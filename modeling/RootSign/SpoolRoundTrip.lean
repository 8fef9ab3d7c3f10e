import RootSign.JsonlAgreement
import RootSign.SpoolLines

namespace RootSign

open RootSign.Python

/-!
# The round trip through the spool

What `handle` writes for the envelopes of one session, `read_spool_session` turns back into them.

* `SpoolCall`, `SpoolWrite` — a call with an envelope that its schema accepts, and a write of a run:
  such a call, or an annotation;
* `LinesOf`, `writeAll_lines` — the lines that the writes leave;
* `Restored`, `RestoredAll` — what the reader is to make of an envelope, and of a run's;
* `spool_round_trip` — it reads the file of a run whose numbers ascend, and restores each envelope.
-/

/-! ### Envelopes -/

/-- The keys of a dict are among the given ones. -/
def OnlyFields (fields : List String) (d : Dict) : Prop :=
  ∀ k v, d.lookup k = some v → ∃ key ∈ fields, k = JStr.ofString key

/-- A payload with a complete seal. -/
structure FullySealed (rt : Runtime) (payload : Dict) : Prop where
  tool_name : payload.has "tool_name"
  input_hash : payload.has "input_hash"
  timestamp : payload.has "timestamp"
  action_id : ∃ u : Uuid, payload.get "action_id" = .str u.text
  sequence_number : ∃ n, rt.pyInt (payload.get "sequence_number") = .ok n
  self_hash : ∃ digest, payload.get "self_hash" = .str digest

/-- A call with an envelope of the session that `IngestEnvelope` and the payload's schema accept:
    its ids are canonical, its date is offset-aware, and an action is dated, and sealed fully or not
    at all.  The write succeeds. -/
structure SpoolCall (rt : Runtime) (session : Uuid) where
  io : CallIO
  envelope : Dict
  event_id : Uuid
  kind : EventType
  payload : Dict
  written : io.append = .written
  has_fields : ∀ key ∈ envelopeFields, envelope.has key
  only_fields : OnlyFields envelopeFields envelope
  event_id_eq : envelope.get "event_id" = .str event_id.text
  event_type_eq : envelope.get "event_type" = .str (JStr.ofString kind.text)
  session_id_eq : envelope.get "session_id" = .str session.text
  emitted_at_aware : (parseDt rt io.now_parse (envelope.get "emitted_at")).aware = true
  payload_eq : envelope.get "payload" = .obj payload
  payload_fields : kind = .ACTION_RECORD → OnlyFields actionPayloadFields payload
  payload_sealed : kind = .ACTION_RECORD → UnsealedPayload payload ∨ FullySealed rt payload

/-- A write of a run: an envelope, or an annotation of losses. -/
inductive SpoolWrite (rt : Runtime) (session : Uuid) where
  | record (c : SpoolCall rt session)
  | recordLoss (io : CallIO) (loss : Dict) (written : io.append = .written)
      (event_type : loss.get "event_type" = .str "RECORD_LOSS")

namespace SpoolWrite

variable {rt : Runtime} {session : Uuid}

/-- `handle`, or `append_annotation`. -/
def run (s : JsonlState) : SpoolWrite rt session → JsonlState
  | .record c => (s.handle rt c.io c.envelope).2
  | .recordLoss io loss _ _ => (s.appendLine io session.text loss).2

/-- The event id of an envelope. -/
def eventId : SpoolWrite rt session → Option Uuid
  | .record c => some c.event_id
  | .recordLoss .. => none

/-- The write is an annotation. -/
def isAnnotation : SpoolWrite rt session → Bool
  | .record _ => false
  | .recordLoss .. => true

end SpoolWrite

/-- One write after the other. -/
def writeAll {rt : Runtime} {session : Uuid} (s : JsonlState)
    (writes : List (SpoolWrite rt session)) : JsonlState :=
  writes.foldl SpoolWrite.run s

/-- A new client on an empty directory, with the chains it shares. -/
def JsonlState.opened (fsync : FsyncMode) (chains : ChainRegistry) : JsonlState where
  fsync := fsync
  idempotency := []
  chains := chains
  files := fun _ => []

/-! ### What is to be read back -/

/-- The payload of an action, extended with its seal: an absent field may be null, or the default
    of `authorization_status`. -/
structure RestoredPayload (payload : Dict) (seal_ : SealedAction) (restored : Dict) : Prop where
  seal_fields : ∀ p ∈ seal_.asPayloadFields, restored.lookup (JStr.ofString p.1) = some p.2
  kept : ∀ k v, (∀ field ∈ sealedFields, k ≠ JStr.ofString field) → payload.lookup k = some v →
    restored.lookup k = some v
  absent : ∀ k v, (∀ field ∈ sealedFields, k ≠ JStr.ofString field) → payload.lookup k = none →
    restored.lookup k = some v →
      v = .null ∨ k = JStr.ofString "authorization_status" ∧ v = .str "auto_authorized"

/-- The envelope of a call in a state, restored: an action with the seal it got there, any other
    event as it was. -/
inductive Restored {rt : Runtime} {session : Uuid} (s : JsonlState) (c : SpoolCall rt session)
    (restored : Dict) : Prop where
  | action (kind : c.kind = .ACTION_RECORD) (seal_ : SealedAction) (payload : Dict)
      (sealed : (s.chains.sealPayload rt c.io.fresh (.str session.text) c.payload).1 = .ok seal_)
      (fields : ∀ k, k ≠ JStr.ofString "payload" → restored.lookup k = c.envelope.lookup k)
      (payload_eq : restored.get "payload" = .obj payload)
      (payload_restored : RestoredPayload c.payload seal_ payload)
  | other (kind : c.kind ≠ .ACTION_RECORD) (same : ∀ k, restored.lookup k = c.envelope.lookup k)

/-- The envelopes of a run, restored in the order they were written in. -/
inductive RestoredAll {rt : Runtime} {session : Uuid} :
    JsonlState → List (SpoolWrite rt session) → List Dict → Prop
  | nil (s : JsonlState) : RestoredAll s [] []
  | record {s : JsonlState} {c : SpoolCall rt session} {rest : List (SpoolWrite rt session)}
      {restored : Dict} {envelopes : List Dict} (head : Restored s c restored)
      (tail : RestoredAll (SpoolWrite.run s (.record c)) rest envelopes) :
      RestoredAll s (.record c :: rest) (restored :: envelopes)
  | recordLoss {s : JsonlState} {io : CallIO} {loss : Dict} {written : io.append = .written}
      {event_type : loss.get "event_type" = .str "RECORD_LOSS"}
      {rest : List (SpoolWrite rt session)} {envelopes : List Dict}
      (tail : RestoredAll (SpoolWrite.run s
        (.recordLoss io loss written event_type : SpoolWrite rt session)) rest envelopes) :
      RestoredAll s (.recordLoss io loss written event_type :: rest) envelopes

/-! ### Dicts -/

section

variable {d : Dict} {fields : List String} {key : String} {k : JStr}

/-- What is no field is not picked. -/
theorem lookup_pick_other (h : ∀ key ∈ fields, k ≠ JStr.ofString key) :
    (pick fields d).lookup k = none := by
  rw [List.lookup_eq_none_iff]
  intro p hp
  obtain ⟨field, hfield, hp⟩ := List.mem_filterMap.mp hp
  obtain ⟨v, -, rfl⟩ := Option.map_eq_some_iff.mp hp
  exact bne_iff_ne.mpr (h field hfield)

/-- The shell of a line that names its versions. -/
theorem lookup_envelopeShell {src : SpoolSource} {record payload : Dict}
    (hschema : record.has "schema_version") (hsdk : record.has "sdk_version") (k : JStr) :
    (envelopeShell src record payload).lookup k =
      if k = JStr.ofString "payload" then some (.obj payload)
      else (pick envelopeFields record).lookup k := by
  have hkeep : ∀ key, record.has key → key ∈ envelopeFields → key ≠ "payload" →
      ∀ value, setDefault ((pick envelopeFields record).set "payload" (.obj payload)) key value =
        (pick envelopeFields record).set "payload" (.obj payload) := by
    intro key hhas hkey hne value
    unfold setDefault
    rw [Dict.lookup_set, if_neg hne, lookup_pick hkey, Dict.lookup_of_has hhas]
  show (setDefault (setDefault ((pick envelopeFields record).set "payload" (.obj payload))
    "schema_version" _) "sdk_version" _).lookup k = _
  rw [hkeep "schema_version" hschema (by simp [envelopeFields]) (by simp),
    hkeep "sdk_version" hsdk (by simp [envelopeFields]) (by simp), Dict.lookup_set_any]

end

/-! ### One call -/

/-- The line of a call, written in a state. -/
inductive LineOfCall {rt : Runtime} {session : Uuid} (s : JsonlState) (c : SpoolCall rt session)
    (line : Dict) : Prop where
  | action (kind : c.kind = .ACTION_RECORD) (seal_ : SealedAction)
      (sealed : (s.chains.sealPayload rt c.io.fresh (.str session.text) c.payload).1 = .ok seal_)
      (line_eq : line = flatRecord c.envelope c.payload c.event_id session.text
        (c.payload.get "tool_name") (c.payload.get "input_hash") (c.payload.get "timestamp") seal_)
  | other (kind : c.kind ≠ .ACTION_RECORD)
      (line_eq : line = (buildNonAction c.io.fresh c.envelope c.event_id
        (.str (JStr.ofString c.kind.text))).2)

namespace SpoolCall

variable {rt : Runtime} {session : Uuid} {c : SpoolCall rt session}

theorem pyEq_action :
    (Json.str (JStr.ofString c.kind.text)).pyEq (.str "ACTION_RECORD") =
      decide (c.kind = .ACTION_RECORD) := by
  rw [Bool.eq_iff_iff, Json.pyEq_str, decide_eq_true_eq, Json.str.injEq]
  show JStr.ofString c.kind.text = JStr.ofString EventType.ACTION_RECORD.text ↔ _
  rw [JStr.ofString_inj]
  exact ⟨EventType.text_inj, fun h => by rw [h]⟩

/-- The fields that an action's line is built from are there. -/
theorem has_canonical (h : c.kind = .ACTION_RECORD) :
    c.payload.has "tool_name" ∧ c.payload.has "input_hash" ∧ c.payload.has "timestamp" := by
  rcases c.payload_sealed h with hu | hs
  · exact ⟨hu.tool_name, hu.input_hash, hu.timestamp⟩
  · exact ⟨hs.tool_name, hs.input_hash, hs.timestamp⟩

/-- An action of the schema is sealed, in any state. -/
theorem exists_seal (s : JsonlState) (h : c.kind = .ACTION_RECORD) :
    ∃ seal_, (s.chains.sealPayload rt c.io.fresh (.str session.text) c.payload).1 = .ok seal_ := by
  rcases c.payload_sealed h with hu | hs
  · exact ⟨_, congrArg Prod.fst
      ((s.chains session.text).seal_mint rt c.io.fresh (.str session.text) hu)⟩
  · obtain ⟨u, hu⟩ := hs.action_id
    obtain ⟨n, hn⟩ := hs.sequence_number
    obtain ⟨digest, hdigest⟩ := hs.self_hash
    have hnull : Json.isNone (c.payload.get "sequence_number") = false := by
      cases hv : c.payload.get "sequence_number" with
      | null => simp [hv, Runtime.pyInt] at hn
      | _ => rfl
    have hsealed : isSealed c.payload = true := by simp [isSealed, hdigest, Json.isNone]
    have haction : Json.isNone (c.payload.get "action_id") = false := by rw [hu]; rfl
    have hmissing : (["action_id", "sequence_number"].filter fun f =>
        Json.isNone (c.payload.get f)) = [] := by
      simp [haction, hnull]
    refine ⟨{ action_id := u, sequence_number := n,
              prev_action_hash := c.payload.get "prev_action_hash", self_hash := digest,
              adopted := true }, ?_⟩
    show ((s.chains session.text).sealPayload rt c.io.fresh (.str session.text) c.payload).1 = _
    simp only [ChainState.sealPayload, hsealed, if_true, ChainState.adopt, hmissing,
      List.isEmpty_nil, Bool.not_true, Bool.false_eq_true, if_false, hn, hu, hdigest,
      Runtime.toUuid_text, Runtime.pyStr_str]

/-- What `handle` reads first. -/
def head (c : SpoolCall rt session) : JsonlState.Head where
  event_id := c.event_id
  event_type := .str (JStr.ofString c.kind.text)
  session_id := session.text
  emitted_at := parseDt rt c.io.now_parse (c.envelope.get "emitted_at")

theorem readHead_eq : JsonlState.readHead rt c.io c.envelope = .ok c.head := by
  have hid := c.has_fields "event_id" (by simp [envelopeFields])
  have htype := c.has_fields "event_type" (by simp [envelopeFields])
  have hsession := c.has_fields "session_id" (by simp [envelopeFields])
  simp only [JsonlState.readHead, Dict.item_of_has hid, Dict.item_of_has htype,
    Dict.item_of_has hsession, c.event_id_eq, c.event_type_eq, c.session_id_eq, bind, Except.bind,
    Runtime.toUuid_text, Runtime.pyStr_str]
  rfl

/-- **What a call builds**: the line, and nothing else but the chain changes. -/
theorem build_eq (s : JsonlState) :
    ∃ response line chains, s.build rt c.io c.envelope c.head =
        (.ok (response, line), { s with chains := chains }) ∧ LineOfCall s c line := by
  have hkind : c.head.event_type.pyEq (.str "ACTION_RECORD") = decide (c.kind = .ACTION_RECORD) :=
    pyEq_action
  unfold JsonlState.build
  rw [hkind]
  by_cases haction : c.kind = .ACTION_RECORD
  · obtain ⟨seal_, hseal⟩ := exists_seal s haction
    obtain ⟨htool, hinput, htimestamp⟩ := has_canonical haction
    rw [decide_eq_true haction, if_pos rfl]
    unfold buildAction
    rw [payloadOf_obj c.payload_eq]
    show ∃ response line chains, (_, _) = _ ∧ _
    dsimp only [head]
    generalize hsealed : s.chains.sealPayload rt c.io.fresh (.str session.text) c.payload = sealed
      at hseal
    obtain ⟨result, chains⟩ := sealed
    dsimp only at hseal
    subst hseal
    simp only [Dict.item_of_has htool, Dict.item_of_has hinput, Dict.item_of_has htimestamp]
    exact ⟨_, _, chains, rfl, .action haction seal_ (by rw [hsealed]) rfl⟩
  · rw [decide_eq_false haction]
    exact ⟨_, _, s.chains, rfl, .other haction rfl⟩

/-- Recording a line adds it, whether or not the answer can be cached. -/
theorem record_line (s : JsonlState) {handled : List Uuid} (hstore : StoreInv handled s.idempotency)
    (response : IngestResponse) (line : Dict) :
    ∃ store, StoreInv (c.event_id :: handled) store ∧
      (s.record c.io c.head response line).2 =
        { s with
          idempotency := store
          files := Function.update s.files session.text (s.files session.text ++ [line]) } := by
  obtain ⟨b, hsync⟩ := shouldFsync_text s.fsync (JStr.ofString c.kind.text)
  obtain ⟨store, hinv, hput⟩ := IdempotencyStore.put_eq c.io.now_evict c.io.now_set
    c.event_id response hstore c.emitted_at_aware
  refine ⟨store, hinv, ?_⟩
  rw [JsonlState.record, show shouldFsync s.fsync c.head.event_type = .ok b from hsync]
  simp only [JsonlState.appendLine, c.written]
  rw [show c.head.event_id = c.event_id from rfl,
    show c.head.emitted_at = parseDt rt c.io.now_parse (c.envelope.get "emitted_at") from rfl, hput]
  generalize (parseDt rt c.io.now_parse (c.envelope.get "emitted_at")).canAdd ttl = fits
  cases fits <;> rfl

/-- **One call** adds its line to the session's file. -/
theorem handle_line {s : JsonlState} {handled : List Uuid} (hstore : StoreInv handled s.idempotency)
    (hfresh : c.event_id ∉ handled) :
    StoreInv (c.event_id :: handled) (s.handle rt c.io c.envelope).2.idempotency ∧
      ∃ line, LineOfCall s c line ∧ (s.handle rt c.io c.envelope).2.files =
        Function.update s.files session.text (s.files session.text ++ [line]) := by
  obtain ⟨store, hget, hstore⟩ := IdempotencyStore.get_eq c.io.now_get hstore hfresh
  obtain ⟨response, line, chains, hbuild, hline⟩ := @build_eq rt session c
    { s with idempotency := store }
  obtain ⟨store', hstore', hrecord⟩ := @record_line rt session c
    { s with idempotency := store, chains := chains } handled hstore response line
  have hstate : (s.handle rt c.io c.envelope).2 =
      { s with
        idempotency := store'
        chains := chains
        files := Function.update s.files session.text (s.files session.text ++ [line]) } := by
    rw [JsonlState.handle, readHead_eq]
    simp only [show c.head.event_id = c.event_id from rfl, hget, hbuild]
    exact hrecord
  rw [hstate]
  refine ⟨hstore', line, ?_, rfl⟩
  cases hline with
  | action kind seal_ sealed line_eq => exact .action kind seal_ sealed line_eq
  | other kind line_eq => exact .other kind line_eq

end SpoolCall

/-! ### The lines of a run -/

/-- The lines that a run adds to the session's file. -/
inductive LinesOf {rt : Runtime} {session : Uuid} :
    JsonlState → List (SpoolWrite rt session) → List Dict → Prop
  | nil (s : JsonlState) : LinesOf s [] []
  | record {s : JsonlState} {c : SpoolCall rt session} {rest : List (SpoolWrite rt session)}
      {line : Dict} {lines : List Dict} (head : LineOfCall s c line)
      (tail : LinesOf (SpoolWrite.run s (.record c)) rest lines) :
      LinesOf s (.record c :: rest) (line :: lines)
  | recordLoss {s : JsonlState} {io : CallIO} {loss : Dict} {written : io.append = .written}
      {event_type : loss.get "event_type" = .str "RECORD_LOSS"}
      {rest : List (SpoolWrite rt session)} {lines : List Dict}
      (tail : LinesOf (SpoolWrite.run s
        (.recordLoss io loss written event_type : SpoolWrite rt session)) rest lines) :
      LinesOf s (.recordLoss io loss written event_type :: rest) (loss :: lines)

section

variable {rt : Runtime} {session : Uuid} {src : SpoolSource}

/-- **A run of writes** adds its lines to the file, in their order. -/
theorem writeAll_lines (writes : List (SpoolWrite rt session)) {s : JsonlState}
    {handled : List Uuid} (hstore : StoreInv handled s.idempotency)
    (hdistinct : (handled ++ writes.filterMap SpoolWrite.eventId).Nodup) :
    ∃ lines, LinesOf s writes lines ∧
      (writeAll s writes).files session.text = s.files session.text ++ lines := by
  -- by induction on the writes; a record's id is new to the cache, so its line is appended
  induction writes generalizing s handled with
  | nil => exact ⟨[], .nil s, (List.append_nil _).symm⟩
  | cons write rest ih =>
    cases write with
    | record c =>
      have hid : SpoolWrite.eventId (.record c : SpoolWrite rt session) = some c.event_id := rfl
      rw [List.filterMap_cons_some hid] at hdistinct
      have hfresh : c.event_id ∉ handled := by
        intro hmem
        exact (List.nodup_append.mp hdistinct).2.2 _ hmem _ List.mem_cons_self rfl
      obtain ⟨hstore', line, hline, hfiles⟩ := SpoolCall.handle_line hstore hfresh
      obtain ⟨lines, hlines, hrest⟩ := @ih (s.handle rt c.io c.envelope).2 _ hstore'
        ((List.nodup_middle.mp hdistinct))
      refine ⟨line :: lines, .record hline hlines, ?_⟩
      show (writeAll (s.handle rt c.io c.envelope).2 rest).files session.text = _
      rw [hrest, hfiles, Function.update_self, List.append_assoc, List.singleton_append]
    -- a loss annotation is appended without a look at the cache
    | recordLoss io loss written event_type =>
      have hid : SpoolWrite.eventId
          (.recordLoss io loss written event_type : SpoolWrite rt session) = none := rfl
      rw [List.filterMap_cons_none hid] at hdistinct
      have hstate : (s.appendLine io session.text loss).2 =
          { s with
            files := Function.update s.files session.text (s.files session.text ++ [loss]) } := by
        simp only [JsonlState.appendLine, written]
      obtain ⟨lines, hlines, hrest⟩ := @ih (s.appendLine io session.text loss).2 handled
        (by rw [hstate]; exact hstore) hdistinct
      refine ⟨loss :: lines, .recordLoss hlines, ?_⟩
      show (writeAll (s.appendLine io session.text loss).2 rest).files session.text = _
      rw [hrest, hstate]
      show Function.update s.files session.text _ session.text ++ lines = _
      rw [Function.update_self, List.append_assoc, List.singleton_append]

/-! ### One line, read back -/

variable {s : JsonlState} {c : SpoolCall rt session} {line : Dict}

/-- The value of a field that is no part of the seal, as it stands in an action's line. -/
def flatValue (payload : Dict) (key : String) : Json :=
  if key = "authorization_status" then payload.getD key (.str "auto_authorized")
  else payload.get key

/-- The fields of an action's line: the seal, and the payload's others. -/
theorem lookup_flatRecord (envelope payload : Dict) (event_id : Uuid) (session_id : JStr)
    (seal_ : SealedAction) {key : String} (hkey : key ∈ actionPayloadFields)
    (hseal : key ∉ sealedFields) :
    (flatRecord envelope payload event_id session_id (payload.get "tool_name")
      (payload.get "input_hash") (payload.get "timestamp") seal_).lookup (JStr.ofString key) =
        some (flatValue payload key) := by
  simp only [actionPayloadFields, List.mem_cons, List.not_mem_nil, or_false] at hkey
  simp only [sealedFields, List.mem_cons, List.not_mem_nil, or_false, not_or] at hseal
  rw [flatRecord, Dict.lookup_ofFields]
  rcases hkey with rfl | rfl | rfl | rfl | rfl | rfl | rfl | rfl | rfl | rfl | rfl | rfl | rfl | rfl
  all_goals simp_all [flatValue, List.lookup_cons]

theorem lookup_flatRecord_seal (envelope payload : Dict) (event_id : Uuid) (session_id : JStr)
    (tool_name input_hash timestamp : Json) (seal_ : SealedAction) :
    ∀ p ∈ seal_.asPayloadFields,
      (flatRecord envelope payload event_id session_id tool_name input_hash timestamp seal_).lookup
        (JStr.ofString p.1) = some p.2 := by
  intro p hp
  simp only [SealedAction.asPayloadFields, List.mem_cons, List.not_mem_nil, or_false] at hp
  rw [flatRecord, Dict.lookup_ofFields]
  rcases hp with rfl | rfl | rfl | rfl
  all_goals simp [List.lookup_cons]

/-- The envelope's fields on an action's line. -/
theorem lookup_flatRecord_envelope (hkind : c.kind = .ACTION_RECORD)
    (tool_name input_hash timestamp : Json) (seal_ : SealedAction) {key : String}
    (hkey : key ∈ envelopeFields) (hne : key ≠ "payload") :
    (flatRecord c.envelope c.payload c.event_id session.text tool_name input_hash timestamp
      seal_).lookup (JStr.ofString key) = c.envelope.lookup (JStr.ofString key) := by
  rw [Dict.lookup_of_has (c.has_fields key hkey), flatRecord, Dict.lookup_ofFields]
  have hid := c.event_id_eq
  have hsession := c.session_id_eq
  have htype : c.envelope.get "event_type" = .str "ACTION_RECORD" := by
    rw [c.event_type_eq, hkind]
    rfl
  simp only [envelopeFields, List.mem_cons, List.not_mem_nil, or_false] at hkey
  rcases hkey with rfl | rfl | rfl | rfl | rfl | rfl | rfl | rfl
  all_goals simp_all [List.lookup_cons]

/-- The payload of an action's line. -/
theorem restoredPayload_pick (hkind : c.kind = .ACTION_RECORD) (seal_ : SealedAction) :
    RestoredPayload c.payload seal_ (pick actionPayloadFields
      (flatRecord c.envelope c.payload c.event_id session.text (c.payload.get "tool_name")
        (c.payload.get "input_hash") (c.payload.get "timestamp") seal_)) := by
  -- a key is a field of the seal, a field of the payload or none of either
  obtain ⟨htool, hinput, htimestamp⟩ := SpoolCall.has_canonical hkind
  constructor
  case seal_fields =>
    intro p hp
    have hmem : p.1 ∈ actionPayloadFields := by
      simp only [SealedAction.asPayloadFields, List.mem_cons, List.not_mem_nil, or_false] at hp
      rcases hp with rfl | rfl | rfl | rfl
      all_goals simp [actionPayloadFields]
    rw [lookup_pick hmem, lookup_flatRecord_seal _ _ _ _ _ _ _ _ p hp]
  case kept =>
    intro k v hno hv
    obtain ⟨key, hkey, rfl⟩ := c.payload_fields hkind k v hv
    rw [lookup_pick hkey, lookup_flatRecord _ _ _ _ _ hkey fun h => hno key h rfl, flatValue]
    split_ifs
    · rw [Dict.getD, hv]
      rfl
    · rw [Dict.get_of_lookup hv]
  case absent =>
    intro k v hno hnone hv
    by_cases hfield : ∃ key ∈ actionPayloadFields, k = JStr.ofString key
    · obtain ⟨key, hkey, rfl⟩ := hfield
      rw [lookup_pick hkey, lookup_flatRecord _ _ _ _ _ hkey fun h => hno key h rfl, flatValue,
        -- a field the payload lacks is written as its default
        Option.some.injEq] at hv
      split_ifs at hv with hstatus
      · refine Or.inr ⟨by rw [hstatus], ?_⟩
        rw [← hv, Dict.getD, hnone]
        rfl
      · refine Or.inl ?_
        rw [← hv, Dict.get, Dict.getD, hnone]
        rfl
    · rw [lookup_pick_other fun key hkey heq => hfield ⟨key, hkey, heq⟩] at hv
      exact absurd hv (by simp)

/-- Both kinds of line name the versions, the event and the session. -/
theorem LineOfCall.envelope_fields (h : LineOfCall s c line) {key : String}
    (hkey : key ∈ envelopeFields) (hne : key ≠ "payload") :
    line.lookup (JStr.ofString key) = c.envelope.lookup (JStr.ofString key) := by
  cases h with
  | action kind seal_ sealed line_eq =>
    rw [line_eq]
    exact lookup_flatRecord_envelope kind _ _ _ seal_ hkey hne
  | other kind line_eq =>
    have hstamp : key ≠ "decision_id" ∧ key ≠ "approval_id" := by
      simp only [envelopeFields, List.mem_cons, List.not_mem_nil, or_false] at hkey
      rcases hkey with rfl | rfl | rfl | rfl | rfl | rfl | rfl | rfl
      all_goals simp
    rw [line_eq]
    unfold buildNonAction
    split_ifs
    · show (c.envelope.set "decision_id" _).lookup _ = _
      rw [Dict.lookup_set, if_neg hstamp.1]
    · show (c.envelope.set "approval_id" _).lookup _ = _
      rw [Dict.lookup_set, if_neg hstamp.2]
    · rfl

theorem LineOfCall.get_field (h : LineOfCall s c line) {key : String}
    (hkey : key ∈ envelopeFields) (hne : key ≠ "payload") :
    line.get key = c.envelope.get key := by
  rw [Dict.get, Dict.getD, h.envelope_fields hkey hne]
  rfl

/-- Outside the payload the restored envelope is the original. -/
theorem LineOfCall.lookup_shell (h : LineOfCall s c line) {payload : Dict} (k : JStr)
    (hk : k ≠ JStr.ofString "payload") :
    (envelopeShell src line payload).lookup k = c.envelope.lookup k := by
  have hhas : ∀ key ∈ envelopeFields, key ≠ "payload" → line.has key := by
    intro key hkey hne
    rw [Dict.has, h.envelope_fields hkey hne]
    exact c.has_fields key hkey
  rw [lookup_envelopeShell (hhas _ (by simp [envelopeFields]) (by simp))
    (hhas _ (by simp [envelopeFields]) (by simp)), if_neg hk]
  by_cases hfield : ∃ key ∈ envelopeFields, k = JStr.ofString key
  · obtain ⟨key, hkey, rfl⟩ := hfield
    rw [lookup_pick hkey, h.envelope_fields hkey fun heq => hk (by rw [heq])]
  · rw [lookup_pick_other fun key hkey heq => hfield ⟨key, hkey, heq⟩]
    cases hnone : c.envelope.lookup k with
    | none => rfl
    | some v => exact absurd (c.only_fields k v hnone) hfield

theorem LineOfCall.shell_payload (h : LineOfCall s c line) (payload : Dict) :
    (envelopeShell src line payload).lookup (JStr.ofString "payload") = some (.obj payload) := by
  have hhas : ∀ key ∈ envelopeFields, key ≠ "payload" → line.has key := by
    intro key hkey hne
    rw [Dict.has, h.envelope_fields hkey hne]
    exact c.has_fields key hkey
  rw [lookup_envelopeShell (hhas _ (by simp [envelopeFields]) (by simp))
    (hhas _ (by simp [envelopeFields]) (by simp)), if_pos rfl]

theorem isEventType_kind (kind : EventType) :
    isEventType (.str (JStr.ofString kind.text)) = .ok true := by
  cases kind <;> simp [isEventType, EventType.text, Json.pyEq_str]

/-- **A line** is read as the envelope it was written for. -/
theorem LineOfCall.restored (h : LineOfCall s c line) :
    ∃ restored, envelopeOfRecord src line = some restored ∧ Restored s c restored := by
  have htype : line.get "event_type" = .str (JStr.ofString c.kind.text) := by
    rw [h.get_field (by simp [envelopeFields]) (by simp), c.event_type_eq]
  have hshell := fun payload k hk => @LineOfCall.lookup_shell rt session src s c line h payload k hk
  have hpayload := fun payload => @LineOfCall.shell_payload rt session src s c line h payload
  unfold envelopeOfRecord
  rw [htype, isEventType_kind]
  dsimp only
  rw [SpoolCall.pyEq_action]
  cases h with
  | action kind seal_ sealed line_eq =>
    rw [decide_eq_true kind, if_pos rfl]
    refine ⟨_, rfl, .action kind seal_ _ sealed (hshell _) (Dict.get_of_lookup (hpayload _)) ?_⟩
    rw [line_eq]
    exact restoredPayload_pick kind seal_
  | other kind line_eq =>
    have hline : line.get "payload" = .obj c.payload := by
      rw [line_eq, buildNonAction_get _ _ _ _ (by simp) (by simp), c.payload_eq]
    rw [decide_eq_false kind, hline]
    refine ⟨_, rfl, .other kind fun k => ?_⟩
    by_cases hk : k = JStr.ofString "payload"
    · rw [hk, hpayload, Dict.lookup_of_has (c.has_fields "payload" (by simp [envelopeFields])),
        c.payload_eq]
    · exact hshell _ k hk

/-- The line is one that the reader accepts. -/
theorem LineOfCall.written (h : LineOfCall s c line) : Written line := by
  have htype : line.get "event_type" = .str (JStr.ofString c.kind.text) := by
    rw [h.get_field (by simp [envelopeFields]) (by simp), c.event_type_eq]
  refine ⟨⟨_, htype⟩, fun haction => ?_, fun _ hother => ?_⟩
  · cases h with
    | action kind seal_ sealed line_eq =>
      rw [line_eq]
      refine ⟨?_, ?_, seal_.sequence_number, ?_⟩
      · simp [flatRecord, Dict.has_ofFields, List.lookup_cons]
      · simp [flatRecord, Dict.has_ofFields, List.lookup_cons]
      · simp [flatRecord, Dict.get_ofFields, List.lookup_cons]
    | other kind line_eq =>
      rw [htype, Json.str.injEq] at haction
      exact absurd (EventType.text_inj (b := .ACTION_RECORD) (JStr.ofString_inj.mp haction)) kind
  · cases h with
    | action kind seal_ sealed line_eq =>
      rw [htype, kind] at hother
      exact absurd rfl hother
    | other kind line_eq =>
      exact ⟨c.payload, by rw [line_eq, buildNonAction_get _ _ _ _ (by simp) (by simp),
        c.payload_eq]⟩

/-! ### The file, read back -/

theorem isEventType_loss : isEventType (.str "RECORD_LOSS") = .ok false := by
  simp [isEventType, EventType.text, Json.pyEq]

/-- The lines of a run are accepted, and read as its envelopes. -/
theorem LinesOf.restored {writes : List (SpoolWrite rt session)} {lines : List Dict}
    (h : LinesOf s writes lines) :
    (∀ line ∈ lines, Written line) ∧
      RestoredAll s writes (lines.filterMap (envelopeOfRecord src)) := by
  induction h with
  | nil s => exact ⟨by simp, .nil s⟩
  | record head tail ih =>
    obtain ⟨restored, hread, hrestored⟩ := @LineOfCall.restored rt session src _ _ _ head
    rw [List.filterMap_cons_some hread]
    exact ⟨List.forall_mem_cons.mpr ⟨head.written, ih.1⟩, .record hrestored ih.2⟩
  | @recordLoss s io loss written event_type rest lines tail ih =>
    have hnone : envelopeOfRecord src loss = none := by
      unfold envelopeOfRecord
      rw [event_type, isEventType_loss]
    have hwritten : Written loss := by
      refine ⟨⟨_, event_type⟩, fun h => ?_, fun h => ?_⟩
      · rw [event_type] at h
        simp at h
      · rw [event_type, isEventType_loss] at h
        simp at h
    rw [List.filterMap_cons_none hnone]
    exact ⟨List.forall_mem_cons.mpr ⟨hwritten, ih.1⟩, .recordLoss ih.2⟩

/-- One record in the loop: whether it is counted, and the session it names. -/
theorem readRecord_counts {number : ℕ} {r r' : Reading} {record : Dict} {known : Bool}
    (hknown : isEventType (record.get "event_type") = .ok known)
    (h : readRecord rt src number r record = .ok r') :
    r'.annotations = r.annotations + (if known then 0 else 1) ∧
      r'.session_id = if known then
        some (r.session_id.getD (rt.pyStr (record.get "session_id"))) else r.session_id := by
  -- by the branches of the loop: passed over, or counted as an envelope
  unfold readRecord at h
  dsimp only at h
  rw [hknown] at h
  cases known with
  | false =>
    obtain rfl := Except.ok.inj h
    exact ⟨rfl, rfl⟩
  | true =>
    dsimp only at h
    split_ifs at h
    · unfold readAction at h
      split at h
      case h_1 => exact absurd h (by simp)
      case h_2 =>
        split at h
        case h_1 => exact absurd h (by simp)
        case h_2 =>
          obtain rfl := Except.ok.inj h
          exact ⟨rfl, rfl⟩
    · cases henvelope : envelopeFromRecord rt src number record with
      | error e =>
        rw [henvelope] at h
        exact absurd h (by simp [Except.map])
      | ok envelope =>
        rw [henvelope] at h
        obtain rfl := Except.ok.inj h
        exact ⟨rfl, rfl⟩

/-- The loop counts the annotations of a run, and names no other session. -/
theorem LinesOf.counts {writes : List (SpoolWrite rt session)} {lines : List Dict}
    (h : LinesOf s writes lines) {number : ℕ} {r r' : Reading}
    (hread : readLines rt src number r (recordLines lines) = .ok r') :
    r'.annotations = r.annotations + writes.countP SpoolWrite.isAnnotation ∧
      ((∀ id, r.session_id = some id → id = session.text) →
        ∀ id, r'.session_id = some id → id = session.text) := by
  -- by induction on the lines, each of which names the session of the run
  induction h generalizing number r with
  | nil s =>
    obtain rfl := Except.ok.inj hread
    exact ⟨rfl, fun h => h⟩
  | @record s c rest line lines head tail ih =>
    obtain ⟨r₁, hone, hrest⟩ := bind_eq_ok.mp hread
    have htype : isEventType (line.get "event_type") = .ok true := by
      rw [head.get_field (by simp [envelopeFields]) (by simp), c.event_type_eq, isEventType_kind]
    obtain ⟨hcount, hsession⟩ := readRecord_counts htype hone
    obtain ⟨hcounts, hsessions⟩ := ih hrest
    refine ⟨?_, fun hr => hsessions fun id hid => ?_⟩
    · rw [hcounts, hcount, List.countP_cons_of_neg (by simp [SpoolWrite.isAnnotation])]
      rfl
    · rw [hsession, if_pos rfl, Option.some.injEq,
        head.get_field (by simp [envelopeFields]) (by simp), c.session_id_eq] at hid
      rw [← hid]
      cases hr' : r.session_id with
      | none => rfl
      | some first => exact hr first hr'
  | @recordLoss s io loss written event_type rest lines tail ih =>
    obtain ⟨r₁, hone, hrest⟩ := bind_eq_ok.mp hread
    obtain ⟨hcount, hsession⟩ := @readRecord_counts rt src number r r₁ loss false
      (by rw [event_type, isEventType_loss]) hone
    obtain ⟨hcounts, hsessions⟩ := ih hrest
    refine ⟨?_, fun hr => hsessions fun id hid => hr id ?_⟩
    · rw [hcounts, hcount, List.countP_cons_of_pos (by rfl)]
      show r.annotations + 1 + _ = _
      omega
    · rw [hsession] at hid
      exact hid

end

/-- **Round trip.**  The file of a run of writes, by a new client and with numbers that ascend, is
    read: it gives back every envelope, the number of annotations and the session. -/
theorem spool_round_trip (rt : Runtime) (session : Uuid) (fsync : FsyncMode)
    (chains : ChainRegistry) (path sdk_version : JStr) (writes : List (SpoolWrite rt session))
    (hdistinct : (writes.filterMap SpoolWrite.eventId).Nodup)
    (hascending : (((writeAll (.opened fsync chains) writes).files session.text).filterMap
      actionNumber).Pairwise (· < ·)) :
    ∃ spooled,
      readSpoolSession rt ⟨path, session.text, sdk_version⟩
        (recordLines ((writeAll (.opened fsync chains) writes).files session.text)) = .ok spooled ∧
      RestoredAll (.opened fsync chains) writes spooled.envelopes ∧
      spooled.annotations = writes.countP SpoolWrite.isAnnotation ∧
      spooled.session_id = session.text := by
  have hstore : StoreInv [] (JsonlState.opened fsync chains).idempotency :=
    ⟨fun e he => absurd he List.not_mem_nil, fun e he => absurd he List.not_mem_nil⟩
  obtain ⟨lines, hlines, hfile⟩ := writeAll_lines writes hstore hdistinct
  have hfile : (writeAll (.opened fsync chains) writes).files session.text = lines := hfile
  rw [hfile] at hascending ⊢
  obtain ⟨hwritten, hrestored⟩ :=
    @LinesOf.restored rt session ⟨path, session.text, sdk_version⟩ _ _ _ hlines
  obtain ⟨spooled, hread⟩ := (readSpoolSession_ok_iff rt ⟨path, session.text, sdk_version⟩
    hwritten).mpr hascending
  refine ⟨spooled, hread, ?_, ?_⟩
  · rw [readSpoolSession_records hread]
    exact hrestored
  · unfold readSpoolSession at hread
    cases hloop : readLines rt ⟨path, session.text, sdk_version⟩ 1 {} (recordLines lines) with
    | error e =>
      rw [hloop] at hread
      exact absurd hread (by simp [Except.map])
    | ok r =>
      rw [hloop] at hread
      obtain rfl := Except.ok.inj hread
      obtain ⟨hcount, hsession⟩ := hlines.counts hloop
      refine ⟨?_, ?_⟩
      · show r.annotations = _
        rw [hcount]
        exact Nat.zero_add _
      · show r.session_id.getD session.text = session.text
        cases hid : r.session_id with
        | none => rfl
        | some id => exact hsession (fun _ h => absurd h (by simp)) id hid

/-! ### An action and an annotation -/

/-- The keys of a dict display. -/
theorem onlyFields_ofFields {fields : List String} {display : List (String × Json)}
    (h : ∀ key ∈ display.map Prod.fst, key ∈ fields) : OnlyFields fields (.ofFields display) := by
  intro k v hv
  obtain ⟨before, after, hsplit, -⟩ := List.lookup_eq_some_iff.mp hv
  have hmem : (k, v) ∈ Dict.ofFields display := by
    rw [hsplit]
    exact List.mem_append_right _ List.mem_cons_self
  obtain ⟨p, hp, heq⟩ := List.mem_map.mp hmem
  obtain ⟨rfl, rfl⟩ := Prod.mk.inj heq
  exact ⟨p.1, h p.1 (List.mem_map_of_mem hp), rfl⟩

/-- A write at noon. -/
def noonWrite (entity_id : Uuid) : CallIO :=
  ⟨entity_id, mayNoon, mayNoon, mayNoon, mayNoon, .written⟩

theorem noon_written (entity_id : Uuid) : (noonWrite entity_id).append = .written := rfl

/-- An envelope emitted at noon. -/
def noonEnvelope (kind : EventType) (event_id : Uuid) (payload : Dict) : Dict :=
  Dict.ofFields
    [("schema_version", .str "1.1"), ("sdk_version", .str "0.3.0"),
     ("event_type", .str (JStr.ofString kind.text)), ("event_id", .str event_id.text),
     ("emitted_at", .str "2026-05-01T12:00:00+00:00"), ("agent_id", .str exampleAgent.text),
     ("session_id", .str exampleSession.text), ("payload", .obj payload)]

def noonCall (kind : EventType) (event_id entity_id : Uuid) (payload : Dict)
    (hfields : kind = .ACTION_RECORD → OnlyFields actionPayloadFields payload)
    (hunsealed : kind = .ACTION_RECORD → UnsealedPayload payload) :
    SpoolCall twoDates exampleSession where
  io := noonWrite entity_id
  envelope := noonEnvelope kind event_id payload
  event_id := event_id
  kind := kind
  payload := payload
  written := noon_written entity_id
  has_fields := by
    intro key hkey
    simp only [envelopeFields, List.mem_cons, List.not_mem_nil, or_false] at hkey
    rcases hkey with rfl | rfl | rfl | rfl | rfl | rfl | rfl | rfl
    all_goals simp [noonEnvelope, Dict.has_ofFields, List.lookup_cons]
  only_fields := onlyFields_ofFields (by simp [envelopeFields])
  event_id_eq := by simp [noonEnvelope, Dict.get_ofFields, List.lookup_cons]
  event_type_eq := by simp [noonEnvelope, Dict.get_ofFields, List.lookup_cons]
  session_id_eq := by simp [noonEnvelope, Dict.get_ofFields, List.lookup_cons]
  emitted_at_aware := by
    have hread : parseDt twoDates (noonWrite entity_id).now_parse
        ((noonEnvelope kind event_id payload).get "emitted_at") = mayNoon.time := by
      simp [noonEnvelope, Dict.get_ofFields, List.lookup_cons, noonWrite, parseDt,
        twoDates, cpython]
    rw [hread]
    exact mayNoon.aware
  payload_eq := by simp [noonEnvelope, Dict.get_ofFields, List.lookup_cons]
  payload_fields := hfields
  payload_sealed := fun haction => Or.inl (hunsealed haction)

/-- An action payload that says `null` where the plain one says nothing. -/
def nullPayload : Dict := Dict.ofFields
  [("tool_name", .str "send_email"), ("input_hash", .str ""), ("output_hash", .null),
   ("timestamp", .str "2026-05-01T12:00:00+00:00")]

theorem nullPayload_unsealed : UnsealedPayload nullPayload := by
  constructor <;> simp [nullPayload, Dict.has_ofFields, Dict.get_ofFields, List.lookup_cons]

/-- The opening, two actions, and the tally of a loss between them. -/
def noonWrites : List (SpoolWrite twoDates exampleSession) :=
  [.record (noonCall .SESSION_OPEN (freshUuid 5) (freshUuid 6) []
      (fun h => absurd h (by decide)) fun h => absurd h (by decide)),
    .record (noonCall .ACTION_RECORD (freshUuid 1) (freshUuid 7) plainPayload
      (fun _ => onlyFields_ofFields (by decide)) fun _ => plainPayload_unsealed),
    .recordLoss (noonWrite (freshUuid 8))
      (.ofFields [("event_type", .str "RECORD_LOSS"), ("lost_count", .int 1)]) (noon_written _)
      (by simp [Dict.get_ofFields]),
    .record (noonCall .ACTION_RECORD (freshUuid 2) (freshUuid 9) nullPayload
      (fun _ => onlyFields_ofFields (by decide)) fun _ => nullPayload_unsealed)]

theorem spool_round_trip_noon :
    ∃ spooled,
      readSpoolSession twoDates ⟨"spool/sessions/s.jsonl", exampleSession.text, "0.3.0"⟩
        (recordLines ((writeAll (.opened .chain fun _ => {}) noonWrites).files
          exampleSession.text)) = .ok spooled ∧
      RestoredAll (.opened .chain fun _ => {}) noonWrites spooled.envelopes ∧
      spooled.annotations = 1 ∧
      spooled.session_id = exampleSession.text := by
  have hnumbers : ((writeAll (.opened .chain fun _ => {}) noonWrites).files
      exampleSession.text).filterMap actionNumber = [1, 2] := by
    decide +kernel
  exact spool_round_trip twoDates exampleSession .chain (fun _ => {}) _ _ noonWrites (by decide)
    (by rw [hnumbers]; decide)

end RootSign
