import RootSign.ChainState
import RootSign.Ingest.Schemas

namespace RootSign

open RootSign.Python

/-!
# The spool, read back (`rootsign/sdk/spool.py`)

A spool file is a session file.  `readSpoolSession` folds its records back into the envelopes the
ingest endpoint accepts, in file order, and refuses a file whose action numbers do not ascend.

* `envelopeFromAction`, `envelopeFromRecord` — one record;
* `Reading`, `readLine` — the loop over the lines;
* `readSpoolSession` — the whole file;
* `readSpoolSession_ok_iff` — of the lines a writer makes, it accepts those whose action numbers
  ascend.
-/

/-! ### Records to envelopes -/

/-- `SCHEMA_VERSION`. -/
def schemaVersion : JStr := "1.1"

/-- The fields of `IngestEnvelope`. -/
def envelopeFields : List String :=
  ["schema_version", "sdk_version", "event_type", "event_id", "emitted_at", "agent_id",
   "session_id", "payload"]

/-- The fields of `ActionRecordPayload`. -/
def actionPayloadFields : List String :=
  ["tool_name", "input_hash", "output_hash", "input_redacted", "output_redacted", "timestamp",
   "duration_ms", "decision_id", "policy_id", "authorization_status", "action_id",
   "sequence_number", "prev_action_hash", "self_hash"]

/-- `{key: record[key] for key in fields if key in record}`. -/
def pick (fields : List String) (record : Dict) : Dict :=
  fields.filterMap fun key =>
    (record.lookup (JStr.ofString key)).map fun v => (JStr.ofString key, v)

/-- `d.setdefault(key, value)`. -/
def setDefault (d : Dict) (key : String) (value : Json) : Dict :=
  match d.lookup (JStr.ofString key) with
  | some _ => d
  | none => d.set key value

/-- What reading a spool file raises: `SpoolFormatError`, or an exception of the interpreter. -/
inductive SpoolError where
  | format (message : JStr)
  | python (e : PyError)

/-- What a message names: the file, the running package's version, and the line. -/
structure SpoolSource where
  path : JStr
  stem : JStr
  sdk_version : JStr

/-- A number in a message. -/
def numberText (n : ℕ) : JStr := JStr.ofChars (intText n)

/-- `_envelope_shell`. -/
def envelopeShell (src : SpoolSource) (record payload : Dict) : Dict :=
  let envelope := (pick envelopeFields record).set "payload" (.obj payload)
  setDefault (setDefault envelope "schema_version" (.str schemaVersion)) "sdk_version"
    (.str src.sdk_version)

/-- `_envelope_from_action`: a flattened action is nested again. -/
def envelopeFromAction (src : SpoolSource) (line : ℕ) (record : Dict) : Except SpoolError Dict :=
  let payload := pick actionPayloadFields record
  match payload.lookup (JStr.ofString "tool_name"), payload.lookup (JStr.ofString "input_hash") with
  | some _, some _ => .ok (envelopeShell src record payload)
  | _, _ => .error (.format (src.path ++ ": ACTION_RECORD at line " ++ numberText line ++
      " is missing canonical fields (tool_name/input_hash) — not a record this SDK wrote"))

/-- `_envelope_from_record`: the writer's own additions come off. -/
def envelopeFromRecord (rt : Runtime) (src : SpoolSource) (line : ℕ) (record : Dict) :
    Except SpoolError Dict :=
  match record.get "payload" with
  | .obj payload => .ok (envelopeShell src record payload)
  | _ => .error (.format (src.path ++ ": " ++ rt.pyStr (record.get "event_type") ++ " at line " ++
      numberText line ++ " has no payload object"))

/-! ### The loop -/

/-- A line of the file, as the reader sees it: only white space, no JSON, or a value. -/
inductive SpoolLine where
  | blank
  | malformed
  | value (v : Json)

/-- `v <= w`, or `none` where Python raises `TypeError`. -/
def pyLe (v w : Json) : Option Bool := (v.pyLt w).map fun lt => lt || v.pyEq w

/-- The local variables of the loop. -/
structure Reading where
  session_id : Option JStr := none
  previous_sequence : Json := .null
  envelopes : List Dict := []
  annotations : ℕ := 0

/-- `event_type in _EVENT_TYPES`; an unhashable value raises. -/
def isEventType : Json → Except PyError Bool
  | .arr _ => .error .typeError
  | .obj _ => .error .typeError
  | v => .ok ([EventType.SESSION_OPEN, .ACTION_RECORD, .DECISION_RECORD, .APPROVAL_RECORD,
      .SESSION_CLOSE].any fun e => v.pyEq (.str (JStr.ofString e.text)))

/-- The check on the number of an action. -/
def checkSequence (rt : Runtime) (src : SpoolSource) (line : ℕ) (previous sequence : Json) :
    Except SpoolError Json :=
  if Json.isNone sequence then .ok previous
  else if Json.isNone previous then .ok sequence
  else
    match pyLe sequence previous with
    | none => .error (.python .typeError)
    | some true => .error (.format (src.path ++ ": sequence_number " ++ rt.pyStr sequence ++
        " at line " ++ numberText line ++ " does not follow " ++ rt.pyStr previous ++
        " — the file is out of order or contains a replayed chain. Verify it " ++
        "(`rootsign verify --local`) before uploading."))
    | some false => .ok sequence

/-- An action in the loop. -/
def readAction (rt : Runtime) (src : SpoolSource) (line : ℕ) (r : Reading) (record : Dict) :
    Except SpoolError Reading :=
  match envelopeFromAction src line record with
  | .error e => .error e
  | .ok envelope =>
    match checkSequence rt src line r.previous_sequence
        ((pick actionPayloadFields record).get "sequence_number") with
    | .error e => .error e
    | .ok previous =>
      .ok { r with previous_sequence := previous, envelopes := r.envelopes ++ [envelope] }

/-- A record in the loop; what is no event is an annotation. -/
def readRecord (rt : Runtime) (src : SpoolSource) (line : ℕ) (r : Reading) (record : Dict) :
    Except SpoolError Reading :=
  let event_type := record.get "event_type"
  match isEventType event_type with
  | .error e => .error (.python e)
  | .ok false => .ok { r with annotations := r.annotations + 1 }
  | .ok true =>
    let r := { r with session_id := some (r.session_id.getD (rt.pyStr (record.get "session_id"))) }
    if event_type.pyEq (.str "ACTION_RECORD") then readAction rt src line r record
    else (envelopeFromRecord rt src line record).map fun envelope =>
      { r with envelopes := r.envelopes ++ [envelope] }

/-- One line, the last of the file or not. -/
def readLine (rt : Runtime) (src : SpoolSource) (line : ℕ) (last : Bool) (r : Reading) :
    SpoolLine → Except SpoolError Reading
  | .blank => .ok r
  | .malformed =>
    if last then
      .error (.format (src.path ++ ": truncated final line — the writing process is probably " ++
        "still running or crashed mid-append; re-run once it has exited"))
    else .error (.format (src.path ++ ": malformed JSON at line " ++ numberText line))
  | .value (.obj record) => readRecord rt src line r record
  | .value _ => .error (.python .attributeError)

/-- The lines from the given number on. -/
def readLines (rt : Runtime) (src : SpoolSource) (line : ℕ) (r : Reading) :
    List SpoolLine → Except SpoolError Reading
  | [] => .ok r
  | l :: rest => readLine rt src line rest.isEmpty r l >>= fun r =>
      readLines rt src (line + 1) r rest

/-- One spooled session file, parsed and ready to upload. -/
structure SpoolSession where
  path : JStr
  session_id : JStr
  envelopes : List Dict
  annotations : ℕ

/-- `read_spool_session`. -/
def readSpoolSession (rt : Runtime) (src : SpoolSource) (lines : List SpoolLine) :
    Except SpoolError SpoolSession :=
  (readLines rt src 1 {} lines).map fun r =>
    { path := src.path
      session_id := r.session_id.getD src.stem
      envelopes := r.envelopes
      annotations := r.annotations }

/-- The lines that hold the given records: the writer ends each with a newline. -/
def recordLines (records : List Dict) : List SpoolLine := records.map fun r => .value (.obj r)

/-! ### Files the writer has made -/

/-- The number of an action line. -/
def actionNumber (record : Dict) : Option ℤ :=
  if (record.get "event_type").pyEq (.str "ACTION_RECORD") then
    (record.get "sequence_number").asInt
  else none

/-- A line as the writer makes it: an action with its canonical fields and its number, another
    event with its payload, or an annotation. -/
structure Written (record : Dict) : Prop where
  event_type : ∃ text, record.get "event_type" = .str text
  action : record.get "event_type" = .str "ACTION_RECORD" →
    record.has "tool_name" ∧ record.has "input_hash" ∧
      ∃ n, record.get "sequence_number" = .int n
  other : isEventType (record.get "event_type") = .ok true →
    record.get "event_type" ≠ .str "ACTION_RECORD" →
      ∃ payload, record.get "payload" = .obj payload

/-- The file can be read back. -/
def Uploadable (rt : Runtime) (src : SpoolSource) (records : List Dict) : Prop :=
  ∃ session, readSpoolSession rt src (recordLines records) = .ok session

section

variable {rt : Runtime} {src : SpoolSource} {record : Dict} {records : List Dict}

/-- A key the record lacks is picked nowhere. -/
theorem lookup_pick_none (fields : List String) {key : String}
    (h : record.lookup (JStr.ofString key) = none) :
    List.lookup (JStr.ofString key) (pick fields record) = none := by
  rw [List.lookup_eq_none_iff]
  intro p hp
  obtain ⟨field, -, hfield⟩ := List.mem_filterMap.mp hp
  obtain ⟨v, hv, rfl⟩ := Option.map_eq_some_iff.mp hfield
  refine bne_iff_ne.mpr fun heq : JStr.ofString key = JStr.ofString field => ?_
  rw [← heq, h] at hv
  exact absurd hv (by simp)

/-- A key among the fields is picked as it is. -/
theorem lookup_pick {fields : List String} {key : String} (h : key ∈ fields) :
    List.lookup (JStr.ofString key) (pick fields record) = record.lookup (JStr.ofString key) := by
  cases hv : record.lookup (JStr.ofString key) with
  | none => exact lookup_pick_none fields hv
  | some v =>
    induction fields with
    | nil => exact absurd h (by simp)
    | cons field rest ih =>
      by_cases hkey : key = field
      · subst hkey
        simp [pick, hv]
      · have hrest := ih ((List.mem_cons.mp h).resolve_left hkey)
        have hne : (JStr.ofString key == JStr.ofString field) = false := by
          rw [JStr.ofString_beq]
          exact beq_eq_false_iff_ne.mpr hkey
        unfold pick at hrest ⊢
        rw [List.filterMap_cons]
        cases record.lookup (JStr.ofString field) with
        | none => exact hrest
        | some w =>
          show List.lookup _ ((JStr.ofString field, w) :: _) = _
          rw [List.lookup_cons, hne]
          exact hrest

theorem isEventType_action : isEventType (.str "ACTION_RECORD") = .ok true := by
  simp [isEventType, EventType.text, Json.pyEq_str]

/-- What the loop does with the number of an action. -/
theorem readRecord_action (line : ℕ) {r : Reading} {n : ℤ} (hwritten : Written record)
    (haction : record.get "event_type" = .str "ACTION_RECORD")
    (hnumber : record.get "sequence_number" = .int n)
    (hprevious : r.previous_sequence = .null ∨ ∃ p, r.previous_sequence = .int p) :
    (∃ r', readRecord rt src line r record = .ok r' ∧ r'.previous_sequence = .int n) ∧
        (∀ p, r.previous_sequence = .int p → p < n) ∨
      (∃ e, readRecord rt src line r record = .error e) ∧
        ∃ p, r.previous_sequence = .int p ∧ n ≤ p := by
  obtain ⟨htool, hinput, -⟩ := hwritten.action haction
  obtain ⟨tool, htool⟩ := Option.isSome_iff_exists.mp htool
  obtain ⟨input, hinput⟩ := Option.isSome_iff_exists.mp hinput
  -- a record of `jsonl_client.py` has the two fields the loop looks for, so only its number counts
  have henvelope : envelopeFromAction src line record =
      .ok (envelopeShell src record (pick actionPayloadFields record)) := by
    simp only [envelopeFromAction]
    rw [lookup_pick (by simp [actionPayloadFields]), htool,
      lookup_pick (by simp [actionPayloadFields]), hinput]
  have hsequence : (pick actionPayloadFields record).get "sequence_number" = .int n := by
    rw [← hnumber, Dict.get, Dict.getD, lookup_pick (by simp [actionPayloadFields])]
    rfl
  have hkind : (Json.str "ACTION_RECORD").pyEq (.str "ACTION_RECORD") = true :=
    Json.pyEq_str.mpr rfl
  simp only [readRecord, haction, isEventType_action, hkind, if_true, readAction, henvelope,
    hsequence]
  -- the first number of a session is compared with nothing
  rcases hprevious with hp | ⟨p, hp⟩
  · refine Or.inl ⟨?_, fun p h => absurd (hp.symm.trans h) (by simp)⟩
    simp only [hp, checkSequence]
    exact ⟨_, rfl, rfl⟩
  · rcases lt_or_ge p n with hlt | hge
    · refine Or.inl ⟨?_, fun q h => ?_⟩
      · have hle : pyLe (.int n) (.int p) = some false := by
          simp [pyLe]; omega
        simp only [hp, checkSequence, Json.isNone, hle]
        exact ⟨_, rfl, rfl⟩
      · obtain rfl := Json.int.inj (hp.symm.trans h)
        exact hlt
    · refine Or.inr ⟨?_, p, hp, hge⟩
      have hle : pyLe (.int n) (.int p) = some true := by
        simp [pyLe]; omega
      simp only [hp, checkSequence, Json.isNone, hle]
      exact ⟨_, rfl⟩

/-- Any other line is read without looking at the number before it. -/
theorem readRecord_other (line : ℕ) (r : Reading) (hwritten : Written record)
    (hother : record.get "event_type" ≠ .str "ACTION_RECORD") :
    ∃ r', readRecord rt src line r record = .ok r' ∧
      r'.previous_sequence = r.previous_sequence := by
  obtain ⟨text, htext⟩ := hwritten.event_type
  have hkind : (record.get "event_type").pyEq (.str "ACTION_RECORD") = false := by
    rw [Bool.eq_false_iff, ne_eq, Json.pyEq_str]
    exact hother
  simp only [readRecord, hkind, Bool.false_eq_true, if_false]
  cases htype : isEventType (record.get "event_type") with
  | error e => rw [htext] at htype; exact absurd htype (by simp [isEventType])
  | ok b =>
    cases b with
    | false => exact ⟨_, rfl, rfl⟩
    | true =>
      obtain ⟨payload, hpayload⟩ := hwritten.other htype hother
      simp only [envelopeFromRecord, hpayload]
      exact ⟨_, rfl, rfl⟩

/-- The loop accepts the rest of the lines exactly when their numbers ascend from the last. -/
theorem readLines_ok_iff (line : ℕ) {r : Reading} (hwritten : ∀ record ∈ records, Written record)
    (hprevious : r.previous_sequence = .null ∨ ∃ p, r.previous_sequence = .int p) :
    (∃ r', readLines rt src line r (recordLines records) = .ok r') ↔
      (∀ p, r.previous_sequence = .int p → ∀ n ∈ records.filterMap actionNumber, p < n) ∧
        (records.filterMap actionNumber).Pairwise (· < ·) := by
  -- by induction on the lines; an action moves the number that later ones are compared with
  induction records generalizing line r with
  | nil => simp [recordLines, readLines]
  | cons record rest ih =>
    have hhead := hwritten record List.mem_cons_self
    have hrest := fun x hx => hwritten x (List.mem_cons_of_mem record hx)
    have hsplit : ∀ r', readRecord rt src line r record = .ok r' →
        readLines rt src line r (recordLines (record :: rest)) =
          readLines rt src (line + 1) r' (recordLines rest) := by
      intro r' h
      show readRecord rt src line r record >>= _ = _
      rw [h]
      rfl
    by_cases haction : record.get "event_type" = .str "ACTION_RECORD"
    · obtain ⟨-, -, n, hn⟩ := hhead.action haction
      have hnumber : actionNumber record = some n := by
        rw [actionNumber, if_pos (Json.pyEq_str.mpr haction), hn]
        rfl
      rw [List.filterMap_cons_some hnumber, List.pairwise_cons]
      rcases readRecord_action line hhead haction hn hprevious with
        ⟨⟨r', hr', hnext⟩, hlt⟩ | ⟨⟨e, he⟩, p, hp, hle⟩
      · rw [hsplit r' hr', ih (line + 1) hrest (Or.inr ⟨n, hnext⟩)]
        constructor
        · rintro ⟨habove, hpair⟩
          refine ⟨fun p hp m hm => ?_, habove n hnext, hpair⟩
          rcases List.mem_cons.mp hm with rfl | hm
          · exact hlt p hp
          · exact lt_trans (hlt p hp) (habove n hnext m hm)
        · rintro ⟨-, habove, hpair⟩
          refine ⟨fun p hp m hm => ?_, hpair⟩
          obtain rfl := Json.int.inj (hnext.symm.trans hp)
          exact habove m hm
      · constructor
        · rintro ⟨r', h⟩
          have herror : readLines rt src line r (recordLines (record :: rest)) = .error e := by
            show readRecord rt src line r record >>= _ = _
            rw [he]
            rfl
          rw [herror] at h
          exact absurd h (by simp)
        · rintro ⟨habove, -⟩
          have := habove p hp n List.mem_cons_self
          omega
    -- a record of another kind leaves the number as it was
    · obtain ⟨r', hr', hsame⟩ := readRecord_other line r hhead haction
      have hnumber : actionNumber record = none := by
        rw [actionNumber, if_neg]
        exact fun h => haction (Json.pyEq_str.mp h)
      rw [List.filterMap_cons_none hnumber, hsplit r' hr', ih (line + 1) hrest (by rwa [hsame]),
        hsame]

/-- **What the reader accepts.** Of files that a writer makes, those whose action numbers strictly
    ascend. -/
theorem readSpoolSession_ok_iff (rt : Runtime) (src : SpoolSource)
    (hwritten : ∀ record ∈ records, Written record) :
    Uploadable rt src records ↔ (records.filterMap actionNumber).Pairwise (· < ·) := by
  have h := @readLines_ok_iff rt src records 1 {} hwritten (Or.inl rfl)
  have hread : Uploadable rt src records ↔
      ∃ r', readLines rt src 1 {} (recordLines records) = .ok r' := by
    unfold Uploadable readSpoolSession
    cases readLines rt src 1 {} (recordLines records) <;> simp [Except.map]
  rw [hread, h]
  exact and_iff_right fun p hp => absurd hp (by simp)

end

end RootSign
