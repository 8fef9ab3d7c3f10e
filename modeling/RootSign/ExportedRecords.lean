import RootSign.ExportedDocuments
import RootSign.VerifiedRecords

namespace RootSign

open RootSign.Python

/-!
# What an export takes over from the records

The documents of a session file hold values of its records.  They can be written exactly if these
values can.

* `exportedFields`, `SessionWritable` — the values that are taken over;
* `exists_loaded`, `exists_built` — the files whose evidence is loaded and made into a bundle;
* `ContentWritable`, `writable_documents` — the files whose documents can be written.
-/

/-! ### The values taken over -/

/-- The values that the bundle takes over from an action, a decision, an approval or a tally, with
    or without its content. -/
def exportedFields (included : Bool) (r : Dict) : List Json :=
  if isActionLine r then
    (["sequence_number", "action_id", "timestamp", "tool_name", "prev_action_hash", "self_hash",
      "authorization_status", "duration_ms", "decision_id", "input_hash", "output_hash"] ++
      if included then ["input_redacted", "output_redacted"] else []).map r.get
  else if isKind "DECISION_RECORD" r then
    (["timestamp", "decision_id", "selected_action", "confidence", "alternatives_considered"] ++
      if included then ["reasoning_summary", "inputs_summary"] else []).map (decisionOf r).get
  else if isKind "APPROVAL_RECORD" r then
    (["timestamp", "approval_id", "action_id", "approver_id", "approver_type", "decision",
      "decision_reason", "response_latency_ms"] ++
      if included then ["context_presented"] else []).map (approvalOf r).get
  else if isOther r then
    [orValue (r.get "first_loss_at") (r.get "recorded_at"), r.get "lost_count",
      r.get "first_sequence", r.get "last_sequence", r.get "reasons"]
  else []

/-- The last record of a kind. -/
def lastOf (kind : Dict → Bool) (records : List Dict) : Option Dict :=
  (records.filter kind).getLast?

/-- An opening or a closing. -/
def isBoundary (r : Dict) : Bool := isKind "SESSION_OPEN" r || isKind "SESSION_CLOSE" r

/-- The last closing says when the session ended. -/
def saysEnd (records : List Dict) : Bool :=
  ((lastOf (isKind "SESSION_CLOSE") records).map fun r => (r.get "emitted_at").truthy).getD false

/-- What the bundle takes over from the openings and closings can be written: the last of each, and
    the status of the last of both. -/
structure SessionWritable (w : JsonLimits) (records : List Dict) : Prop where
  agent : ∀ r, lastOf (isKind "SESSION_OPEN") records = some r → Writable w 2 (r.get "agent_id")
  opening : ∀ r, lastOf (isKind "SESSION_OPEN") records = some r →
    Writable w 3 ((payloadDict r).get "objective") ∧ Writable w 3 ((payloadDict r).get "user_id") ∧
      Writable w 3 (r.get "emitted_at")
  closing : ∀ r, lastOf (isKind "SESSION_CLOSE") records = some r →
    Writable w 3 (r.get "emitted_at")
  status : ∀ r, lastOf isBoundary records = some r → isKind "SESSION_CLOSE" r = true →
    Writable w (if saysEnd records then 3 else 2) ((payloadDict r).get "status")

section

variable {w : JsonLimits} {bound : ℕ} {r : Dict} {records : List Dict} {included : Bool}

/-- The event of a decision can be written if what is exported of it can. -/
theorem writable_decisionEvent (hroom : Roomy w bound) (hkind : isKind "DECISION_RECORD" r = true) :
    Writable w 2 (.obj (keptEvent included (decisionEvent (decisionOf r)))) ↔
      ∀ v ∈ exportedFields included r, Writable w 3 v := by
  have haction : isActionLine r = false := isKind_ne hkind (by decide)
  rw [decisionEvent, writable_keptEvent 6 hroom rfl rfl, exportedFields]
  simp only [haction, hkind, Bool.false_eq_true, if_false, if_true]
  cases included <;> simp [and_assoc]

/-- The event of an approval can be written if what is exported of it can. -/
theorem writable_approvalEvent (hroom : Roomy w bound) (hkind : isKind "APPROVAL_RECORD" r = true) :
    Writable w 2 (.obj (keptEvent included (approvalEvent (approvalOf r)))) ↔
      ∀ v ∈ exportedFields included r, Writable w 3 v := by
  have haction : isActionLine r = false := isKind_ne hkind (by decide)
  have hdecision : isKind "DECISION_RECORD" r = false := isKind_ne hkind (by decide)
  rw [approvalEvent, writable_keptEvent 9 hroom rfl rfl, exportedFields]
  simp only [haction, hdecision, hkind, Bool.false_eq_true, if_false, if_true]
  cases included <;> simp [and_assoc]

/-- The event of a loss can be written if what is exported of it can. -/
theorem writable_lossEvent (hroom : Roomy w bound) (hother : isOther r = true) :
    Writable w 2 (.obj (keptEvent included (lossEvent r))) ↔
      ∀ v ∈ exportedFields included r, Writable w 3 v := by
  have hkinds := Bool.and_eq_true_iff.mp hother
  simp only [Bool.not_eq_true', readsPayload, Bool.or_eq_false_iff] at hkinds
  rw [lossEvent, writable_keptEvent 6 hroom rfl rfl, exportedFields]
  simp only [hkinds, hother, Bool.false_eq_true, if_false, if_true]
  simp

/-- An action goes into the verification and into the timeline. -/
theorem writable_actionEvent (hroom : Roomy w bound) (hkind : isActionLine r = true)
    {res : VerifyResult} {entry : RecordEntry} (hentry : recordEntry res r = .ok entry) :
    (Writable w 2 (.obj entry.asDict) ∧ Writable w 2 (.obj (keptEvent included (actionEvent r)))) ↔
      ∀ v ∈ exportedFields included r, Writable w 3 v := by
  have hdepth : 2 < w.depth := by
    have := hroom.depth
    omega
  obtain ⟨status, -, hentry⟩ := bind_eq_ok.mp hentry
  obtain rfl := Except.ok.inj hentry
  rw [RecordEntry.asDict, writable_ofFields, actionEvent, writable_keptEvent 10 hroom rfl rfl,
    exportedFields]
  simp only [hkind, if_true]
  cases included
  all_goals
    simp [hdepth, and_assoc]
    intro hsequence hid htime htool _ _
    simp [hsequence, hid, htime, htool]

/-! ### The session -/

/-- The fields of the session after the records. -/
theorem get_foldl_sessionAfter {key : String} {kind : Dict → Bool} {value : Dict → Json}
    (hstep : ∀ session r, (sessionAfter session r).get key =
      if kind r then value r else Dict.get session key) (records : List Dict) :
    Dict.get (records.foldl sessionAfter []) key =
      ((lastOf kind records).map value).getD .null := by
  induction records using List.reverseRecOn with
  | nil => rfl
  | append_singleton records r ih =>
    rw [List.foldl_append, List.foldl_cons, List.foldl_nil, hstep, lastOf, List.filter_append]
    cases hkind : kind r with
    | true => simp [hkind]
    | false =>
      rw [List.filter_cons_of_neg (by simp [hkind]), List.filter_nil, List.append_nil,
        if_neg (by simp), ih, lastOf]

/-- Each field of the session is that of the last record which sets it. -/
theorem get_session (records : List Dict) :
    let session := records.foldl sessionAfter []
    let opening := lastOf (isKind "SESSION_OPEN") records
    session.get "agent_id" = (opening.map fun r => r.get "agent_id").getD .null ∧
      session.get "objective" = (opening.map fun r => (payloadDict r).get "objective").getD .null ∧
      session.get "user_id" = (opening.map fun r => (payloadDict r).get "user_id").getD .null ∧
      session.get "start_time" = (opening.map fun r => r.get "emitted_at").getD .null ∧
      session.get "end_time" =
        ((lastOf (isKind "SESSION_CLOSE") records).map fun r => r.get "emitted_at").getD .null ∧
      session.get "status" = ((lastOf isBoundary records).map fun r =>
        if isKind "SESSION_OPEN" r then .str "running" else (payloadDict r).get "status").getD
          .null := by
  dsimp only
  refine ⟨get_foldl_sessionAfter (fun session r => ?_) records,
    get_foldl_sessionAfter (fun session r => ?_) records,
    get_foldl_sessionAfter (fun session r => ?_) records,
    get_foldl_sessionAfter (fun session r => ?_) records,
    get_foldl_sessionAfter (fun session r => ?_) records,
    get_foldl_sessionAfter (fun session r => ?_) records⟩
  all_goals
    unfold sessionAfter
    have hexcludes : isKind "SESSION_OPEN" r = true → isKind "SESSION_CLOSE" r = false :=
      fun h => isKind_ne h (by decide)
    cases hopen : isKind "SESSION_OPEN" r <;> cases hclose : isKind "SESSION_CLOSE" r <;>
      simp_all [Dict.get_set, isBoundary]

end

/-! ### Loading -/

/-- The actions of a file, as the loader reads it. -/
def exportedActions (lines : List FileLine) : List Dict :=
  (exportedRecords lines).filter isActionLine

/-- `str(session_id or path.stem)`, with the first session id that does not count as false. -/
def exportedId (rt : Runtime) (stem : JStr) (lines : List FileLine) : JStr :=
  rt.pyStr
    ((((exportedRecords lines).map fun r => r.get "session_id").find? Json.truthy).getD (.str stem))

/-- The numbers that the actions are sorted by compare with one another, if there are several. -/
def NumbersCompare (lines : List FileLine) : Prop :=
  ∀ a ∈ exportedActions lines, ∀ b ∈ exportedActions lines,
    (exportedActions lines).length ≤ 1 ∨ ((sortNumber a).pyLt (sortNumber b)).isSome = true

/-- The receipt that an export finds for a session. -/
def foundReceipt (load_receipt : JStr → Except PyError (Option Dict)) (session_id : JStr) :
    Option Dict := (loadReceiptFor load_receipt session_id).toOption.join

/-- The lookup of the receipt raises nothing that the export does not catch. -/
def ReceiptReadable (load_receipt : JStr → Except PyError (Option Dict)) (session_id : JStr) :
    Prop := ∀ e, load_receipt session_id = .error e → e = .osError ∨ ∃ message,
      e = .valueError message

section

variable {rt : Runtime} {path stem : JStr} {load_receipt : JStr → Except PyError (Option Dict)}
variable {lines : List FileLine} {evidence : SessionEvidence} {res : VerifyResult}

/-- The session id is the first one that is not falsy. -/
theorem orValue_foldl (ids : List Json) (id default : Json) :
    orValue (ids.foldl orValue id) default =
      if id.truthy then id else (ids.find? Json.truthy).getD default := by
  induction ids generalizing id with
  | nil => rfl
  | cons next rest ih =>
    rw [List.foldl_cons, ih, List.find?_cons]
    unfold orValue
    cases hid : id.truthy with
    | true => simp [hid]
    | false => cases hnext : next.truthy <;> simp [hnext]

/-- Records are sorted unless two of their keys do not compare. -/
theorem sortByKey_isOk {items : List (Json × Dict)} :
    (∃ sorted, sortByKey items = .ok sorted) ↔
      ∀ a ∈ items, ∀ b ∈ items, items.length ≤ 1 ∨ (a.1.pyLt b.1).isSome = true := by
  unfold sortByKey
  constructor
  · rintro ⟨sorted, h⟩
    split at h
    · rename_i hall
      simpa [List.all_eq_true] using hall
    · cases h
  · intro h
    rw [if_pos (by simpa [List.all_eq_true] using h)]
    exact ⟨_, rfl⟩

/-- What the loader keeps of a file. -/
structure Loaded (rt : Runtime) (path stem : JStr)
    (load_receipt : JStr → Except PyError (Option Dict)) (lines : List FileLine)
    (res : VerifyResult) (evidence : SessionEvidence) : Prop where
  session_id : evidence.session_id = exportedId rt stem lines
  location : evidence.source_location = path
  backend : evidence.source_backend = "jsonl"
  verify : evidence.verify = res
  session : evidence.session = (exportedRecords lines).foldl sessionAfter []
  agent : evidence.agent = if (evidence.session.get "agent_id").truthy then
    some (Dict.ofFields [("agent_id", evidence.session.get "agent_id")]) else none
  actions : evidence.actions.Perm (exportedActions lines)
  decisions : evidence.decisions =
    ((exportedRecords lines).filter (isKind "DECISION_RECORD")).map decisionOf
  approvals : evidence.approvals =
    ((exportedRecords lines).filter (isKind "APPROVAL_RECORD")).map approvalOf
  losses : evidence.losses = (exportedRecords lines).filter isOther
  receipt : evidence.receipt = foundReceipt load_receipt (exportedId rt stem lines)

/-- The session id that the loader resolves. -/
theorem resolved_of_read : rt.pyStr (orValue
    ((exportedRecords lines).foldl Collected.with {}).session_id (.str stem)) =
      exportedId rt stem lines := by
  have hmap : ((exportedRecords lines).foldl Collected.with {}).session_id =
      ((exportedRecords lines).map fun r => r.get "session_id").foldl orValue .null := by
    rw [List.foldl_map]
    exact (foldl_with {} (exportedRecords lines)).1
  rw [hmap, orValue_foldl]
  rfl

/-- The receipt is looked for with success exactly if what is raised is caught. -/
theorem loadReceiptFor_isOk {session_id : JStr} :
    (∃ receipt, loadReceiptFor load_receipt session_id = .ok receipt) ↔
      ReceiptReadable load_receipt session_id := by
  unfold loadReceiptFor ReceiptReadable
  cases load_receipt session_id with
  | ok receipt => simp
  | error e => cases e <;> simp

/-- **Loading** succeeds exactly if the lines can be read, the values on them are taken in, the
    numbers compare and the receipt can be looked for. -/
theorem exists_loaded (hverify : verifySessionLocal rt (lines.map FileLine.stripped) = .ok res) :
    (∃ evidence, loadLocalSession rt path stem load_receipt lines = .ok evidence) ↔
      (NoneRaises (lines.map FileLine.unstripped) ∧
        ∀ v ∈ lineValues (lines.map FileLine.unstripped), Loadable v) ∧ NumbersCompare lines ∧
        ReceiptReadable load_receipt (exportedId rt stem lines) := by
  obtain ⟨-, -, hactions, -, -, -⟩ := foldl_with {} (exportedRecords lines)
  have hsortable :
    (∃ sorted, sortByKey (((exportedRecords lines).foldl Collected.with {}).actions.map
      fun a => (sortNumber a, a)) = .ok sorted) ↔ NumbersCompare lines := by
    rw [sortByKey_isOk, hactions, List.nil_append]
    simp only [List.forall_mem_map, List.length_map]
    rfl
  rw [← hsortable, ← loadReceiptFor_isOk, ← resolved_of_read]
  constructor
  · rintro ⟨evidence, h⟩
    obtain ⟨c, hread, h⟩ := bind_eq_ok.mp h
    obtain ⟨sorted, hsort, h⟩ := bind_eq_ok.mp h
    obtain ⟨_, -, h⟩ := bind_eq_ok.mp h
    obtain ⟨receipt, hreceipt, -⟩ := bind_eq_ok.mp h
    obtain ⟨hloadable, rfl⟩ := read_spec.mp hread
    exact ⟨hloadable, ⟨sorted, hsort⟩, receipt, hreceipt⟩
  · rintro ⟨hloadable, ⟨sorted, hsort⟩, receipt, hreceipt⟩
    refine ⟨_, bind_eq_ok.mpr ⟨_, read_spec.mpr ⟨hloadable, rfl⟩, bind_eq_ok.mpr ⟨sorted, hsort,
      bind_eq_ok.mpr ⟨res, hverify, bind_eq_ok.mpr ⟨receipt, hreceipt, rfl⟩⟩⟩⟩⟩

/-- What `load_local_session` has returned is the evidence of the file. -/
theorem loaded_of_ok (hverify : verifySessionLocal rt (lines.map FileLine.stripped) = .ok res)
    (h : loadLocalSession rt path stem load_receipt lines = .ok evidence) :
    Loaded rt path stem load_receipt lines res evidence := by
  obtain ⟨c, hread, h⟩ := bind_eq_ok.mp h
  obtain ⟨sorted, hsort, h⟩ := bind_eq_ok.mp h
  obtain ⟨res', hres, h⟩ := bind_eq_ok.mp h
  obtain ⟨receipt, hreceipt, h⟩ := bind_eq_ok.mp h
  obtain rfl := Except.ok.inj (hverify.symm.trans hres)
  obtain ⟨-, hc⟩ := read_spec.mp hread
  obtain ⟨-, hsession, hactions, hdecisions, happrovals, hlosses⟩ :=
    foldl_with {} (recordsOf (lines.map FileLine.unstripped))
  have hresolved : rt.pyStr (orValue c.session_id (.str stem)) = exportedId rt stem lines :=
    hc ▸ resolved_of_read
  rw [← hc] at hsession hactions hdecisions happrovals hlosses
  have hperm : (sorted.map Prod.snd).Perm (exportedActions lines) := by
    have hsorted := (sortByKey_perm hsort).map Prod.snd
    rw [List.map_map] at hsorted
    refine hsorted.trans (List.Perm.of_eq ?_)
    show c.actions.map (fun a => a) = _
    rw [List.map_id', hactions]
    rfl
  obtain rfl := Except.ok.inj h
  refine ⟨hresolved, rfl, rfl, rfl, hsession, rfl, hperm, hdecisions, happrovals, hlosses, ?_⟩
  rw [foundReceipt, ← hresolved, hreceipt]
  rfl

/-! ### The bundle -/

/-- How many values in the actions' payloads are the sentinel. -/
def redactedCount (actions : List Dict) : ℕ :=
  (actions.map fun a => ((redactedPayloads a).map fun v => (redactedPaths "" v).length).sum).sum

/-- Some action has content, and it is not withheld. -/
def includesPreviews (redact_previews : Bool) (lines : List FileLine) : Bool :=
  ((exportedActions lines).any fun a =>
    carriesContent a "input_redacted" || carriesContent a "output_redacted") && !redact_previews

/-- The bundle can be made and each value in it written. -/
structure ContentWritable (rt : Runtime) (w : JsonLimits) (stem : JStr)
    (load_receipt : JStr → Except PyError (Option Dict)) (redact_previews : Bool)
    (lines : List FileLine) (res : VerifyResult) : Prop where
  result : WritableResult w res
  session_id : PairedText (exportedId rt stem lines)
  fields : ∀ r ∈ exportedRecords lines,
    ∀ v ∈ exportedFields (includesPreviews redact_previews lines) r, Writable w 3 v
  session : SessionWritable w (exportedRecords lines)
  paths : ∀ a ∈ exportedActions lines, ∀ payload ∈ redactedPayloads a,
    ∀ path ∈ redactedPaths "" payload, PairedText path
  receipt : ∀ receipt, foundReceipt load_receipt (exportedId rt stem lines) = some receipt →
    Writable w 0 (.obj receipt)

variable {w : JsonLimits} {generated_at : JStr} {redact_previews : Bool} {b : EvidenceBundle}

/-- The replay block is built unless a receipt that was found cannot be summarised. -/
theorem replayBlock_isOk {receipt : Option Dict} :
    (∃ replay, replayBlock receipt = .ok replay) ↔
      ∀ document, receipt = some document → ∃ summary, replaySummary document = .ok summary := by
  cases receipt with
  | none => simp [replayBlock]
  | some document =>
    cases h : replaySummary document <;> simp [replayBlock, h, Except.map]

/-- **Building** succeeds exactly if the receipt, where there is one, can be summarized. -/
theorem exists_built (hload : loadLocalSession rt path stem load_receipt lines = .ok evidence) :
    (∃ b, buildBundle rt generated_at redact_previews evidence = .ok b) ↔
      ∀ receipt, evidence.receipt = some receipt →
        ∃ summary, replaySummary receipt = .ok summary := by
  rw [← replayBlock_isOk]
  have hrecords : ∃ records, evidence.actions.mapM (recordEntry evidence.verify) = .ok records := by
    apply exists_mapM_eq_ok
    intro a ha
    obtain ⟨status, hstatus⟩ := exists_status hload ha
    exact ⟨_, bind_eq_ok.mpr ⟨status, hstatus, rfl⟩⟩
  constructor
  · rintro ⟨b, h⟩
    obtain ⟨v, hv, -⟩ := bind_eq_ok.mp h
    obtain ⟨records, -, hv⟩ := bind_eq_ok.mp hv
    obtain ⟨replay, hreplay, -⟩ := bind_eq_ok.mp hv
    exact ⟨replay, hreplay⟩
  · rintro ⟨replay, hreplay⟩
    obtain ⟨records, hrecords⟩ := hrecords
    exact ⟨_, bind_eq_ok.mpr ⟨_,
      bind_eq_ok.mpr ⟨records, hrecords, bind_eq_ok.mpr ⟨replay, hreplay, rfl⟩⟩, rfl⟩⟩

/-- How many attempts a receipt lists. -/
def attemptCount (receipt : Dict) : ℕ :=
  match orValue (receipt.get "attempts") (.arr []) with
  | .arr attempts => attempts.length
  | _ => 0

/-- A default that can be written takes the place of a falsy value. -/
theorem writable_orValue {v default : Json} {level : ℕ} (hv : Writable w level v)
    (hdefault : Writable w level default) : Writable w level (orValue v default) := by
  unfold orValue
  split
  · exact hv
  · exact hdefault

/-- The summary of a receipt that can be written can be written too. -/
theorem writable_replay {receipt summary : Dict} {bound : ℕ} (hroom : Roomy w bound)
    (hreceipt : Writable w 0 (.obj receipt)) (hsummary : replaySummary receipt = .ok summary)
    (hcount : attemptCount receipt ≤ bound) : Writable w 1 (.obj summary) := by
  have hdepth := hroom.depth
  have hempty : ∀ level, level ≤ 3 →
      Writable w level (.arr []) ∧ Writable w level (.obj []) := fun level hlevel =>
    ⟨writable_arr.mpr ⟨by omega, by simp⟩, writable_obj.mpr ⟨by omega, by simp⟩⟩
  obtain ⟨⟨last, attempts⟩, hlatest, h⟩ := bind_eq_ok.mp hsummary
  -- The summary is of the last attempt, and of nothing if there is none.
  obtain ⟨latest, hlast, h⟩ := bind_eq_ok.mp h
  obtain ⟨outcomes, houtcomes, h⟩ := bind_eq_ok.mp h
  obtain rfl := Except.ok.inj h
  have hattempts := writable_orValue (@writable_get _ _ _ "attempts" hreceipt)
    (hempty 1 (by omega)).1
  unfold attemptCount at hcount
  cases hlist : orValue (receipt.get "attempts") (.arr []) with
  | arr xs =>
    rw [hlist] at hlatest hcount hattempts
    obtain ⟨rfl, rfl⟩ := Prod.mk.inj (Except.ok.inj hlatest)
    have hlatest : Writable w 2 (.obj latest) := by
      cases hxs : xs.getLast? with
      | none =>
        rw [List.getLastD_eq_getLast?, hxs] at hlast
        obtain rfl := Except.ok.inj hlast
        exact (hempty 2 (by omega)).2
      | some v =>
        rw [List.getLastD_eq_getLast?, hxs] at hlast
        have hv := (writable_arr.mp hattempts).2 v (List.mem_of_getLast? hxs)
        cases v with
        | obj fields =>
          obtain rfl := Except.ok.inj hlast
          exact hv
        | _ => cases hlast
    have hget : ∀ key, Writable w 2 (latest.get key) := fun key =>
      (writable_get hlatest).mono (by omega)
    have houter : Writable w 3 (.obj outcomes) := by
      have hvalue := writable_orValue (@writable_get _ _ _ "outcomes" hlatest)
        (hempty 3 (by omega)).2
      cases hfields : orValue (latest.get "outcomes") (.obj []) with
      | obj fields =>
        rw [hfields] at houtcomes hvalue
        obtain rfl := Except.ok.inj houtcomes
        exact hvalue
      | _ =>
        rw [hfields] at houtcomes
        cases houtcomes
    have hlists : ∀ key, Writable w 2 (orValue (outcomes.get key) (.arr [])) := fun key =>
      writable_orValue ((writable_get houter).mono (by omega)) (hempty 2 (by omega)).1
    have hattempts := hroom.digits _ hcount
    rw [writable_ofFields]
    simp [hget, hlists, hattempts]
    omega
  | str s =>
    rw [hlist] at hlatest
    obtain ⟨rfl, -⟩ := Prod.mk.inj (Except.ok.inj hlatest)
    cases hlast
  | _ =>
    rw [hlist] at hlatest
    cases hlatest

/-! ### The documents -/

/-- What the documents hold of the session. -/
structure SessionExported (w : JsonLimits) (session : Dict) : Prop where
  agent : Writable w 2 (session.get "agent_id")
  status : Writable w 2 (session.get "status")
  opening : Writable w 3 (session.get "start_time") ∧ Writable w 3 (session.get "objective") ∧
    Writable w 3 (session.get "user_id")
  ended : Writable w 2 (session.get "end_time")
  closing : (session.get "end_time").truthy = true →
    Writable w 3 (session.get "end_time") ∧ Writable w 3 (session.get "status")

/-- The session's fields can be written exactly if those of the records that set them can. -/
theorem sessionExported_iff {records : List Dict} {bound : ℕ} (hroom : Roomy w bound) :
    SessionExported w (records.foldl sessionAfter []) ↔ SessionWritable w records := by
  obtain ⟨hagent, hobjective, huser, hstart, hend, hstatus⟩ := get_session records
  have hends : ((records.foldl sessionAfter []).get "end_time").truthy = saysEnd records := by
    rw [hend, saysEnd]
    cases lastOf (isKind "SESSION_CLOSE") records <;> rfl
  constructor
  · intro h
    -- Each value of the block comes from the last record of some kind, if there is one.
    obtain ⟨⟨hstart', hobjective', huser'⟩, hend', hclosing⟩ := h.opening, h.ended, h.closing
    refine ⟨fun r hr => ?_, fun r hr => ?_, fun r hr => ?_, fun r hr hclose => ?_⟩
    · have := h.agent
      rwa [hagent, hr] at this
    · rw [hobjective, hr] at hobjective'
      rw [huser, hr] at huser'
      rw [hstart, hr] at hstart'
      exact ⟨hobjective', huser', hstart'⟩
    · cases htruthy : (r.get "emitted_at").truthy with
      | false => exact writable_of_falsy hroom le_rfl htruthy
      | true =>
        rw [hend, hr] at hclosing
        exact (hclosing htruthy).1
    · have hopen : isKind "SESSION_OPEN" r = false := isKind_ne hclose (by decide)
      have hvalue :
        (records.foldl sessionAfter []).get "status" = (payloadDict r).get "status" := by
        rw [hstatus, hr]
        simp [hopen]
      rw [← hvalue]
      split_ifs with hsays
      · exact (hclosing (hends.trans hsays)).2
      · exact h.status
  · intro h
    have hlevel : 2 ≤ if saysEnd records then 3 else 2 := by split_ifs <;> omega
    have hsaid : Writable w (if saysEnd records then 3 else 2)
        ((records.foldl sessionAfter []).get "status") := by
      rw [hstatus]
      cases hlast : lastOf isBoundary records with
      | none => exact writable_null
      | some r =>
        have hkind := (List.mem_filter.mp (List.mem_of_getLast? hlast)).2
        cases hopen : isKind "SESSION_OPEN" r with
        | true => simp [hopen]
        | false =>
          have hclose : isKind "SESSION_CLOSE" r = true := by simpa [isBoundary, hopen] using hkind
          simpa [hopen] using h.status r hlast hclose
    have hended : Writable w 3 ((records.foldl sessionAfter []).get "end_time") := by
      rw [hend]
      cases hlast : lastOf (isKind "SESSION_CLOSE") records with
      | none => exact writable_null
      | some r => exact h.closing r hlast
    refine ⟨?_, hsaid.mono hlevel, ?_, hended.mono (by omega), fun htruthy => ⟨hended, ?_⟩⟩
    · rw [hagent]
      cases hlast : lastOf (isKind "SESSION_OPEN") records with
      | none => exact writable_null
      | some r => exact h.agent r hlast
    · rw [hstart, hobjective, huser]
      cases hlast : lastOf (isKind "SESSION_OPEN") records with
      | none => exact ⟨writable_null, writable_null, writable_null⟩
      | some r =>
        obtain ⟨hobjective', huser', hstart'⟩ := h.opening r hlast
        exact ⟨hstart', hobjective', huser'⟩
    · rwa [hends.symm.trans htruthy, if_pos rfl] at hsaid

/-- What holds of all events, by their kinds. -/
theorem forall_mem_eventsOf {Q : Dict → Prop} :
    (∀ event ∈ eventsOf evidence, Q event) ↔
      (evidence.session ≠ [] → Q (openEvent evidence.session)) ∧
        (∀ d ∈ evidence.decisions, Q (decisionEvent d)) ∧
        (∀ a ∈ evidence.actions, Q (actionEvent a)) ∧
        (∀ a ∈ evidence.approvals, Q (approvalEvent a)) ∧
        (∀ l ∈ evidence.losses, Q (lossEvent l)) ∧
        ((evidence.session.get "end_time").truthy = true → Q (closeEvent evidence.session)) := by
  unfold eventsOf
  simp only [List.forall_mem_append, List.forall_mem_map, and_assoc]
  have hopen : (∀ event ∈ (if evidence.session.isEmpty then [] else [openEvent evidence.session]),
      Q event) ↔ (evidence.session ≠ [] → Q (openEvent evidence.session)) := by
    cases evidence.session <;> simp
  have hclose : (∀ event ∈ (if (evidence.session.get "end_time").truthy then
      [closeEvent evidence.session] else []), Q event) ↔
      ((evidence.session.get "end_time").truthy = true → Q (closeEvent evidence.session)) := by
    cases (evidence.session.get "end_time").truthy <;> simp
  rw [hopen, hclose]

/-- The events are the records read, and at most two for the session. -/
theorem length_eventsOf : (eventsOf evidence).length ≤ evidence.decisions.length +
    evidence.actions.length + evidence.approvals.length + evidence.losses.length + 2 := by
  unfold eventsOf
  simp only [List.length_append, List.length_map]
  have hopen :
      (if evidence.session.isEmpty then [] else [openEvent evidence.session]).length ≤ 1 := by
    split_ifs <;> simp
  have hclose : (if (evidence.session.get "end_time").truthy then
      [closeEvent evidence.session] else []).length ≤ 1 := by
    split_ifs <;> simp
  omega

/-- The block about the session can be written exactly if its values can; the counts are bounded. -/
theorem writable_sessionBlock {bound : ℕ} (hroom : Roomy w bound)
    (hbound : evidence.decisions.length + evidence.actions.length + evidence.approvals.length +
      evidence.losses.length + 2 ≤ bound) :
    Writable w 1 (.obj (sessionBlock evidence)) ↔
      PairedText evidence.session_id ∧ Writable w 2 (evidence.session.get "agent_id") ∧
        Writable w 2 (evidence.session.get "objective") ∧
        Writable w 2 (evidence.session.get "user_id") ∧
        Writable w 2 (evidence.session.get "status") ∧
        Writable w 2 (evidence.session.get "start_time") ∧
        Writable w 2 (evidence.session.get "end_time") := by
  have hdepth := hroom.depth
  have hlevel : 1 < w.depth := by omega
  have hcounts : ∀ n, n ≤ bound → tooManyDigits w.max_digits (n : ℤ) = false := hroom.digits
  have hactions := hcounts evidence.actions.length (by omega)
  have hdecisions := hcounts evidence.decisions.length (by omega)
  have happrovals := hcounts evidence.approvals.length (by omega)
  rw [sessionBlock, writable_ofFields]
  simp [hlevel, hactions, hdecisions, happrovals]

/-- The opening event, which there is if anything is known of the session. -/
theorem writable_openEvent {bound : ℕ} {included : Bool} (hroom : Roomy w bound) :
    (evidence.session ≠ [] →
      Writable w 2 (.obj (keptEvent included (openEvent evidence.session)))) ↔
      Writable w 3 (evidence.session.get "start_time") ∧
        Writable w 3 (evidence.session.get "objective") ∧
        Writable w 3 (evidence.session.get "user_id") := by
  cases hsession : evidence.session with
  | nil => simp [Dict.get, Dict.getD]
  | cons p rest =>
    rw [openEvent, writable_keptEvent 4 hroom rfl rfl]
    simp

/-- The closing event. -/
theorem writable_closeEvent {bound : ℕ} {included : Bool} (hroom : Roomy w bound) :
    Writable w 2 (.obj (keptEvent included (closeEvent evidence.session))) ↔
      Writable w 3 (evidence.session.get "end_time") ∧
        Writable w 3 (evidence.session.get "status") := by
  rw [closeEvent, writable_keptEvent 3 hroom rfl rfl]
  simp

/-- **The timeline of a session** can be written exactly if the values in it can. -/
theorem writable_buildTimeline {bound : ℕ} {included stored : Bool} (hroom : Roomy w bound)
    (hbound : evidence.decisions.length + evidence.actions.length + evidence.approvals.length +
      evidence.losses.length + 2 ≤ bound) :
    Writable w 0 (.obj (buildTimeline rt evidence included stored).asDict) ↔
      PairedText evidence.session_id ∧ SessionExported w evidence.session ∧
        (∀ d ∈ evidence.decisions, Writable w 2 (.obj (keptEvent included (decisionEvent d)))) ∧
        (∀ a ∈ evidence.actions, Writable w 2 (.obj (keptEvent included (actionEvent a)))) ∧
        (∀ a ∈ evidence.approvals, Writable w 2 (.obj (keptEvent included (approvalEvent a)))) ∧
        ∀ l ∈ evidence.losses, Writable w 2 (.obj (keptEvent included (lossEvent l))) := by
  have hdepth := hroom.depth
  -- sorting the events moves none of them
  have hperm : (sortEvents rt (eventsOf evidence)).Perm (eventsOf evidence) :=
    List.perm_insertionSort _ _
  have hevents : (∀ event ∈ (buildTimeline rt evidence included stored).events,
      Writable w 2 (.obj event)) ↔
      ∀ event ∈ eventsOf evidence, Writable w 2 (.obj (keptEvent included event)) := by
    have hkept : (buildTimeline rt evidence included stored).events =
        (sortEvents rt (eventsOf evidence)).map (keptEvent included) := by
      unfold buildTimeline keptEvent
      cases included <;> simp
    rw [hkept, List.forall_mem_map]
    exact forall_congr' fun event => by rw [hperm.mem_iff]
  -- the notes are the renderer's own texts
  have hnote : ∀ note, (buildTimeline rt evidence included stored).previews.note = some note →
      PairedText note := by
    intro note hnote
    unfold buildTimeline at hnote
    cases included <;> cases stored <;> simp at hnote
    all_goals
      rw [← hnote]
      exact pairedText_ofString _
  -- what is withheld is counted over the events
  have hwithheld : tooManyDigits w.max_digits
      (buildTimeline rt evidence included stored).previews.withheld_from_events = false := by
    apply hroom.digits
    have hle := @length_eventsOf evidence
    have hlength := hperm.length_eq
    unfold buildTimeline
    dsimp only
    split_ifs
    · exact Nat.zero_le _
    · exact (List.countP_le_length.trans (hlength.le.trans hle)).trans hbound
  have hblock : Writable w 1 (.obj (buildTimeline rt evidence included stored).session) ↔ _ :=
    writable_sessionBlock hroom hbound
  -- document by document: the fields of the session, then the events by kind
  rw [writable_timeline hroom, hevents, hblock, forall_mem_eventsOf, writable_openEvent hroom,
    writable_closeEvent hroom]
  constructor
  · rintro ⟨⟨hid, hagent, -, -, hstatus, -, hend⟩, -, -, hopening, hdecisions, hactions, happrovals,
      hlosses, hclosing⟩
    exact ⟨hid, ⟨hagent, hstatus, hopening, hend, hclosing⟩, hdecisions, hactions,
      happrovals, hlosses⟩
  · rintro ⟨hid, ⟨hagent, hstatus, hopening, hend, hclosing⟩, hdecisions, hactions,
      happrovals, hlosses⟩
    exact ⟨⟨hid, hagent, hopening.2.1.mono (by omega), hopening.2.2.mono (by omega), hstatus,
      hopening.1.mono (by omega), hend⟩, hnote, hwithheld, hopening, hdecisions, hactions,
      happrovals, hlosses, hclosing⟩

/-- **The redaction inventory of a session** can be written exactly if the redacted paths can, where
    the numbers and ids of the actions can. -/
theorem writable_buildRedaction {bound : ℕ} (hroom : Roomy w bound)
    (hbound : evidence.actions.length ≤ bound) (hpaths : redactedCount evidence.actions ≤ bound)
    (hactions : ∀ a ∈ evidence.actions,
      Writable w 3 (a.get "sequence_number") ∧ Writable w 3 (a.get "action_id")) :
    Writable w 0 (.obj (buildRedaction evidence).asDict) ↔
      ∀ a ∈ evidence.actions, ∀ payload ∈ redactedPayloads a,
        ∀ path ∈ redactedPaths "" payload, PairedText path := by
  have hcount : (buildRedaction evidence).redacted_fields = redactedCount evidence.actions := by
    unfold buildRedaction redactedCount
    dsimp only
    clear hbound hpaths hactions
    induction evidence.actions with
    | nil => rfl
    | cons a rest ih =>
      rw [List.map_cons, List.sum_cons, ← ih, List.filterMap_cons]
      -- an action without redacted paths has no entry, and adds nothing
      cases hinput : redactedPaths "" (a.get "input_redacted") <;>
        cases houtput : redactedPaths "" (a.get "output_redacted") <;>
        simp [redactionEntry, redactedPayloads, hinput, houtput]
  have hlength : (buildRedaction evidence).actions_with_redactions ≤ evidence.actions.length :=
    List.length_filterMap_le _ _
  have hnumber := hroom.digits _ (hlength.trans hbound)
  have htotal := hroom.digits _ hpaths
  rw [writable_redaction hroom, hcount]
  simp only [hnumber, htotal, true_and]
  show (∀ r ∈ evidence.actions.filterMap redactionEntry, _) ↔ _
  constructor
  · intro h a ha payload hpayload path hpath
    obtain ⟨entry, hentry, hin, hout⟩ : ∃ entry, redactionEntry a = some entry ∧
        entry.input_paths = redactedPaths "" (a.get "input_redacted") ∧
        entry.output_paths = redactedPaths "" (a.get "output_redacted") := by
      refine ⟨_, if_neg fun hempty => ?_, rfl, rfl⟩
      rw [Bool.and_eq_true, List.isEmpty_iff, List.isEmpty_iff] at hempty
      rcases List.mem_pair.mp hpayload with rfl | rfl
      · rw [hempty.1] at hpath
        cases hpath
      · rw [hempty.2] at hpath
        cases hpath
    have hwritable := h entry (List.mem_filterMap.mpr ⟨a, ha, hentry⟩)
    obtain ⟨-, -, hinput, houtput⟩ := (writable_redactionEntry hroom).mp hwritable
    rcases List.mem_pair.mp hpayload with rfl | rfl
    · exact hinput path (hin ▸ hpath)
    · exact houtput path (hout ▸ hpath)
  · intro h r hr
    obtain ⟨a, ha, hentry⟩ := List.mem_filterMap.mp hr
    obtain ⟨hsequence, hid⟩ := hactions a ha
    unfold redactionEntry at hentry
    dsimp only at hentry
    split at hentry
    · cases hentry
    · obtain rfl := Option.some.inj hentry
      exact (writable_redactionEntry hroom).mpr ⟨hsequence, hid,
        h a ha _ (List.mem_pair.mpr (Or.inl rfl)), h a ha _ (List.mem_pair.mpr (Or.inr rfl))⟩

/-- Each record is of one of the kinds that values are taken over from, or of none. -/
theorem forall_exportedFields {included : Bool} {records : List Dict} {Q : Json → Prop} :
    (∀ r ∈ records, ∀ v ∈ exportedFields included r, Q v) ↔
      (∀ r ∈ records.filter isActionLine, ∀ v ∈ exportedFields included r, Q v) ∧
        (∀ r ∈ records.filter (isKind "DECISION_RECORD"), ∀ v ∈ exportedFields included r, Q v) ∧
        (∀ r ∈ records.filter (isKind "APPROVAL_RECORD"), ∀ v ∈ exportedFields included r, Q v) ∧
        ∀ r ∈ records.filter isOther, ∀ v ∈ exportedFields included r, Q v := by
  simp only [List.mem_filter, and_imp]
  constructor
  · intro h
    exact ⟨fun r hr _ => h r hr, fun r hr _ => h r hr, fun r hr _ => h r hr, fun r hr _ => h r hr⟩
  · rintro ⟨hactions, hdecisions, happrovals, hothers⟩ r hr
    rcases kind_cases r with ⟨hkind, -⟩ | hkind | hkind | hkind | hkind | hkind
    · exact hactions r hr hkind
    · have haction : isActionLine r = false := isKind_ne hkind (by decide)
      have hdecision : isKind "DECISION_RECORD" r = false := isKind_ne hkind (by decide)
      have happroval : isKind "APPROVAL_RECORD" r = false := isKind_ne hkind (by decide)
      simp [exportedFields, haction, hdecision, happroval, isOther, readsPayload, hkind]
    · have haction : isActionLine r = false := isKind_ne hkind (by decide)
      have hdecision : isKind "DECISION_RECORD" r = false := isKind_ne hkind (by decide)
      have happroval : isKind "APPROVAL_RECORD" r = false := isKind_ne hkind (by decide)
      simp [exportedFields, haction, hdecision, happroval, isOther, readsPayload, hkind]
    · exact hdecisions r hr hkind
    · exact happrovals r hr hkind
    · exact hothers r hr hkind

/-- The limits leave room for the counts in the bundle of a file. -/
structure RoomyFor (w : JsonLimits) (rt : Runtime) (stem : JStr)
    (load_receipt : JStr → Except PyError (Option Dict)) (lines : List FileLine) (bound : ℕ) : Prop
    extends Roomy w bound where
  lines_le : 4 * lines.length + 2 ≤ bound
  redacted_le : redactedCount (exportedActions lines) ≤ bound
  attempts_le : ∀ receipt, foundReceipt load_receipt (exportedId rt stem lines) = some receipt →
    attemptCount receipt ≤ bound

/-- What a bundle is built of. -/
structure BuiltBundle (rt : Runtime) (generated_at : JStr) (included : Bool)
    (evidence : SessionEvidence) (b : EvidenceBundle) : Prop where
  session_id : b.session_id = evidence.session_id
  verdict : b.verification.verdict = evidence.verify.verdict
  summary : b.verification.summary = evidence.verify.summary rt
  record_count : b.verification.record_count = evidence.verify.record_count
  first_invalid : b.verification.first_invalid_sequence = evidence.verify.first_invalid_sequence
  missing : b.verification.missing_ranges = evidence.verify.missing_ranges
  error : b.verification.error = evidence.verify.error
  records : List.Forall₂ (fun a entry => recordEntry evidence.verify a = .ok entry)
    evidence.actions b.verification.records
  replay : replayBlock evidence.receipt = .ok b.verification.replay
  timeline : ∃ stored, b.timeline = buildTimeline rt evidence included stored
  redaction : b.redaction = buildRedaction evidence
  backend : b.source_backend = evidence.source_backend
  location : b.source_location = evidence.source_location
  agent : b.agent = evidence.agent
  generated_at : b.generated_at = generated_at
  rendered : b.rendered = []
  receipt : b.receipt = evidence.receipt

/-- What `build_bundle` has returned is the bundle of the evidence. -/
theorem builtBundle_of_ok (hloaded : Loaded rt path stem load_receipt lines res evidence)
    (h : buildBundle rt generated_at redact_previews evidence = .ok b) :
    BuiltBundle rt generated_at (includesPreviews redact_previews lines) evidence b := by
  obtain ⟨v, hv, hb⟩ := bind_eq_ok.mp h
  obtain ⟨entries, hentries, hv⟩ := bind_eq_ok.mp hv
  obtain ⟨replay, hreplay, hv⟩ := bind_eq_ok.mp hv
  obtain rfl := Except.ok.inj hv
  obtain rfl := Except.ok.inj hb
  have hstored := hloaded.actions.any_eq (f := fun a =>
    carriesContent a "input_redacted" || carriesContent a "output_redacted")
  have htimeline : ∀ stored, buildTimeline rt evidence ((evidence.actions.any fun a =>
      carriesContent a "input_redacted" || carriesContent a "output_redacted") && !redact_previews)
        stored = buildTimeline rt evidence (includesPreviews redact_previews lines) stored := by
    intro stored
    rw [includesPreviews, ← hstored]
  exact ⟨rfl, rfl, rfl, rfl, rfl, rfl, rfl, mapM_eq_ok.mp hentries, hreplay,
    ⟨_, htimeline _⟩, rfl, rfl, rfl, rfl, rfl, rfl, rfl⟩

/-- What holds of all documents of a bundle, one by one. -/
theorem forall_mem_documents {Q : Dict → Prop} (b : EvidenceBundle) :
    (∀ p ∈ b.documents, Q p.2) ↔ Q b.verification.asDict ∧ Q b.timeline.asDict ∧
      Q b.redaction.asDict ∧ ∀ receipt, b.receipt = some receipt → Q receipt := by
  unfold EvidenceBundle.documents
  cases b.receipt <;> simp

/-- The entries of the verification and the events of the actions, together. -/
theorem writable_actions {bound : ℕ} {included : Bool} {entries : List RecordEntry}
    {actions : List Dict} (hroom : Roomy w bound) (hkinds : ∀ a ∈ actions, isActionLine a = true)
    (hentries : List.Forall₂ (fun a entry => recordEntry res a = .ok entry) actions entries) :
    ((∀ entry ∈ entries, Writable w 2 (.obj entry.asDict)) ∧
        ∀ a ∈ actions, Writable w 2 (.obj (keptEvent included (actionEvent a)))) ↔
      ∀ a ∈ actions, ∀ v ∈ exportedFields included a, Writable w 3 v := by
  induction hentries with
  | nil => simp
  | cons hentry _ ih =>
    rw [List.forall_mem_cons] at hkinds
    rw [List.forall_mem_cons, List.forall_mem_cons, List.forall_mem_cons, ← ih hkinds.2,
      ← writable_actionEvent hroom hkinds.1 hentry]
    tauto

section

variable {bound : ℕ} {included : Bool} {kind : Dict → Bool}

/-- No more records are exported than the file has lines. -/
theorem length_exported_le :
    ((exportedRecords lines).filter kind).length ≤ lines.length := by
  refine (List.length_filter_le _ _).trans ((List.length_filterMap_le _ _).trans
    ((List.length_filterMap_le _ _).trans ?_))
  rw [List.length_map]

/-- The actions of the evidence are those of the file, sorted. -/
theorem Loaded.forall_actions (hloaded : Loaded rt path stem load_receipt lines res evidence)
    {Q : Dict → Prop} : (∀ a ∈ evidence.actions, Q a) ↔ ∀ a ∈ exportedActions lines, Q a :=
  forall_congr' fun a => by rw [hloaded.actions.mem_iff]

/-- The actions of the evidence are action records. -/
theorem Loaded.isAction (hloaded : Loaded rt path stem load_receipt lines res evidence) :
    ∀ a ∈ evidence.actions, isActionLine a = true :=
  hloaded.forall_actions.mpr fun _ ha => (List.mem_filter.mp ha).2

/-- The decisions, the approvals and the other records of a file, as events of its timeline. -/
theorem Loaded.writable_events (hloaded : Loaded rt path stem load_receipt lines res evidence)
    (hroom : Roomy w bound) :
    ((∀ d ∈ evidence.decisions, Writable w 2 (.obj (keptEvent included (decisionEvent d)))) ↔
      ∀ r ∈ (exportedRecords lines).filter (isKind "DECISION_RECORD"),
        ∀ v ∈ exportedFields included r, Writable w 3 v) ∧
    ((∀ a ∈ evidence.approvals, Writable w 2 (.obj (keptEvent included (approvalEvent a)))) ↔
      ∀ r ∈ (exportedRecords lines).filter (isKind "APPROVAL_RECORD"),
        ∀ v ∈ exportedFields included r, Writable w 3 v) ∧
    ((∀ l ∈ evidence.losses, Writable w 2 (.obj (keptEvent included (lossEvent l)))) ↔
      ∀ r ∈ (exportedRecords lines).filter isOther,
        ∀ v ∈ exportedFields included r, Writable w 3 v) := by
  rw [hloaded.decisions, hloaded.approvals, hloaded.losses, List.forall_mem_map,
    List.forall_mem_map]
  refine ⟨?_, ?_, ?_⟩
  · exact forall₂_congr fun r hr => writable_decisionEvent hroom (List.mem_filter.mp hr).2
  · exact forall₂_congr fun r hr => writable_approvalEvent hroom (List.mem_filter.mp hr).2
  · exact forall₂_congr fun r hr => writable_lossEvent hroom (List.mem_filter.mp hr).2

/-- There is room for the events of a file. -/
theorem Loaded.writable_timeline (hloaded : Loaded rt path stem load_receipt lines res evidence)
    (hroom : RoomyFor w rt stem load_receipt lines bound) {stored : Bool} :
    Writable w 0 (.obj (buildTimeline rt evidence included stored).asDict) ↔
      PairedText evidence.session_id ∧ SessionExported w evidence.session ∧
        (∀ d ∈ evidence.decisions, Writable w 2 (.obj (keptEvent included (decisionEvent d)))) ∧
        (∀ a ∈ evidence.actions, Writable w 2 (.obj (keptEvent included (actionEvent a)))) ∧
        (∀ a ∈ evidence.approvals, Writable w 2 (.obj (keptEvent included (approvalEvent a)))) ∧
        ∀ l ∈ evidence.losses, Writable w 2 (.obj (keptEvent included (lossEvent l))) := by
  apply writable_buildTimeline hroom.toRoomy
  have hactions : evidence.actions.length ≤ lines.length :=
    hloaded.actions.length_eq.trans_le length_exported_le
  have hdecisions := @length_exported_le lines (isKind "DECISION_RECORD")
  have happrovals := @length_exported_le lines (isKind "APPROVAL_RECORD")
  have hlosses := @length_exported_le lines isOther
  have hlines := hroom.lines_le
  rw [hloaded.decisions, hloaded.approvals, hloaded.losses, List.length_map, List.length_map]
  omega

/-- There is room for the redacted paths of a file, where the fields of its actions can be
    written. -/
theorem Loaded.writable_redaction (hloaded : Loaded rt path stem load_receipt lines res evidence)
    (hroom : RoomyFor w rt stem load_receipt lines bound)
    (hfields : ∀ a ∈ evidence.actions, ∀ v ∈ exportedFields included a, Writable w 3 v) :
    Writable w 0 (.obj (buildRedaction evidence).asDict) ↔ ∀ a ∈ evidence.actions,
      ∀ payload ∈ redactedPayloads a, ∀ path ∈ redactedPaths "" payload, PairedText path := by
  have hlength : evidence.actions.length ≤ lines.length :=
    hloaded.actions.length_eq.trans_le length_exported_le
  have hlines := hroom.lines_le
  have hredacted : redactedCount evidence.actions ≤ bound := by
    have hsum := (hloaded.actions.map fun a =>
      ((redactedPayloads a).map fun v => (redactedPaths "" v).length).sum).sum_eq
    exact hsum.trans_le hroom.redacted_le
  apply writable_buildRedaction hroom.toRoomy (by omega) hredacted
  intro a ha
  have hvalues := hfields a ha
  -- the number and the id of an action are the first values it hands on
  simp only [exportedFields, hloaded.isAction a ha, if_true, List.cons_append, List.map_cons,
    List.forall_mem_cons] at hvalues
  exact ⟨hvalues.1, hvalues.2.1⟩

/-- The replay block of a bundle, where its receipt can be written. -/
theorem BuiltBundle.writable_replay
    (hbuilt : BuiltBundle rt generated_at included evidence b) (hroom : Roomy w bound)
    (hreceipt : ∀ receipt, evidence.receipt = some receipt →
      Writable w 0 (.obj receipt) ∧ attemptCount receipt ≤ bound) :
    ∀ summary, b.verification.replay = some summary → Writable w 1 (.obj summary) := by
  intro summary hsummary
  have hreplay := hbuilt.replay
  rw [hsummary] at hreplay
  cases hfound : evidence.receipt with
  | none =>
    rw [hfound] at hreplay
    cases hreplay
  | some receipt =>
    obtain ⟨hwritable, hcount⟩ := hreceipt receipt hfound
    rw [hfound] at hreplay
    cases hsum : replaySummary receipt with
    | error e => simp [replayBlock, hsum, Except.map] at hreplay
    | ok found =>
      -- The documents take over what the actions, decisions, approvals and losses hold, and nothing
      -- else.
      simp only [replayBlock, hsum, Except.map, Except.ok.injEq, Option.some.injEq] at hreplay
      subst hreplay
      exact RootSign.writable_replay hroom hwritable hsum hcount

end

/-- **The documents of a file** can be written exactly if what they take over can. -/
theorem writable_documents {bound : ℕ} (hrepr : ReprPaired rt)
    (hroom : RoomyFor w rt stem load_receipt lines bound)
    (hloaded : Loaded rt path stem load_receipt lines res evidence)
    (hbuilt : BuiltBundle rt generated_at (includesPreviews redact_previews lines) evidence b) :
    (∀ p ∈ b.documents, Writable w 0 (.obj p.2)) ↔
      ContentWritable rt w stem load_receipt redact_previews lines res := by
  -- each part of the documents is a part of the file
  have hmem := @Loaded.forall_actions _ _ _ _ _ _ _ hloaded
  obtain ⟨stored, htimeline⟩ := hbuilt.timeline
  have hactions := @writable_actions res w bound (includesPreviews redact_previews lines) _ _
    hroom.toRoomy hloaded.isAction (hloaded.verify ▸ hbuilt.records)
  have hredaction := @Loaded.writable_redaction _ _ _ _ _ _ _ w bound
    (includesPreviews redact_previews lines) hloaded hroom
  obtain ⟨hdecisions, happrovals, hlosses⟩ := @Loaded.writable_events _ _ _ _ _ _ _ w bound
    (includesPreviews redact_previews lines) hloaded hroom.toRoomy
  rw [@forall_mem_documents (fun d => Writable w 0 (.obj d)), writable_verification hroom.toRoomy,
    htimeline, hloaded.writable_timeline hroom, hdecisions, happrovals, hlosses, hbuilt.redaction,
    hloaded.session_id, hloaded.session, sessionExported_iff hroom.toRoomy, hbuilt.summary,
    hbuilt.record_count, hbuilt.first_invalid, hbuilt.missing, hbuilt.error, hloaded.verify,
    hbuilt.receipt, hloaded.receipt]
  constructor
  -- from the documents to what they take over
  · rintro ⟨⟨-, hcount, hfirst, hmissing, herror, hentries, -⟩, ⟨hid, hsession, hdecisions, hkept,
      happrovals, hlosses⟩, hred, hreceipt⟩
    have hfields := hactions.mp ⟨hentries, hkept⟩
    refine ⟨⟨hfirst, herror, hcount, hmissing⟩, hid, ?_, hsession, ?_, hreceipt⟩
    · exact forall_exportedFields.mpr ⟨hmem.mp hfields, hdecisions, happrovals, hlosses⟩
    · exact hmem.mp ((hredaction hfields).mp hred)
  · intro h
    -- and back: what else they hold is counted or the renderer's own
    obtain ⟨hfields, hdecisions, happrovals, hlosses⟩ := forall_exportedFields.mp h.fields
    have hvalues := hmem.mpr hfields
    obtain ⟨hentries, hkept⟩ := hactions.mpr hvalues
    refine ⟨⟨pairedText_summary hrepr h.result, h.result.count, h.result.first_invalid,
      h.result.missing, h.result.error, hentries, ?_⟩, ⟨h.session_id, h.session, hdecisions, hkept,
      happrovals, hlosses⟩, (hredaction hvalues).mpr (hmem.mpr h.paths), h.receipt⟩
    apply hbuilt.writable_replay hroom.toRoomy
    intro receipt hsome
    have hfound := hloaded.receipt.symm.trans hsome
    exact ⟨h.receipt receipt hfound, hroom.attempts_le receipt hfound⟩

end

end RootSign
