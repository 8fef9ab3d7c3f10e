import RootSign.Sdk.BundleFiles
import RootSign.Sdk.Report

namespace RootSign

open RootSign.Python

/-!
# An export from beginning to end (`rootsign/sdk/export.py`, `rootsign/sdk/report.py`)

`export_local`, `attach_reports` and `write_bundle`, one after the other, on a session file.

* `exportLocal` — the bundle of a file;
* `EvidenceBundle.asDocuments` — the bundle as it is written;
* `runExport` — the three calls, and the first exception among them;
* `exportedRecords`, `read_spec`, `foldl_with` — what the loader takes from the lines.
-/

/-! ### `export_local` -/

/-- The first exception of an export. -/
inductive ExportFailure where
  | python (e : PyError)
  | recursionError
  | report (e : ReceiptError)
  | write (e : WriteError)

mutual

/-- How many calls of `_redacted_paths` a value takes inside one another. -/
def nestedCalls : Json → ℕ
  | .arr items => nestedCallsItems items + 1
  | .obj fields => nestedCallsFields fields + 1
  | _ => 1

def nestedCallsItems : List Json → ℕ
  | [] => 0
  | v :: rest => max (nestedCalls v) (nestedCallsItems rest)

def nestedCallsFields : List (JStr × Json) → ℕ
  | [] => 0
  | (_, v) :: rest => max (nestedCalls v) (nestedCallsFields rest)

end

/-- The payloads of an action that `_redacted_paths` is called on. -/
def redactedPayloads (action : Dict) : List Json :=
  [action.get "input_redacted", action.get "output_redacted"]

/-- `_redacted_paths` fits on the stack, on which there is room for so many calls. -/
def fitsStack (max_calls : ℕ) (action : Dict) : Bool :=
  (redactedPayloads action).all fun payload => nestedCalls payload ≤ max_calls

/-- `export_local`, at the time `generated_at`. -/
def exportLocal (rt : Runtime) (max_calls : ℕ) (path stem : JStr)
    (load_receipt : JStr → Except PyError (Option Dict)) (generated_at : UtcNow)
    (redact_previews : Bool) (lines : List FileLine) : Except ExportFailure EvidenceBundle :=
  match loadLocalSession rt path stem load_receipt lines with
  | .error e => .error (.python e)
  | .ok evidence =>
    match buildBundle rt (JStr.ofChars generated_at.time.isoformat) redact_previews evidence with
    | .error e => .error (.python e)
    | .ok bundle =>
      if evidence.actions.all (fitsStack max_calls) then .ok bundle else .error .recursionError

/-- The bundle, with its documents as dicts. -/
def EvidenceBundle.asDocuments (b : EvidenceBundle) : BundleDocuments where
  session_id := b.session_id
  verification := b.verification.asDict
  timeline := b.timeline.asDict
  redaction := b.redaction.asDict
  source_backend := JStr.ofString b.source_backend
  source_location := b.source_location
  agent := b.agent
  generated_at := b.generated_at
  rendered := b.rendered.map fun p => (JStr.ofString p.1, p.2)
  receipt := b.receipt

/-- A session file, and where and how it is exported. -/
structure ExportCall where
  path : JStr
  stem : JStr
  load_receipt : JStr → Except PyError (Option Dict)
  lines : List FileLine
  generated_at : UtcNow
  redact_previews : Bool
  sdk_version : String
  out_dir : PosixPath

/-- `write_bundle(attach_reports(export_local(path)), out_dir)`: the bundle with its reports, the
    files afterwards, and the directory. -/
def runExport {os : PathRules} (rt : Runtime) (w : JsonLimits) (max_calls : ℕ) (fs : FileTree os)
    (call : ExportCall) : Except ExportFailure (EvidenceBundle × FileTree os × PosixPath) :=
  match exportLocal rt max_calls call.path call.stem call.load_receipt call.generated_at
      call.redact_previews call.lines with
  | .error e => .error e
  | .ok bundle =>
    match attachReports rt w (JStr.ofString call.sdk_version) bundle with
    | .error e => .error (.report e)
    | .ok bundle =>
      match writeBundle w (JStr.ofString call.sdk_version) fs call.out_dir false
          bundle.asDocuments with
      | .error e => .error (.write e)
      | .ok (fs, directory) => .ok (bundle, fs, directory)

/-! ### What the loader takes from the lines -/

/-- The values on the lines that the loader can parse. -/
def lineValues (lines : List Line) : List Json :=
  lines.filterMap fun l =>
    match l with
    | .value v => some v
    | _ => none

/-- The records on the lines. -/
def recordsOf (lines : List Line) : List Dict :=
  (lineValues lines).filterMap fun v =>
    match v with
    | .obj fields => some fields
    | _ => none

/-- The records of a file, as the loader reads it. -/
def exportedRecords (lines : List FileLine) : List Dict := recordsOf (lines.map FileLine.unstripped)

/-- `record.get("event_type", "ACTION_RECORD") == kind`. -/
def isKind (kind : String) (r : Dict) : Bool :=
  (r.getD "event_type" (.str "ACTION_RECORD")).pyEq (.str kind)

/-- The payload of a record, if it is a dict. -/
def payloadDict (r : Dict) : Dict :=
  match orValue (r.get "payload") (.obj []) with
  | .obj fields => fields
  | _ => []

/-- The kinds of record whose payload the loader reads. -/
def readsPayload (r : Dict) : Bool :=
  isKind "SESSION_OPEN" r || isKind "SESSION_CLOSE" r || isKind "DECISION_RECORD" r ||
    isKind "APPROVAL_RECORD" r

/-- A kind of record that the loader has no branch for. -/
def isOther (r : Dict) : Bool := !isActionLine r && !readsPayload r

/-- The payload of a record is read as a dict only where it is one, or false. -/
def HasPayload (r : Dict) : Prop :=
  readsPayload r = true → ∃ fields, orValue (r.get "payload") (.obj []) = .obj fields

/-- A value that the loader accepts as a line. -/
def Loadable (v : Json) : Prop := ∃ r, v = .obj r ∧ HasPayload r

/-- A decision as the loader keeps it. -/
def decisionOf (r : Dict) : Dict := (payloadDict r).set "decision_id" (r.get "decision_id")

/-- An approval as the loader keeps it. -/
def approvalOf (r : Dict) : Dict := (payloadDict r).set "approval_id" (r.get "approval_id")

/-- The fields of the session after a record. -/
def sessionAfter (session : Dict) (r : Dict) : Dict :=
  if isKind "SESSION_OPEN" r then
    ((((session.set "agent_id" (r.get "agent_id")).set "objective"
      ((payloadDict r).get "objective")).set "user_id" ((payloadDict r).get "user_id")).set
      "start_time" (r.get "emitted_at")).set "status" (.str "running")
  else if isKind "SESSION_CLOSE" r then
    (session.set "end_time" (r.get "emitted_at")).set "status" ((payloadDict r).get "status")
  else session

section

variable {c c' : Collected} {r : Dict} {lines : List Line}

theorem isKind_iff {kind : String} :
    isKind kind r = true ↔ r.getD "event_type" (.str "ACTION_RECORD") = .str kind := Json.pyEq_str

/-- A record is of one kind. -/
theorem isKind_ne {kind kind' : String} (hkind : isKind kind r = true) (hne : kind ≠ kind') :
    isKind kind' r = false := by
  rw [Bool.eq_false_iff]
  intro hkind'
  rw [isKind_iff] at hkind hkind'
  rw [hkind] at hkind'
  exact hne (JStr.ofString_inj.mp (Json.str.inj hkind'))

/-- What one record adds. -/
def Collected.with (c : Collected) (r : Dict) : Collected where
  session_id := orValue c.session_id (r.get "session_id")
  session := sessionAfter c.session r
  actions := c.actions ++ if isActionLine r then [r] else []
  decisions := c.decisions ++ if isKind "DECISION_RECORD" r then [decisionOf r] else []
  approvals := c.approvals ++ if isKind "APPROVAL_RECORD" r then [approvalOf r] else []
  losses := c.losses ++ if isOther r then [r] else []

theorem payloadDict_of {fields : Dict} (h : orValue (r.get "payload") (.obj []) = .obj fields) :
    payloadDict r = fields := by
  rw [payloadDict, h]

/-- The kinds are tried in this order. -/
theorem kind_cases (r : Dict) :
    (isActionLine r = true ∧ readsPayload r = false) ∨ isKind "SESSION_OPEN" r = true ∨
      isKind "SESSION_CLOSE" r = true ∨ isKind "DECISION_RECORD" r = true ∨
        isKind "APPROVAL_RECORD" r = true ∨ isOther r = true := by
  by_cases haction : isActionLine r = true
  · have hkind : isKind "ACTION_RECORD" r = true := haction
    refine Or.inl ⟨haction, ?_⟩
    simp [readsPayload, isKind_ne hkind]
  · unfold isOther readsPayload
    cases isKind "SESSION_OPEN" r <;> cases isKind "SESSION_CLOSE" r <;>
      cases isKind "DECISION_RECORD" r <;> cases isKind "APPROVAL_RECORD" r <;> simp [haction]

/-- Reading on behind a reader that takes the objects only. -/
theorem object_bind_eq_ok {read : Json → Except PyError Dict}
    (hread : ∀ v fields, read v = .ok fields ↔ v = .obj fields) {β : Type} {v : Json}
    {f : Dict → Except PyError β} {b : β} :
    read v >>= f = .ok b ↔ ∃ fields, v = .obj fields ∧ f fields = .ok b := by
  rw [bind_eq_ok]
  simp only [hread]

theorem asDict_eq_ok (v : Json) (fields : Dict) : asDict v = .ok fields ↔ v = .obj fields := by
  cases v <;> simp [asDict]

theorem asMapping_eq_ok (v : Json) (fields : Dict) :
    asMapping v = .ok fields ↔ v = .obj fields := by
  cases v <;> simp [asMapping]

/-- **One record**, by its kind: what the branch for it reads, and what it adds. -/
theorem add_eq (c : Collected) (r : Dict) :
    c.add r =
      if isActionLine r then
        .ok { c with
          session_id := orValue c.session_id (r.get "session_id"), actions := c.actions ++ [r] }
      else if isKind "SESSION_OPEN" r then
        asDict (orValue (r.get "payload") (.obj [])) >>= fun payload =>
          .ok { c with
            session_id := orValue c.session_id (r.get "session_id")
            session := ((((c.session.set "agent_id" (r.get "agent_id")).set "objective"
              (payload.get "objective")).set "user_id" (payload.get "user_id")).set
              "start_time" (r.get "emitted_at")).set "status" (.str "running") }
      else if isKind "SESSION_CLOSE" r then
        asDict (orValue (r.get "payload") (.obj [])) >>= fun payload =>
          .ok { c with
            session_id := orValue c.session_id (r.get "session_id")
            session := (c.session.set "end_time" (r.get "emitted_at")).set "status"
              (payload.get "status") }
      else if isKind "DECISION_RECORD" r then
        asMapping (orValue (r.get "payload") (.obj [])) >>= fun payload =>
          .ok { c with
            session_id := orValue c.session_id (r.get "session_id")
            decisions := c.decisions ++ [payload.set "decision_id" (r.get "decision_id")] }
      else if isKind "APPROVAL_RECORD" r then
        asMapping (orValue (r.get "payload") (.obj [])) >>= fun payload =>
          .ok { c with
            session_id := orValue c.session_id (r.get "session_id")
            approvals := c.approvals ++ [payload.set "approval_id" (r.get "approval_id")] }
      else
        .ok { c with
          session_id := orValue c.session_id (r.get "session_id"), losses := c.losses ++ [r] } :=
  rfl

/-- **One record** is taken in exactly if its payload is a dict where it is read. -/
theorem add_spec : c.add r = .ok c' ↔ HasPayload r ∧ c' = c.with r := by
  rw [add_eq]
  -- the payload is read of four kinds; of the others `HasPayload` asks nothing
  have hread : readsPayload r = true → ∀ {c₁ : Dict → Collected},
      (∃ fields, orValue (r.get "payload") (.obj []) = .obj fields ∧ c₁ fields = c') ↔
        HasPayload r ∧ c' = c₁ (payloadDict r) := by
    intro hreads c₁
    constructor
    · rintro ⟨fields, hfields, rfl⟩
      exact ⟨fun _ => ⟨fields, hfields⟩, by rw [payloadDict_of hfields]⟩
    · rintro ⟨hpayload, rfl⟩
      obtain ⟨fields, hfields⟩ := hpayload hreads
      exact ⟨fields, hfields, by rw [payloadDict_of hfields]⟩
  -- one branch of the loop for each kind; a record of one kind is of no other
  rcases kind_cases r with ⟨haction, hreads⟩ | hkind | hkind | hkind | hkind | hother
  · have hpayload : HasPayload r := fun h => by rw [hreads] at h; cases h
    have hkinds : isKind "ACTION_RECORD" r = true := haction
    simp only [haction, if_true, hpayload, true_and, Except.ok.injEq]
    simp [Collected.with, haction, isOther, sessionAfter, isKind_ne hkinds, eq_comm]
  · have haction : isActionLine r = false := isKind_ne hkind (by decide)
    have hcloses : isKind "SESSION_CLOSE" r = false := isKind_ne hkind (by decide)
    have hdecides : isKind "DECISION_RECORD" r = false := isKind_ne hkind (by decide)
    have happroves : isKind "APPROVAL_RECORD" r = false := isKind_ne hkind (by decide)
    have hreads : readsPayload r = true := by simp [readsPayload, hkind]
    simp only [haction, hcloses, hdecides, happroves, hkind, if_true, Bool.false_eq_true, if_false,
      object_bind_eq_ok asDict_eq_ok, Except.ok.injEq]
    rw [hread hreads]
    simp [Collected.with, haction, isOther, hreads, sessionAfter, hdecides, happroves, hkind]
  · have haction : isActionLine r = false := isKind_ne hkind (by decide)
    have hopens : isKind "SESSION_OPEN" r = false := isKind_ne hkind (by decide)
    have hdecides : isKind "DECISION_RECORD" r = false := isKind_ne hkind (by decide)
    have happroves : isKind "APPROVAL_RECORD" r = false := isKind_ne hkind (by decide)
    have hreads : readsPayload r = true := by simp [readsPayload, hkind]
    simp only [haction, hopens, hdecides, happroves, hkind, if_true, Bool.false_eq_true, if_false,
      object_bind_eq_ok asDict_eq_ok, Except.ok.injEq]
    rw [hread hreads]
    simp [Collected.with, haction, isOther, hreads, sessionAfter, hopens, hdecides, happroves,
      hkind]
  · have haction : isActionLine r = false := isKind_ne hkind (by decide)
    have hopens : isKind "SESSION_OPEN" r = false := isKind_ne hkind (by decide)
    have hcloses : isKind "SESSION_CLOSE" r = false := isKind_ne hkind (by decide)
    have happroves : isKind "APPROVAL_RECORD" r = false := isKind_ne hkind (by decide)
    have hreads : readsPayload r = true := by simp [readsPayload, hkind]
    simp only [haction, hopens, hcloses, happroves, hkind, if_true, Bool.false_eq_true, if_false,
      object_bind_eq_ok asMapping_eq_ok, Except.ok.injEq]
    rw [hread hreads]
    simp [Collected.with, haction, isOther, hreads, sessionAfter, decisionOf, hopens, hcloses,
      happroves, hkind]
  · have haction : isActionLine r = false := isKind_ne hkind (by decide)
    have hopens : isKind "SESSION_OPEN" r = false := isKind_ne hkind (by decide)
    have hcloses : isKind "SESSION_CLOSE" r = false := isKind_ne hkind (by decide)
    have hdecides : isKind "DECISION_RECORD" r = false := isKind_ne hkind (by decide)
    have hreads : readsPayload r = true := by simp [readsPayload, hkind]
    simp only [haction, hopens, hcloses, hdecides, hkind, if_true, Bool.false_eq_true, if_false,
      object_bind_eq_ok asMapping_eq_ok, Except.ok.injEq]
    rw [hread hreads]
    simp [Collected.with, haction, isOther, hreads, sessionAfter, approvalOf, hopens, hcloses,
      hdecides, hkind]
  · have haction : isActionLine r = false := by
      simpa using (Bool.and_eq_true_iff.mp hother).1
    have hreads : readsPayload r = false := by
      simpa using (Bool.and_eq_true_iff.mp hother).2
    have hpayload : HasPayload r := fun h => by rw [hreads] at h; cases h
    have hkinds := hreads
    simp only [readsPayload, Bool.or_eq_false_iff] at hkinds
    obtain ⟨⟨⟨hopens, hcloses⟩, hdecides⟩, happroves⟩ := hkinds
    simp only [haction, hopens, hcloses, hdecides, happroves, Bool.false_eq_true,
      if_false, hpayload, true_and, Except.ok.injEq]
    simp [Collected.with, haction, hother, sessionAfter, hopens, hcloses, hdecides, happroves,
      eq_comm]

/-- **The loader** takes the lines in exactly if it can take in each value on them, and then it adds
    their records one after the other. -/
theorem read_spec : c.read lines = .ok c' ↔
    (NoneRaises lines ∧ ∀ v ∈ lineValues lines, Loadable v) ∧
      c' = (recordsOf lines).foldl Collected.with c := by
  unfold NoneRaises
  induction lines generalizing c with
  | nil => simp [Collected.read, lineValues, recordsOf, eq_comm]
  | cons l rest ih =>
    rw [List.forall_mem_cons]
    cases l with
    | malformed => exact ih.trans (by simp [lineValues, recordsOf])
    | raises e => simp [Collected.read]
    | value v =>
      have hvalues : lineValues (.value v :: rest) = v :: lineValues rest := rfl
      show (asDict v >>= fun record => c.add record >>= fun c => c.read rest) = .ok c' ↔ _
      rw [object_bind_eq_ok asDict_eq_ok, hvalues, List.forall_mem_cons]
      constructor
      · rintro ⟨r, rfl, h⟩
        obtain ⟨added, hadd, h⟩ := bind_eq_ok.mp h
        obtain ⟨hpayload, rfl⟩ := add_spec.mp hadd
        obtain ⟨⟨hnone, hrest⟩, rfl⟩ := ih.mp h
        exact ⟨⟨⟨by simp, hnone⟩, ⟨r, rfl, hpayload⟩, hrest⟩, rfl⟩
      · rintro ⟨⟨⟨-, hnone⟩, ⟨r, rfl, hpayload⟩, hrest⟩, rfl⟩
        exact ⟨r, rfl, bind_eq_ok.mpr ⟨c.with r, add_spec.mpr ⟨hpayload, rfl⟩,
          ih.mpr ⟨⟨hnone, hrest⟩, rfl⟩⟩⟩

/-- What is collected from records, list by list. -/
theorem foldl_with (c : Collected) (records : List Dict) :
    let c' := records.foldl Collected.with c
    c'.session_id = records.foldl (fun id r => orValue id (r.get "session_id")) c.session_id ∧
      c'.session = records.foldl sessionAfter c.session ∧
      c'.actions = c.actions ++ records.filter isActionLine ∧
      c'.decisions = c.decisions ++ (records.filter (isKind "DECISION_RECORD")).map decisionOf ∧
      c'.approvals = c.approvals ++ (records.filter (isKind "APPROVAL_RECORD")).map approvalOf ∧
      c'.losses = c.losses ++ records.filter isOther := by
  induction records generalizing c with
  | nil => simp
  | cons r rest ih =>
    obtain ⟨hid, hsession, hactions, hdecisions, happrovals, hlosses⟩ := ih (c.with r)
    refine ⟨hid, hsession, hactions.trans ?_, hdecisions.trans ?_, happrovals.trans ?_,
      hlosses.trans ?_⟩
    · cases h : isActionLine r <;> simp [Collected.with, h]
    · cases h : isKind "DECISION_RECORD" r <;> simp [Collected.with, h]
    · cases h : isKind "APPROVAL_RECORD" r <;> simp [Collected.with, h]
    · cases h : isOther r <;> simp [Collected.with, h]

end

end RootSign
