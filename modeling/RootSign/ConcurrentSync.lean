import RootSign.Delivery
import RootSign.Lib.Runs
import RootSign.Lib.Shelf
import RootSign.ReceiptFiles
import RootSign.Sdk.JsonlBytes

namespace RootSign

open RootSign.Lib RootSign.Python

/-!
# Syncing while the agent writes (`rootsign-admin sync`)

Runs of `sync`, one after the other, over a spool that a running agent appends whole lines to.  A
run lists the session files and reads them all; then, for each session, it hashes the file, uploads
what it has read, records the attempt and, if everything was taken, moves the file to `synced/`.
Between any two of these steps lines can be appended, and the run can be aborted.  Session ids are
UUIDs, so no id is another one with a suffix.

* `SpoolSync.step` — one step of the agent or of the run;
* `Retired` — what the claim of the moved files and the recorded attempts comes to;
* `retired_of_unchanged` — it holds in every run in which no envelope is appended to a file between
  its reading and its hashing, or its reading and its move;
* `lines_kept` — and in every run all lines that were appended are there, in their order.
-/

/-! ### Files -/

/-- A line of a file, with its newline. -/
abbrev RawLine := List UInt8

/-- A session file: the writer appends whole lines. -/
abbrev SpoolFile := List RawLine

/-- What the runs of `sync` are given: the interpreter, the client's settings, the store, and how
    the reader sees one line. -/
structure SyncSetup (τ : Type) where
  rt : Runtime
  cfg : HttpConfig
  store : EventStore τ
  fresh : Dict → Uuid
  parse : RawLine → SpoolLine
  root : JStr
  sdk_version : JStr

namespace SyncSetup

variable {τ : Type}

/-- `<root>/sessions/<id>.jsonl`. -/
def source (w : SyncSetup τ) (id : JStr) : SpoolSource where
  path := w.root ++ "/sessions/" ++ id ++ ".jsonl"
  stem := id
  sdk_version := w.sdk_version

/-- `read_spool_session` on a file. -/
def read (w : SyncSetup τ) (id : JStr) (file : SpoolFile) : Except SpoolError SpoolSession :=
  readSpoolSession w.rt (w.source id) (file.map w.parse)

/-- The envelopes that the lines of a file hold. -/
def envelopes (w : SyncSetup τ) (id : JStr) (file : SpoolFile) : List Dict :=
  (file.map w.parse).filterMap (envelopeOfLine (w.source id))

/-- `replay_envelopes`, with its own batch size, over a client that does not spool. -/
def replay (w : SyncSetup τ) (link : SyncLink τ) (envelopes : List Dict) :
    Except ClientError ReplayReport × SyncLink τ :=
  replayEnvelopes (SyncLink.client w.rt w.cfg w.store w.fresh) link envelopes 100

end SyncSetup

/-- The envelopes that were answered with accepted or `DUPLICATE_EVENT`. -/
def acknowledged {ε : Type} (envelopes : List Dict) : Except ε ReplayReport → List Dict
  | .error _ => []
  | .ok report => ((envelopes.zip report.responses).filter fun p => isSuccess p.2).map Prod.fst

/-- `report.complete`, if there is a report. -/
def isComplete {ε : Type} : Except ε ReplayReport → Bool
  | .ok report => report.complete
  | .error _ => false

/-- The attempt that `_sync_one` builds, with the hash of the file and the text of an exception. -/
def attemptOf (file : SpoolFile) (session : SpoolSession) (result : Except ClientError ReplayReport)
    (io : AttemptIO) (text : JStr) : Except PyError Attempt :=
  let io := { io with spool_file_sha256 := sha256Bytes file.flatten }
  match result with
  | .ok report => buildAttempt session.envelopes report io none
  | .error _ =>
    buildAttempt session.envelopes { total := session.envelopes.length } io (some text)

/-! ### The run -/

/-- Where the run of `sync` stands.  A session that was read goes with its file's name. -/
inductive SyncPhase where
  | idle
  | reading (names : List JStr) (sessions : List (JStr × SpoolSession))
  | walking (sessions : List (JStr × SpoolSession))
  | hashed (id : JStr) (session : SpoolSession) (file : SpoolFile)
      (rest : List (JStr × SpoolSession))
  | uploaded (id : JStr) (session : SpoolSession) (file : SpoolFile)
      (result : Except ClientError ReplayReport) (rest : List (JStr × SpoolSession))
  | moving (id : JStr) (session : SpoolSession) (rest : List (JStr × SpoolSession))

/-- An attempt in a receipt, with the file it is of, the lines it hashed and the envelopes it
    replayed. -/
structure RecordedAttempt where
  id : JStr
  attempt : Attempt
  hashed : SpoolFile
  envelopes : List Dict

/-- The spool, the client of the run and the store, and where the run stands.  The last three fields
    are history: every line appended, every envelope acknowledged, and every attempt recorded. -/
structure SpoolSync (τ : Type) where
  sessions : JStr → Option SpoolFile
  synced : Shelf JStr SpoolFile
  link : SyncLink τ
  phase : SyncPhase
  appended : JStr → List RawLine
  acked : List Dict
  recorded : List RecordedAttempt

/-- What happens next: the agent appends a line, or the run goes on, or an exception or an interrupt
    aborts it. -/
inductive SyncStep where
  | append (id : JStr) (line : RawLine)
  | abort
  | list (names : List JStr)
  | read
  | hash
  | upload
  | record (io : AttemptIO) (text : JStr)
  | move

namespace SpoolSync

variable {τ : Type}

/-- `_append_line`: the file is created if it is not there. -/
def append (s : SpoolSync τ) (id : JStr) (line : RawLine) : SpoolSync τ :=
  { s with
    sessions := Function.update s.sessions id (some ((s.sessions id).getD [] ++ [line]))
    appended := Function.update s.appended id (s.appended id ++ [line]) }

/-- `mark_synced`: the file gets the first suffix that no file of the name has. -/
def markSynced (s : SpoolSync τ) (id : JStr) (file : SpoolFile) : SpoolSync τ :=
  { s with
    sessions := Function.update s.sessions id none
    synced := s.synced.put id 0 file }

/-- The next file is read; one that cannot be read is skipped. -/
def readNext (w : SyncSetup τ) (s : SpoolSync τ) :
    List JStr → List (JStr × SpoolSession) → SpoolSync τ
  | [], sessions => { s with phase := .walking sessions }
  | id :: names, sessions =>
    match (s.sessions id).map (w.read id) with
    | some (.ok session) => { s with phase := .reading names (sessions ++ [(id, session)]) }
    | _ => { s with phase := .reading names sessions }

/-- One step.  A file that is not there, or an attempt that cannot be built, ends the run. -/
def step (w : SyncSetup τ) (s : SpoolSync τ) : SyncStep → Option (SpoolSync τ)
  | .append id line => some (s.append id line)
  | .abort => some { s with phase := .idle }
  | .list names =>
    match s.phase with
    | .idle =>
      if names.all fun id => (s.sessions id).isSome then
        -- every run has a client of its own
        some { s with link := .opened s.link.store, phase := .reading names [] }
      else none
    | _ => none
  | .read =>
    match s.phase with
    | .reading names sessions => some (s.readNext w names sessions)
    | _ => none
  | .hash =>
    match s.phase with
    | .walking [] => some { s with phase := .idle }
    | .walking ((id, session) :: rest) =>
      match s.sessions id with
      | some file => some { s with phase := .hashed id session file rest }
      | none => some { s with phase := .idle }
    | _ => none
  | .upload =>
    match s.phase with
    | .hashed id session file rest =>
      let replayed := w.replay s.link session.envelopes
      some { s with
        link := replayed.2
        phase := .uploaded id session file replayed.1 rest
        acked := s.acked ++ acknowledged session.envelopes replayed.1 }
    | _ => none
  | .record io text =>
    match s.phase with
    | .uploaded id session file result rest =>
      match attemptOf file session result io text with
      | .error _ => some { s with phase := .idle }
      | .ok attempt =>
        some { s with
          phase := if isComplete result then .moving id session rest else .walking rest
          recorded := s.recorded ++
            [{ id := id, attempt := attempt, hashed := file, envelopes := session.envelopes }] }
    | _ => none
  | .move =>
    match s.phase with
    | .moving id _ rest =>
      match s.sessions id with
      | some file => some { s.markSynced id file with phase := .walking rest }
      | none => some { s with phase := .idle }
    | _ => none

/-- A spool without files. -/
def opened (t : τ) : SpoolSync τ where
  sessions := fun _ => none
  synced := []
  link := .opened t
  phase := .idle
  appended := fun _ => []
  acked := []
  recorded := []

/-! ### What is claimed of it -/

/-- Every envelope line of a moved file was acknowledged, and every attempt hashed bytes whose lines
    hold the envelopes it replayed. -/
structure Retired (w : SyncSetup τ) (s : SpoolSync τ) : Prop where
  acknowledged : ∀ id k file, s.synced.file id k = some file →
    ∀ e ∈ w.envelopes id file, e ∈ s.acked
  bound : ∀ r ∈ s.recorded, r.attempt.spool_file_sha256 = sha256Bytes r.hashed.flatten ∧
    w.envelopes r.id r.hashed = r.envelopes

/-- When a file is hashed, and when it is moved, it holds the envelopes that were read of it. -/
def Unchanged (w : SyncSetup τ) (s : SpoolSync τ) : SyncStep → Prop
  | .hash => ∀ id session rest, s.phase = .walking ((id, session) :: rest) →
      ∀ file, s.sessions id = some file → w.envelopes id file = session.envelopes
  | .move => ∀ id session rest, s.phase = .moving id session rest →
      ∀ file, s.sessions id = some file → w.envelopes id file = session.envelopes
  | _ => True

/-- The files of a session in `synced/`, in the order of their suffixes. -/
def retiredFiles (s : SpoolSync τ) (id : JStr) : List SpoolFile :=
  (List.range (s.synced.free id 0)).filterMap (s.synced.file id)

/-! ### What a run uploads -/

section

variable {w : SyncSetup τ} {s s' : SpoolSync τ} {l : SyncStep} {id : JStr} {file : SpoolFile}
  {session : SpoolSession} {link link' : SyncLink τ} {envelopes : List Dict}
  {report : ReplayReport}

/-- The reader returns the envelopes of the lines. -/
theorem envelopes_of_read (h : w.read id file = .ok session) :
    session.envelopes = w.envelopes id file := readSpoolSession_envelopes h

/-- The client answers every envelope of a batch. -/
theorem client_answers (w : SyncSetup τ) :
    (SyncLink.client w.rt w.cfg w.store w.fresh).Answers fun _ => True := by
  intro link batch responses link' hsent
  refine ⟨?_, fun _ _ => trivial⟩
  have hcall : link.handleBatch w.rt w.cfg w.store w.fresh batch = (.ok responses, link') := hsent
  unfold SyncLink.handleBatch at hcall
  by_cases hempty : batch.isEmpty = true
  · rw [if_pos hempty] at hcall
    obtain rfl := Except.ok.inj (congrArg Prod.fst hcall)
    rw [List.isEmpty_iff.mp hempty]
    rfl
  -- an empty batch is answered by an empty list
  · rw [if_neg hempty] at hcall
    cases hseal : link.http.sealAll w.rt (batch.map fun e => (e, w.fresh e)) with
    | mk result http =>
      rw [hseal] at hcall
      cases result with
      | error e => exact absurd (congrArg Prod.fst hcall) nofun
      | ok sealed =>
        obtain rfl := Except.ok.inj (congrArg Prod.fst hcall)
        -- the replies of the store while the batch is sent are some list of replies
        obtain ⟨replies, hreplies⟩ := HttpBatch.exists_replies w.rt w.cfg w.store
          w.cfg.max_retries link.store (HttpBatch.start sealed)
        obtain ⟨hbatch, -⟩ := Prod.ext_iff.mp hreplies
        obtain ⟨hsound, -, -⟩ := HttpBatch.exchange_pending w.rt w.cfg replies w.cfg.max_retries
          (HttpBatch.start_sound sealed) (HttpBatch.start_pendingExact sealed) rfl
          (Nat.zero_add _) w.cfg.one_le_max_retries
        -- the results have a place for each envelope, and sealing drops none
        obtain ⟨henvelopes, -⟩ := HttpBatch.exchange_spec w.rt w.cfg replies w.cfg.max_retries
          (HttpBatch.start_sound sealed)
        have hlength := hsound.length
        rw [henvelopes] at hlength
        dsimp only at hbatch
        rw [← hbatch, hlength]
        exact (length_sealAll hseal).trans (List.length_map _)

/-- **A complete replay** has every envelope acknowledged. -/
theorem mem_acknowledged (h : w.replay link envelopes = (.ok report, link'))
    (hcomplete : report.complete = true) :
    ∀ e ∈ envelopes, e ∈ acknowledged envelopes (Except.ok report : Except ClientError _) := by
  have hreported := replayEnvelopes_reported _ (client_answers w) link envelopes 100 h
  have hnone := Option.isNone_iff_eq_none.mp hcomplete
  have hlength := hreported.complete hnone
  intro e he
  obtain ⟨i, hi⟩ := List.mem_iff_getElem?.mp he
  have hlt : i < report.responses.length := hlength ▸ (List.getElem?_eq_some_iff.mp hi).1
  have hget : report.responses[i]? = some report.responses[i] := List.getElem?_eq_getElem hlt
  refine List.mem_map.mpr ⟨(e, report.responses[i]), List.mem_filter.mpr ⟨?_, ?_⟩, rfl⟩
  · exact List.mem_of_getElem? (List.getElem?_zip_eq_some.mpr ⟨hi, hget⟩)
  · exact hreported.tallied.success hnone (List.mem_of_getElem? hget)

/-- An attempt carries the hash it is given. -/
theorem sha_of_buildAttempt {io : AttemptIO} {text : Option JStr} {attempt : Attempt}
    (h : buildAttempt envelopes report io text = .ok attempt) :
    attempt.spool_file_sha256 = io.spool_file_sha256 := by
  unfold buildAttempt at h
  obtain ⟨_, -, h⟩ := bind_eq_ok.mp h
  obtain ⟨_, -, h⟩ := bind_eq_ok.mp h
  obtain ⟨_, -, h⟩ := bind_eq_ok.mp h
  rw [← Except.ok.inj h]

/-- It is the hash of the file. -/
theorem sha_of_attemptOf {result : Except ClientError ReplayReport} {io : AttemptIO} {text : JStr}
    {attempt : Attempt} (h : attemptOf file session result io text = .ok attempt) :
    attempt.spool_file_sha256 = sha256Bytes file.flatten := by
  unfold attemptOf at h
  split at h
  · exact sha_of_buildAttempt h
  · exact sha_of_buildAttempt h

/-! ### What a step does -/

/-- **What a step can do.**  The agent appends a line, the run ends, or it goes from one phase to
    the next; only then does it read, upload, record or move. -/
inductive StepEffect (w : SyncSetup τ) (s : SpoolSync τ) : SyncStep → SpoolSync τ → Prop where
  | append (id : JStr) (line : RawLine) : StepEffect w s (.append id line) (s.append id line)
  | ends (l : SyncStep) : StepEffect w s l { s with phase := .idle }
  | lists (names) (hidle : s.phase = .idle) : StepEffect w s (.list names)
      { s with link := .opened s.link.store, phase := .reading names [] }
  | walks (sessions) (hreading : s.phase = .reading [] sessions) :
      StepEffect w s .read { s with phase := .walking sessions }
  | skips (id : JStr) (names sessions) (hreading : s.phase = .reading (id :: names) sessions) :
      StepEffect w s .read { s with phase := .reading names sessions }
  | reads (id : JStr) (names sessions) (file : SpoolFile) (session : SpoolSession)
      (hreading : s.phase = .reading (id :: names) sessions)
      (hfile : s.sessions id = some file) (hread : w.read id file = .ok session) :
      StepEffect w s .read { s with phase := .reading names (sessions ++ [(id, session)]) }
  | hashes (id : JStr) (session : SpoolSession) (rest) (file : SpoolFile)
      (hwalking : s.phase = .walking ((id, session) :: rest))
      (hfile : s.sessions id = some file) :
      StepEffect w s .hash { s with phase := .hashed id session file rest }
  | uploads (id : JStr) (session : SpoolSession) (file : SpoolFile) (rest)
      (hhashed : s.phase = .hashed id session file rest) :
      StepEffect w s .upload { s with
        link := (w.replay s.link session.envelopes).2
        phase := .uploaded id session file (w.replay s.link session.envelopes).1 rest
        acked := s.acked ++
          acknowledged session.envelopes (w.replay s.link session.envelopes).1 }
  | records (io text) (id : JStr) (session : SpoolSession) (file : SpoolFile) (result rest attempt)
      (huploaded : s.phase = .uploaded id session file result rest)
      (hbuilt : attemptOf file session result io text = .ok attempt) :
      StepEffect w s (.record io text) { s with
        phase := if isComplete result then .moving id session rest else .walking rest
        recorded := s.recorded ++
          [{ id := id, attempt := attempt, hashed := file, envelopes := session.envelopes }] }
  | moves (id : JStr) (session : SpoolSession) (rest) (file : SpoolFile)
      (hmoving : s.phase = .moving id session rest)
      (hfile : s.sessions id = some file) :
      StepEffect w s .move { s.markSynced id file with phase := .walking rest }

/-- A label that is not for the phase the run is in is refused. -/
theorem stepEffect_of_step (h : s.step w l = some s') : StepEffect w s l s' := by
  cases l with
  | append id line =>
    obtain rfl := Option.some.inj h
    exact .append id line
  | abort =>
    obtain rfl := Option.some.inj h
    exact .ends _
  | list names =>
    cases hphase : s.phase <;> simp only [step, hphase] at h
    case idle =>
      split_ifs at h
      obtain rfl := Option.some.inj h
      exact .lists names hphase
    all_goals exact absurd h (by simp)
  | read =>
    cases hphase : s.phase <;> simp only [step, hphase] at h
    case reading names sessions =>
      obtain rfl := Option.some.inj h
      cases names with
      | nil => exact .walks sessions hphase
      | cons id names =>
        unfold readNext
        dsimp only
        split
        · next session hread =>
          obtain ⟨file, hfile, hread⟩ := Option.map_eq_some_iff.mp hread
          exact .reads id names sessions file session hphase hfile hread
        · exact .skips id names sessions hphase
    all_goals exact absurd h (by simp)
  | hash =>
    cases hphase : s.phase <;> simp only [step, hphase] at h
    case walking sessions =>
      match sessions, hphase with
      | [], _ =>
        obtain rfl := Option.some.inj h
        exact .ends _
      | (id, session) :: rest, hphase =>
        dsimp only at h
        split at h
        · next file hfile =>
          obtain rfl := Option.some.inj h
          exact .hashes id session rest file hphase hfile
        · obtain rfl := Option.some.inj h
          exact .ends _
    all_goals exact absurd h (by simp)
  | upload =>
    cases hphase : s.phase <;> simp only [step, hphase] at h
    case hashed id session file rest =>
      obtain rfl := Option.some.inj h
      exact .uploads id session file rest hphase
    all_goals exact absurd h (by simp)
  | record io text =>
    cases hphase : s.phase <;> simp only [step, hphase] at h
    case uploaded id session file result rest =>
      split at h
      · obtain rfl := Option.some.inj h
        exact .ends _
      · next attempt hbuilt =>
        obtain rfl := Option.some.inj h
        exact .records io text id session file result rest attempt hphase hbuilt
    all_goals exact absurd h (by simp)
  | move =>
    cases hphase : s.phase <;> simp only [step, hphase] at h
    case moving id session rest =>
      split at h
      · next file hfile =>
        obtain rfl := Option.some.inj h
        exact .moves id session rest file hphase hfile
      · obtain rfl := Option.some.inj h
        exact .ends _
    all_goals exact absurd h (by simp)

/-! ### Runs in which nothing was appended in between -/

/-- What the run knows of the session it is at. -/
def PhaseOk (w : SyncSetup τ) (s : SpoolSync τ) : SyncPhase → Prop
  | .hashed id session file _ => w.envelopes id file = session.envelopes
  | .uploaded id session file result _ => w.envelopes id file = session.envelopes ∧
      ∀ report, result = .ok report → report.complete = true → ∀ e ∈ session.envelopes, e ∈ s.acked
  | .moving _ session _ => ∀ e ∈ session.envelopes, e ∈ s.acked
  | _ => True

/-- The invariant. -/
structure SyncInv (w : SyncSetup τ) (s : SpoolSync τ) : Prop where
  retired : Retired w s
  phase : PhaseOk w s s.phase

/-- The files of `synced/` after a file was moved there. -/
theorem file_markSynced {x : JStr} {n : ℕ} {other : SpoolFile}
    (h : (s.markSynced id file).synced.file x n = some other) :
    s.synced.file x n = some other ∨ x = id ∧ other = file := by
  by_cases hplace : (x, n) = (id, s.synced.free id 0)
  · obtain ⟨rfl, rfl⟩ := Prod.mk.inj hplace
    exact Or.inr ⟨rfl, (Option.some.inj (Shelf.file_put_self.symm.trans h)).symm⟩
  · exact Or.inl ((Shelf.file_put_of_ne hplace).symm.trans h)

/-- **One step** keeps the invariant, if the file holds what was read of it. -/
theorem SyncInv.step (h : SyncInv w s) (hsame : Unchanged w s l) (hstep : s.step w l = some s') :
    SyncInv w s' := by
  have hkept : ∀ phase, PhaseOk w { s with phase := phase } phase →
      SyncInv w { s with phase := phase } := fun phase hphase =>
    ⟨⟨h.retired.acknowledged, h.retired.bound⟩, hphase⟩
  have hok := h.phase
  cases stepEffect_of_step hstep with
  | append id line => exact ⟨⟨h.retired.acknowledged, h.retired.bound⟩, hok⟩
  | ends => exact hkept _ trivial
  | lists names => exact ⟨⟨h.retired.acknowledged, h.retired.bound⟩, trivial⟩
  | walks sessions => exact hkept _ trivial
  | skips id names sessions => exact hkept _ trivial
  | reads id names sessions => exact hkept _ trivial
  | hashes id session rest file hwalking hfile =>
    -- the file that is hashed still holds what was read of it
    exact hkept _ (hsame id session rest hwalking file hfile)
  | uploads id session file rest hhashed =>
    rw [hhashed] at hok
    refine ⟨⟨fun x n other hother e he => ?_, h.retired.bound⟩, hok,
      fun report hresult hcomplete e he => ?_⟩
    · exact List.mem_append_left _ (h.retired.acknowledged x n other hother e he)
    · -- a complete replay adds every envelope of the session
      refine List.mem_append_right _ ?_
      have hreplay : w.replay s.link session.envelopes =
          (.ok report, (w.replay s.link session.envelopes).2) := Prod.ext hresult rfl
      rw [show (w.replay s.link session.envelopes).1 = .ok report from hresult]
      exact mem_acknowledged hreplay hcomplete e he
  | records io text id session file result rest attempt huploaded hbuilt =>
    rw [huploaded] at hok
    refine ⟨⟨h.retired.acknowledged, fun r hr => ?_⟩, ?_⟩
    · rcases List.mem_append.mp hr with hr | hr
      · exact h.retired.bound r hr
      · obtain rfl := List.mem_singleton.mp hr
        exact ⟨sha_of_attemptOf hbuilt, hok.1⟩
    · dsimp only
      split_ifs with hcomplete
      · cases result with
        | ok report => exact hok.2 report rfl hcomplete
        | error e => exact absurd hcomplete (by simp [isComplete])
      · trivial
  | moves id session rest file hmoving hfile =>
    rw [hmoving] at hok
    refine ⟨⟨fun x n other hother => ?_, h.retired.bound⟩, trivial⟩
    rcases file_markSynced (s := s) hother with hold | ⟨rfl, rfl⟩
    · exact h.retired.acknowledged x n other hold
    · rw [hsame x session rest hmoving other hfile]
      exact hok

end

/-- **Sync retires what was acknowledged**, in every run in which a file holds, when it is hashed
    and when it is moved, the envelopes that were read of it. -/
theorem retired_of_unchanged (w : SyncSetup τ) (t : τ) (steps : List SyncStep)
    (h : Guarded (step w) (Unchanged w) (opened t) steps) :
    Throughout (step w) (Retired w) (opened t) steps := by
  have hopened : SyncInv w (opened t) :=
    ⟨⟨fun _ _ _ hfile => absurd hfile nofun, List.forall_mem_nil _⟩, trivial⟩
  exact (throughout_of_guarded (fun _ _ _ hinv hsame hstep => hinv.step hsame hstep) hopened h).mono
    fun _ hinv => hinv.retired

/-! ### Runs that no append interrupts -/

end SpoolSync

/-- The step is one of the agent. -/
def SyncStep.appends : SyncStep → Bool
  | .append _ _ => true
  | _ => false

/-- The sessions that the run has read and not done with. -/
def SyncPhase.pending : SyncPhase → List (JStr × SpoolSession)
  | .idle => []
  | .reading _ sessions => sessions
  | .walking sessions => sessions
  | .hashed id session _ rest => (id, session) :: rest
  | .uploaded id session _ _ rest => (id, session) :: rest
  | .moving id session rest => (id, session) :: rest

namespace SpoolSync

/-- The files hold what the run has read of them. -/
def UpToDate (w : SyncSetup τ) (s : SpoolSync τ) : Prop :=
  ∀ p ∈ s.phase.pending, ∀ file, s.sessions p.1 = some file → w.envelopes p.1 file = p.2.envelopes

section

variable {w : SyncSetup τ} {s s' : SpoolSync τ} {l : SyncStep}

theorem UpToDate.unchanged (h : UpToDate w s) : Unchanged w s l := by
  cases l with
  | hash =>
    intro id session rest hphase file hfile
    exact h (id, session) (by rw [hphase]; exact List.mem_cons_self) file hfile
  | move =>
    intro id session rest hphase file hfile
    exact h (id, session) (by rw [hphase]; exact List.mem_cons_self) file hfile
  | _ => trivial

/-- The run itself keeps them so. -/
theorem UpToDate.step (h : UpToDate w s) (hl : l.appends = false) (hstep : s.step w l = some s') :
    UpToDate w s' := by
  -- a session that is not pending any more needs nothing
  have hsub : ∀ phase : SyncPhase, (∀ p ∈ phase.pending, p ∈ s.phase.pending) →
      UpToDate w { s with phase := phase } := fun phase hphase p hp => h p (hphase p hp)
  cases stepEffect_of_step hstep with
  | append id line => exact absurd hl (by simp [SyncStep.appends])
  | ends => exact List.forall_mem_nil _
  | lists names => exact List.forall_mem_nil _
  | walks sessions hreading => exact hsub _ (by simp [hreading, SyncPhase.pending])
  | skips id names sessions hreading => exact hsub _ (by simp [hreading, SyncPhase.pending])
  | reads id names sessions file session hreading hfile hread =>
    intro p hp other hother
    rcases List.mem_append.mp hp with hp | hp
    · exact h p (by rwa [hreading]) other hother
    · -- it holds what the reader has just returned
      obtain rfl := List.mem_singleton.mp hp
      obtain rfl := Option.some.inj (hfile.symm.trans hother)
      exact (envelopes_of_read hread).symm
  | hashes id session rest file hwalking => exact hsub _ (by simp [hwalking, SyncPhase.pending])
  | uploads id session file rest hhashed =>
    intro p hp
    exact h p (by rwa [hhashed])
  | records io text id session file result rest attempt huploaded =>
    intro p hp
    refine h p ?_
    rw [huploaded]
    dsimp only at hp
    split_ifs at hp
    · exact hp
    · exact List.mem_cons_of_mem _ hp
  | moves id session rest file hmoving hfile =>
    intro p hp other hother
    refine h p (by rw [hmoving]; exact List.mem_cons_of_mem _ hp) other ?_
    by_cases hid : p.1 = id
    · -- the file of this name is gone
      subst hid
      exact absurd ((Function.update_self _ _ _).symm.trans hother) (by simp)
    · exact (Function.update_of_ne hid _ _).symm.trans hother

/-- A run that no append interrupts hashes and moves what it has read. -/
theorem UpToDate.guarded (h : UpToDate w s) {steps : List SyncStep}
    (hquiet : ∀ l ∈ steps, l.appends = false) :
    Guarded (SpoolSync.step w) (Unchanged w) s steps := by
  induction steps generalizing s with
  | nil => trivial
  | cons l rest ih =>
    intro s' hs'
    exact ⟨h.unchanged, ih (h.step (hquiet l List.mem_cons_self) hs') fun l' hl' =>
      hquiet l' (List.mem_cons_of_mem l hl')⟩

end

/-! ### Nothing is lost -/

/-- The lines of a session: those of its files in `synced/`, one file after the other, and then
    those of the file in `sessions/`, are all that were appended, in their order. -/
def LinesKept (s : SpoolSync τ) : Prop :=
  ∀ id, (s.retiredFiles id).flatten ++ (s.sessions id).getD [] = s.appended id ∧
    ∀ k, (s.synced.file id k).isSome = true ↔ k < (s.retiredFiles id).length

/-- The files of every session were moved one after the other. -/
def Stacked (s : SpoolSync τ) : Prop :=
  ∃ history : JStr → List SpoolFile, s.synced.Holds history ∧
    ∀ id, (history id).flatten ++ (s.sessions id).getD [] = s.appended id

section

variable {w : SyncSetup τ} {s s' : SpoolSync τ} {l : SyncStep}

/-- Such files are found by their suffixes. -/
theorem Stacked.linesKept (h : Stacked s) : LinesKept s := by
  obtain ⟨history, hholds, hlines⟩ := h
  intro id
  have hfiles : s.retiredFiles id = history id := hholds.filterMap_range id
  rw [hfiles]
  refine ⟨hlines id, fun k => ?_⟩
  rw [hholds id k]
  simp

/-- A step appends a line, moves a file, or leaves the files. -/
theorem files_of_step (h : s.step w l = some s') :
    (∃ id line, s'.sessions = (s.append id line).sessions ∧ s'.synced = s.synced ∧
      s'.appended = (s.append id line).appended) ∨
    (∃ id file, s.sessions id = some file ∧ s'.sessions = (s.markSynced id file).sessions ∧
      s'.synced = (s.markSynced id file).synced ∧ s'.appended = s.appended) ∨
    (s'.sessions = s.sessions ∧ s'.synced = s.synced ∧ s'.appended = s.appended) := by
  cases stepEffect_of_step h with
  | append id line => exact Or.inl ⟨id, line, rfl, rfl, rfl⟩
  | moves id session rest file _ hfile => exact Or.inr (Or.inl ⟨id, file, hfile, rfl, rfl, rfl⟩)
  | _ => exact Or.inr (Or.inr ⟨rfl, rfl, rfl⟩)

/-- **One step** loses no line. -/
theorem Stacked.step (h : Stacked s) (hstep : s.step w l = some s') : Stacked s' := by
  obtain ⟨history, hholds, hlines⟩ := h
  rcases files_of_step hstep with ⟨id, line, hsessions, hsynced, happended⟩ |
    ⟨id, file, hfile, hsessions, hsynced, happended⟩ | ⟨hsessions, hsynced, happended⟩
  · refine ⟨history, by rwa [hsynced], fun x => ?_⟩
    rw [hsessions, happended]
    show _ ++ (Function.update s.sessions id _ x).getD [] = Function.update s.appended id _ x
    by_cases hx : x = id
    · subst hx
      rw [Function.update_self, Function.update_self, ← hlines x, List.append_assoc]
      rfl
    · rw [Function.update_of_ne hx, Function.update_of_ne hx, hlines x]
  · refine ⟨Function.update history id (history id ++ [file]), ?_, fun x => ?_⟩
    · rw [hsynced]
      exact hholds.put id file
    · rw [hsessions, happended]
      show _ ++ (Function.update s.sessions id none x).getD [] = _
      by_cases hx : x = id
      · subst hx
        rw [Function.update_self, Function.update_self, ← hlines x, hfile]
        simp
      · rw [Function.update_of_ne hx, Function.update_of_ne hx, hlines x]
  · exact ⟨history, by rwa [hsynced], by rwa [hsessions, happended]⟩

end

/-- **No line is lost.**  However the appends and the steps of successive runs of `sync` interleave,
    whatever the store answers, and wherever a run is aborted, the files hold every line that was
    appended, in its order. -/
theorem lines_kept (w : SyncSetup τ) (t : τ) (steps : List SyncStep) :
    Throughout (step w) LinesKept (opened t) steps := by
  have hopened : Stacked (opened t) := ⟨fun _ => [], fun _ _ => rfl, fun _ => rfl⟩
  exact (throughout_of_step (fun _ _ _ hinv hstep => hinv.step hstep) hopened).mono
    fun _ hinv => hinv.linesKept

end SpoolSync

/-! ### An agent that goes on writing -/

/-- The bytes of a record's line. -/
def rawLine (record : Dict) : RawLine := recordText record ++ [lineBreak]

/-- A reader of lines that hold one of the given records. -/
def readRecords (records : List Dict) (line : RawLine) : SpoolLine :=
  match records.find? fun record => rawLine record == line with
  | some record => .value (.obj record)
  | none => .malformed

/-- A session's opening, and its closing. -/
def openedRecord : Dict :=
  Dict.ofFields [("event_id", .str exampleEvent.text), ("event_type", .str "SESSION_OPEN"),
    ("session_id", .str exampleSession.text), ("payload", .obj [])]

def closedRecord : Dict :=
  Dict.ofFields [("event_id", .str exampleRecord.text), ("event_type", .str "SESSION_CLOSE"),
    ("session_id", .str exampleSession.text),
    ("payload", .obj (Dict.ofFields [("status", .str "completed")]))]

/-- A store that answers, as `lossyStore` does after its first reply. -/
def exampleSetup : SyncSetup (ℕ × List Json) where
  rt := exampleRuntime
  cfg := replayConfig
  store := lossyStore
  fresh := fun _ => exampleRecord
  parse := readRecords [openedRecord, closedRecord]
  root := "spool"
  sdk_version := "0.3.0"

/-- A run over one line. -/
def syncOnce : List SyncStep :=
  [.append exampleSession.text (rawLine openedRecord), .list [exampleSession.text], .read, .read,
    .hash, .upload, .record exampleAttemptIO "", .move]

/-- The session is closed while its file is moved. -/
def syncRaced : List SyncStep :=
  [.append exampleSession.text (rawLine openedRecord), .list [exampleSession.text], .read, .read,
    .hash, .upload, .record exampleAttemptIO "",
    .append exampleSession.text (rawLine closedRecord), .move]

/-- The event ids of envelopes. -/
def eventTexts (envelopes : List Dict) : List JStr :=
  envelopes.filterMap fun e =>
    match e.get "event_id" with
    | .str text => some text
    | _ => none

/-- The run that nothing interrupts retires the file, with its one envelope acknowledged. -/
theorem retired_of_unchanged_syncOnce :
    Throughout (SpoolSync.step exampleSetup) (SpoolSync.Retired exampleSetup) (.opened (1, []))
        syncOnce ∧
      (run (SpoolSync.step exampleSetup) (.opened (1, [])) syncOnce).map (fun s =>
        (eventTexts s.acked, (s.synced.file exampleSession.text 0).isSome)) =
          some ([exampleEvent.text], true) := by
  refine ⟨?_, by decide +kernel⟩
  apply SpoolSync.retired_of_unchanged
  intro s hs
  obtain rfl := Option.some.inj hs
  have hidle : SpoolSync.UpToDate exampleSetup (SpoolSync.append (.opened (1, []))
      exampleSession.text (rawLine openedRecord)) := List.forall_mem_nil _
  exact ⟨trivial, hidle.guarded (by decide)⟩

/-- The moved file holds an envelope that was never sent. -/
theorem not_retired_syncRaced :
    ¬ Throughout (SpoolSync.step exampleSetup) (SpoolSync.Retired exampleSetup) (.opened (1, []))
      syncRaced := by
  have hids : (run (SpoolSync.step exampleSetup) (.opened (1, [])) syncRaced).map (fun s =>
      (eventTexts s.acked, (s.synced.file exampleSession.text 0).map fun f =>
        eventTexts (exampleSetup.envelopes exampleSession.text f))) =
      some ([exampleEvent.text], some [exampleEvent.text, exampleRecord.text]) := by
    decide +kernel
  obtain ⟨s, hrun, hids⟩ := Option.map_eq_some_iff.mp hids
  obtain ⟨hacked, hmoved⟩ := Prod.mk.inj hids
  obtain ⟨file, hfile, hmoved⟩ := Option.map_eq_some_iff.mp hmoved
  intro h
  have hretired := (h.last hrun).acknowledged _ _ _ hfile
  have hsub : ∀ text ∈ eventTexts (exampleSetup.envelopes exampleSession.text file),
      text ∈ eventTexts s.acked := by
    intro text htext
    obtain ⟨e, he, hid⟩ := List.mem_filterMap.mp htext
    exact List.mem_filterMap.mpr ⟨e, hretired e he, hid⟩
  rw [hacked, hmoved] at hsub
  exact absurd (hsub exampleRecord.text (List.mem_cons_of_mem _ List.mem_cons_self)) (by decide)

end RootSign
