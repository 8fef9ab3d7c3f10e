import RootSign.ConcurrentSync

namespace RootSign

open RootSign.Lib RootSign.Python

/-!
# Receipts and their exhibits (`rootsign/sdk/receipt.py`, `rootsign/sdk/export.py`)

The session files and the receipts of a spool, and how a bundle's receipt is found: beside a file in
`synced/` under its own suffix, for a file in `sessions/` among the live receipts and then in
`synced/` without a suffix.  Lines are appended, sessions are synced one at a time, and receipts
become unreadable and readable again, in any order.  Session ids are UUIDs, so that the stem of a
file in `synced/` is one id and one suffix.

* `SpoolTree.step` — an append, one session of a run of `sync`, or a receipt that is damaged or
  repaired;
* `Paired` — a receipt has an attempt on the very envelopes of the file;
* `synced_paired` — the files in `synced/` are paired with their own receipts, unless one that its
  file has outgrown is repaired;
* `receipts_paired` — and those in `sessions/` too, if nothing is appended to a session that a
  receipt is found for.
-/

/-- A receipt file: its attempts, and whether it can be read.  The last field is history: envelopes
    were appended to the session's file since the last attempt. -/
structure ReceiptFile where
  attempts : List RecordedAttempt
  readable : Bool
  outgrown : Bool

namespace ReceiptFile

/-- `load_receipt`: what cannot be read is no receipt. -/
def load (receipt : ReceiptFile) : Option (List RecordedAttempt) :=
  if receipt.readable then some receipt.attempts else none

/-- More envelopes in the session's file. -/
def outgrow (receipt : ReceiptFile) (envelopes : List Dict) : ReceiptFile :=
  { receipt with outgrown := receipt.outgrown || !envelopes.isEmpty }

end ReceiptFile

/-- The spool.  A sibling of an unreadable receipt has one attempt; the last field is history: the
    envelopes acknowledged. -/
structure SpoolTree (τ : Type) where
  sessions : JStr → Option SpoolFile
  synced : Shelf JStr SpoolFile
  receipts : JStr → Option ReceiptFile
  siblings : JStr → List RecordedAttempt
  retired : Shelf JStr ReceiptFile
  link : SyncLink τ
  acked : List Dict

/-- What happens to it: a line is appended, a run of `sync` starts, one session is synced, or a
    receipt becomes unreadable or readable again, its bytes as they were. -/
inductive TreeStep where
  | append (id : JStr) (line : RawLine)
  | run
  | sync (id : JStr) (io : AttemptIO) (text : JStr)
  | receipt (id : JStr) (readable : Bool)
  | retiredReceipt (id : JStr) (k : ℕ) (readable : Bool)

/-- An event's line carries the session that its file is named by. -/
def SyncSetup.owns {τ : Type} (w : SyncSetup τ) (id : JStr) (line : RawLine) : Bool :=
  match w.parse line with
  | .value (.obj record) =>
    match isEventType (Dict.get record "event_type") with
    | .ok true => w.rt.pyStr (Dict.get record "session_id") == id
    | _ => true
  | _ => true

namespace SpoolTree

variable {τ : Type}

/-- `append_attempt`: a receipt that cannot be read is left, and the attempt goes to a sibling. -/
def appendAttempt (s : SpoolTree τ) (id : JStr) (attempt : RecordedAttempt) : SpoolTree τ :=
  match s.receipts id with
  | some receipt =>
    if receipt.readable then
      { s with
        receipts := Function.update s.receipts id
          (some ⟨receipt.attempts ++ [attempt], true, false⟩) }
    else
      { s with
        siblings := Function.update s.siblings id (s.siblings id ++ [attempt]) }
  | none => { s with receipts := Function.update s.receipts id (some ⟨[attempt], true, false⟩) }

/-- `mark_receipt_synced`. -/
def markReceiptSynced (s : SpoolTree τ) (id : JStr) (suffix_index : ℕ) : SpoolTree τ :=
  match s.receipts id with
  | some receipt =>
    { s with
      receipts := Function.update s.receipts id none
      retired := s.retired.put id suffix_index receipt }
  | none => s

/-- `mark_synced` and `_move_receipt`: the receipt is to get the file's suffix. -/
def retire (s : SpoolTree τ) (id : JStr) (file : SpoolFile) (session_id : JStr) : SpoolTree τ :=
  markReceiptSynced
    { s with
      sessions := Function.update s.sessions id none
      synced := s.synced.put id 0 file }
    session_id (s.synced.free id 0)

/-- `_sync_one`; an attempt that cannot be built ends it. -/
def syncOne (w : SyncSetup τ) (s : SpoolTree τ) (id : JStr) (file : SpoolFile)
    (session : SpoolSession) (io : AttemptIO) (text : JStr) : SpoolTree τ :=
  let replayed := w.replay s.link session.envelopes
  let s := { s with
    link := replayed.2
    acked := s.acked ++ acknowledged session.envelopes replayed.1 }
  match attemptOf file session replayed.1 io text with
  | .error _ => s
  | .ok attempt =>
    let s := s.appendAttempt session.session_id
      { id := id, attempt := attempt, hashed := file, envelopes := session.envelopes }
    if isComplete replayed.1 then s.retire id file session.session_id else s

/-- One step. -/
def step (w : SyncSetup τ) (s : SpoolTree τ) : TreeStep → Option (SpoolTree τ)
  | .append id line =>
    if w.owns id line then
      some { s with
        sessions := Function.update s.sessions id (some ((s.sessions id).getD [] ++ [line]))
        receipts := Function.update s.receipts id
          ((s.receipts id).map fun receipt => receipt.outgrow (w.envelopes id [line])) }
    else none
  | .run => some { s with link := .opened s.link.store }
  | .sync id io text =>
    match s.sessions id with
    | none => none
    | some file =>
      match w.read id file with
      | .error _ => some s
      | .ok session => some (s.syncOne w id file session io text)
  | .receipt id readable =>
    (s.receipts id).map fun receipt =>
      { s with
        receipts := Function.update s.receipts id (some { receipt with readable := readable }) }
  | .retiredReceipt id k readable =>
    (s.retired.file id k).map fun receipt =>
      { s with retired := s.retired.replace id k { receipt with readable := readable } }

/-- An empty spool. -/
def opened (t : τ) : SpoolTree τ where
  sessions := fun _ => none
  synced := []
  receipts := fun _ => none
  siblings := fun _ => []
  retired := []
  link := .opened t
  acked := []

/-! ### The receipt of a bundle -/

/-- `_load_receipt_for` a file in `sessions/`, with `find_receipt`. -/
def liveReceipt (s : SpoolTree τ) (id : JStr) : Option (List RecordedAttempt) :=
  match s.receipts id with
  | some receipt => receipt.load
  | none => (s.retired.file id 0).bind ReceiptFile.load

/-- `_load_receipt_for` a file in `synced/`: the receipt with the stem of the file. -/
def syncedReceipt (s : SpoolTree τ) (id : JStr) (k : ℕ) : Option (List RecordedAttempt) :=
  (s.retired.file id k).bind ReceiptFile.load

/-- The receipt has an attempt that replayed the envelopes, and its latest is fully accepted only if
    all of them were acknowledged. -/
structure Paired (s : SpoolTree τ) (envelopes : List Dict) (attempts : List RecordedAttempt) :
    Prop where
  own : ∃ a ∈ attempts, a.envelopes = envelopes
  accepted : ∀ a, attempts.getLast? = some a → a.attempt.disposition = .FULLY_ACCEPTED →
    ∀ e ∈ envelopes, e ∈ s.acked

/-- Every receipt that a file in `synced/` is exported with is its own. -/
def SyncedPaired (w : SyncSetup τ) (s : SpoolTree τ) : Prop :=
  ∀ id k file attempts, s.synced.file id k = some file → s.syncedReceipt id k = some attempts →
    Paired s (w.envelopes id file) attempts

/-- And every receipt of a file in `sessions/`. -/
structure ReceiptsPaired (w : SyncSetup τ) (s : SpoolTree τ) : Prop where
  synced : SyncedPaired w s
  live : ∀ id file attempts, s.sessions id = some file → s.liveReceipt id = some attempts →
    Paired s (w.envelopes id file) attempts

/-- No receipt in `synced/` is repaired whose file had outgrown it. -/
def NotOutgrown (s : SpoolTree τ) : TreeStep → Prop
  | .retiredReceipt id k true => ∀ receipt ∈ s.retired.file id k, receipt.outgrown = false
  | _ => True

instance (s : SpoolTree τ) : ∀ l, Decidable (NotOutgrown s l)
  | .append _ _ => .isTrue trivial
  | .run => .isTrue trivial
  | .sync _ _ _ => .isTrue trivial
  | .receipt _ _ => .isTrue trivial
  | .retiredReceipt _ _ false => .isTrue trivial
  | .retiredReceipt id k true =>
    inferInstanceAs (Decidable (∀ receipt ∈ s.retired.file id k, receipt.outgrown = false))

/-- A line is appended only to a session that no receipt would be found for, or it holds no envelope
    and the file is there; no receipt is repaired that its file has outgrown, nor the first one in
    `synced/` while it would be found for another file in `sessions/`. -/
def Unclaimed (w : SyncSetup τ) (s : SpoolTree τ) : TreeStep → Prop
  | .append id line => s.liveReceipt id = none ∨
      (s.sessions id).isSome = true ∧ w.envelopes id [line] = []
  | .receipt id true => ∀ receipt ∈ s.receipts id, receipt.outgrown = false
  | .retiredReceipt id k true =>
    (∀ receipt ∈ s.retired.file id k, receipt.outgrown = false) ∧
      (k = 0 → s.receipts id = none → s.sessions id = none)
  | _ => True

/-! ### The session of a file -/

section

variable {w : SyncSetup τ} {id : JStr} {file : SpoolFile} {session : SpoolSession}

/-- A record of the session leaves its id. -/
theorem session_id_of_readRecord {rt : Runtime} {src : SpoolSource} {line : ℕ} {r r' : Reading}
    {record : Dict} (h : readRecord rt src line r record = .ok r')
    (hr : ∀ x ∈ r.session_id, x = id)
    (howned : isEventType (record.get "event_type") = .ok true →
      rt.pyStr (record.get "session_id") = id) : ∀ x ∈ r'.session_id, x = id := by
  unfold readRecord at h
  -- by what `_read_record` does with a record: refuse it, pass over it as no event, or read it
  dsimp only at h
  split at h
  · exact absurd h (by simp)
  · obtain rfl := Except.ok.inj h
    exact hr
  · next htype =>
    -- a record read names the session, if none before it did
    have hid : ∀ x ∈ some (r.session_id.getD (rt.pyStr (record.get "session_id"))), x = id := by
      intro x hx
      obtain rfl := Option.some.inj hx
      cases hsession : r.session_id with
      | none => exact howned htype
      | some y => exact hr y hsession
    split_ifs at h
    · unfold readAction at h
      split at h
      · exact absurd h (by simp)
      · split at h
        · exact absurd h (by simp)
        · obtain rfl := Except.ok.inj h
          exact hid
    · cases henvelope : envelopeFromRecord rt src line record with
      | error e =>
        rw [henvelope] at h
        cases h
      | ok envelope =>
        rw [henvelope] at h
        obtain rfl := Except.ok.inj h
        exact hid

/-- The same of lines. -/
theorem session_id_of_readLines {line : ℕ} {r r' : Reading} {lines : List RawLine}
    (h : readLines w.rt (w.source id) line r (lines.map w.parse) = .ok r')
    (hr : ∀ x ∈ r.session_id, x = id) (howned : ∀ l ∈ lines, w.owns id l = true) :
    ∀ x ∈ r'.session_id, x = id := by
  induction lines generalizing line r with
  | nil =>
    obtain rfl := Except.ok.inj h
    exact hr
  | cons l rest ih =>
    obtain ⟨r₁, hone, hrest⟩ := bind_eq_ok.mp h
    refine ih hrest ?_ fun l' hl' => howned l' (List.mem_cons_of_mem _ hl')
    have howns := howned l List.mem_cons_self
    unfold SyncSetup.owns at howns
    unfold readLine at hone
    split at hone
    · obtain rfl := Except.ok.inj hone
      exact hr
    · split_ifs at hone
    · next record hparse =>
      rw [hparse] at howns
      refine session_id_of_readRecord hone hr fun htype => ?_
      dsimp only at howns
      rw [htype] at howns
      exact eq_of_beq howns
    · exact absurd hone (by simp)

/-- **A file of a session** is read as one of that session. -/
theorem session_id_of_read (h : w.read id file = .ok session)
    (howned : ∀ l ∈ file, w.owns id l = true) : session.session_id = id := by
  unfold SyncSetup.read readSpoolSession at h
  cases hread : readLines w.rt (w.source id) 1 {} (file.map w.parse) with
  | error e =>
    rw [hread] at h
    cases h
  | ok r =>
    rw [hread] at h
    obtain rfl := Except.ok.inj h
    have hid := session_id_of_readLines hread nofun howned
    show r.session_id.getD id = id
    cases hsession : r.session_id with
    | none => rfl
    | some x => exact hid x hsession

end

/-! ### One session of a run -/

section

variable {w : SyncSetup τ} {s s' : SpoolTree τ} {id : JStr} {file : SpoolFile}
  {session : SpoolSession} {envelopes : List Dict} {attempts : List RecordedAttempt}

/-- More acknowledged envelopes change no pair. -/
theorem Paired.mono (h : Paired s envelopes attempts) (hacked : ∀ e ∈ s.acked, e ∈ s'.acked) :
    Paired s' envelopes attempts :=
  ⟨h.own, fun a ha hfull e he => hacked e (h.accepted a ha hfull e he)⟩

/-- An attempt that is not complete is not recorded as fully accepted. -/
theorem disposition_of_attemptOf {result : Except ClientError ReplayReport} {io : AttemptIO}
    {text : JStr} {attempt : Attempt} (h : attemptOf file session result io text = .ok attempt)
    (hcomplete : isComplete result = false) : attempt.disposition ≠ .FULLY_ACCEPTED := by
  unfold attemptOf at h
  cases result with
  | ok report =>
    have hfailed : report.failed_index.isNone = false := hcomplete
    unfold buildAttempt at h
    obtain ⟨_, -, h⟩ := bind_eq_ok.mp h
    obtain ⟨_, -, h⟩ := bind_eq_ok.mp h
    obtain ⟨_, -, h⟩ := bind_eq_ok.mp h
    rw [← Except.ok.inj h]
    dsimp only
    rw [hfailed, Bool.false_and]
    split <;> simp
  | error e =>
    unfold buildAttempt at h
    obtain ⟨_, -, h⟩ := bind_eq_ok.mp h
    obtain ⟨_, -, h⟩ := bind_eq_ok.mp h
    obtain ⟨_, -, h⟩ := bind_eq_ok.mp h
    rw [← Except.ok.inj h]
    simp

/-- The receipt after an attempt: with one more attempt, or as it was if it cannot be read. -/
theorem receipts_appendAttempt (s : SpoolTree τ) (id : JStr) (attempt : RecordedAttempt) :
    ∃ receipt : ReceiptFile, (s.appendAttempt id attempt).receipts =
        Function.update s.receipts id (some receipt) ∧
      ((receipt.readable = true ∧ receipt.outgrown = false ∧
          ∃ earlier, receipt.attempts = earlier ++ [attempt]) ∨
        (receipt.readable = false ∧ s.receipts id = some receipt)) ∧
      (s.appendAttempt id attempt).sessions = s.sessions ∧
      (s.appendAttempt id attempt).synced = s.synced ∧
      (s.appendAttempt id attempt).retired = s.retired ∧
      (s.appendAttempt id attempt).acked = s.acked := by
  unfold appendAttempt
  cases hreceipt : s.receipts id with
  | none => exact ⟨_, rfl, Or.inl ⟨rfl, rfl, [], rfl⟩, rfl, rfl, rfl, rfl⟩
  | some receipt =>
    dsimp only
    by_cases hreadable : receipt.readable = true
    · rw [if_pos hreadable]
      exact ⟨_, rfl, Or.inl ⟨rfl, rfl, receipt.attempts, rfl⟩, rfl, rfl, rfl, rfl⟩
    · rw [if_neg hreadable]
      refine ⟨receipt, ?_, Or.inr ⟨Bool.eq_false_iff.mpr hreadable, rfl⟩, rfl, rfl, rfl, rfl⟩
      show s.receipts = _
      rw [← hreceipt, Function.update_eq_self]

/-- A receipt is of the envelopes of a file, unless the file has outgrown it. -/
structure Describes (s : SpoolTree τ) (envelopes : List Dict) (receipt : ReceiptFile) : Prop where
  paired : receipt.outgrown = false → Paired s envelopes receipt.attempts

theorem Describes.mono {receipt : ReceiptFile} (h : Describes s envelopes receipt)
    (hacked : ∀ e ∈ s.acked, e ∈ s'.acked) : Describes s' envelopes receipt :=
  ⟨fun hcurrent => (h.paired hcurrent).mono hacked⟩

/-- What a session of a run does to a spool whose files are named by their session. -/
inductive Synced (w : SyncSetup τ) (s : SpoolTree τ) (id : JStr) (file : SpoolFile) :
    SpoolTree τ → Prop
  | unrecorded (s' : SpoolTree τ) (hsessions : s'.sessions = s.sessions)
      (hsynced : s'.synced = s.synced) (hreceipts : s'.receipts = s.receipts)
      (hretired : s'.retired = s.retired) (hacked : ∀ e ∈ s.acked, e ∈ s'.acked) :
      Synced w s id file s'
  | stays (s' : SpoolTree τ) (receipt : ReceiptFile) (hsessions : s'.sessions = s.sessions)
      (hsynced : s'.synced = s.synced)
      (hreceipts : s'.receipts = Function.update s.receipts id (some receipt))
      (hretired : s'.retired = s.retired) (hacked : ∀ e ∈ s.acked, e ∈ s'.acked)
      (hcurrent : receipt.readable = true → receipt.outgrown = false)
      (hdescribes : Describes s' (w.envelopes id file) receipt) :
      Synced w s id file s'
  | moves (s' : SpoolTree τ) (receipt : ReceiptFile)
      (hsessions : s'.sessions = Function.update s.sessions id none)
      (hsynced : s'.synced = s.synced.put id 0 file)
      (hreceipts : s'.receipts = Function.update s.receipts id none)
      (hretired : s'.retired = s.retired.put id (s.synced.free id 0) receipt)
      (hacked : ∀ e ∈ s.acked, e ∈ s'.acked)
      (hcurrent : receipt.readable = true → receipt.outgrown = false)
      (hdescribes : Describes s' (w.envelopes id file) receipt) :
      Synced w s id file s'

/-- **`_sync_one`.**  The attempt replays what the file holds, and the file moves only if all of it
    was acknowledged. -/
theorem synced_syncOne (s : SpoolTree τ) (hread : w.read id file = .ok session)
    (howned : ∀ l ∈ file, w.owns id l = true)
    (hbefore : ∀ receipt, s.receipts id = some receipt →
      Describes s (w.envelopes id file) receipt) (io : AttemptIO) (text : JStr) :
    Synced w s id file (s.syncOne w id file session io text) := by
  have hid : session.session_id = id := session_id_of_read hread howned
  have henvelopes : session.envelopes = w.envelopes id file :=
    SpoolSync.envelopes_of_read hread
  unfold syncOne
  dsimp only
  split
  · exact .unrecorded _ rfl rfl rfl rfl fun e he => List.mem_append_left _ he
  · next attempt hattempt =>
    rw [hid]
    -- the tree with what was acknowledged
    let s₁ : SpoolTree τ := { s with
      link := (w.replay s.link session.envelopes).2
      acked := s.acked ++ acknowledged session.envelopes (w.replay s.link session.envelopes).1 }
    let recorded : RecordedAttempt :=
      { id := id, attempt := attempt, hashed := file, envelopes := session.envelopes }
    obtain ⟨receipt, hreceipts, hreceipt, hsessions, hsynced, hretired, hacked⟩ :=
      receipts_appendAttempt s₁ id recorded
    have hgrows : ∀ e ∈ s.acked, e ∈ (s₁.appendAttempt id recorded).acked := fun e he =>
      hacked ▸ List.mem_append_left _ he
    have hcurrent : receipt.readable = true → receipt.outgrown = false := by
      rcases hreceipt with ⟨-, hcurrent, -⟩ | ⟨hhidden, -⟩
      · exact fun _ => hcurrent
      · exact fun hreadable => absurd (hhidden.symm.trans hreadable) Bool.false_ne_true
    -- the new attempt is on the file, and so was the last one of a receipt that was left
    have hdescribes : ∀ x : SpoolTree τ, (∀ e ∈ s.acked, e ∈ x.acked) →
        (recorded.attempt.disposition = .FULLY_ACCEPTED →
          ∀ e ∈ w.envelopes id file, e ∈ x.acked) →
        Describes x (w.envelopes id file) receipt := by
      intro x hkept hfull
      rcases hreceipt with ⟨-, -, earlier, hattempts⟩ | ⟨-, hleft⟩
      · refine ⟨fun _ => ⟨⟨recorded, ?_, henvelopes⟩, fun a ha hdisposition => ?_⟩⟩
        · rw [hattempts]
          exact List.mem_append_right _ (List.mem_singleton_self _)
        · rw [hattempts, List.getLast?_concat] at ha
          obtain rfl := Option.some.inj ha
          exact hfull hdisposition
      · exact (hbefore receipt hleft).mono hkept
    split_ifs with hcomplete
    · -- everything was acknowledged
      have hall : ∀ e ∈ w.envelopes id file, e ∈ s₁.acked := by
        rw [← henvelopes]
        intro e he
        refine List.mem_append_right _ ?_
        cases hresult : (w.replay s.link session.envelopes).1 with
        | error e =>
          rw [hresult] at hcomplete
          cases hcomplete
        | ok report =>
          rw [hresult] at hcomplete
          have hreplay : w.replay s.link session.envelopes =
            (.ok report, (w.replay s.link session.envelopes).2) := Prod.ext hresult rfl
          exact SpoolSync.mem_acknowledged hreplay hcomplete e he
      have hhere : (s₁.appendAttempt id recorded).receipts id = some receipt := by
        rw [hreceipts, Function.update_self]
      have hretire : ∀ x, x = s₁.appendAttempt id recorded → x.retire id file id =
          { x with
            sessions := Function.update x.sessions id none
            synced := x.synced.put id 0 file
            receipts := Function.update x.receipts id none
            retired := x.retired.put id (x.synced.free id 0) receipt } := by
        rintro x rfl
        unfold retire markReceiptSynced
        dsimp only
        rw [hhere]
      rw [show (SpoolTree.appendAttempt _ id _ : SpoolTree τ) = s₁.appendAttempt id recorded from
        rfl, hretire _ rfl]
      refine .moves _ receipt ?_ ?_ ?_ ?_ hgrows hcurrent (hdescribes _ hgrows fun _ e he => ?_)
      · dsimp only
        rw [hsessions]
      · dsimp only
        rw [hsynced]
      · dsimp only
        rw [hreceipts, Function.update_idem]
      · dsimp only
        rw [hretired, hsynced]
      · show e ∈ (s₁.appendAttempt id recorded).acked
        rw [hacked]
        exact hall e he
    · exact .stays _ receipt hsessions hsynced hreceipts hretired hgrows hcurrent
        (hdescribes _ hgrows fun hfull =>
          absurd hfull (disposition_of_attemptOf hattempt (Bool.not_eq_true _ ▸ hcomplete)))

/-! ### Every step -/

/-- A receipt describes its file, unless that has outgrown it, beside the file in `synced/` and in
    `sessions/`; no receipt is without its file, and every line is of the session its file is named
    by. -/
structure TreeInv (w : SyncSetup τ) (s : SpoolTree τ) : Prop where
  retired : ∀ id k file receipt, s.synced.file id k = some file →
    s.retired.file id k = some receipt → Describes s (w.envelopes id file) receipt
  live : ∀ id file receipt, s.sessions id = some file → s.receipts id = some receipt →
    Describes s (w.envelopes id file) receipt
  suffixes : ∀ id k, s.synced.file id k = none → s.retired.file id k = none
  beside : ∀ id, s.sessions id = none → s.receipts id = none
  owned : ∀ id file, s.sessions id = some file → ∀ line ∈ file, w.owns id line = true

/-- What can be read in `synced/` is not outgrown. -/
def RetiredCurrent (s : SpoolTree τ) : Prop :=
  ∀ id k receipt, s.retired.file id k = some receipt → receipt.readable = true →
    receipt.outgrown = false

theorem ReceiptFile.load_eq_some {receipt : ReceiptFile} :
    receipt.load = some attempts ↔ receipt.readable = true ∧ receipt.attempts = attempts := by
  unfold ReceiptFile.load
  by_cases hreadable : receipt.readable = true
  · simp [hreadable]
  · simp [hreadable]

/-- So the files in `synced/` are paired. -/
theorem TreeInv.syncedPaired (h : TreeInv w s) (hcurrent : RetiredCurrent s) :
    SyncedPaired w s := by
  intro id k file attempts hfile hreceipt
  obtain ⟨receipt, hthere, hload⟩ := Option.bind_eq_some_iff.mp hreceipt
  obtain ⟨hreadable, rfl⟩ := ReceiptFile.load_eq_some.mp hload
  exact (h.retired id k file receipt hfile hthere).paired (hcurrent id k receipt hthere hreadable)

/-- A place on the shelf of receipts that the file has taken. -/
theorem TreeInv.free_retired (h : TreeInv w s) (id : JStr) :
    s.retired.free id (s.synced.free id 0) = s.synced.free id 0 :=
  Shelf.free_eq (h.suffixes _ _ (Shelf.file_free _ _ _))

/-- The receipts in `synced/` after one was moved there. -/
theorem TreeInv.file_put (h : TreeInv w s) {receipt : ReceiptFile} {x : JStr} {k : ℕ} :
    (s.retired.put id (s.synced.free id 0) receipt).file x k =
      if (x, k) = (id, s.synced.free id 0) then some receipt else s.retired.file x k := by
  split_ifs with hplace
  · obtain ⟨rfl, rfl⟩ := Prod.mk.inj hplace
    have hself := Shelf.file_put_self (s := s.retired) (a := x) (k := s.synced.free x 0)
      (b := receipt)
    rwa [h.free_retired] at hself
  · exact Shelf.file_put_of_ne (by rwa [h.free_retired])

/-- A run over one session keeps the invariant. -/
theorem TreeInv.sync (h : TreeInv w s) (hfile : s.sessions id = some file)
    (hsync : Synced w s id file s') : TreeInv w s' := by
  cases hsync with
  | unrecorded hsessions hsynced hreceipts hretired hacked =>
    refine ⟨fun x k other receipt hother hreceipt => ?_, fun x other receipt hother hreceipt => ?_,
      -- neither tree changes, only what the store acknowledged grows
      fun x k hnone => ?_, fun x hnone => ?_, fun x other hother => ?_⟩
    · exact (h.retired x k other receipt (hsynced ▸ hother) (hretired ▸ hreceipt)).mono hacked
    · exact (h.live x other receipt (hsessions ▸ hother) (hreceipts ▸ hreceipt)).mono hacked
    · rw [hretired]
      exact h.suffixes x k (hsynced ▸ hnone)
    · rw [hreceipts]
      exact h.beside x (hsessions ▸ hnone)
    · exact h.owned x other (hsessions ▸ hother)
  | stays receipt hsessions hsynced hreceipts hretired hacked hcurrent hdescribes =>
    refine ⟨fun x k other receipt hother hreceipt => ?_, fun x other receipt hother hreceipt => ?_,
      fun x k hnone => ?_, fun x hnone => ?_, fun x other hother => ?_⟩
    -- the run's own receipt is the one beside `sessions/id.jsonl`; every other one was there before
    · exact (h.retired x k other receipt (hsynced ▸ hother) (hretired ▸ hreceipt)).mono hacked
    · rw [hsessions] at hother
      rw [hreceipts] at hreceipt
      by_cases hx : x = id
      · subst hx
        rw [Function.update_self] at hreceipt
        obtain rfl := Option.some.inj hreceipt
        obtain rfl := Option.some.inj (hfile.symm.trans hother)
        exact hdescribes
      · rw [Function.update_of_ne hx] at hreceipt
        exact (h.live x other _ hother hreceipt).mono hacked
    · rw [hretired]
      exact h.suffixes x k (hsynced ▸ hnone)
    · rw [hsessions] at hnone
      have hx : x ≠ id := by
        rintro rfl
        exact absurd (hfile.symm.trans hnone) nofun
      rw [hreceipts, Function.update_of_ne hx]
      exact h.beside x hnone
    · exact h.owned x other (hsessions ▸ hother)
  | moves receipt hsessions hsynced hreceipts hretired hacked hcurrent hdescribes =>
    refine ⟨fun x k other receipt hother hreceipt => ?_, fun x other receipt hother hreceipt => ?_,
      fun x k hnone => ?_, fun x hnone => ?_, fun x other hother => ?_⟩
    · -- the receipt gets the suffix of the file, which no receipt has
      rw [hsynced] at hother
      rw [hretired, h.file_put] at hreceipt
      split_ifs at hreceipt with hplace
      · obtain ⟨rfl, rfl⟩ := Prod.mk.inj hplace
        rw [Shelf.file_put_self] at hother
        obtain rfl := Option.some.inj hother
        obtain rfl := Option.some.inj hreceipt
        exact hdescribes
      · rw [Shelf.file_put_of_ne hplace] at hother
        exact (h.retired x k other _ hother hreceipt).mono hacked
    · rw [hsessions] at hother
      -- the session is in `sessions/` no more
      rw [hreceipts] at hreceipt
      by_cases hx : x = id
      · rw [hx, Function.update_self] at hother
        cases hother
      · rw [Function.update_of_ne hx] at hother hreceipt
        exact (h.live x other _ hother hreceipt).mono hacked
    · rw [hsynced] at hnone
      have hplace : (x, k) ≠ (id, s.synced.free id 0) := by
        intro hplace
        obtain ⟨rfl, rfl⟩ := Prod.mk.inj hplace
        rw [Shelf.file_put_self] at hnone
        cases hnone
      rw [hretired, h.file_put, if_neg hplace]
      exact h.suffixes x k ((Shelf.file_put_of_ne hplace).symm.trans hnone)
    · rw [hreceipts]
      by_cases hx : x = id
      · rw [hx, Function.update_self]
      · rw [hsessions, Function.update_of_ne hx] at hnone
        rw [Function.update_of_ne hx]
        exact h.beside x hnone
    · rw [hsessions] at hother
      by_cases hx : x = id
      · rw [hx, Function.update_self] at hother
        cases hother
      · rw [Function.update_of_ne hx] at hother
        exact h.owned x other hother

/-- The file of a session after a line was appended to one. -/
-- what lies under `synced/` is not touched by an append
theorem append_cases {line : RawLine} {x : JStr} (h : Function.update s.sessions id
      (some ((s.sessions id).getD [] ++ [line])) x = some file) :
    (x = id ∧ file = (s.sessions x).getD [] ++ [line]) ∨ (x ≠ id ∧ s.sessions x = some file) := by
  by_cases hx : x = id
  · subst hx
    rw [Function.update_self] at h
    exact Or.inl ⟨rfl, (Option.some.inj h).symm⟩
  · rw [Function.update_of_ne hx] at h
    exact Or.inr ⟨hx, h⟩

/-- An annotation adds no envelope. -/
theorem envelopes_append {old : SpoolFile} {line : RawLine} (hold : s.sessions id = some old)
    (hline : w.envelopes id [line] = []) :
    w.envelopes id ((s.sessions id).getD [] ++ [line]) = w.envelopes id old := by
  rw [hold]
  unfold SyncSetup.envelopes at hline ⊢
  rw [Option.getD_some, List.map_append, List.filterMap_append, hline, List.append_nil]

/-- The tree with one more line. -/
def appended (w : SyncSetup τ) (s : SpoolTree τ) (id : JStr) (line : RawLine) : SpoolTree τ :=
  { s with
    sessions := Function.update s.sessions id (some ((s.sessions id).getD [] ++ [line]))
    receipts := Function.update s.receipts id
      ((s.receipts id).map fun receipt => receipt.outgrow (w.envelopes id [line])) }

/-- An append keeps the invariant: a receipt in its way is outgrown. -/
theorem TreeInv.append (h : TreeInv w s) {line : RawLine} (howns : w.owns id line = true) :
    TreeInv w (s.appended w id line) := by
  refine ⟨fun x k file receipt hfile hreceipt => ?_, fun x file receipt hfile hreceipt => ?_,
    h.suffixes, fun x hnone => ?_, fun x file hfile => ?_⟩
  · exact (h.retired x k file receipt hfile hreceipt).mono fun _ he => he
  · unfold appended at hreceipt
    dsimp only at hreceipt
    rcases append_cases hfile with ⟨rfl, rfl⟩ | ⟨hx, hold⟩
    · -- the receipt is outgrown, if the line holds an envelope
      rw [Function.update_self] at hreceipt
      obtain ⟨before, hbefore, rfl⟩ := Option.map_eq_some_iff.mp hreceipt
      obtain ⟨old, hold⟩ : ∃ old, s.sessions x = some old := by
        cases hold : s.sessions x with
        | some old => exact ⟨old, rfl⟩
        | none => exact absurd (hbefore.symm.trans (h.beside x hold)) nofun
      refine ⟨fun hcurrent => ?_⟩
      obtain ⟨hcurrent, hline⟩ := (Bool.or_eq_false_iff).mp hcurrent
      have hline : w.envelopes x [line] = [] := by simpa using hline
      rw [envelopes_append hold hline]
      exact ((h.live x old before hold hbefore).paired hcurrent).mono fun _ he => he
    · rw [Function.update_of_ne hx] at hreceipt
      exact (h.live x file receipt hold hreceipt).mono fun _ he => he
  · unfold appended at hnone ⊢
    dsimp only at hnone ⊢
    by_cases hx : x = id
    · rw [hx, Function.update_self] at hnone
      cases hnone
    · rw [Function.update_of_ne hx] at hnone
      rw [Function.update_of_ne hx]
      exact h.beside x hnone
  · rcases append_cases hfile with ⟨rfl, rfl⟩ | ⟨-, hold⟩
    · intro l hl
      rcases List.mem_append.mp hl with hl | hl
      · cases hold : s.sessions x with
        -- a file that starts with this line has nothing before it
        | none =>
          rw [hold] at hl
          cases hl
        | some file =>
          rw [hold] at hl
          exact h.owned x file hold l hl
      · rwa [List.mem_singleton.mp hl]
    · exact h.owned x file hold

/-- A live receipt that becomes unreadable, or readable again, keeps its attempts. -/
theorem TreeInv.receipt (h : TreeInv w s) {receipt : ReceiptFile}
    (hthere : s.receipts id = some receipt) (readable : Bool) :
    TreeInv w { s with
      receipts := Function.update s.receipts id (some { receipt with readable := readable }) } := by
  refine ⟨fun x k file other hfile hother => ?_, fun x file other hfile hother => ?_,
    h.suffixes, fun x hnone => ?_, h.owned⟩
  · exact (h.retired x k file other hfile hother).mono fun _ he => he
  · dsimp only at hother
    by_cases hx : x = id
    · subst hx
      rw [Function.update_self] at hother
      obtain rfl := Option.some.inj hother
      exact ⟨fun hcurrent => ((h.live x file receipt hfile hthere).paired hcurrent).mono
        fun _ he => he⟩
    · rw [Function.update_of_ne hx] at hother
      exact (h.live x file other hfile hother).mono fun _ he => he
  · dsimp only
    have hx : x ≠ id := by
      rintro rfl
      exact absurd (hthere.symm.trans (h.beside x hnone)) nofun
    rw [Function.update_of_ne hx]
    exact h.beside x hnone

/-- So does a receipt in `synced/`. -/
theorem TreeInv.retiredReceipt (h : TreeInv w s) {k : ℕ} {receipt : ReceiptFile}
    (hthere : s.retired.file id k = some receipt) (readable : Bool) :
    TreeInv w { s with
      retired := s.retired.replace id k { receipt with readable := readable } } := by
  refine ⟨fun x n file other hfile hother => ?_, fun x file other hfile hother => ?_,
    fun x n hnone => ?_, h.beside, h.owned⟩
  · dsimp only at hother
    by_cases hplace : (x, n) = (id, k)
    · obtain ⟨rfl, rfl⟩ := Prod.mk.inj hplace
      rw [Shelf.file_replace_self] at hother
      obtain rfl := Option.some.inj hother
      exact ⟨fun hcurrent => ((h.retired x n file receipt hfile hthere).paired hcurrent).mono
        fun _ he => he⟩
    · rw [Shelf.file_replace_of_ne hplace] at hother
      exact (h.retired x n file other hfile hother).mono fun _ he => he
  · exact (h.live x file other hfile hother).mono fun _ he => he
  · dsimp only at hnone ⊢
    rw [Shelf.file_replace_of_ne]
    · exact h.suffixes x n hnone
    · -- the file of that place is there
      intro hplace
      obtain ⟨rfl, rfl⟩ := Prod.mk.inj hplace
      exact absurd (hthere.symm.trans (h.suffixes x n hnone)) nofun

/-- What a step does. -/
inductive Stepped (w : SyncSetup τ) (s : SpoolTree τ) : TreeStep → SpoolTree τ → Prop
  | append (id : JStr) (line : RawLine) (howns : w.owns id line = true) :
      Stepped w s (.append id line) (s.appended w id line)
  | run : Stepped w s .run { s with link := .opened s.link.store }
  | unread (id : JStr) (io : AttemptIO) (text : JStr) : Stepped w s (.sync id io text) s
  | sync (id : JStr) (io : AttemptIO) (text : JStr) (file : SpoolFile) (s' : SpoolTree τ)
      (hfile : s.sessions id = some file) (hsync : Synced w s id file s') :
      Stepped w s (.sync id io text) s'
  | receipt (id : JStr) (readable : Bool) (receipt : ReceiptFile)
      (hthere : s.receipts id = some receipt) :
      Stepped w s (.receipt id readable) { s with
        receipts := Function.update s.receipts id (some { receipt with readable := readable }) }
  | retiredReceipt (id : JStr) (k : ℕ) (readable : Bool) (receipt : ReceiptFile)
      (hthere : s.retired.file id k = some receipt) :
      Stepped w s (.retiredReceipt id k readable) { s with
        retired := s.retired.replace id k { receipt with readable := readable } }

/-- **A step** does what its label says, and a run keeps what the receipts describe. -/
theorem stepped {l : TreeStep} (h : TreeInv w s) (hstep : s.step w l = some s') :
    Stepped w s l s' := by
  cases l with
  | append id line =>
    simp only [SpoolTree.step] at hstep
    split_ifs at hstep with howns
    obtain rfl := Option.some.inj hstep
    exact .append id line howns
  | run =>
    obtain rfl := Option.some.inj hstep
    exact .run
  | sync id io text =>
    simp only [SpoolTree.step] at hstep
    split at hstep
    · cases hstep
    · next file hfile =>
      split at hstep
      · obtain rfl := Option.some.inj hstep
        exact .unread id io text
      · next session hread =>
        obtain rfl := Option.some.inj hstep
        exact .sync id io text file _ hfile (synced_syncOne s hread (h.owned id file hfile)
          (fun receipt hreceipt => h.live id file receipt hfile hreceipt) io text)
  | receipt id readable =>
    obtain ⟨receipt, hthere, rfl⟩ := Option.map_eq_some_iff.mp hstep
    exact .receipt id readable receipt hthere
  | retiredReceipt id k readable =>
    obtain ⟨receipt, hthere, rfl⟩ := Option.map_eq_some_iff.mp hstep
    exact .retiredReceipt id k readable receipt hthere

/-- **Every step** keeps the invariant. -/
theorem TreeInv.step {l : TreeStep} (h : TreeInv w s) (hstep : s.step w l = some s') :
    TreeInv w s' := by
  cases stepped h hstep with
  | append id line howns => exact h.append howns
  | run =>
    exact ⟨fun x k file receipt hfile hreceipt =>
        (h.retired x k file receipt hfile hreceipt).mono fun _ he => he,
      fun x file receipt hfile hreceipt =>
        (h.live x file receipt hfile hreceipt).mono fun _ he => he,
      h.suffixes, h.beside, h.owned⟩
  | unread => exact h
  | sync id io text file s' hfile hsync => exact h.sync hfile hsync
  | receipt id readable receipt hthere => exact h.receipt hthere readable
  | retiredReceipt id k readable receipt hthere => exact h.retiredReceipt hthere readable

theorem TreeInv.opened (w : SyncSetup τ) (t : τ) : TreeInv w (opened t) where
  retired _ _ _ _ hfile := absurd hfile nofun
  live _ _ _ hfile := absurd hfile nofun
  suffixes _ _ _ := rfl
  beside _ _ := rfl
  owned _ _ hfile := absurd hfile nofun

/-- **A step that repairs no outgrown receipt** keeps the readable ones current. -/
theorem RetiredCurrent.step {l : TreeStep} (hinv : TreeInv w s) (h : RetiredCurrent s)
    (hcurrent : NotOutgrown s l) (hstep : s.step w l = some s') : RetiredCurrent s' := by
  intro x n other hother hreadable
  cases stepped hinv hstep with
  | append id line howns => exact h x n other hother hreadable
  | run => exact h x n other hother hreadable
  | unread => exact h x n other hother hreadable
  | sync id io text file s' hfile hsync =>
    cases hsync with
    | unrecorded _ _ _ hretired _ => exact h x n other (hretired ▸ hother) hreadable
    | stays receipt _ _ _ hretired _ _ _ => exact h x n other (hretired ▸ hother) hreadable
    | moves receipt _ _ _ hretired _ hmoved _ =>
      rw [hretired, hinv.file_put] at hother
      split_ifs at hother
      · obtain rfl := Option.some.inj hother
        exact hmoved hreadable
      · exact h x n other hother hreadable
  | receipt id readable receipt hthere => exact h x n other hother hreadable
  | retiredReceipt id k readable receipt hthere =>
    dsimp only at hother
    by_cases hplace : (x, n) = (id, k)
    · obtain ⟨rfl, rfl⟩ := Prod.mk.inj hplace
      rw [Shelf.file_replace_self] at hother
      obtain rfl := Option.some.inj hother
      obtain rfl : readable = true := hreadable
      exact hcurrent receipt hthere
    · rw [Shelf.file_replace_of_ne hplace] at hother
      exact h x n other hother hreadable

/-! ### The live receipts -/

/-- What can be read in `sessions/` is not outgrown, and no file there without a receipt of its own
    is given one from `synced/`. -/
structure LiveCurrent (s : SpoolTree τ) : Prop where
  current : ∀ id receipt, s.receipts id = some receipt → receipt.readable = true →
    receipt.outgrown = false
  alone : ∀ id file, s.sessions id = some file → s.receipts id = none →
    (s.retired.file id 0).bind ReceiptFile.load = none

/-- So the files in `sessions/` are paired. -/
theorem TreeInv.receiptsPaired (h : TreeInv w s) (hretired : RetiredCurrent s)
    (hlive : LiveCurrent s) : ReceiptsPaired w s := by
  refine ⟨h.syncedPaired hretired, fun id file attempts hfile hreceipt => ?_⟩
  unfold liveReceipt at hreceipt
  cases hthere : s.receipts id with
  | none =>
    rw [hthere] at hreceipt
    exact absurd ((hlive.alone id file hfile hthere).symm.trans hreceipt) nofun
  | some receipt =>
    rw [hthere] at hreceipt
    obtain ⟨hreadable, rfl⟩ := ReceiptFile.load_eq_some.mp hreceipt
    exact (h.live id file receipt hfile hthere).paired (hlive.current id receipt hthere hreadable)

/-- An append to a session that no receipt is found for, or of a line without an envelope. -/
theorem LiveCurrent.append (h : LiveCurrent s) {line : RawLine}
    (hfree : Unclaimed w s (.append id line)) : LiveCurrent (s.appended w id line) := by
  refine ⟨fun x receipt hreceipt hreadable => ?_, fun x file hfile hnone => ?_⟩
  · unfold appended at hreceipt
    dsimp only at hreceipt
    -- the receipt of the session the line belongs to, and every other one
    by_cases hx : x = id
    · subst hx
      rw [Function.update_self] at hreceipt
      obtain ⟨before, hbefore, rfl⟩ := Option.map_eq_some_iff.mp hreceipt
      rcases hfree with hfound | ⟨-, hline⟩
      · -- a receipt that can be read would be found
        unfold liveReceipt ReceiptFile.load at hfound
        rw [hbefore] at hfound
        have hbefore : before.readable = true := hreadable
        dsimp only at hfound
        rw [if_pos hbefore] at hfound
        exact absurd hfound nofun
      · show (before.outgrown || !(w.envelopes x [line]).isEmpty) = false
        rw [h.current x before hbefore hreadable, hline]
        rfl
    · rw [Function.update_of_ne hx] at hreceipt
      exact h.current x receipt hreceipt hreadable
  · unfold appended at hnone
    dsimp only at hnone
    by_cases hx : x = id
    · subst hx
      rw [Function.update_self, Option.map_eq_none_iff] at hnone
      rcases hfree with hfound | ⟨hthere, -⟩
      · unfold liveReceipt at hfound
        rwa [hnone] at hfound
      · obtain ⟨old, hold⟩ := Option.isSome_iff_exists.mp hthere
        exact h.alone x old hold hnone
    · rw [Function.update_of_ne hx] at hnone
      rcases append_cases hfile with ⟨rfl, -⟩ | ⟨-, hold⟩
      · exact absurd rfl hx
      · exact h.alone x file hold hnone

/-- A run over one session keeps the live receipts current. -/
theorem LiveCurrent.sync (h : LiveCurrent s) (hinv : TreeInv w s)
    (hsync : Synced w s id file s') : LiveCurrent s' := by
  cases hsync with
  | unrecorded hsessions hsynced hreceipts hretired hacked =>
    refine ⟨fun x receipt hreceipt => h.current x receipt (hreceipts ▸ hreceipt),
      fun x other hother hnone => ?_⟩
    rw [hretired]
    exact h.alone x other (hsessions ▸ hother) (hreceipts ▸ hnone)
  | stays receipt hsessions hsynced hreceipts hretired hacked hcurrent hdescribes =>
    refine ⟨fun x other hother => ?_, fun x other hother hnone => ?_⟩
    · rw [hreceipts] at hother
      by_cases hx : x = id
      · subst hx
        rw [Function.update_self] at hother
        obtain rfl := Option.some.inj hother
        exact hcurrent
      · rw [Function.update_of_ne hx] at hother
        exact h.current x other hother
    · rw [hreceipts] at hnone
      by_cases hx : x = id
      · rw [hx, Function.update_self] at hnone
        cases hnone
      · rw [Function.update_of_ne hx] at hnone
        rw [hretired]
        exact h.alone x other (hsessions ▸ hother) hnone
  | moves receipt hsessions hsynced hreceipts hretired hacked hcurrent hdescribes =>
    refine ⟨fun x other hother => ?_, fun x other hother hnone => ?_⟩
    · rw [hreceipts] at hother
      by_cases hx : x = id
      · rw [hx, Function.update_self] at hother
        cases hother
      · rw [Function.update_of_ne hx] at hother
        exact h.current x other hother
    · -- the file that was moved is no longer in `sessions/`
      rw [hsessions] at hother
      by_cases hx : x = id
      · rw [hx, Function.update_self] at hother
        cases hother
      · rw [Function.update_of_ne hx] at hother
        rw [hreceipts, Function.update_of_ne hx] at hnone
        rw [hretired, hinv.file_put, if_neg fun hplace => hx (Prod.mk.inj hplace).1]
        exact h.alone x other hother hnone

/-- **A guarded step** keeps the live receipts current. -/
theorem LiveCurrent.step {l : TreeStep} (hinv : TreeInv w s) (h : LiveCurrent s)
    (hfree : Unclaimed w s l) (hstep : s.step w l = some s') : LiveCurrent s' := by
  cases stepped hinv hstep with
  | append id line howns => exact h.append hfree
  | run => exact ⟨h.current, h.alone⟩
  | unread => exact h
  | sync id io text file s' hfile hsync => exact h.sync hinv hsync
  | receipt id readable receipt hthere =>
    refine ⟨fun x other hother hreadable => ?_, fun x file hfile hnone => ?_⟩
    -- a receipt that a repair makes readable is still current by the guard
    · dsimp only at hother
      by_cases hx : x = id
      · subst hx
        rw [Function.update_self] at hother
        obtain rfl := Option.some.inj hother
        obtain rfl : readable = true := hreadable
        exact hfree receipt hthere
      · rw [Function.update_of_ne hx] at hother
        exact h.current x other hother hreadable
    · dsimp only at hnone
      by_cases hx : x = id
      · rw [hx, Function.update_self] at hnone
        cases hnone
      · rw [Function.update_of_ne hx] at hnone
        exact h.alone x file hfile hnone
  | retiredReceipt id k readable receipt hthere =>
    -- the first suffix is where the next export looks
    refine ⟨h.current, fun x file hfile hnone => ?_⟩
    dsimp only
    by_cases hplace : (x, 0) = (id, k)
    · obtain ⟨rfl, rfl⟩ := Prod.mk.inj hplace
      rw [Shelf.file_replace_self]
      cases readable with
      | false => rfl
      | true => exact absurd (hfile.symm.trans (hfree.2 rfl hnone)) nofun
    · rw [Shelf.file_replace_of_ne hplace]
      exact h.alone x file hfile hnone

/-- The condition on the receipts in `synced/` alone. -/
theorem Unclaimed.notOutgrown {l : TreeStep} (h : Unclaimed w s l) : NotOutgrown s l := by
  cases l with
  | retiredReceipt id k readable =>
    cases readable with
    | false => trivial
    | true => exact h.1
  | _ => trivial

end

/-- **Files in `synced/` are paired** with their own receipts, in every run that repairs no receipt
    there that its file had outgrown. -/
theorem synced_paired (w : SyncSetup τ) (t : τ) (steps : List TreeStep)
    (h : Guarded (step w) NotOutgrown (opened t) steps) :
    Throughout (step w) (SyncedPaired w) (opened t) steps := by
  have hstep : ∀ s l s', TreeInv w s ∧ RetiredCurrent s → NotOutgrown s l →
      step w s l = some s' → TreeInv w s' ∧ RetiredCurrent s' :=
    fun _ _ _ hinv hcurrent hstep =>
      ⟨hinv.1.step hstep, RetiredCurrent.step hinv.1 hinv.2 hcurrent hstep⟩
  exact (throughout_of_guarded hstep ⟨.opened w t, nofun⟩ h).mono
    fun _ hinv => hinv.1.syncedPaired hinv.2

/-- **Every exhibit is paired** with its own receipt, in every run that appends nothing to a session
    that a receipt is found for, and repairs no receipt that its file has outgrown. -/
theorem receipts_paired (w : SyncSetup τ) (t : τ) (steps : List TreeStep)
    (h : Guarded (step w) (Unclaimed w) (opened t) steps) :
    Throughout (step w) (ReceiptsPaired w) (opened t) steps := by
  have hstep : ∀ s l s', TreeInv w s ∧ RetiredCurrent s ∧ LiveCurrent s → Unclaimed w s l →
      step w s l = some s' → TreeInv w s' ∧ RetiredCurrent s' ∧ LiveCurrent s' :=
    fun _ _ _ hinv hfree hstep => ⟨hinv.1.step hstep,
      RetiredCurrent.step hinv.1 hinv.2.1 hfree.notOutgrown hstep,
      hinv.2.2.step hinv.1 hfree hstep⟩
  have hopened : TreeInv w (opened t) ∧ RetiredCurrent (opened t) ∧ LiveCurrent (opened t) :=
    ⟨.opened w t, nofun, nofun, nofun⟩
  exact (throughout_of_guarded hstep hopened h).mono
    fun _ hinv => hinv.1.receiptsPaired hinv.2.1 hinv.2.2

end SpoolTree

/-! ### The same session again -/

/-- A session is opened and synced. -/
def openedAndSynced : List TreeStep :=
  [.append exampleSession.text (rawLine openedRecord),
    .sync exampleSession.text exampleAttemptIO ""]

/-- And goes on. -/
def spoolingAgain : List TreeStep :=
  openedAndSynced ++ [.append exampleSession.text (rawLine closedRecord)]

/-- The file in `synced/` has its receipt. -/
theorem receipts_paired_openedAndSynced :
    Throughout (SpoolTree.step exampleSetup) (SpoolTree.ReceiptsPaired exampleSetup)
        (.opened (1, [])) openedAndSynced ∧
      (run (SpoolTree.step exampleSetup) (.opened (1, [])) openedAndSynced).map (fun s =>
        (s.syncedReceipt exampleSession.text 0).map List.length) = some (some 1) := by
  refine ⟨?_, by decide +kernel⟩
  apply SpoolTree.receipts_paired
  intro s hs
  exact ⟨Or.inl rfl, fun _ _ => ⟨trivial, trivial⟩⟩

/-- The receipt in `synced/` is damaged, and repaired. -/
def damagedAndRepaired : List TreeStep :=
  openedAndSynced ++ [.retiredReceipt exampleSession.text 0 false,
    .retiredReceipt exampleSession.text 0 true]

/-- The file in `synced/` has the same receipt after it was damaged and repaired. -/
theorem synced_paired_damagedAndRepaired :
    Throughout (SpoolTree.step exampleSetup) (SpoolTree.SyncedPaired exampleSetup)
        (.opened (1, [])) damagedAndRepaired ∧
      (run (SpoolTree.step exampleSetup) (.opened (1, [])) damagedAndRepaired).map (fun s =>
        (s.syncedReceipt exampleSession.text 0).map List.length) = some (some 1) :=
  ⟨SpoolTree.synced_paired exampleSetup (1, []) damagedAndRepaired (by decide +kernel),
    by decide +kernel⟩

/-- The new file is exported with the receipt of the old one. -/
theorem not_receipts_paired_spoolingAgain :
    ¬ Throughout (SpoolTree.step exampleSetup) (SpoolTree.ReceiptsPaired exampleSetup)
      (.opened (1, [])) spoolingAgain := by
  have hids : (run (SpoolTree.step exampleSetup) (.opened (1, [])) spoolingAgain).map (fun s =>
      ((s.sessions exampleSession.text).map fun f =>
          eventTexts (exampleSetup.envelopes exampleSession.text f),
        (s.liveReceipt exampleSession.text).map fun attempts =>
          attempts.map fun a => eventTexts a.envelopes)) =
      some (some [exampleRecord.text], some [[exampleEvent.text]]) := by
    decide +kernel
  obtain ⟨s, hrun, hids⟩ := Option.map_eq_some_iff.mp hids
  obtain ⟨hfile, hreceipt⟩ := Prod.mk.inj hids
  obtain ⟨file, hfile, htexts⟩ := Option.map_eq_some_iff.mp hfile
  obtain ⟨attempts, hreceipt, hattempts⟩ := Option.map_eq_some_iff.mp hreceipt
  intro h
  obtain ⟨a, ha, hsame⟩ := ((h.last hrun).live _ _ _ hfile hreceipt).own
  have hmem : eventTexts a.envelopes ∈ [[exampleEvent.text]] :=
    hattempts ▸ List.mem_map_of_mem ha
  rw [hsame, htexts] at hmem
  exact absurd hmem (by decide)

end RootSign
