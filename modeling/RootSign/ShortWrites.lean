import RootSign.JsonlAgreement
import RootSign.Sdk.JsonlBytes

namespace RootSign

open RootSign.Python
open RootSign.ByteState (textOf textOf_append)

/-!
# Short writes

A call of `JsonlIngestClient.handle` that is answered accepted should have left its record on a line
of its own, whatever `os.write` does to it and to the calls around it.

* `OwnLine` — a line of a file of bytes, with its line break;
* `ByteRun`, `LinesStand` — a run of calls, and what its accepted calls should have left;
* `handle_appends` — one call on files of whole lines;
* `lines_stand` — they have, in every run in which `os.write` writes everything or raises.
-/

/-! ### Runs -/

/-- The bytes are a line of the file: they start it or follow a line break, a line break follows
    them, and no byte of them breaks a line. -/
structure OwnLine (file line : List UInt8) : Prop where
  found : ∃ front rest, file = front ++ line ++ lineBreak :: rest ∧
    (front = [] ∨ front.getLast? = some lineBreak)
  unbroken : ∀ b ∈ line, printableByte b = true

/-- A call, with what `os.write` does to it. -/
structure ByteCall where
  io : ByteIO
  envelope : Dict

/-- The client after some calls, and the records of those that were answered accepted. -/
structure ByteRun where
  state : ByteState
  accepted : List (Option (JStr × Dict))

namespace ByteRun

/-- The call was answered accepted. -/
def accepts : Except JsonlError IngestResponse → Bool
  | .ok response => response.isAccepted
  | .error _ => false

def init : ByteRun where
  state := ByteState.init
  accepted := []

/-- One call. -/
def call (rt : Runtime) (w : JsonLimits) (r : ByteRun) (c : ByteCall) : ByteRun :=
  let result := r.state.handle rt w c.io c.envelope
  { state := result.2
    accepted :=
      if accepts result.1 then r.accepted ++ [r.state.recordOf rt c.io c.envelope]
      else r.accepted }

/-- Some calls, one after the other. -/
def calls (rt : Runtime) (w : JsonLimits) (cs : List ByteCall) : ByteRun :=
  cs.foldl (call rt w) init

/-- Every call that was answered accepted had a record, and a line of its session's file is read as
    that record; `read` is `json.loads` on the bytes of a line. -/
def LinesStand (read : List UInt8 → Option Json) (r : ByteRun) : Prop :=
  ∀ entry ∈ r.accepted, ∃ session record, entry = some (session, record) ∧
    ∃ line, OwnLine (r.state.files session) line ∧ read line = some (.obj record)

end ByteRun

/-! ### Files of whole lines -/

/-- Bytes of whole lines end in a line break. -/
theorem textOf_getLast (lines : List Dict) :
    textOf lines = [] ∨ (textOf lines).getLast? = some lineBreak := by
  induction lines using List.reverseRecOn with
  | nil => exact Or.inl rfl
  | append_singleton lines record _ =>
    refine Or.inr ?_
    rw [textOf_append, ← List.append_assoc, List.getLast?_append]
    rfl

/-- Each of the lines stands on its own. -/
theorem ownLine_textOf {lines : List Dict} {record : Dict} (h : record ∈ lines) :
    OwnLine (textOf lines) (recordText record) := by
  obtain ⟨front, rest, rfl⟩ := List.append_of_mem h
  refine ⟨⟨textOf front, textOf rest, ?_, textOf_getLast front⟩, printable_recordText record⟩
  show textOf _ = _
  unfold textOf
  rw [List.flatMap_append, List.flatMap_cons]
  simp

/-- The files hold whole lines. -/
def WholeLines (s : ByteState) (lines : JStr → List Dict) : Prop :=
  ∀ session, s.files session = textOf (lines session)

/-- What a call on files of whole lines leaves: it has added no line and was not answered accepted,
    or it has added the line of its record. -/
inductive Left (rt : Runtime) (s : ByteState) (c : ByteCall) (lines : JStr → List Dict)
    (answer : Except JsonlError IngestResponse) (s' : ByteState) : Prop where
  | nothing (hfiles : WholeLines s' lines) (hanswer : ByteRun.accepts answer = false)
  | added (session : JStr) (record : Dict)
      (hrecord : s.recordOf rt c.io c.envelope = some (session, record))
      (hfiles : WholeLines s' (Function.update lines session (lines session ++ [record])))

variable {rt : Runtime} {w : JsonLimits} {s : ByteState} {c : ByteCall} {lines : JStr → List Dict}

/-- An append that writes everything or raises adds the whole line or nothing. -/
theorem appendLine_whole (h : WholeLines s lines) (hwhole : c.io.Whole) (session : JStr)
    (record : Dict) (do_fsync : Bool) :
    (WholeLines (s.appendLine w c.io session record do_fsync).2 lines ∧
        ∃ e, (s.appendLine w c.io session record do_fsync).1 = .error e) ∨
      WholeLines (s.appendLine w c.io session record do_fsync).2
        (Function.update lines session (lines session ++ [record])) := by
  unfold ByteState.appendLine
  split
  -- the write raised, so nothing of the line is in the file
  · exact Or.inl ⟨h, _, rfl⟩
  · dsimp only
    split
    · exact Or.inl ⟨h, _, rfl⟩
    next written hwrite =>
    have hall := hwhole _ _ hwrite
    subst hall
    right
    -- `os.write` took all of it: the file is the text of its lines again
    have hfiles : WholeLines
        { s with
          files := Function.update s.files session
            (s.files session ++ (recordText record ++ [lineBreak])) }
        (Function.update lines session (lines session ++ [record])) := by
      intro other
      by_cases hother : other = session
      · subst hother
        show Function.update _ _ _ _ = _
        rw [Function.update_self, Function.update_self, h, textOf_append]
      · show Function.update _ _ _ _ = _
        rw [Function.update_of_ne hother, Function.update_of_ne hother]
        exact h other
    rw [List.take_length]
    split
    · exact hfiles
    · exact hfiles

/-- Recording a line adds it whole, or nothing, and then nothing is answered accepted. -/
theorem record_whole (h : WholeLines s lines) (hwhole : c.io.Whole) (head : JsonlState.Head)
    (response : IngestResponse) (line : Dict) :
    (WholeLines (s.record w c.io head response line).2 lines ∧
        ByteRun.accepts (s.record w c.io head response line).1 = false) ∨
      WholeLines (s.record w c.io head response line).2
        (Function.update lines head.session_id (lines head.session_id ++ [line])) := by
  unfold ByteState.record
  -- the name of the mode is checked before anything is opened
  split
  · exact Or.inl ⟨h, rfl⟩
  next do_fsync _ =>
  rcases appendLine_whole (w := w) h hwhole head.session_id line do_fsync with
    ⟨hfiles, e, herror⟩ | hfiles
  · split
    · next hraises =>
      rw [hraises] at hfiles
      exact Or.inl ⟨hfiles, rfl⟩
    · next hreturns =>
      rw [hreturns] at herror
      exact absurd herror (by simp)
  -- the line is in; the cache may still raise
  · right
    split
    · next hraises =>
      rw [hraises] at hfiles
      exact hfiles
    · next hreturns =>
      rw [hreturns] at hfiles
      split
      · exact hfiles
      · exact hfiles

/-- **One call** on files of whole lines. -/
theorem handle_whole (h : WholeLines s lines) (hwhole : c.io.Whole) :
    Left rt s c lines (s.handle rt w c.io c.envelope).1 (s.handle rt w c.io c.envelope).2 := by
  unfold ByteState.handle
  split
  · exact .nothing h rfl
  next head hhead =>
  split
  · exact .nothing h rfl
  · exact .nothing h (IngestResponse.isAccepted_rejected _ _ _ _)
  · next store _ =>
    split
    · exact .nothing h rfl
    · next response line chains hbuild =>
      have hstart : WholeLines { s with idempotency := store, chains := chains } lines := h
      rcases record_whole (w := w) hstart hwhole head response line with ⟨hfiles, hno⟩ | hfiles
      · exact .nothing hfiles hno
      · refine .added head.session_id line ?_ hfiles
        unfold ByteState.recordOf
        simp only [hhead, hbuild]

/-- What holds of a run: the files hold whole lines, and those of the accepted calls are there. -/
def ByteRun.Inv (r : ByteRun) : Prop :=
  ∃ lines, WholeLines r.state lines ∧ ∀ entry ∈ r.accepted, ∃ session record,
    entry = some (session, record) ∧ record ∈ lines session

theorem ByteRun.Inv.call {r : ByteRun} (h : r.Inv) (hwhole : c.io.Whole) : (r.call rt w c).Inv := by
  obtain ⟨lines, hlines, hentries⟩ := h
  have hleft : Left rt r.state c lines (r.state.handle rt w c.io c.envelope).1
      (r.state.handle rt w c.io c.envelope).2 := handle_whole hlines hwhole
  unfold ByteRun.call
  cases hleft with
  | nothing hfiles hno =>
    refine ⟨lines, hfiles, ?_⟩
    -- the file is as it was, so every line answered for is still there
    dsimp only
    rw [if_neg (by simp [hno])]
    exact hentries
  | added session record hrecord hfiles =>
    -- what was answered for before is in the file still, the new line is at its end
    refine ⟨_, hfiles, fun entry hentry => ?_⟩
    have hkept : ∀ entry ∈ r.accepted, ∃ session' record', entry = some (session', record') ∧
        record' ∈ Function.update lines session (lines session ++ [record]) session' := by
      intro entry hentry
      obtain ⟨session', record', heq, hmem⟩ := hentries entry hentry
      refine ⟨session', record', heq, ?_⟩
      by_cases hsession : session' = session
      · subst hsession
        rw [Function.update_self]
        exact List.mem_append_left _ hmem
      · rw [Function.update_of_ne hsession]
        exact hmem
    dsimp only at hentry
    split at hentry
    · rcases List.mem_append.mp hentry with hentry | hentry
      · exact hkept entry hentry
      · refine ⟨session, record, (List.mem_singleton.mp hentry).trans hrecord, ?_⟩
        rw [Function.update_self]
        exact List.mem_append_right _ (List.mem_singleton_self _)
    · exact hkept entry hentry

theorem ByteRun.inv_calls {cs : List ByteCall} (h : ∀ c ∈ cs, c.io.Whole) :
    (ByteRun.calls rt w cs).Inv := by
  have hstart : ByteRun.init.Inv :=
    ⟨fun _ => [], fun _ => rfl, fun entry hentry => absurd hentry List.not_mem_nil⟩
  unfold ByteRun.calls
  generalize ByteRun.init = r at hstart
  induction cs generalizing r with
  | nil => exact hstart
  | cons c rest ih =>
    exact ih (fun c hc => h c (List.mem_cons_of_mem _ hc)) _
      (hstart.call (h c List.mem_cons_self))

/-- **Accepted calls and the file.**  In every run in which `os.write` writes everything or raises,
    every call that was answered accepted has its record on a line of its own. -/
theorem lines_stand (rt : Runtime) (w : JsonLimits) (read : List UInt8 → Option Json)
    (cs : List ByteCall) (hwhole : ∀ c ∈ cs, c.io.Whole)
    (hread : ∀ session record, some (session, record) ∈ (ByteRun.calls rt w cs).accepted →
      read (recordText record) = some (.obj record)) :
    (ByteRun.calls rt w cs).LinesStand read := by
  have hinv : (ByteRun.calls rt w cs).Inv := ByteRun.inv_calls hwhole
  obtain ⟨lines, hlines, hentries⟩ := hinv
  intro entry hentry
  obtain ⟨session, record, rfl, hmem⟩ := hentries entry hentry
  refine ⟨session, record, rfl, recordText record, ?_, hread session record hentry⟩
  rw [hlines session]
  exact ownLine_textOf hmem

/-! ### The line break that is not written -/

/-- One call from the start that is answered accepted. -/
theorem ByteRun.accepted_one
    (h : ByteRun.accepts (ByteState.init.handle rt w c.io c.envelope).1 = true) :
    (ByteRun.calls rt w [c]).accepted = [ByteState.init.recordOf rt c.io c.envelope] := by
  show (if ByteRun.accepts (ByteState.init.handle rt w c.io c.envelope).1 then _ else _) = _
  rw [if_pos h]
  exact List.nil_append _

theorem ByteRun.files_one (rt : Runtime) (w : JsonLimits) (c : ByteCall) :
    (ByteRun.calls rt w [c]).state.files = (ByteState.init.handle rt w c.io c.envelope).2.files :=
  rfl

/-- A session is opened. -/
def shortOpening : Dict :=
  Dict.ofFields
    [("schema_version", .str "1.1"), ("event_type", .str "SESSION_OPEN"),
     ("event_id", .str exampleEvent.text), ("emitted_at", .str "2026-05-01T12:00:00+00:00"),
     ("session_id", .str exampleSession.text)]

/-- A call at noon, with so many bytes left out by `os.write`. -/
def openShort (missing : ℕ) : ByteCall where
  io :=
    { fresh := exampleRecord
      now_parse := mayNoon
      now_get := mayNoon
      now_evict := mayNoon
      now_set := mayNoon
      write := fun length => some (length - missing)
      write_le := fun _ _ h => Option.some.inj h ▸ Nat.sub_le _ _
      fsync_ok := true
      close_ok := true }
  envelope := shortOpening

/-- What the record of the call is read as. -/
def readOpen (_ : List UInt8) : Option Json :=
  (ByteState.init.recordOf twoDates (openShort 0).io shortOpening).map fun p => .obj p.2

/-- The call is answered accepted, however much is written. -/
theorem accepts_openShort : ∀ missing ∈ [0, 1],
    ByteRun.accepts (ByteState.init.handle twoDates defaultLimits (openShort missing).io
      shortOpening).1 =
      true := by
  decide +kernel

theorem accepted_openShort {missing : ℕ} (h : missing ∈ [0, 1]) :
    (ByteRun.calls twoDates defaultLimits [openShort missing]).accepted =
      [ByteState.init.recordOf twoDates (openShort missing).io shortOpening] :=
  ByteRun.accepted_one (accepts_openShort missing h)

/-- A whole line stands. -/
theorem lines_stand_open :
    (ByteRun.calls twoDates defaultLimits [openShort 0]).accepted.length = 1 ∧
      (ByteRun.calls twoDates defaultLimits [openShort 0]).LinesStand readOpen := by
  have hone := accepted_openShort (show 0 ∈ [0, 1] by simp)
  refine ⟨by rw [hone]; rfl, lines_stand _ _ _ _ (fun c hc => ?_) fun session record h => ?_⟩
  · rw [List.mem_singleton.mp hc]
    exact fun length written h => (Option.some.inj h).symm
  · rw [hone, List.mem_singleton] at h
    unfold readOpen
    rw [← h]
    rfl

/-- Without its last byte the line has no line break, and the call is answered accepted. -/
theorem not_lines_stand_open :
    ¬ (ByteRun.calls twoDates defaultLimits [openShort 1]).LinesStand readOpen := by
  have hsession : (ByteState.init.recordOf twoDates (openShort 1).io shortOpening).map Prod.fst =
      some exampleSession.text := by decide +kernel
  have hunbroken : ((ByteState.init.handle twoDates defaultLimits (openShort 1).io
      (openShort 1).envelope).2.files exampleSession.text).all (· != lineBreak) = true := by
    decide +kernel
  intro h
  have hentry : ByteState.init.recordOf twoDates (openShort 1).io shortOpening ∈
      (ByteRun.calls twoDates defaultLimits [openShort 1]).accepted := by
    rw [accepted_openShort (by simp)]
    exact List.mem_singleton_self _
  obtain ⟨session, record, heq, line, ⟨⟨front, rest, hfile, -⟩, -⟩, -⟩ := h _ hentry
  rw [heq, Option.map_some, Option.some.injEq] at hsession
  dsimp only at hsession
  subst hsession
  rw [ByteRun.files_one] at hfile
  rw [hfile, List.all_append, List.all_cons] at hunbroken
  simp at hunbroken

end RootSign
