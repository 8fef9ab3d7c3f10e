import RootSign.CloudCalls

namespace RootSign

open RootSign.Lib RootSign.Python

/-!
# Lines and envelopes

What a call of the cloud client leaves in the spool, line by line, and what the reader of the spool
makes of a line.

* `LineFrom` — the line that an envelope is written as;
* `handleAlone_lines` — a call adds lines for the envelopes it has sealed, and annotations;
* `readSpoolSession_envelopes` — the envelopes read are those of the lines, in their order.
-/

/-- The `decision_id` in an envelope's payload. -/
def decisionIdOf (envelope : Dict) : Json :=
  match envelope.get "payload" with
  | .obj payload => Dict.get payload "decision_id"
  | _ => .null

/-- A line that an envelope is written as, or the tally of losses after a session. -/
inductive LineFrom (rt : Runtime) (envelope line : Dict) : Prop where
  | action (event_id : Uuid)
      (hkind : (envelope.get "event_type").pyEq (.str "ACTION_RECORD") = true)
      (hid : rt.toUuid (envelope.get "event_id") = .ok event_id)
      (event_type : line.get "event_type" = .str "ACTION_RECORD")
      (id : line.get "event_id" = .str event_id.text)
      (decision_id : line.get "decision_id" = decisionIdOf envelope)
      (self_hash : Json.isNone (line.get "self_hash") = false)
  | other (hkind : (envelope.get "event_type").pyEq (.str "ACTION_RECORD") = false)
      (fields : ∀ key, key ≠ "decision_id" → key ≠ "approval_id" → line.get key = envelope.get key)
  | tally (event_type : line.get "event_type" = .str "RECORD_LOSS")
      (no_event_id : ¬ line.has "event_id")

section

variable {rt : Runtime} {cfg : HttpConfig} {envelope : Dict} {session_id : JStr}

/-- What an action is built from. -/
theorem buildAction_ok {fresh : Uuid} {chains chains' : ChainRegistry} {event_id : Uuid}
    {response : IngestResponse} {line : Dict}
    (h : buildAction rt fresh chains envelope event_id session_id =
      (.ok (response, line), chains')) :
    ∃ payload sealed tool_name input_hash timestamp, payloadOf envelope = .ok payload ∧
      chains.sealPayload rt fresh (.str session_id) payload = (.ok sealed, chains') ∧
      response = .accepted event_id (some sealed.action_id) (some sealed.sequence_number)
        (some sealed.self_hash) ∧
      line = flatRecord envelope payload event_id session_id tool_name input_hash timestamp
        sealed := by
  unfold buildAction at h
  -- the payload is read, then sealed, then the line is put together; each may raise
  cases hpayload : payloadOf envelope with
  | error e =>
    rw [hpayload] at h
    exact absurd (congrArg Prod.fst h) (by simp)
  | ok payload =>
    rw [hpayload] at h
    dsimp only at h
    cases hseal : chains.sealPayload rt fresh (.str session_id) payload with
    | mk result chains₁ =>
      rw [hseal] at h
      cases result with
      | error e => exact absurd (congrArg Prod.fst h) (by simp)
      | ok sealed =>
        obtain ⟨hbuilt, rfl⟩ := Prod.mk.inj h
        obtain ⟨tool_name, -, hbuilt⟩ := bind_eq_ok.mp hbuilt
        obtain ⟨input_hash, -, hbuilt⟩ := bind_eq_ok.mp hbuilt
        obtain ⟨timestamp, -, hbuilt⟩ := bind_eq_ok.mp hbuilt
        obtain ⟨rfl, rfl⟩ := Prod.mk.inj (Except.ok.inj hbuilt)
        exact ⟨payload, sealed, tool_name, input_hash, timestamp, rfl, hseal, rfl, rfl⟩

/-- The payload that is written has the same id. -/
theorem decisionIdOf_payload {payload : Dict} (h : payloadOf envelope = .ok payload) :
    payload.get "decision_id" = decisionIdOf envelope := by
  unfold payloadOf at h
  unfold decisionIdOf
  split at h
  case h_1 fields _ hpayload =>
    obtain rfl := Except.ok.inj h
    rw [hpayload]
  case h_2 => exact absurd h (by simp)
  case h_3 hfalsy =>
    obtain rfl := Except.ok.inj h
    cases hpayload : envelope.get "payload" with
    | obj fields =>
      rw [hpayload] at hfalsy
      cases fields with
      | nil => rfl
      | cons p rest => exact absurd hfalsy (by simp [Json.truthy])
    | _ => rfl

/-- **One call on the spool.**  What was written stays, and one line at most is new. -/
theorem handle_lines (s : JsonlState) (io : CallIO) (envelope : Dict) (session_id : JStr) :
    (∀ line ∈ s.files session_id, line ∈ (s.handle rt io envelope).2.files session_id) ∧
      ∀ line ∈ (s.handle rt io envelope).2.files session_id,
        line ∈ s.files session_id ∨ LineFrom rt envelope line := by
  -- the files change only if the build succeeded and the append landed, and in one session
  rcases JsonlState.handle_effect rt io s envelope with
    ⟨-, hfiles⟩ | ⟨head, built, chains, hhead, hkind, -, hfiles | ⟨response, new, hbuilt, hfiles⟩⟩
  · rw [hfiles]
    exact ⟨fun line hline => hline, fun line hline => Or.inl hline⟩
  · rw [hfiles]
    exact ⟨fun line hline => hline, fun line hline => Or.inl hline⟩
  rw [hfiles]
  by_cases hsession : session_id = head.session_id
  swap
  · rw [Function.update_of_ne hsession]
    exact ⟨fun line hline => hline, fun line hline => Or.inl hline⟩
  subst hsession
  rw [Function.update_self]
  refine ⟨fun line hline => List.mem_append_left _ hline, fun line hline =>
    (List.mem_append.mp hline).imp_right fun hnew => ?_⟩
  obtain rfl := List.mem_singleton.mp hnew
  obtain ⟨hid, htype, -⟩ := JsonlState.readHead_ok hhead
  split_ifs at hkind with haction
  · -- the flat line of an action
    obtain ⟨payload, sealed, tool_name, input_hash, timestamp, hpayload, -, -, rfl⟩ :=
      buildAction_ok (hkind.symm.trans (by rw [hbuilt]))
    refine .action head.event_id (htype ▸ haction) hid ?_ ?_ ?_ ?_
    · simp [flatRecord, Dict.get_ofFields, List.lookup_cons]
    · simp [flatRecord, Dict.get_ofFields, List.lookup_cons]
    · rw [← decisionIdOf_payload hpayload]
      simp [flatRecord, Dict.get_ofFields, List.lookup_cons]
    · simp [flatRecord, Dict.get_ofFields, List.lookup_cons, Json.isNone]
  · obtain ⟨hkind, -⟩ := Prod.mk.inj hkind
    rw [hbuilt, Except.ok.injEq] at hkind
    have hget := @buildNonAction_get io.fresh envelope head.event_id head.event_type
    rw [← hkind] at hget
    exact .other (htype ▸ Bool.eq_false_iff.mpr haction) fun key => hget

/-- Where a write fails no line is added. -/
theorem onSpoolWriteFailure_files (io : SpoolIO) (s : HttpState) (envelope : Dict) :
    (s.onSpoolWriteFailure rt cfg io envelope).2.spool = s.spool := by
  unfold HttpState.onSpoolWriteFailure
  cases isControlRecord envelope with
  | error e => rfl
  | ok control =>
    cases control with
    | true => rfl
    | false =>
      cases payloadOf envelope with
      | error e => rfl
      | ok payload =>
        dsimp only
        split <;> rfl

theorem spoolOne_files (io : SpoolIO) (s : HttpState) (envelope : Dict) :
    (s.spoolOne rt cfg io envelope).2.spool = (s.spool.handle rt io.toCallIO envelope).2 := by
  unfold HttpState.spoolOne
  cases s.spool.handle rt io.toCallIO envelope with
  | mk result spool =>
    cases result with
    | ok response => rfl
    | error e =>
      cases e with
      | osError => exact onSpoolWriteFailure_files io { s with spool := spool } envelope
      | _ => rfl

/-- The tally after a session is an annotation. -/
theorem flushLedger_lines (rt : Runtime) (io : SpoolIO) (s : HttpState) (envelope : Dict)
    (id : JStr) :
    ∀ line ∈ (s.flushLedger io id).spool.files session_id,
      line ∈ s.spool.files session_id ∨ LineFrom rt envelope line := by
  unfold HttpState.flushLedger
  cases s.ledgers id with
  | none => exact fun line hline => Or.inl hline
  | some ledger =>
    dsimp only
    split_ifs
    · exact fun line hline => Or.inl hline
    · intro line hline
      have hline : line ∈ Function.update s.spool.files id
          (s.spool.files id ++ [ledger.asRecord io.now_annotated]) session_id := hline
      by_cases hsession : session_id = id
      · subst hsession
        rw [Function.update_self] at hline
        refine (List.mem_append.mp hline).imp_right fun hnew => ?_
        obtain rfl := List.mem_singleton.mp hnew
        apply LineFrom.tally
        · simp [LossLedger.asRecord, Dict.get_ofFields]
        · exact fun hid => absurd (Dict.has_ofFields.mp hid) (by simp)
      · rw [Function.update_of_ne hsession] at hline
        exact Or.inl hline

/-- Writing a batch adds lines for its envelopes. -/
theorem writeToSpool_lines (s : HttpState) (io : ℕ → SpoolIO) (batch : List (Dict × ℕ)) :
    ∀ line ∈ (s.writeToSpool rt cfg io batch).2.spool.files session_id,
      line ∈ s.spool.files session_id ∨ ∃ p ∈ batch, LineFrom rt p.1 line := by
  induction batch generalizing s with
  | nil => exact fun line hline => Or.inl hline
  | cons p rest ih =>
    obtain ⟨envelope, slot⟩ := p
    obtain ⟨-, hhandle⟩ := @handle_lines rt s.spool (io slot).1 envelope session_id
    have hfiles := @spoolOne_files rt cfg (io slot) s envelope
    unfold HttpState.writeToSpool
    generalize s.spoolOne rt cfg (io slot) envelope = spooled at hfiles
    obtain ⟨result, s₁⟩ := spooled
    dsimp only at hfiles
    rw [← hfiles] at hhandle
    have hhead : ∀ line ∈ s₁.spool.files session_id, line ∈ s.spool.files session_id ∨
        ∃ p ∈ (envelope, slot) :: rest, LineFrom rt p.1 line := fun line hline =>
      (hhandle line hline).imp_right fun hfrom => ⟨_, List.mem_cons_self, hfrom⟩
    cases result with
    | error e => exact hhead
    | ok response =>
      dsimp only
      -- the end of a session may add its tally before the rest of the batch is written
      have hflushed : ∀ s₂ : HttpState, (∀ line ∈ s₂.spool.files session_id,
            line ∈ s₁.spool.files session_id ∨ LineFrom rt envelope line) →
          ∀ line ∈ (s₂.writeToSpool rt cfg io rest).2.spool.files session_id,
            line ∈ s.spool.files session_id ∨
              ∃ p ∈ (envelope, slot) :: rest, LineFrom rt p.1 line := by
        intro s₂ h₂ line hline
        rcases ih s₂ line hline with hold | ⟨p, hp, hfrom⟩
        · rcases h₂ line hold with hold | hfrom
          · exact hhead line hold
          · exact Or.inr ⟨_, List.mem_cons_self, hfrom⟩
        · exact Or.inr ⟨p, List.mem_cons_of_mem _ hp, hfrom⟩
      have hrest := hflushed (if (envelope.get "event_type").pyEq (.str "SESSION_CLOSE") then
        s₁.flushLedger (io slot) (rt.pyStr (envelope.get "session_id")) else s₁) (by
          split_ifs
          · exact flushLedger_lines rt (io slot) s₁ envelope _
          · exact fun line hline => Or.inl hline)
      generalize HttpState.writeToSpool rt cfg io _ rest = written at hrest
      obtain ⟨result, s₃⟩ := written
      cases result with
      | error e => exact hrest
      | ok responses => exact hrest

/-- The lines before stay. -/
theorem flushLedger_keeps (io : SpoolIO) (s : HttpState) (id : JStr) {line : Dict}
    (h : line ∈ s.spool.files session_id) :
    line ∈ (s.flushLedger io id).spool.files session_id := by
  unfold HttpState.flushLedger
  cases s.ledgers id with
  | none => exact h
  | some ledger =>
    dsimp only
    split_ifs
    · exact h
    · show line ∈ Function.update s.spool.files id
        (s.spool.files id ++ [ledger.asRecord io.now_annotated]) session_id
      by_cases hsession : session_id = id
      · subst hsession
        rw [Function.update_self]
        exact List.mem_append_left _ h
      · rwa [Function.update_of_ne hsession]

/-- Writing a batch takes no line away. -/
theorem writeToSpool_keeps (s : HttpState) (io : ℕ → SpoolIO) (batch : List (Dict × ℕ))
    {line : Dict} (h : line ∈ s.spool.files session_id) :
    line ∈ (s.writeToSpool rt cfg io batch).2.spool.files session_id := by
  induction batch generalizing s with
  | nil => exact h
  | cons p rest ih =>
    obtain ⟨envelope, slot⟩ := p
    have hhandle := (@handle_lines rt s.spool (io slot).1 envelope session_id).1 line h
    have hfiles := @spoolOne_files rt cfg (io slot) s envelope
    unfold HttpState.writeToSpool
    generalize s.spoolOne rt cfg (io slot) envelope = spooled at hfiles
    obtain ⟨result, s₁⟩ := spooled
    dsimp only at hfiles
    rw [← hfiles] at hhandle
    cases result with
    | error e => exact hhandle
    | ok response =>
      have hrest := ih (if (envelope.get "event_type").pyEq (.str "SESSION_CLOSE") then
        s₁.flushLedger (io slot) (rt.pyStr (envelope.get "session_id")) else s₁) (by
          split_ifs
          · exact flushLedger_keeps (io slot) s₁ _ hhandle
          · exact hhandle)
      dsimp only
      generalize HttpState.writeToSpool rt cfg io _ rest = written at hrest
      obtain ⟨result, s₂⟩ := written
      cases result <;> exact hrest

/-- Sealing an envelope writes nothing, and changes no field but the payload, and there not the
    link to a decision. -/
theorem sealOne_keeps (s : HttpState) (fresh : Uuid) (envelope : Dict) :
    (s.sealOne rt fresh envelope).2.spool.files = s.spool.files ∧
      ∀ sealed, (s.sealOne rt fresh envelope).1 = .ok sealed →
        (∀ key, key ≠ "payload" → sealed.get key = envelope.get key) ∧
          decisionIdOf sealed = decisionIdOf envelope := by
  -- an envelope that is no action or is sealed already is returned as it came
  have hsame : ∀ sealed : Dict, (Except.ok envelope : Except PyError Dict) = .ok sealed →
      (∀ key, key ≠ "payload" → sealed.get key = envelope.get key) ∧
        decisionIdOf sealed = decisionIdOf envelope := by
    intro sealed h
    obtain rfl := Except.ok.inj h
    exact ⟨fun _ _ => rfl, rfl⟩
  unfold HttpState.sealOne
  split_ifs
  · exact ⟨rfl, hsame⟩
  · split
    case h_1 payload hpayload =>
      split_ifs
      · exact ⟨rfl, hsame⟩
      · generalize s.spool.chains.sealPayload rt fresh (envelope.get "session_id") payload = outcome
        obtain ⟨result, chains⟩ := outcome
        cases result with
        | error e => exact ⟨rfl, fun sealed h => absurd h (by simp)⟩
        | ok action =>
          refine ⟨rfl, fun sealed h => ?_⟩
          obtain rfl := Except.ok.inj h
          refine ⟨fun key hkey => by rw [Dict.get_set, if_neg hkey], ?_⟩
          unfold decisionIdOf
          rw [Dict.get_set, if_pos rfl, hpayload]
          simp [Dict.update, SealedAction.asPayloadFields, Dict.get_set]
    case h_2 => exact ⟨rfl, hsame⟩

theorem sealAll_files (s : HttpState) (envelopes : List (Dict × Uuid)) :
    (s.sealAll rt envelopes).2.spool.files = s.spool.files := by
  induction envelopes generalizing s with
  | nil => rfl
  | cons p rest ih =>
    obtain ⟨envelope, fresh⟩ := p
    have hone := (@sealOne_keeps rt s fresh envelope).1
    unfold HttpState.sealAll
    generalize s.sealOne rt fresh envelope = sealed at hone
    obtain ⟨result, s₁⟩ := sealed
    cases result with
    | error e => exact hone
    | ok sealed =>
      have hrest := (ih s₁).trans hone
      dsimp only
      generalize s₁.sealAll rt rest = tail at hrest
      obtain ⟨result, s₂⟩ := tail
      cases result <;> exact hrest

/-- The second envelope has the fields of the first but the payload, and its link. -/
structure SameEvent (envelope sealed : Dict) : Prop where
  fields : ∀ key, key ≠ "payload" → sealed.get key = envelope.get key
  decision_id : decisionIdOf sealed = decisionIdOf envelope

theorem exists_of_mem_right {α β : Type} {R : α → β → Prop} {xs : List α} {ys : List β} {y : β}
    (h : List.Forall₂ R xs ys) (hy : y ∈ ys) : ∃ x ∈ xs, R x y := by
  induction h with
  | nil => cases hy
  | cons hxy _ ih =>
    rcases List.mem_cons.mp hy with rfl | hy
    · exact ⟨_, List.mem_cons_self, hxy⟩
    · obtain ⟨x, hx, hR⟩ := ih hy
      exact ⟨x, List.mem_cons_of_mem _ hx, hR⟩

/-- Sealed envelopes are the same events. -/
theorem sealAll_keeps (s : HttpState) (envelopes : List (Dict × Uuid)) (batch : List Dict)
    (h : (s.sealAll rt envelopes).1 = .ok batch) :
    List.Forall₂ (fun p sealed => SameEvent p.1 sealed) envelopes batch := by
  induction envelopes generalizing s batch with
  | nil =>
    obtain rfl := Except.ok.inj h
    exact .nil
  | cons p rest ih =>
    obtain ⟨envelope, fresh⟩ := p
    have hone := (@sealOne_keeps rt s fresh envelope).2
    unfold HttpState.sealAll at h
    generalize s.sealOne rt fresh envelope = sealed at hone h
    obtain ⟨result, s₁⟩ := sealed
    cases result with
    | error e => cases h
    | ok first =>
      have hrest := ih s₁
      dsimp only at h
      generalize s₁.sealAll rt rest = tail at hrest h
      obtain ⟨result, s₂⟩ := tail
      cases result with
      | error e => cases h
      | ok others =>
        obtain rfl := Except.ok.inj h
        obtain ⟨hfields, hdecision⟩ := hone first rfl
        exact .cons ⟨hfields, hdecision⟩ (hrest others rfl)

/-- **One call of the cloud client.**  It adds lines for what it has sealed. -/
theorem handleAlone_lines (s : HttpState) (c : CloudCall) :
    ∀ line ∈ (s.handleAlone rt cfg c).state.spool.files session_id,
      line ∈ s.spool.files session_id ∨ ∃ batch, (s.sealAll rt c.envelopes).1 = .ok batch ∧
        ∃ envelope ∈ batch, LineFrom rt envelope line := by
  have hfiles := @sealAll_files rt s c.envelopes
  unfold HttpState.handleAlone
  by_cases hempty : c.envelopes.isEmpty = true
  · rw [if_pos hempty]
    -- nothing is spooled before the batch is sealed
    exact fun line hline => Or.inl hline
  rw [if_neg hempty]
  generalize s.sealAll rt c.envelopes = sealed at hfiles
  obtain ⟨result, s'⟩ := sealed
  dsimp only at hfiles
  cases result with
  | error e => exact fun line hline => Or.inl (hfiles ▸ hline)
  | ok batch =>
    -- whatever is spooled afterwards is part of the batch
    have hwritten : ∀ (s₁ : HttpState) (envelopes : List (Dict × ℕ)), s₁.spool = s'.spool →
        (∀ p ∈ envelopes, p.1 ∈ batch) →
        ∀ line ∈ (s₁.writeToSpool rt cfg c.io envelopes).2.spool.files session_id,
          line ∈ s.spool.files session_id ∨ ∃ sent,
            (Except.ok batch : Except PyError _) = .ok sent ∧
              ∃ envelope ∈ sent, LineFrom rt envelope line := by
      intro s₁ envelopes hspool hsub line hline
      rcases writeToSpool_lines s₁ c.io envelopes line hline with hold | ⟨p, hp, hfrom⟩
      · exact Or.inl (by rw [← hfiles, ← hspool]; exact hold)
      · exact Or.inr ⟨batch, rfl, p.1, hsub p hp, hfrom⟩
    dsimp only
    -- in spool mode the whole batch goes to the file
    by_cases hspooling : s'.spooling = true
    · rw [if_pos hspooling]
      refine hwritten s' _ rfl fun p hp => ?_
      exact List.mem_of_getElem? (List.mem_zipIdx_iff_getElem?.mp hp)
    · -- what the network would not take
      rw [if_neg hspooling]
      obtain ⟨henvelopes, -⟩ := HttpBatch.exchange_spec rt cfg c.replies cfg.max_retries
        (HttpBatch.start_sound batch)
      dsimp only
      unfold HttpState.settle
      split_ifs
      · exact fun line hline => Or.inl (hfiles ▸ hline)
      · refine hwritten _ _ ?_ fun p hp => ?_
        · unfold HttpState.enterSpoolMode
          rw [if_neg hspooling]
        · have hmem := HttpBatch.mem_select (List.of_mem_zip hp).1
          rwa [henvelopes] at hmem

end

/-- A call takes no line away. -/
theorem handleAlone_keeps {rt : Runtime} {cfg : HttpConfig} {session_id : JStr} (s : HttpState)
    (c : CloudCall) {line : Dict} (h : line ∈ s.spool.files session_id) :
    line ∈ (s.handleAlone rt cfg c).state.spool.files session_id := by
  rw [← @sealAll_files rt s c.envelopes] at h
  unfold HttpState.handleAlone
  by_cases hempty : c.envelopes.isEmpty = true
  · rw [if_pos hempty]
    rwa [List.isEmpty_iff.mp hempty] at h
  rw [if_neg hempty]
  generalize s.sealAll rt c.envelopes = sealed at h
  obtain ⟨result, s'⟩ := sealed
  cases result with
  | error e => exact h
  | ok batch =>
    dsimp only
    by_cases hspooling : s'.spooling = true
    · rw [if_pos hspooling]
      exact writeToSpool_keeps s' _ _ h
    · rw [if_neg hspooling]
      dsimp only
      unfold HttpState.settle
      split_ifs
      · exact h
      · refine writeToSpool_keeps _ _ _ ?_
        unfold HttpState.enterSpoolMode
        rwa [if_neg hspooling]

/-! ### Envelopes of lines -/

/-- The envelope that a line is read as, if it is one. -/
def envelopeOfRecord (src : SpoolSource) (record : Dict) : Option Dict :=
  match isEventType (record.get "event_type") with
  | .ok true =>
    if (record.get "event_type").pyEq (.str "ACTION_RECORD") then
      some (envelopeShell src record (pick actionPayloadFields record))
    else
      match record.get "payload" with
      | .obj payload => some (envelopeShell src record payload)
      | _ => none
  | _ => none

/-- The same of a line of the file. -/
def envelopeOfLine (src : SpoolSource) : SpoolLine → Option Dict
  | .value (.obj record) => envelopeOfRecord src record
  | _ => none

section

variable {rt : Runtime} {src : SpoolSource} {record : Dict}

/-- One record adds its envelope. -/
theorem readRecord_envelopes {line : ℕ} {r r' : Reading}
    (h : readRecord rt src line r record = .ok r') :
    r'.envelopes = r.envelopes ++ (envelopeOfRecord src record).toList := by
  unfold readRecord at h
  unfold envelopeOfRecord
  dsimp only at h
  -- an annotation adds nothing; an event adds its envelope if it has one
  cases htype : isEventType (record.get "event_type") with
  | error e => rw [htype] at h; exact absurd h (by simp)
  | ok known =>
    rw [htype] at h
    cases known with
    | false =>
      obtain rfl := Except.ok.inj h
      exact (List.append_nil _).symm
    | true =>
      dsimp only at h ⊢
      -- an action's line is flat, every other line has its payload inside
      split_ifs at h with haction
      · rw [if_pos haction]
        unfold readAction envelopeFromAction at h
        dsimp only at h
        split at h
        case h_1 => exact absurd h (by simp)
        case h_2 envelope henvelope =>
          split at henvelope
          case h_2 => exact absurd henvelope (by simp)
          case h_1 =>
            obtain rfl := Except.ok.inj henvelope
            split at h
            case h_1 => exact absurd h (by simp)
            case h_2 =>
              obtain rfl := Except.ok.inj h
              rfl
      · rw [if_neg haction]
        unfold envelopeFromRecord at h
        cases hpayload : record.get "payload" with
        | obj payload =>
          rw [hpayload] at h
          obtain rfl := Except.ok.inj h
          rfl
        | _ =>
          rw [hpayload] at h
          cases h

/-- The loop adds the envelopes of the lines in their order. -/
theorem readLines_envelopes {line : ℕ} {r r' : Reading} {lines : List SpoolLine}
    (h : readLines rt src line r lines = .ok r') :
    r'.envelopes = r.envelopes ++ lines.filterMap (envelopeOfLine src) := by
  induction lines generalizing line r with
  | nil =>
    obtain rfl := Except.ok.inj h
    exact (List.append_nil _).symm
  | cons l rest ih =>
    obtain ⟨r₁, hone, hrest⟩ := bind_eq_ok.mp h
    have htail := ih hrest
    have hhead : r₁.envelopes = r.envelopes ++ (envelopeOfLine src l).toList := by
      unfold readLine at hone
      split at hone
      case h_1 =>
        obtain rfl := Except.ok.inj hone
        exact (List.append_nil _).symm
      case h_2 => split_ifs at hone
      case h_3 => exact readRecord_envelopes hone
      case h_4 => exact absurd hone (by simp)
    rw [htail, hhead, List.append_assoc, List.filterMap_cons]
    cases envelopeOfLine src l <;> rfl

/-- **What the reader returns**: the envelopes of the lines, in their order. -/
theorem readSpoolSession_envelopes {lines : List SpoolLine} {session : SpoolSession}
    (h : readSpoolSession rt src lines = .ok session) :
    session.envelopes = lines.filterMap (envelopeOfLine src) := by
  unfold readSpoolSession at h
  cases hread : readLines rt src 1 {} lines with
  | error e => rw [hread] at h; exact absurd h (by simp [Except.map])
  | ok r =>
    rw [hread] at h
    obtain rfl := Except.ok.inj h
    exact readLines_envelopes hread

/-- Of lines that hold records. -/
theorem readSpoolSession_records {records : List Dict} {session : SpoolSession}
    (h : readSpoolSession rt src (recordLines records) = .ok session) :
    session.envelopes = records.filterMap (envelopeOfRecord src) := by
  rw [readSpoolSession_envelopes h, recordLines, List.filterMap_map]
  rfl

end

end RootSign
