import RootSign.AtMostOnce
import RootSign.Sdk.BufferedClient
import RootSign.Sdk.Decorator
import RootSign.SpoolLines

namespace RootSign

open RootSign.Python

/-!
# The gate of the JSONL backend

One call of a tool that requires approval, on a JSONL client that any other calls have used before
and use meanwhile.

* `NeverCached` — the cache has no entry of an event id;
* `PendingLine`, `ApprovedLine` — the two lines of an approved action;
* `GateFailsClosed` — the tool is called only with both lines in the session's file;
* `gate_fails_closed_iff` — a call fails closed exactly when both its lines come to stand in the
  file whenever the operator approves.
-/

/-! ### Ids that the cache does not know -/

/-- Every expiry is offset-aware, and no entry is of the id. -/
structure NeverCached (u : Uuid) (store : IdempotencyStore) : Prop where
  aware : store.Aware
  key : ∀ e ∈ store, e.key ≠ u.text

section

variable {rt : Runtime} {u : Uuid} {store : IdempotencyStore}

/-- An access under another id. -/
theorem NeverCached.access (h : NeverCached u store) {a : IdempotencyStore.Access}
    (ha : a.inserts ≠ some u) : NeverCached u (store.access a) := by
  refine ⟨h.aware.access a, ?_⟩
  rcases IdempotencyStore.access_cases h.aware a with
    ⟨now, -, heq⟩ | ⟨now_evict, now, other, response, emitted_at, e, rfl, -, hinserted, heq⟩
  · rw [heq, IdempotencyStore.access_get now h.aware]
    exact fun e he => h.key e (List.mem_of_mem_filter he)
  · rw [heq, IdempotencyStore.access_get now_evict h.aware]
    intro x hx
    rcases IdempotencyStore.mem_insert hx with ⟨hx, -⟩ | rfl
    · exact h.key x (List.mem_of_mem_filter hx)
    · rw [hinserted.key]
      intro hkey
      exact ha (congrArg some (Uuid.ext hkey))

/-- The id is not found. -/
theorem NeverCached.get (h : NeverCached u store) (now : UtcNow) :
    store.get now u = .ok (none, store.access (.get now)) := by
  rw [IdempotencyStore.get_of_aware now u h.aware]
  have hnone : (store.access (.get now)).find? (fun e => e.key == u.text) = none := by
    rw [List.find?_eq_none, IdempotencyStore.access_get now h.aware]
    intro e he heq
    exact h.key e (List.mem_of_mem_filter he) (beq_iff_eq.mp heq)
  rw [hnone]
  rfl

/-- Recording a line under another id. -/
theorem NeverCached.record {s : JsonlState} (h : NeverCached u s.idempotency) {io : CallIO}
    {head : JsonlState.Head} (hother : head.event_id ≠ u) (response : IngestResponse)
    (line : Dict) : NeverCached u (s.record io head response line).2.idempotency := by
  unfold JsonlState.record JsonlState.appendLine
  cases shouldFsync s.fsync head.event_type with
  | error e => exact h
  | ok b =>
    -- Only an append that returns is followed by an access to the cache.
    cases io.append with
    | unwritten => exact h
    | unsynced => exact h
    | written =>
      have hput := h.access (a := .put io.now_evict io.now_set head.event_id response
        head.emitted_at) fun hu => hother (Option.some.inj hu)
      unfold IdempotencyStore.access at hput
      dsimp only at hput ⊢
      split
      · next heq => rwa [heq] at hput
      · next heq => rwa [heq] at hput

/-- A call with an envelope of another id. -/
theorem NeverCached.handle {s : JsonlState} (h : NeverCached u s.idempotency) {io : CallIO}
    {envelope : Dict} (hother : rt.toUuid (envelope.get "event_id") ≠ .ok u) :
    NeverCached u (s.handle rt io envelope).2.idempotency := by
  -- The first reads decide under which id the call goes on; none of them touches the cache.
  cases hhead : JsonlState.readHead rt io envelope with
  | error e =>
    rw [show s.handle rt io envelope = (.error e, s) by rw [JsonlState.handle, hhead]]
    exact h
  | ok head =>
    obtain ⟨hid, -, -⟩ := JsonlState.readHead_ok hhead
    have hne : head.event_id ≠ u := fun heq => hother (heq ▸ hid)
    have hinserts : (IdempotencyStore.Access.get io.now_get).inserts ≠ some u :=
      (Option.some_ne_none u).symm
    have hleft := h.access hinserts
    have hget := IdempotencyStore.get_of_aware io.now_get head.event_id h.aware
    unfold JsonlState.handle
    rw [hhead]
    simp only [hget]
    cases (s.idempotency.access (.get io.now_get)).find?
        fun e => e.key == head.event_id.text with
    | some e => exact hleft
    | none =>
      dsimp only [Option.map_none]
      -- building leaves the cache alone
      have hbuild : ∀ s' : JsonlState, (JsonlState.build rt io s' envelope head).2.idempotency =
          s'.idempotency := by
        intro s'
        unfold JsonlState.build
        split <;> rfl
      have hbuilt := hbuild { s with idempotency := s.idempotency.access (.get io.now_get) }
      generalize JsonlState.build rt io _ envelope head = built at hbuilt ⊢
      obtain ⟨result, s₁⟩ := built
      dsimp only at hbuilt
      cases result with
      | error e =>
        show NeverCached u s₁.idempotency
        rwa [hbuilt]
      | ok p => exact NeverCached.record (by rwa [hbuilt]) hne _ _

/-- What becomes of the line has nothing to do with the cache. -/
theorem idempotency_handleTorn (s : JsonlState) (io : CallIO) (torn : Bool) (envelope : Dict) :
    (s.handleTorn rt io torn envelope).2.idempotency = (s.handle rt io envelope).2.idempotency := by
  unfold JsonlState.handleTorn
  cases torn <;> rfl

/-- A call on an envelope of another id, whatever becomes of its line. -/
theorem NeverCached.handleTorn {s : JsonlState} (h : NeverCached u s.idempotency) {io : CallIO}
    {torn : Bool} {envelope : Dict} (hother : rt.toUuid (envelope.get "event_id") ≠ .ok u) :
    NeverCached u (s.handleTorn rt io torn envelope).2.idempotency := by
  rw [idempotency_handleTorn]
  exact h.handle hother

/-- Calls with envelopes of other ids. -/
theorem NeverCached.after {s : JsonlState} (h : NeverCached u s.idempotency)
    {calls : List OtherCall}
    (hothers : ∀ o ∈ calls, rt.toUuid (o.envelope.get "event_id") ≠ .ok u) :
    NeverCached u (s.after rt calls).idempotency := by
  -- The invariant is that no entry has the id; each call keeps it.
  induction calls generalizing s with
  | nil => exact h
  | cons o rest ih =>
    exact ih (h.handleTorn (hothers o List.mem_cons_self))
      fun o' ho' => hothers o' (List.mem_cons_of_mem o ho')

end

/-! ### The two lines -/

/-- The line of the pending action. -/
structure PendingLine (action_id : Uuid) (line : Dict) : Prop where
  event_type : line.get "event_type" = .str "ACTION_RECORD"
  action_id : line.get "action_id" = .str action_id.text
  status : line.get "authorization_status" = .str "pending"

/-- The line of an approval of the action. -/
def ApprovedLine (action_id : Uuid) (line : Dict) : Prop :=
  line.get "event_type" = .str "APPROVAL_RECORD" ∧
    ∃ payload : Dict, line.get "payload" = .obj payload ∧
      payload.get "action_id" = .str action_id.text ∧ payload.get "decision" = .str "approved"

/-- The call writes no record of the action: neither the id it may mint nor the one its payload may
    carry is that of the action. -/
structure NoRecordOf (rt : Runtime) (action_id : Uuid) (c : OtherCall) : Prop where
  minted : c.io.fresh ≠ action_id
  adopted : ∀ payload : Dict, payloadOf c.envelope = .ok payload →
    rt.toUuid (payload.get "action_id") ≠ .ok action_id

/-- The envelope is no approval of the action. -/
def NoApprovalOf (action_id : Uuid) (envelope : Dict) : Prop :=
  envelope.get "event_type" = .str "APPROVAL_RECORD" →
    ∀ payload : Dict, envelope.get "payload" = .obj payload →
      payload.get "action_id" ≠ .str action_id.text

section

variable {rt : Runtime} {s : JsonlState} {io : CallIO} {envelope : Dict} {action_id : Uuid}
  {session_id : JStr}

/-- A torn line is no line. -/
theorem answer_handleTorn (torn : Bool) :
    (s.handleTorn rt io torn envelope).1 = (s.handle rt io envelope).1 := by
  unfold JsonlState.handleTorn
  cases torn <;> rfl

/-- The files after a call whose line is torn are those before it. -/
theorem files_handleTorn (torn : Bool) :
    (s.handleTorn rt io torn envelope).2.files =
      if torn then s.files else (s.handle rt io envelope).2.files := by
  unfold JsonlState.handleTorn
  cases torn <;> rfl

/-- A call keeps the lines there are, and adds at most the line of its envelope. -/
theorem handleTorn_lines (torn : Bool) :
    (∀ line ∈ s.files session_id, line ∈ (s.handleTorn rt io torn envelope).2.files session_id) ∧
      ∀ line ∈ (s.handleTorn rt io torn envelope).2.files session_id,
        line ∈ s.files session_id ∨ LineFrom rt envelope line := by
  rw [files_handleTorn]
  cases torn with
  | true => exact ⟨fun line hline => hline, fun line hline => Or.inl hline⟩
  | false => exact @handle_lines rt s io envelope session_id

/-- What other calls have found stays, and they add no approval of the action. -/
theorem mem_files_after {calls : List OtherCall}
    (hothers : ∀ o ∈ calls, NoApprovalOf action_id o.envelope) :
    (∀ line ∈ s.files session_id, line ∈ (s.after rt calls).files session_id) ∧
      ∀ line ∈ (s.after rt calls).files session_id, ApprovedLine action_id line →
        line ∈ s.files session_id := by
  -- Whatever the rest of the calls have found is what the first one left.
  induction calls generalizing s with
  | nil => exact ⟨fun line hline => hline, fun line hline _ => hline⟩
  | cons o rest ih =>
    obtain ⟨hkeep, hnew⟩ := @ih (s.handleTorn rt o.io o.torn o.envelope).2
      fun o' ho' => hothers o' (List.mem_cons_of_mem o ho')
    obtain ⟨hkeep₁, hnew₁⟩ := @handleTorn_lines rt s o.io o.envelope session_id o.torn
    refine ⟨fun line hline => hkeep line (hkeep₁ line hline), fun line hline happroved => ?_⟩
    rcases hnew₁ line (hnew line hline happroved) with hold | hfrom
    · exact hold
    obtain ⟨htype', payload, hpayload', hid, -⟩ := happroved
    cases hfrom with
    | action event_id hkind hid' htype => exact absurd (htype.symm.trans htype') (by simp)
    | tally htype => exact absurd (htype.symm.trans htype') (by simp)
    | other hkind hfields =>
      have htype := hfields "event_type" (by decide) (by decide)
      have hpayload := hfields "payload" (by decide) (by decide)
      exact absurd hid (hothers o List.mem_cons_self (htype ▸ htype') payload
        (hpayload ▸ hpayload'))

/-- A payload is sealed under the minted id, or under the one it carries. -/
theorem sealPayload_id {chains chains' : ChainRegistry} {fresh : Uuid} {session_id : Json}
    {payload : Dict} {sealed : SealedAction}
    (h : chains.sealPayload rt fresh session_id payload = (.ok sealed, chains')) :
    sealed.action_id = fresh ∨ rt.toUuid (payload.get "action_id") = .ok sealed.action_id := by
  obtain ⟨h, -⟩ := Prod.mk.inj h
  generalize chains (rt.pyStr session_id) = state at h
  unfold ChainState.sealPayload at h
  -- Adopting reads the id of the payload, minting takes the fresh one.
  by_cases hsealed : isSealed payload = true
  · right
    rw [if_pos hsealed] at h
    unfold ChainState.adopt at h
    dsimp only at h
    split at h
    · exact absurd h (by simp)
    · cases hint : rt.pyInt (payload.get "sequence_number") with
      | error e => simp [hint] at h
      | ok n =>
        cases hid : rt.toUuid (payload.get "action_id") with
        | error e => simp [hint, hid] at h
        | ok u =>
          simp only [hint, hid, Except.ok.injEq] at h
          rw [← h]
  · left
    rw [if_neg hsealed] at h
    dsimp only at h
    split at h
    · exact absurd h (by simp)
    unfold ChainState.mint at h
    dsimp only at h
    split at h
    · exact absurd h (by simp)
    · rw [← Except.ok.inj h]

/-- What a call writes as an action has the id that was minted for it or that its payload
    carries. -/
theorem handle_action_line (line : Dict)
    (hline : line ∈ (s.handle rt io envelope).2.files session_id)
    (htype : line.get "event_type" = .str "ACTION_RECORD") :
    line ∈ s.files session_id ∨ ∃ u : Uuid, line.get "action_id" = .str u.text ∧
      (u = io.fresh ∨ ∃ payload : Dict, payloadOf envelope = .ok payload ∧
        rt.toUuid (payload.get "action_id") = .ok u) := by
  rcases JsonlState.handle_effect rt io s envelope with
    ⟨-, hfiles⟩ | ⟨head, built, chains, hhead, hkind, -, hfiles | ⟨response, new, hbuilt, hfiles⟩⟩
  · exact Or.inl (hfiles ▸ hline)
  · exact Or.inl (hfiles ▸ hline)
  rw [hfiles] at hline
  -- Only the file of the envelope's own session is written to.
  by_cases hsession : session_id = head.session_id
  swap
  · rw [Function.update_of_ne hsession] at hline
    exact Or.inl hline
  subst hsession
  rw [Function.update_self] at hline
  refine (List.mem_append.mp hline).imp_right fun hnew => ?_
  obtain rfl := List.mem_singleton.mp hnew
  obtain ⟨-, heventtype, -⟩ := JsonlState.readHead_ok hhead
  split_ifs at hkind with haction
  · obtain ⟨payload, sealed, tool_name, input_hash, timestamp, hpayload, hseal, -, rfl⟩ :=
      buildAction_ok (hkind.symm.trans (by rw [hbuilt]))
    exact ⟨sealed.action_id, by simp [flatRecord, Dict.get_ofFields, List.lookup_cons],
      (sealPayload_id hseal).imp_right fun hadopted => ⟨payload, hpayload, hadopted⟩⟩
  · -- another event keeps its type
    obtain ⟨hkind, -⟩ := Prod.mk.inj hkind
    rw [hbuilt, Except.ok.injEq] at hkind
    have hget := @buildNonAction_get io.fresh envelope head.event_id head.event_type "event_type"
      (by decide) (by decide)
    rw [← hkind, ← heventtype] at hget
    exact absurd (Json.pyEq_str.mpr (hget.symm.trans htype)) haction

/-- What other calls leave has no new record of the action. -/
theorem no_record_after {calls : List OtherCall}
    (hothers : ∀ o ∈ calls, NoRecordOf rt action_id o) :
    ∀ line ∈ (s.after rt calls).files session_id, PendingLine action_id line →
      line ∈ s.files session_id := by
  -- Each call adds at most one action, under the id it minted or read.
  induction calls generalizing s with
  | nil => exact fun line hline _ => hline
  | cons o rest ih =>
    intro line hline hpending
    have hmem := @ih (s.handleTorn rt o.io o.torn o.envelope).2
      (fun o' ho' => hothers o' (List.mem_cons_of_mem o ho')) line hline hpending
    obtain ⟨hminted, hadopted⟩ := hothers o List.mem_cons_self
    rw [files_handleTorn] at hmem
    split at hmem
    · exact hmem
    · rcases handle_action_line line hmem hpending.event_type with hold | ⟨u, hid, hu⟩
      · exact hold
      · rw [hpending.action_id, Json.str.injEq] at hid
        obtain rfl : action_id = u := Uuid.ext hid
        rcases hu with rfl | ⟨payload, hpayload, hread⟩
        · exact absurd rfl hminted
        · exact absurd hread (hadopted payload hpayload)

end

/-! ### The envelopes of the gate -/

section

variable {rt : Runtime} {s : JsonlState} {io : CallIO} {sdk_version : JStr} {ctx : SessionContext}
  {event_type : EventType} {m : Minted} {payload : Dict}

/-- The first reads of the call on such an envelope. -/
def headOf (rt : Runtime) (io : CallIO) (ctx : SessionContext) (event_type : EventType)
    (m : Minted) : JsonlState.Head where
  event_id := m.event_id
  event_type := .str (JStr.ofString event_type.text)
  session_id := ctx.session_id.text
  emitted_at := parseDt rt io.now_parse (isoJson m.emitted_at)

@[simp] theorem get_envelopeOf_event_type :
    (envelopeOf sdk_version ctx event_type m payload).get "event_type" =
      .str (JStr.ofString event_type.text) := by
  simp [envelopeOf, Dict.get_ofFields, List.lookup_cons]

@[simp] theorem get_envelopeOf_event_id :
    (envelopeOf sdk_version ctx event_type m payload).get "event_id" = .str m.event_id.text := by
  simp [envelopeOf, Dict.get_ofFields, List.lookup_cons]

@[simp] theorem get_envelopeOf_emitted_at :
    (envelopeOf sdk_version ctx event_type m payload).get "emitted_at" = isoJson m.emitted_at := by
  simp [envelopeOf, Dict.get_ofFields, List.lookup_cons]

@[simp] theorem get_envelopeOf_payload :
    (envelopeOf sdk_version ctx event_type m payload).get "payload" = .obj payload := by
  simp [envelopeOf, Dict.get_ofFields, List.lookup_cons]

/-- What `handle` reads of such an envelope. -/
theorem readHead_envelopeOf :
    JsonlState.readHead rt io (envelopeOf sdk_version ctx event_type m payload) =
      .ok (headOf rt io ctx event_type m) := by
  have hid : (envelopeOf sdk_version ctx event_type m payload).has "event_id" := by
    simp [envelopeOf, Dict.has_ofFields, List.lookup_cons]
  have htype : (envelopeOf sdk_version ctx event_type m payload).has "event_type" := by
    simp [envelopeOf, Dict.has_ofFields, List.lookup_cons]
  have hsession : (envelopeOf sdk_version ctx event_type m payload).has "session_id" := by
    simp [envelopeOf, Dict.has_ofFields, List.lookup_cons]
  have hget : (envelopeOf sdk_version ctx event_type m payload).get "session_id" =
      .str ctx.session_id.text := by
    simp [envelopeOf, Dict.get_ofFields, List.lookup_cons]
  simp only [JsonlState.readHead, Dict.item_of_has hid, Dict.item_of_has htype,
    Dict.item_of_has hsession, bind, Except.bind, get_envelopeOf_event_id, rt.toUuid_text,
    get_envelopeOf_event_type, get_envelopeOf_emitted_at, hget, rt.pyStr_str]
  rfl

/-- What a line is recorded as. -/
theorem record_of_fsync {head : JsonlState.Head} {b : Bool}
    (hb : shouldFsync s.fsync head.event_type = .ok b) (response : IngestResponse) (line : Dict) :
    (s.record io head response line).2.files =
        (if io.append.lands then
          Function.update s.files head.session_id (s.files head.session_id ++ [line])
        else s.files) ∧
      (io.append.returns = false → (s.record io head response line).1 = .error .osError) ∧
      (io.append.returns = true → (s.record io head response line).1 =
        (s.idempotency.put io.now_evict io.now_set head.event_id response head.emitted_at).1.map
          fun _ => response) := by
  unfold JsonlState.record
  rw [hb]
  simp only [JsonlState.appendLine_eq]
  cases hwrite : io.append.returns with
  -- it raised, behind the line or without one, and the cache is not reached
  | false =>
    refine ⟨?_, fun _ => ?_, fun h => absurd h Bool.false_ne_true⟩
    · simp only [Bool.false_eq_true, if_false]
    · simp only [Bool.false_eq_true, if_false]
  | true =>
    rw [Append.lands_of_returns hwrite]
    simp only [if_true]
    -- the cache may raise on the date; the line stands all the same
    generalize s.idempotency.put io.now_evict io.now_set head.event_id response
      head.emitted_at = put
    obtain ⟨result, store⟩ := put
    cases result with
    | error e => exact ⟨rfl, fun h => absurd h.symm Bool.false_ne_true, fun _ => rfl⟩
    | ok _ => exact ⟨rfl, fun h => absurd h.symm Bool.false_ne_true, fun _ => rfl⟩

/-- The answer to a line: the response if nothing is raised and its date can be cached. -/
theorem record_answer {head : JsonlState.Head} {b : Bool}
    (hb : shouldFsync s.fsync head.event_type = .ok b) (hstore : s.idempotency.Aware)
    (haware : head.emitted_at.aware = true) (response : IngestResponse) (line : Dict) :
    (io.append.returns = true ∧ head.emitted_at.canAdd ttl = true ∧
        (s.record io head response line).1 = .ok response) ∨
      (¬ (io.append.returns = true ∧ head.emitted_at.canAdd ttl = true) ∧
        ∃ e, (s.record io head response line).1 = .error e) := by
  obtain ⟨-, hunwritten, hwritten⟩ := @record_of_fsync s io head b hb response line
  by_cases hwrite : io.append.returns = true
  · rw [hwritten hwrite]
    by_cases hdate : head.emitted_at.canAdd ttl = true
    · obtain ⟨e, -, -, hput, -⟩ := IdempotencyStore.put_inserts io.now_evict io.now_set
        head.event_id response hstore haware hdate
      rw [hput]
      exact Or.inl ⟨hwrite, hdate, rfl⟩
    · -- the sum of the date and the time to live is out of range
      obtain ⟨⟨e, hput⟩, -⟩ := IdempotencyStore.put_raises io.now_evict io.now_set head.event_id
        response hstore (Or.inr (Bool.eq_false_iff.mpr hdate))
      rw [hput]
      exact Or.inr ⟨fun hboth => hdate hboth.2, e, rfl⟩
  · rw [hunwritten (Bool.eq_false_iff.mpr hwrite)]
    exact Or.inr ⟨fun hboth => hwrite hboth.1, .osError, rfl⟩

/-- A call whose id is not cached records what it builds. -/
theorem handle_of_build {envelope : Dict} {head : JsonlState.Head} {left : IdempotencyStore}
    {response : IngestResponse} {line : Dict} {s₁ : JsonlState}
    (hhead : JsonlState.readHead rt io envelope = .ok head)
    (hget : s.idempotency.get io.now_get head.event_id = .ok (none, left))
    (hbuild : JsonlState.build rt io { s with idempotency := left } envelope head =
      (.ok (response, line), s₁)) :
    s.handle rt io envelope = s₁.record io head response line := by
  rw [JsonlState.handle, hhead]
  simp only [hget, hbuild]

/-- A line of its own is in the file, or none is. -/
theorem files_handleTorn_of_handle {files : JStr → List Dict} (torn : Bool)
    (h : (s.handle rt io envelope).2.files = if io.append.lands then files else s.files) :
    (s.handleTorn rt io torn envelope).2.files =
      if io.append.lands && !torn then files else s.files := by
  rw [files_handleTorn, h]
  cases torn <;> simp

/-- The call on an approval: its line is there if it can be. -/
theorem handle_approval (h : NeverCached m.event_id s.idempotency) (now : UtcNow)
    (a : ApprovalFields) (torn : Bool) :
    ∃ line : Dict, line.get "event_type" = .str "APPROVAL_RECORD" ∧
      line.get "payload" = .obj (a.payload now) ∧
      (s.handleTorn rt io torn (approvalEnvelope sdk_version ctx m now a)).2.files =
        if io.append.lands && !torn then Function.update s.files ctx.session_id.text
          (s.files ctx.session_id.text ++ [line])
        else s.files := by
  -- From here on the cache is the one the lookup has left.
  let envelope := approvalEnvelope sdk_version ctx m now a
  let head := headOf rt io ctx .APPROVAL_RECORD m
  let left := s.idempotency.access (.get io.now_get)
  have hhead : JsonlState.readHead rt io envelope = .ok head := readHead_envelopeOf
  have hget := @buildNonAction_get io.fresh envelope head.event_id head.event_type
  have hbuild : JsonlState.build rt io { s with idempotency := left } envelope head =
      (.ok (buildNonAction io.fresh envelope head.event_id head.event_type),
        { s with idempotency := left }) := by
    have hkind : head.event_type.pyEq (.str "ACTION_RECORD") = false := by
      rw [Bool.eq_false_iff]
      exact fun hk => absurd (Json.pyEq_str.mp hk) (by simp [head, headOf, EventType.text])
    unfold JsonlState.build
    rw [hkind, if_neg Bool.false_ne_true]
  generalize buildNonAction io.fresh envelope head.event_id head.event_type = built at hget hbuild
  obtain ⟨response, line⟩ := built
  obtain ⟨b, hb⟩ := shouldFsync_text s.fsync (JStr.ofString EventType.APPROVAL_RECORD.text)
  have hhandle := handle_of_build hhead (h.get io.now_get) hbuild
  refine ⟨line, ?_, ?_, ?_⟩
  · exact (hget (by decide) (by decide)).trans get_envelopeOf_event_type
  · exact (hget (by decide) (by decide)).trans get_envelopeOf_payload
  · refine files_handleTorn_of_handle torn ?_
    show (s.handle rt io envelope).2.files = _
    rw [hhandle]
    exact (@record_of_fsync { s with idempotency := left } io head b hb response line).1

/-- An unsealed payload is sealed under the minted id. -/
theorem buildAction_mint {envelope payload : Dict}
    (hpayload : envelope.get "payload" = .obj payload)
    (h : UnsealedPayload payload) (fresh : Uuid) (chains : ChainRegistry) (event_id : Uuid)
    (session_id : JStr) :
    ∃ sealed chains', sealed.action_id = fresh ∧
      buildAction rt fresh chains envelope event_id session_id =
        (.ok (.accepted event_id (some sealed.action_id) (some sealed.sequence_number)
            (some sealed.self_hash),
          flatRecord envelope payload event_id session_id (payload.get "tool_name")
            (payload.get "input_hash") (payload.get "timestamp") sealed), chains') := by
  have hmint := (chains session_id).seal_mint rt fresh (.str session_id) h
  simp only [buildAction, payloadOf_obj hpayload, ChainRegistry.sealPayload, Runtime.pyStr_str,
    hmint, Dict.item_of_has h.tool_name, Dict.item_of_has h.input_hash,
    Dict.item_of_has h.timestamp]
  exact ⟨_, _, rfl, rfl⟩

/-- The line of a pending action is one for the id it is sealed under. -/
theorem pendingLine_flatRecord {envelope : Dict} {a : ActionFields} {event_id : Uuid}
    {session_id : JStr} {tool_name input_hash timestamp : Json} {sealed : SealedAction}
    (hstatus : a.authorization_status = "pending") :
    PendingLine sealed.action_id (flatRecord envelope a.payload event_id session_id tool_name
      input_hash timestamp sealed) := by
  have hstatus' : a.payload.getD "authorization_status" (.str "auto_authorized") =
      .str "pending" := by
    rw [← hstatus]
    simp [ActionFields.payload, Dict.getD_ofFields, List.lookup_cons]
  constructor
  · simp [flatRecord, Dict.get_ofFields, List.lookup_cons]
  · simp [flatRecord, Dict.get_ofFields, List.lookup_cons]
  · rw [← hstatus']
    simp [flatRecord, Dict.get_ofFields, List.lookup_cons]

/-- The call on a pending action: its line is there if it can be, under the id minted for it, and
    the answer is accepted if nothing is raised and its date can be cached. -/
theorem handle_pending (h : NeverCached m.event_id s.idempotency) (a : ActionFields)
    (hstatus : a.authorization_status = "pending")
    (haware : (parseDt rt io.now_parse (isoJson m.emitted_at)).aware = true) (torn : Bool) :
    ∃ line : Dict, PendingLine io.fresh line ∧
      (s.handleTorn rt io torn (actionEnvelope sdk_version ctx m a)).2.files =
        (if io.append.lands && !torn then Function.update s.files ctx.session_id.text
          (s.files ctx.session_id.text ++ [line])
        else s.files) ∧
      ((io.append.returns = true ∧
          (parseDt rt io.now_parse (isoJson m.emitted_at)).canAdd ttl = true ∧
          ∃ response,
            (s.handleTorn rt io torn (actionEnvelope sdk_version ctx m a)).1 = .ok response ∧
            response.entity_id = some io.fresh) ∨
        (¬ (io.append.returns = true ∧
            (parseDt rt io.now_parse (isoJson m.emitted_at)).canAdd ttl = true) ∧
          ∃ e, (s.handleTorn rt io torn (actionEnvelope sdk_version ctx m a)).1 = .error e)) := by
  let envelope := actionEnvelope sdk_version ctx m a
  let head := headOf rt io ctx .ACTION_RECORD m
  let left := s.idempotency.access (.get io.now_get)
  have hhead : JsonlState.readHead rt io envelope = .ok head := readHead_envelopeOf
  have hunsealed : UnsealedPayload a.payload := by
    constructor <;> simp [ActionFields.payload, Dict.has_ofFields, Dict.get_ofFields,
      List.lookup_cons]
  obtain ⟨sealed, chains, hid, hbuilt⟩ := @buildAction_mint rt envelope a.payload
    get_envelopeOf_payload hunsealed io.fresh s.chains head.event_id head.session_id
  -- of the record that was built only its line, its id and its answer matter from here on
  have hpending : PendingLine io.fresh (flatRecord envelope a.payload head.event_id head.session_id
      (a.payload.get "tool_name") (a.payload.get "input_hash") (a.payload.get "timestamp")
      sealed) := hid ▸ pendingLine_flatRecord hstatus
  generalize flatRecord envelope a.payload head.event_id head.session_id
    (a.payload.get "tool_name") (a.payload.get "input_hash") (a.payload.get "timestamp")
    sealed = line at hbuilt hpending
  have hbuild : JsonlState.build rt io { s with idempotency := left } envelope head =
      (.ok (.accepted head.event_id (some sealed.action_id) (some sealed.sequence_number)
        (some sealed.self_hash), line), { s with idempotency := left, chains := chains }) := by
    have hkind : head.event_type.pyEq (.str "ACTION_RECORD") = true := Json.pyEq_str.mpr rfl
    unfold JsonlState.build
    rw [hkind, if_pos rfl]
    dsimp only
    rw [hbuilt]
  obtain ⟨b, hb⟩ := shouldFsync_text s.fsync (JStr.ofString EventType.ACTION_RECORD.text)
  have hhandle := handle_of_build hhead (h.get io.now_get) hbuild
  have hentity : (IngestResponse.accepted head.event_id (some sealed.action_id)
      (some sealed.sequence_number) (some sealed.self_hash)).entity_id = some io.fresh :=
    congrArg some hid
  generalize IngestResponse.accepted head.event_id (some sealed.action_id)
    (some sealed.sequence_number) (some sealed.self_hash) = response at hhandle hentity
  refine ⟨line, hpending, ?_, ?_⟩
  · refine files_handleTorn_of_handle torn ?_
    show (s.handle rt io envelope).2.files = _
    rw [hhandle]
    exact (@record_of_fsync { s with idempotency := left, chains := chains } io head b hb response
      line).1
  · have hgated : s.handle rt io (actionEnvelope sdk_version ctx m a) = _ := hhandle
    rw [answer_handleTorn, hgated]
    have hleft : left.Aware := h.aware.evict io.now_get
    rcases @record_answer { s with idempotency := left, chains := chains } io head b hb hleft haware
      response line with ⟨hwrite, hdate, hok⟩ | hnot
    · exact Or.inl ⟨hwrite, hdate, response, hok, hentity⟩
    · exact Or.inr hnot

end

/-! ### Failing closed -/

namespace GateCall

/-- The date a pending record is cached with. -/
def pendingDate (rt : Runtime) (c : GateCall) : PyDateTime :=
  parseDt rt c.pending_io.now_parse (isoJson c.pending.emitted_at)

/-- The pending record is submitted and the operator approves. -/
structure Approved (rt : Runtime) (c : GateCall) : Prop where
  isatty : c.isatty = true
  input : c.redacted_input.isSome = true
  context : c.context_presented.isSome = true
  returned : c.pending_io.append.returns = true
  cached : (c.pendingDate rt).canAdd ttl = true
  answer : ∃ text, c.answer = some text ∧ approves (strip text) = true

/-- Both lines of the call come to stand in the file. -/
structure Stands (c : GateCall) : Prop where
  pending : c.pending_torn = false
  approval : c.approval_io.append.lands = true
  approval_whole : c.approval_torn = false

/-- The ids of the call are new to the client, its first date reads back as offset-aware, and
    nothing else records or approves its action. -/
structure New (rt : Runtime) (c : GateCall) (history : List OtherCall) : Prop where
  pending : ∀ o ∈ history ++ c.before,
    rt.toUuid (o.envelope.get "event_id") ≠ .ok c.pending.event_id
  approval : ∀ o ∈ history ++ c.before ++ c.between,
    rt.toUuid (o.envelope.get "event_id") ≠ .ok c.approval.event_id
  different : c.pending.event_id ≠ c.approval.event_id
  aware : (c.pendingDate rt).aware = true
  records : ∀ o ∈ history ++ c.before ++ c.between, NoRecordOf rt c.pending_io.fresh o
  others : ∀ o ∈ history ++ c.before ++ c.between, NoApprovalOf c.pending_io.fresh o.envelope

end GateCall

/-- **The gate fails closed**: the tool is called only with the pending line and an approval of
    the action in the session's file. -/
def GateFailsClosed (ctx : SessionContext) (result : GateOutcome × JsonlState) : Prop :=
  ∀ action_id, result.1 = .called action_id →
    (∃ line ∈ result.2.files ctx.session_id.text, PendingLine action_id line) ∧
      ∃ line ∈ result.2.files ctx.session_id.text, ApprovedLine action_id line

section

variable {rt : Runtime} {ctx : SessionContext} {c : GateCall} {history : List OtherCall}
  {session_id : JStr}

theorem neverCached_init (u : Uuid) : NeverCached u JsonlState.init.idempotency where
  aware _ he := absurd he List.not_mem_nil
  key _ he := absurd he List.not_mem_nil

theorem after_append (s : JsonlState) (first second : List OtherCall) :
    s.after rt (first ++ second) = (s.after rt first).after rt second := List.foldl_append

/-- A python exception out of the client never leaves `_emit_approval_record`. -/
theorem emitApprovalRecord_python (reply : Except PyError IngestResponse) :
    emitApprovalRecord (reply.mapError .python) = .ok () := by
  cases reply <;> rfl

/-- Before the call nothing approves its action. -/
theorem GateCall.New.no_approval (h : c.New rt history) {line : Dict}
    (hline : line ∈ ((JsonlState.init.after rt history).after rt c.before).files session_id) :
    ¬ ApprovedLine c.pending_io.fresh line := by
  intro happroved
  rw [← after_append] at hline
  have hempty := (mem_files_after fun o ho => h.others o (List.mem_append_left _ ho)).2 line hline
    happroved
  exact absurd hempty List.not_mem_nil

/-- Before the call nothing records its action. -/
theorem GateCall.New.no_record (h : c.New rt history) {line : Dict}
    (hline : line ∈ ((JsonlState.init.after rt history).after rt c.before).files session_id) :
    ¬ PendingLine c.pending_io.fresh line := by
  intro hpending
  rw [← after_append] at hline
  have hempty := no_record_after (fun o ho => h.records o (List.mem_append_left _ ho)) line hline
    hpending
  exact absurd hempty List.not_mem_nil

/-- The ids of the call are not cached when it starts. -/
theorem neverCached_before {u : Uuid} (hu : ∀ o ∈ history ++ c.before,
    rt.toUuid (o.envelope.get "event_id") ≠ .ok u) :
    NeverCached u ((JsonlState.init.after rt history).after rt c.before).idempotency := by
  rw [← after_append]
  exact (neverCached_init u).after hu

/-- The lines of the session once the record was submitted: nothing approves its action, and its own
    line is among them exactly if it stands on a line of its own. -/
theorem lines_submitted (h : c.New rt history) {lines : List Dict} {line : Dict}
    (hpending : PendingLine c.pending_io.fresh line)
    (hlines : lines = if !c.pending_torn then
      ((JsonlState.init.after rt history).after rt c.before).files session_id ++ [line]
      else ((JsonlState.init.after rt history).after rt c.before).files session_id) :
    (∀ l ∈ lines, ¬ ApprovedLine c.pending_io.fresh l) ∧
      ((∃ l ∈ lines, PendingLine c.pending_io.fresh l) ↔ c.pending_torn = false) := by
  subst hlines
  cases c.pending_torn with
  | false =>
    refine ⟨fun l hl happroved => ?_, fun _ => rfl, fun _ =>
      ⟨line, List.mem_append_right _ List.mem_cons_self, hpending⟩⟩
    rcases List.mem_append.mp hl with hl | hl
    · exact h.no_approval hl happroved
    · -- a record is no approval
      rw [List.mem_singleton.mp hl] at happroved
      exact absurd (hpending.event_type.symm.trans happroved.1) (by simp)
  | true =>
    refine ⟨fun l hl => h.no_approval hl, ?_, fun htorn => absurd htorn.symm Bool.false_ne_true⟩
    rintro ⟨l, hl, hl'⟩
    exact absurd hl' (h.no_record hl)

/-- After the pending record was submitted: its line stays if it is there, the operator's decision
    is written if it can be, and nothing else approves the action. -/
theorem approval_written (h : c.New rt history) {sdk_version : JStr} {ctx' : SessionContext}
    {s : JsonlState} {context_presented : Dict} {raw : JStr}
    (hcached : NeverCached c.approval.event_id s.idempotency)
    (hnone : ∀ line ∈ s.files ctx'.session_id.text, ¬ ApprovedLine c.pending_io.fresh line)
    (happroves : approves raw = true) :
    let files := ((s.after rt c.between).handleTorn rt c.approval_io c.approval_torn
      (approvalEnvelope sdk_version ctx' c.approval c.approval_now
        (c.approvalFields context_presented c.pending_io.fresh raw))).2.files ctx'.session_id.text
    ((∃ line ∈ files, PendingLine c.pending_io.fresh line) ↔
        ∃ line ∈ s.files ctx'.session_id.text, PendingLine c.pending_io.fresh line) ∧
      ((∃ line ∈ files, ApprovedLine c.pending_io.fresh line) ↔
        (c.approval_io.append.lands && !c.approval_torn) = true) := by
  intro files
  -- the calls before the approval leave both questions as they are
  have hothers : ∀ o ∈ c.between, NoApprovalOf c.pending_io.fresh o.envelope := fun o ho =>
    h.others o (List.mem_append_right _ ho)
  obtain ⟨hkeep, hnew⟩ := @mem_files_after rt s c.pending_io.fresh ctx'.session_id.text c.between
    hothers
  have hcached' := @NeverCached.after rt _ s hcached c.between fun o ho =>
    h.approval o (List.mem_append_right _ ho)
  obtain ⟨line, htype, hpayload, hfiles⟩ := @handle_approval rt (s.after rt c.between)
    c.approval_io sdk_version ctx' c.approval hcached' c.approval_now
    (c.approvalFields context_presented c.pending_io.fresh raw) c.approval_torn
  have hsession : files = _ := congrFun hfiles ctx'.session_id.text
  have hrecords := @no_record_after rt s c.pending_io.fresh ctx'.session_id.text c.between
    fun o ho => h.records o (List.mem_append_right _ ho)
  cases hwrite : (c.approval_io.append.lands && !c.approval_torn) with
  | false =>
    rw [hwrite, if_neg Bool.false_ne_true] at hsession
    rw [hsession]
    refine ⟨⟨?_, ?_⟩, ?_, fun hok => absurd hok Bool.false_ne_true⟩
    · rintro ⟨l, hl, hpending⟩
      exact ⟨l, hrecords l hl hpending, hpending⟩
    · rintro ⟨l, hl, hpending⟩
      exact ⟨l, hkeep l hl, hpending⟩
    · rintro ⟨l, hl, happroved⟩
      exact absurd happroved (hnone l (hnew l hl happroved))
  | true =>
    rw [hwrite, if_pos rfl, Function.update_self] at hsession
    refine ⟨⟨?_, ?_⟩, fun _ => rfl, fun _ => ⟨line, ?_, htype, _, hpayload, ?_, ?_⟩⟩
    · rw [hsession]
      rintro ⟨l, hl, hpending⟩
      rcases List.mem_append.mp hl with hl | hl
      · exact ⟨l, hrecords l hl hpending, hpending⟩
      · -- an approval is no action
        rw [List.mem_singleton.mp hl] at hpending
        exact absurd (hpending.event_type.symm.trans htype) (by simp)
    · rintro ⟨l, hl, hpending⟩
      rw [hsession]
      exact ⟨l, List.mem_append_left _ (hkeep l hl), hpending⟩
    · rw [hsession]
      exact List.mem_append_right _ List.mem_cons_self
    · simp [ApprovalFields.payload, GateCall.approvalFields, Dict.get_ofFields]
    · simp [ApprovalFields.payload, GateCall.approvalFields, Dict.get_ofFields, List.lookup_cons,
        happroves]

/-- **One gated call.**  The tool is called exactly if the record is submitted and the operator
    approves, for the action minted; then the two lines are in the file exactly if they come to
    stand there. -/
theorem emitHitlActionSync_spec (h : c.New rt history) :
    (¬ c.Approved rt → ∀ action_id,
      (emitHitlActionSync rt ctx (JsonlState.init.after rt history) c).1 ≠ .called action_id) ∧
    (c.Approved rt →
      (emitHitlActionSync rt ctx (JsonlState.init.after rt history) c).1 =
          .called c.pending_io.fresh ∧
        ((∃ line ∈ (emitHitlActionSync rt ctx (JsonlState.init.after rt history) c).2.files
            ctx.session_id.text, PendingLine c.pending_io.fresh line) ↔ c.pending_torn = false) ∧
        ((∃ line ∈ (emitHitlActionSync rt ctx (JsonlState.init.after rt history) c).2.files
            ctx.session_id.text, ApprovedLine c.pending_io.fresh line) ↔
          (c.approval_io.append.lands && !c.approval_torn) = true)) := by
  -- the branches of the source in their order: each but the last ends without the tool
  unfold emitHitlActionSync
  cases htty : c.isatty with
  | false =>
    rw [Bool.not_false, if_pos rfl]
    refine ⟨fun _ action_id hout => absurd hout (by simp), fun happroved => ?_⟩
    exact absurd (htty.symm.trans happroved.isatty) Bool.false_ne_true
  | true =>
  rw [Bool.not_true, if_neg Bool.false_ne_true]
  cases hinput : c.redacted_input with
  | none =>
    refine ⟨fun _ action_id hout => absurd hout (by simp), fun happroved => ?_⟩
    exact absurd happroved.input (by simp [hinput])
  | some redacted_input =>
  cases hcontext : c.context_presented with
  | none =>
    refine ⟨fun _ action_id hout => absurd hout (by simp), fun happroved => ?_⟩
    exact absurd happroved.context (by simp [hcontext])
  | some context_presented =>
  dsimp only
  obtain ⟨line, hpending, hfiles, hreply⟩ := @handle_pending rt
    ((JsonlState.init.after rt history).after rt c.before) c.pending_io c.sdk_version
    { ctx with pending_decision_id := none } c.pending (neverCached_before h.pending)
    (c.actionFields rt ctx redacted_input) rfl h.aware c.pending_torn
  have hknown : NeverCached c.approval.event_id
      (((JsonlState.init.after rt history).after rt c.before).handleTorn rt c.pending_io
        c.pending_torn
          (actionEnvelope c.sdk_version { ctx with pending_decision_id := none } c.pending
          (c.actionFields rt ctx redacted_input))).2.idempotency := by
    refine NeverCached.handleTorn
      (neverCached_before fun o ho => h.approval o (List.mem_append_left _ ho)) ?_
    unfold actionEnvelope
    rw [get_envelopeOf_event_id, rt.toUuid_text]
    exact fun heq => h.different (Except.ok.inj heq)
  generalize JsonlState.handleTorn rt c.pending_io c.pending_torn
    ((JsonlState.init.after rt history).after rt c.before) _ = reply at hfiles hreply hknown ⊢
  obtain ⟨result, s⟩ := reply
  dsimp only at hfiles hreply hknown ⊢
  rcases hreply with ⟨hwrite, hdate, response, rfl, hentity⟩ | ⟨hnot, e, rfl⟩
  · -- the record was submitted
    rw [show (tryIngest { ctx with pending_decision_id := none }
      ((Except.ok response : Except PyError IngestResponse).mapError ClientError.python)).1 =
        .ok (some response) from rfl]
    dsimp only
    rw [Option.bind_some, hentity]
    dsimp only
    rw [Append.lands_of_returns hwrite, Bool.true_and] at hfiles
    have hsession : s.files ctx.session_id.text = if !c.pending_torn then
        ((JsonlState.init.after rt history).after rt c.before).files ctx.session_id.text ++ [line]
        else ((JsonlState.init.after rt history).after rt c.before).files ctx.session_id.text := by
      rw [hfiles]
      split_ifs
      · exact Function.update_self ..
      · rfl
    cases hanswer : c.answer with
    | none =>
      refine ⟨fun _ action_id hout => absurd hout (by simp), fun happroved => ?_⟩
      obtain ⟨text, htext, -⟩ := happroved.answer
      exact absurd (hanswer.symm.trans htext) (by simp)
    | some text =>
    dsimp only
    rw [emitApprovalRecord_python]
    dsimp only
    by_cases happroves : approves (strip text) = true
    · -- the operator approves
      rw [if_pos happroves]
      obtain ⟨hnone, hthere⟩ := lines_submitted h hpending hsession
      have happroved : c.Approved rt :=
        ⟨htty, by rw [hinput]; rfl, by rw [hcontext]; rfl, hwrite, hdate, text, hanswer, happroves⟩
      refine ⟨fun hno => absurd happroved hno, fun _ => ⟨rfl, ?_⟩⟩
      obtain ⟨hkept, hdecided⟩ := @approval_written rt c history h c.sdk_version
        { ctx with pending_decision_id := none } s context_presented (strip text) hknown hnone
        happroves
      exact ⟨hkept.trans hthere, hdecided⟩
    · -- the operator rejects
      rw [if_neg happroves]
      refine ⟨fun _ action_id hout => absurd hout (by simp), fun happroved => ?_⟩
      obtain ⟨text', htext', happroves'⟩ := happroved.answer
      obtain rfl := Option.some.inj (hanswer.symm.trans htext')
      exact absurd happroves' happroves
  · -- it was not
    refine ⟨fun _ action_id hout => ?_, fun happroved => ?_⟩
    · exact absurd hout (by simp [tryIngest, Except.mapError])
    · exact absurd ⟨happroved.returned, happroved.cached⟩ hnot

/-- **The gate of the JSONL backend.**  After any calls on the client, and with any others in
    between, a gated call fails closed exactly when both its lines come to stand in the file if the
    record was submitted and the operator approves. -/
theorem gate_fails_closed_iff (rt : Runtime) (ctx : SessionContext) (c : GateCall)
    (history : List OtherCall) (h : c.New rt history) :
    GateFailsClosed ctx (emitHitlActionSync rt ctx (JsonlState.init.after rt history) c) ↔
      (c.Approved rt → c.Stands) := by
  obtain ⟨hnot, hcalled⟩ := @emitHitlActionSync_spec rt ctx c history h
  constructor
  · intro hclosed happroved
    obtain ⟨hout, hpending, happroval⟩ := hcalled happroved
    have hlands := happroval.mp (hclosed _ hout).2
    rw [Bool.and_eq_true, Bool.not_eq_true'] at hlands
    exact ⟨hpending.mp (hclosed _ hout).1, hlands.1, hlands.2⟩
  · intro hstands action_id hout
    by_cases happroved : c.Approved rt
    · obtain ⟨hout', hpending, happroval⟩ := hcalled happroved
      obtain rfl : action_id = c.pending_io.fresh :=
        GateOutcome.called.inj (hout.symm.trans hout')
      obtain ⟨hwhole, hlands, hwhole'⟩ := hstands happroved
      refine ⟨hpending.mpr hwhole, happroval.mpr ?_⟩
      rw [hlands, hwhole']
      rfl
    · exact absurd hout (hnot happroved action_id)

end

/-- The operator answers `y` to a call on an unused client. -/
def answeredYes (append : Append) : GateCall where
  sdk_version := "1"
  tool_name := "wire_transfer"
  isatty := true
  redacted_input := some (.obj [])
  context_presented := some []
  timestamp := mayNoon
  before := []
  pending := ⟨freshUuid 5, mayNoon⟩
  pending_io := ⟨freshUuid 6, mayNoon, mayNoon, mayNoon, mayNoon, .written⟩
  pending_torn := false
  answer := some "y"
  user := "ops"
  between := []
  approval := ⟨freshUuid 7, mayNoon⟩
  approval_now := mayNoon
  approval_io := ⟨freshUuid 8, mayNoon, mayNoon, mayNoon, mayNoon, append⟩
  approval_torn := false

theorem answeredYes_new (append : Append) : (answeredYes append).New exampleRuntime [] where
  pending := nofun
  approval := nofun
  different := show freshUuid 5 ≠ freshUuid 7 by decide
  aware := rfl
  records := nofun
  others := nofun

theorem answeredYes_approved (append : Append) :
    (answeredYes append).Approved exampleRuntime where
  isatty := rfl
  input := rfl
  context := rfl
  returned := rfl
  cached := by
    show mayNoon.time.canAdd ttl = true
    rw [PyDateTime.canAdd]
    decide
  answer := ⟨"y", rfl, by decide⟩

/-- The session of the examples. -/
def exampleContext : SessionContext where
  agent_id := exampleAgent
  session_id := exampleSession

theorem gate_fails_closed_written :
    GateFailsClosed exampleContext (emitHitlActionSync exampleRuntime exampleContext
      (JsonlState.init.after exampleRuntime []) (answeredYes .written)) :=
  (gate_fails_closed_iff exampleRuntime exampleContext (answeredYes .written) []
    (answeredYes_new .written)).mpr fun _ => ⟨rfl, rfl, rfl⟩

/-- The disk is full when the approval gets its turn: its `OSError` is swallowed, and the tool is
    called. -/
theorem not_gate_fails_closed_unwritten :
    ¬ GateFailsClosed exampleContext (emitHitlActionSync exampleRuntime exampleContext
      (JsonlState.init.after exampleRuntime []) (answeredYes .unwritten)) := by
  intro hclosed
  obtain ⟨hout, -, hiff⟩ := (@emitHitlActionSync_spec exampleRuntime exampleContext
    (answeredYes .unwritten) [] (answeredYes_new .unwritten)).2 (answeredYes_approved .unwritten)
  exact absurd (hiff.mp (hclosed _ hout).2) Bool.false_ne_true

end RootSign
