import RootSign.Delivery
import RootSign.Sdk.Decorator

namespace RootSign

open RootSign.Lib RootSign.Python

/-!
# References across the spool (`rootsign/sdk/context.py`, `rootsign/sdk/spool.py`)

The id of a decision is the one its destination gave it: the store's, or the one that the writer of
the spool has minted.  It waits in the slot of the session until a tool call takes it, and goes out
with the action of that call.  The writer's id is on the line of the decision only; it comes off
when the spool is read back, and the store assigns its own.

* `LinkStore` — a store that assigns the ids of decisions;
* `LinkSetup.hand` — one call of `handle` against the store, and `hand_alone`: it is a call of the
  client alone;
* `LinkedSession.step` — a decision, the start and the end of a tool call, or a run of `sync`;
* `crossLinked` — the links that the store takes are right, as long as no tool call takes a decision
  from the spool.
-/

variable {τ : Type}

/-! ### The store -/

/-- A store that assigns ids: the id a decision is held under, and the `decision_id` of an action,
    by their event ids. -/
structure LinkStore (τ : Type) extends EventStore τ where
  decision : τ → Json → Option Uuid
  link : τ → Json → Option Json

/-- It keeps the decisions, answers with the id that a decision is held under, and holds what
    actions carried. -/
structure LinkStore.Assigns (rt : Runtime) (cfg : HttpConfig) (store : LinkStore τ) : Prop where
  keeps : ∀ t batch event id, store.decision t event = some id →
    store.decision (store.post t batch).2 event = some id
  answers : ∀ t (batch : List Dict) (i : ℕ) (envelope : Dict) response id,
    batch[i]? = some envelope → envelope.get "event_type" = .str "DECISION_RECORD" →
    (interpret rt cfg batch (store.post t batch).1)[i]? = some response →
    response.entity_id = some id →
    store.decision (store.post t batch).2 (envelope.get "event_id") = some id
  takes : ∀ t batch event v, store.link (store.post t batch).2 event = some v →
    store.link t event = some v ∨ ∃ envelope ∈ batch,
      envelope.get "event_type" = .str "ACTION_RECORD" ∧ envelope.get "event_id" = event ∧
        decisionIdOf envelope = v

/-! ### The session -/

/-- A session of an agent, its store, and the spool file that `sync` reads. -/
structure LinkSetup (τ : Type) where
  rt : Runtime
  cfg : HttpConfig
  sync_cfg : HttpConfig
  store : LinkStore τ
  sdk_version : JStr
  context : SessionContext
  src : SpoolSource

/-- What a call of `handle` leads to; `spooled` is whether the envelope was handed to the spool. -/
structure Handed (τ : Type) where
  result : Except ClientError IngestResponse
  http : HttpState
  store : τ
  spooled : Bool

/-- A decision that the SDK was given an id for: the id, the event, and whether the id is that of
    the spool's writer. -/
structure DecisionRef where
  id : Uuid
  event_id : Json
  spooled : Bool

/-- The slot of the session, what the running tool calls have taken from it, and the client.  The
    links are history: each action with the decision it was linked to. -/
structure LinkedSession (τ : Type) where
  slot : Option DecisionRef
  taken : ℕ → Option (Option DecisionRef)
  http : HttpState
  store : τ
  links : List (Json × DecisionRef)

/-- What can happen: a decision is recorded, a tool call takes the slot, a tool call is recorded, or
    the operator runs `sync`. -/
inductive LinkStep where
  | decide (m : Minted) (now : UtcNow) (d : DecisionFields) (fresh : Uuid) (io : ℕ → SpoolIO)
  | take (call : ℕ)
  | act (call : ℕ) (m : Minted) (a : ActionFields) (fresh : Uuid) (io : ℕ → SpoolIO)
  | sync (batch_size : ℤ) (fresh : Dict → Uuid)

namespace LinkSetup

/-- `handle`: the only response of `handle_batch`. -/
def hand (w : LinkSetup τ) (s : HttpState) (t : τ) (envelope : Dict) (fresh : Uuid)
    (io : ℕ → SpoolIO) : Handed τ :=
  match s.sealAll w.rt [(envelope, fresh)] with
  | (.error e, s) => { result := .error (.python e), http := s, store := t, spooled := false }
  | (.ok batch, s) =>
    if s.spooling then
      let written := s.writeToSpool w.rt w.cfg io batch.zipIdx
      { result := written.1.map (·.headD placeholder), http := written.2, store := t,
        spooled := true }
    else
      let sent := (HttpBatch.start batch).deliver w.rt w.cfg w.store.toEventStore
        w.cfg.max_retries t
      let settled := s.settle w.rt w.cfg sent.1 io
      { result := settled.1.map (·.headD placeholder), http := settled.2, store := sent.2.2,
        spooled := w.cfg.enable_spool && !sent.1.unsent.isEmpty }

/-- The session's context. -/
def contextOf (w : LinkSetup τ) (slot : Option DecisionRef) : SessionContext :=
  { w.context with pending_decision_id := slot.map DecisionRef.id }

/-- The name of the session's file. -/
def fileId (w : LinkSetup τ) : JStr := w.context.session_id.text

end LinkSetup

namespace LinkedSession

/-- A session that nothing has happened in. -/
def opened (t : τ) : LinkedSession τ where
  slot := none
  taken := fun _ => none
  http := .init
  store := t
  links := []

/-- The slot after a decision; what is raised leaves it as it was. -/
def slotAfter (slot : Option DecisionRef) (event_id : Json) (handed : Handed τ) :
    Option DecisionRef :=
  match emitDecisionRecord handed.result with
  | .ok id => id.map fun id => { id := id, event_id := event_id, spooled := handed.spooled }
  | .error _ => slot

/-- `record_decision`. -/
def decide (w : LinkSetup τ) (s : LinkedSession τ) (m : Minted) (now : UtcNow)
    (d : DecisionFields) (fresh : Uuid) (io : ℕ → SpoolIO) : LinkedSession τ :=
  let envelope := decisionEnvelope w.sdk_version w.context m now d
  let handed := w.hand s.http s.store envelope fresh io
  { s with
    slot := slotAfter s.slot (envelope.get "event_id") handed
    http := handed.http
    store := handed.store }

/-- `_emit_action_record`, from the end of the tool call on. -/
def act (w : LinkSetup τ) (s : LinkedSession τ) (call : ℕ) (ref : Option DecisionRef)
    (m : Minted) (a : ActionFields) (fresh : Uuid) (io : ℕ → SpoolIO) : LinkedSession τ :=
  let envelope := actionEnvelope w.sdk_version w.context m
    { a with decision_id := ref.map DecisionRef.id }
  let handed := w.hand s.http s.store envelope fresh io
  { s with
    taken := Function.update s.taken call none
    http := handed.http
    store := handed.store
    links := s.links ++ (ref.map fun r => (envelope.get "event_id", r)).toList }

/-- `_sync_one`: the file is read and uploaded, and moved away if the upload was complete. -/
def sync (w : LinkSetup τ) (s : LinkedSession τ) (batch_size : ℤ) (fresh : Dict → Uuid) :
    LinkedSession τ :=
  match readSpoolSession w.rt w.src (recordLines (s.http.spool.files w.fileId)) with
  | .error _ => s
  | .ok session =>
    let replayed := replayEnvelopes
      (SyncLink.client w.rt w.sync_cfg w.store.toEventStore fresh) (.opened s.store)
      session.envelopes batch_size
    let moved := match replayed.1 with
      | .ok report => report.complete
      | .error _ => false
    { s with
      store := replayed.2.store
      http := if moved then
          { s.http with spool := { s.http.spool with
            files := Function.update s.http.spool.files w.fileId [] } }
        else s.http }

/-- One step. -/
def step (w : LinkSetup τ) (s : LinkedSession τ) : LinkStep → Option (LinkedSession τ)
  | .decide m now d fresh io => some (s.decide w m now d fresh io)
  | .take call =>
    match s.taken call with
    | some _ => none
    | none => some { s with slot := none, taken := Function.update s.taken call (some s.slot) }
  | .act call m a fresh io =>
    match s.taken call with
    | some ref => some (s.act w call ref m a fresh io)
    | none => none
  | .sync batch_size fresh => some (s.sync w batch_size fresh)

end LinkedSession

/-! ### What is to hold -/

namespace LinkSetup

/-- What the action with the event id carries is nothing, or the id that the store holds the
    decision under that it was linked to. -/
def Linked (w : LinkSetup τ) (t : τ) (links : List (Json × DecisionRef)) (event v : Json) : Prop :=
  v = .null ∨ ∃ ref id, (event, ref) ∈ links ∧ w.store.decision t ref.event_id = some id ∧
    v = .str id.text

/-- So it is of every action the store holds, but those it held from the start. -/
def StoreLinked (w : LinkSetup τ) (t₀ t : τ) (links : List (Json × DecisionRef)) : Prop :=
  ∀ event v, w.store.link t event = some v → w.store.link t₀ event = some v ∨
    w.Linked t links event v

/-- An envelope may be sent: an action is linked. -/
def EnvelopeLinked (w : LinkSetup τ) (t : τ) (links : List (Json × DecisionRef)) (e : Dict) :
    Prop :=
  e.get "event_type" = .str "ACTION_RECORD" →
    w.Linked t links (e.get "event_id") (decisionIdOf e)

/-- A later store holds the decisions under the same ids. -/
def Later (w : LinkSetup τ) (t t' : τ) : Prop :=
  ∀ event id, w.store.decision t event = some id → w.store.decision t' event = some id

end LinkSetup

namespace LinkedSession

/-- **Cross-references.** -/
def CrossLinked (w : LinkSetup τ) (t₀ : τ) (s : LinkedSession τ) : Prop :=
  w.StoreLinked t₀ s.store s.links

/-- The decision that a tool call takes did not go to the spool. -/
def TakesAnswered (s : LinkedSession τ) : LinkStep → Prop
  | .take _ => ∀ ref ∈ s.slot, ref.spooled = false
  | _ => True

instance (s : LinkedSession τ) : ∀ l, Decidable (s.TakesAnswered l)
  | .take _ => inferInstanceAs (Decidable (∀ ref ∈ s.slot, ref.spooled = false))
  | .decide .. => .isTrue trivial
  | .act .. => .isTrue trivial
  | .sync .. => .isTrue trivial

end LinkedSession

/-! ### Lines -/

section

variable {src : SpoolSource} {record payload e : Dict}

/-- `setdefault` touches one key. -/
theorem get_setDefault {key other : String} (h : other ≠ key) (value : Json) :
    (setDefault payload key value).get other = payload.get other := by
  unfold setDefault
  split
  · rfl
  · rw [Dict.get_set, if_neg h]

/-- The shell has the fields of the line, but the payload and the versions. -/
theorem get_envelopeShell {key : String} (hkey : key ∈ envelopeFields) (hpayload : key ≠ "payload")
    (hschema : key ≠ "schema_version") (hsdk : key ≠ "sdk_version") :
    (envelopeShell src record payload).get key = record.get key := by
  unfold envelopeShell
  dsimp only
  rw [get_setDefault hsdk, get_setDefault hschema, Dict.get_set, if_neg hpayload]
  show (pick envelopeFields record).getD key .null = record.getD key .null
  rw [Dict.getD, Dict.getD, lookup_pick hkey]

/-- A rebuilt envelope refers to the decision that its payload names. -/
theorem decisionIdOf_envelopeShell :
    decisionIdOf (envelopeShell src record payload) = payload.get "decision_id" := by
  unfold decisionIdOf envelopeShell
  dsimp only
  rw [get_setDefault (by decide), get_setDefault (by decide), Dict.get_set, if_pos rfl]

/-- What an envelope has of its line. -/
theorem envelopeOfRecord_get (h : envelopeOfRecord src record = some e) :
    e.get "event_type" = record.get "event_type" ∧ e.get "event_id" = record.get "event_id" ∧
      (record.get "event_type" = .str "ACTION_RECORD" →
        decisionIdOf e = record.get "decision_id") := by
  have hget : ∀ payload : Dict,
      (envelopeShell src record payload).get "event_type" = record.get "event_type" ∧
        (envelopeShell src record payload).get "event_id" = record.get "event_id" := fun payload =>
    ⟨get_envelopeShell (by decide) (by decide) (by decide) (by decide),
      get_envelopeShell (by decide) (by decide) (by decide) (by decide)⟩
  unfold envelopeOfRecord at h
  split at h
  case h_2 => cases h
  case h_1 =>
    split_ifs at h with haction
    · obtain rfl := Option.some.inj h
      refine ⟨(hget _).1, (hget _).2, fun _ => ?_⟩
      rw [decisionIdOf_envelopeShell]
      show (pick actionPayloadFields record).getD "decision_id" .null = _
      rw [Dict.getD, lookup_pick (by decide)]
      rfl
    · split at h
      · obtain rfl := Option.some.inj h
        exact ⟨(hget _).1, (hget _).2, fun heq => absurd (Json.pyEq_str.mpr heq) haction⟩
      · cases h

/-- What is no event is read as no envelope. -/
theorem envelopeOfRecord_loss (h : record.get "event_type" = .str "RECORD_LOSS") :
    envelopeOfRecord src record = none := by
  unfold envelopeOfRecord
  rw [h]
  rfl

end

/-! ### Sending -/

namespace LinkSetup

variable {w : LinkSetup τ} {t t' t₀ : τ} {links links' : List (Json × DecisionRef)}
  {event v : Json} {e : Dict} {batch : List Dict}

/-- A store is as late as itself. -/
theorem Later.refl (w : LinkSetup τ) (t : τ) : w.Later t t := fun _ _ h => h

/-- A link made earlier holds later. -/
theorem Linked.mono (h : w.Linked t links event v) (hlater : w.Later t t')
    (hsub : links ⊆ links') : w.Linked t' links' event v := by
  rcases h with hnull | ⟨ref, id, hmem, hid, hv⟩
  · exact Or.inl hnull
  · exact Or.inr ⟨ref, id, hsub hmem, hlater _ _ hid, hv⟩

/-- An envelope linked earlier is linked later. -/
theorem EnvelopeLinked.mono (h : w.EnvelopeLinked t links e) (hlater : w.Later t t')
    (hsub : links ⊆ links') : w.EnvelopeLinked t' links' e :=
  fun haction => (h haction).mono hlater hsub

/-- More links are known later. -/
theorem StoreLinked.mono (h : w.StoreLinked t₀ t links) (hsub : links ⊆ links') :
    w.StoreLinked t₀ t links' :=
  fun event v hlink => (h event v hlink).imp_right fun hl => hl.mono (.refl w t) hsub

/-- Only the type, the id and the link of an envelope matter. -/
theorem EnvelopeLinked.congr (h : w.EnvelopeLinked t links e) {e' : Dict}
    (hkeep : ∀ key, key ≠ "payload" → e'.get key = e.get key)
    (hdecision : decisionIdOf e' = decisionIdOf e) : w.EnvelopeLinked t links e' := by
  intro haction
  rw [hkeep "event_type" (by decide)] at haction
  rw [hkeep "event_id" (by decide), hdecision]
  exact h haction

/-- What sending has done: no decision has another id, and what the store holds is linked. -/
structure SentLinked (w : LinkSetup τ) (t₀ t : τ) (links : List (Json × DecisionRef)) (t' : τ) :
    Prop where
  later : w.Later t t'
  linked : w.StoreLinked t₀ t' links

/-- One POST. -/
theorem SentLinked.post {rt : Runtime} {cfg : HttpConfig} (h : w.SentLinked t₀ t links t')
    (hstore : w.store.Assigns rt cfg) (hbatch : ∀ e ∈ batch, w.EnvelopeLinked t links e) :
    w.SentLinked t₀ t links (w.store.post t' batch).2 := by
  have hpost : w.Later t' (w.store.post t' batch).2 := fun event id =>
    hstore.keeps t' batch event id
  refine ⟨fun event id hid => hpost event id (h.later event id hid), fun event v hlink => ?_⟩
  rcases hstore.takes t' batch event v hlink with hold | ⟨e, he, haction, rfl, rfl⟩
  · exact (h.linked event v hold).imp_right fun hl => hl.mono hpost fun _ hx => hx
  · have hnow := hbatch e he haction
    apply Or.inr
    exact (hnow.mono h.later fun _ hx => hx).mono hpost fun _ hx => hx

/-- The retry loop, for any client. -/
theorem deliver_linked {rt : Runtime} {cfg cfg' : HttpConfig} (hstore : w.store.Assigns rt cfg)
    {b : HttpBatch} (hsound : b.Sound) (h : w.SentLinked t₀ t links t')
    (hgood : ∀ e ∈ b.envelopes, w.EnvelopeLinked t links e) (attempts : ℕ) :
    w.SentLinked t₀ t links (b.deliver rt cfg' w.store.toEventStore attempts t').2.2 :=
  (@HttpBatch.deliver_rule τ rt cfg' w.store.toEventStore b (w.SentLinked t₀ t links)
    (fun _ _ _ => True) attempts t' hsound
    (fun _ _ hsub hP => hP.post hstore fun e he => hgood e (hsub e he))
    (fun _ _ _ _ _ _ _ _ _ => trivial) (fun _ _ _ _ _ _ _ => trivial) h).1

/-- The retry loop answers with the ids that decisions are held under. -/
theorem deliver_answers {rt : Runtime} {cfg : HttpConfig} (hstore : w.store.Assigns rt cfg)
    {b : HttpBatch} (hsound : b.Sound) (attempts : ℕ) (t : τ) :
    ∀ round ∈ (b.deliver rt cfg w.store.toEventStore attempts t).2.1, ∀ p ∈ round,
      ∃ e, b.envelopes[p.1]? = some e ∧ (e.get "event_type" = .str "DECISION_RECORD" →
        ∀ id, p.2.entity_id = some id → w.store.decision
          (b.deliver rt cfg w.store.toEventStore attempts t).2.2 (e.get "event_id") = some id) :=
  (@HttpBatch.deliver_rule τ rt cfg w.store.toEventStore b (fun _ => True)
    (fun e r t' => e.get "event_type" = .str "DECISION_RECORD" → ∀ id, r.entity_id = some id →
      w.store.decision t' (e.get "event_id") = some id) attempts t hsound
    (fun _ _ _ _ => trivial)
    (fun t' batch j e r _ _ he hr hkind id => hstore.answers t' batch j e r id he hkind hr)
    (fun t' batch _ _ _ _ hheld hkind id hid => hstore.keeps t' batch _ id (hheld hkind id hid))
    trivial).2.2

/-- **An upload.** -/
theorem replay_linked {rt : Runtime} {cfg cfg' : HttpConfig} (hstore : w.store.Assigns rt cfg)
    {envelopes : List Dict} (h : w.StoreLinked t₀ t links)
    (hgood : ∀ e ∈ envelopes, w.EnvelopeLinked t links e) (fresh : Dict → Uuid)
    (batch_size : ℤ) :
    w.SentLinked t₀ t links (replayEnvelopes (SyncLink.client rt cfg' w.store.toEventStore fresh)
      (.opened t) envelopes batch_size).2.store := by
  apply replay_rule
  · intro t' sent hsub hP
    refine hP.post hstore fun e' he' => ?_
    obtain ⟨e, he, hfields, hdecision⟩ := hsub e' he'
    exact (hgood e he).congr hfields hdecision
  · exact ⟨.refl w t, h⟩

/-- **The call is one of the client alone**, under the replies that the store gives. -/
theorem hand_alone (w : LinkSetup τ) (s : HttpState) (t : τ) (envelope : Dict) (fresh : Uuid)
    (io : ℕ → SpoolIO) : ∃ replies,
      ((s.handleAlone w.rt w.cfg ⟨[(envelope, fresh)], replies, io⟩).result.map
          (·.headD placeholder)) = (w.hand s t envelope fresh io).result ∧
        (s.handleAlone w.rt w.cfg ⟨[(envelope, fresh)], replies, io⟩).state =
          (w.hand s t envelope fresh io).http := by
  unfold HttpState.handleAlone hand
  dsimp only [List.isEmpty_cons]
  generalize s.sealAll w.rt [(envelope, fresh)] = sealed
  obtain ⟨result, http⟩ := sealed
  cases result with
  | error e => exact ⟨fun _ => .timeout "", rfl, rfl⟩
  | ok batch =>
    by_cases hspooling : http.spooling = true
    · exact ⟨fun _ => .timeout "", by simp [hspooling], by simp [hspooling]⟩
    · obtain ⟨replies, hreplies⟩ := HttpBatch.exists_replies w.rt w.cfg w.store.toEventStore
        w.cfg.max_retries t (HttpBatch.start batch)
      exact ⟨replies, by simp [hspooling, hreplies], by simp [hspooling, hreplies]⟩

/-- The result of a slot was given in some round. -/
theorem result_of_deliver {rt : Runtime} {cfg : HttpConfig} {store : EventStore τ}
    (batch : List Dict) (t : τ) {i : ℕ} (hi : i < batch.length) :
    ∃ round ∈ ((HttpBatch.start batch).deliver rt cfg store cfg.max_retries t).2.1, ∃ r,
      (i, r) ∈ round ∧
        ((HttpBatch.start batch).deliver rt cfg store cfg.max_retries t).1.results[i]? =
          some r := by
  have hretries : 0 < cfg.max_retries := cfg.one_le_max_retries
  obtain ⟨replies, hreplies⟩ := HttpBatch.exists_replies rt cfg store cfg.max_retries t
    (HttpBatch.start batch)
  obtain ⟨hbatch, hrounds⟩ := Prod.ext_iff.mp hreplies
  dsimp only at hbatch hrounds
  rw [← hbatch, ← hrounds, HttpBatch.results_exchange rt cfg replies batch hretries hi]
  obtain ⟨r, hr⟩ := Option.isSome_iff_exists.mp
    (HttpBatch.lastAnswer_isSome rt cfg replies batch hretries hi)
  obtain ⟨round, hround, hmem⟩ := exists_round_of_lastAnswer hr
  exact ⟨round, hround, r, hmem, hr⟩

/-- Handing over a linked envelope. -/
theorem hand_linked (hstore : w.store.Assigns w.rt w.cfg) (h : w.StoreLinked t₀ t links)
    (hgood : w.EnvelopeLinked t links e) (s : HttpState) (fresh : Uuid) (io : ℕ → SpoolIO) :
    w.SentLinked t₀ t links (w.hand s t e fresh io).store := by
  have hkeep := @sealAll_keeps w.rt s [(e, fresh)]
  unfold hand
  generalize s.sealAll w.rt [(e, fresh)] = sealed at hkeep
  obtain ⟨result, http⟩ := sealed
  cases result with
  | error e => exact ⟨.refl w t, h⟩
  | ok batch =>
    dsimp only
    split_ifs
    · exact ⟨.refl w t, h⟩
    · apply deliver_linked hstore (HttpBatch.start_sound batch) ⟨.refl w t, h⟩
      intro e' he'
      obtain ⟨p, hp, hfields, hdecision⟩ := exists_of_mem_right (hkeep batch rfl) he'
      obtain rfl := List.mem_singleton.mp hp
      exact hgood.congr hfields hdecision

/-- **The id of a decision** that did not go to the spool is the one the store holds it under. -/
theorem hand_answers (hstore : w.store.Assigns w.rt w.cfg) {s : HttpState} {fresh : Uuid}
    {io : ℕ → SpoolIO} {response : IngestResponse} {id : Uuid}
    (hkind : e.get "event_type" = .str "DECISION_RECORD")
    (hspooled : (w.hand s t e fresh io).spooled = false)
    (hresult : (w.hand s t e fresh io).result = .ok response)
    (hid : response.entity_id = some id) :
    w.store.decision (w.hand s t e fresh io).store (e.get "event_id") = some id := by
  have hlength := fun batch s' => @length_sealAll w.rt s s' [(e, fresh)] batch
  have hkeep := @sealAll_keeps w.rt s [(e, fresh)]
  unfold hand at hspooled hresult ⊢
  generalize s.sealAll w.rt [(e, fresh)] = sealed at hlength hkeep hspooled hresult ⊢
  obtain ⟨result, http⟩ := sealed
  cases result with
  | error e => cases hresult
  | ok batch =>
    dsimp only at hspooled hresult ⊢
    split_ifs at hspooled hresult ⊢ with hspooling
    obtain ⟨round, hround, r, hr, hresults⟩ := @result_of_deliver τ w.rt w.cfg
      w.store.toEventStore batch t 0 (by rw [hlength batch http rfl]; exact Nat.one_pos)
    have hanswer := deliver_answers hstore (HttpBatch.start_sound batch) w.cfg.max_retries t round
      hround _ hr
    generalize (HttpBatch.start batch).deliver w.rt w.cfg w.store.toEventStore w.cfg.max_retries
      t = sent at hspooled hresult hresults hanswer ⊢
    obtain ⟨e', he', hanswer⟩ := hanswer
    -- nothing is left to the spool
    have hsettle : http.settle w.rt w.cfg sent.1 io = (.ok sent.1.results, http) := by
      have hnone : (sent.1.unsent.isEmpty || !w.cfg.enable_spool) = true := by
        rw [← Bool.not_false, ← hspooled, Bool.not_and, Bool.not_not, Bool.or_comm]
      exact if_pos hnone
    rw [hsettle] at hresult
    obtain rfl : r = response := by
      have hhead : sent.1.results.headD placeholder = response := Except.ok.inj hresult
      rw [List.headD_eq_head?_getD, List.head?_eq_getElem?, hresults] at hhead
      exact hhead
    obtain ⟨p, hp, hfields, -⟩ := exists_of_mem_right (hkeep batch rfl) (List.mem_of_getElem? he')
    obtain rfl := List.mem_singleton.mp hp
    rw [← hfields "event_id" (by decide)]
    rw [← hfields "event_type" (by decide)] at hkind
    exact hanswer hkind id hid

/-- **The lines of a call.** -/
theorem hand_lines {s : HttpState} {fresh : Uuid} {io : ℕ → SpoolIO} {session_id : JStr} :
    ∀ line ∈ (w.hand s t e fresh io).http.spool.files session_id,
      line ∈ s.spool.files session_id ∨ ∃ sealed,
        (∀ key, key ≠ "payload" → sealed.get key = e.get key) ∧
          decisionIdOf sealed = decisionIdOf e ∧ LineFrom w.rt sealed line := by
  obtain ⟨replies, -, hstate⟩ := hand_alone w s t e fresh io
  intro line hline
  rw [← hstate] at hline
  rcases handleAlone_lines s _ line hline with hold | ⟨batch, hbatch, sealed, hsealed, hfrom⟩
  · exact Or.inl hold
  · obtain ⟨p, hp, hfields, hdecision⟩ :=
      exists_of_mem_right (sealAll_keeps s _ batch hbatch) hsealed
    obtain rfl := List.mem_singleton.mp hp
    exact Or.inr ⟨sealed, hfields, hdecision, hfrom⟩

/-- A line is read as a linked envelope. -/
def LineLinked (w : LinkSetup τ) (t : τ) (links : List (Json × DecisionRef)) (line : Dict) : Prop :=
  ∀ e, envelopeOfRecord w.src line = some e → w.EnvelopeLinked t links e

/-- The line of a linked envelope is read as one: an action keeps its link, and of a decision the
    writer's id comes off. -/
theorem lineLinked_of_from {rt : Runtime} {id : Uuid} {line : Dict} (h : LineFrom rt e line)
    (hid : e.get "event_id" = .str id.text) (hgood : w.EnvelopeLinked t links e) :
    w.LineLinked t links line := by
  intro e' he'
  cases h with
  | action event_id hkind htext htype hevent hdecision =>
    obtain ⟨-, hget, hlink⟩ := envelopeOfRecord_get he'
    rw [hid, rt.toUuid_text] at htext
    obtain rfl := Except.ok.inj htext
    intro _
    rw [hget, hevent, hlink htype, hdecision, ← hid]
    exact hgood (Json.pyEq_str.mp hkind)
  | other hkind hfields =>
    obtain ⟨htype, -⟩ := envelopeOfRecord_get he'
    intro haction
    rw [htype, hfields "event_type" (by decide) (by decide)] at haction
    exact absurd (Json.pyEq_str.mpr haction) (Bool.eq_false_iff.mp hkind)
  | tally htype =>
    rw [envelopeOfRecord_loss htype] at he'
    cases he'

end LinkSetup

/-! ### The session -/

section

variable {w : LinkSetup τ} {s s' : LinkedSession τ} {t₀ : τ} {l : LinkStep}

/-- The store holds the decision under the id that the SDK was given. -/
def DecisionRef.Held (w : LinkSetup τ) (t : τ) (ref : DecisionRef) : Prop :=
  w.store.decision t ref.event_id = some ref.id

/-- The invariant: the decision in the slot is held by the store unless its id is the writer's, one
    that a tool call has taken is held, and everything sent or to be sent is linked. -/
structure LinkInv (w : LinkSetup τ) (t₀ : τ) (s : LinkedSession τ) : Prop where
  slot : ∀ ref, s.slot = some ref → ref.spooled = false → ref.Held w s.store
  taken : ∀ call ref, s.taken call = some (some ref) → ref.Held w s.store
  lines : ∀ line ∈ s.http.spool.files w.fileId, w.LineLinked s.store s.links line
  linked : s.CrossLinked w t₀

/-- A session that was just opened has nothing to link. -/
theorem LinkInv.opened (w : LinkSetup τ) (t : τ) : LinkInv w t (.opened t) where
  slot _ hslot := absurd hslot nofun
  taken _ _ htaken := absurd htaken nofun
  lines _ hline := absurd hline (List.not_mem_nil)
  linked _ _ hlink := Or.inl hlink

/-- The envelope of a decision has its type and its event id. -/
theorem decisionEnvelope_get (sdk_version : JStr) (ctx : SessionContext) (m : Minted)
    (now : UtcNow) (d : DecisionFields) :
    (decisionEnvelope sdk_version ctx m now d).get "event_type" = .str "DECISION_RECORD" ∧
      (decisionEnvelope sdk_version ctx m now d).get "event_id" = .str m.event_id.text := by
  constructor <;> simp [decisionEnvelope, envelopeOf, Dict.get_ofFields, List.lookup_cons,
    EventType.text]

/-- The envelope of an action has its event id and refers to its decision. -/
theorem actionEnvelope_get (sdk_version : JStr) (ctx : SessionContext) (m : Minted)
    (a : ActionFields) :
    (actionEnvelope sdk_version ctx m a).get "event_id" = .str m.event_id.text ∧
      decisionIdOf (actionEnvelope sdk_version ctx m a) = uuidOrNone a.decision_id := by
  constructor <;> simp [actionEnvelope, envelopeOf, decisionIdOf, ActionFields.payload,
    Dict.get_ofFields, List.lookup_cons]

/-- What handing over a linked envelope keeps. -/
theorem LinkInv.hand {links : List (Json × DecisionRef)} {e : Dict} {id : Uuid}
    {slot : Option DecisionRef} {taken : ℕ → Option (Option DecisionRef)} (h : LinkInv w t₀ s)
    (hstore : w.store.Assigns w.rt w.cfg)
    (hsub : s.links ⊆ links) (hid : e.get "event_id" = .str id.text)
    (hgood : w.EnvelopeLinked s.store links e) (fresh : Uuid) (io : ℕ → SpoolIO)
    (hslot : ∀ ref, slot = some ref → ref.spooled = false → ref.Held w s.store ∨
      ref.Held w (w.hand s.http s.store e fresh io).store)
    (htaken : ∀ call ref, taken call = some (some ref) → ref.Held w s.store) :
    LinkInv w t₀
      { slot := slot, taken := taken, http := (w.hand s.http s.store e fresh io).http,
        store := (w.hand s.http s.store e fresh io).store, links := links } := by
  have hsent := LinkSetup.hand_linked hstore (h.linked.mono hsub) hgood s.http fresh io
  refine ⟨fun ref hr hspooled => (hslot ref hr hspooled).elim (hsent.later _ _) fun hnow => hnow,
    fun call ref hc => hsent.later _ _ (htaken call ref hc), fun line hline => ?_,
    hsent.linked⟩
  rcases LinkSetup.hand_lines line hline with hold | ⟨sealed, hfields, hdecision, hfrom⟩
  · exact fun e' he' => (h.lines line hold e' he').mono hsent.later hsub
  · have hline := LinkSetup.lineLinked_of_from hfrom ((hfields "event_id" (by decide)).trans hid)
      (hgood.congr hfields hdecision)
    exact fun e' he' => (hline e' he').mono hsent.later fun _ hx => hx

namespace LinkedSession

/-- An id in the slot is the one before, or that of the answer. -/
theorem slotAfter_cases {slot : Option DecisionRef} {event_id : Json} {handed : Handed τ}
    {ref : DecisionRef} (h : slotAfter slot event_id handed = some ref) :
    slot = some ref ∨ ∃ response, handed.result = .ok response ∧
      response.entity_id = some ref.id ∧ ref.event_id = event_id ∧
        ref.spooled = handed.spooled := by
  unfold slotAfter at h
  cases hresult : handed.result with
  | ok response =>
    rw [hresult] at h
    obtain ⟨id, hid, rfl⟩ := Option.map_eq_some_iff.mp h
    exact Or.inr ⟨response, rfl, hid, rfl, rfl⟩
  | error e =>
    rw [hresult] at h
    cases e with
    | python e => cases h
    | hitlPersistence message => exact Or.inl h
    | recordPersistence message => exact Or.inl h

end LinkedSession

namespace LinkInv

/-- A decision. -/
theorem decide (h : LinkInv w t₀ s) (hstore : w.store.Assigns w.rt w.cfg) (m : Minted)
    (now : UtcNow) (d : DecisionFields) (fresh : Uuid) (io : ℕ → SpoolIO) :
    LinkInv w t₀ (s.decide w m now d fresh io) := by
  obtain ⟨hkind, hid⟩ := decisionEnvelope_get w.sdk_version w.context m now d
  have hgood : w.EnvelopeLinked s.store s.links
      (decisionEnvelope w.sdk_version w.context m now d) := by
    intro haction
    rw [hkind] at haction
    exact absurd haction (by simp)
  refine h.hand hstore (fun _ hx => hx) hid hgood fresh io (fun ref hslot hspooled => ?_)
    h.taken
  rcases LinkedSession.slotAfter_cases hslot with hold | ⟨response, hresult, hentity, hevent, hdest⟩
  · exact Or.inl (h.slot ref hold hspooled)
  · rw [DecisionRef.Held, DecisionRef.Held, hevent]
    apply Or.inr
    exact LinkSetup.hand_answers hstore hkind (hdest ▸ hspooled) hresult hentity

/-- The end of a tool call. -/
theorem act (h : LinkInv w t₀ s) (hstore : w.store.Assigns w.rt w.cfg) {call : ℕ}
    {ref : Option DecisionRef} (htaken : s.taken call = some ref) (m : Minted) (a : ActionFields)
    (fresh : Uuid) (io : ℕ → SpoolIO) : LinkInv w t₀ (s.act w call ref m a fresh io) := by
  obtain ⟨hid, hdecision⟩ := actionEnvelope_get w.sdk_version w.context m
    { a with decision_id := ref.map DecisionRef.id }
  apply h.hand hstore (List.subset_append_left _ _) hid
  · intro _
    rw [hid, hdecision]
    cases ref with
    | none => exact Or.inl rfl
    | some ref =>
      refine Or.inr ⟨ref, ref.id, ?_, h.taken call ref htaken, rfl⟩
      exact List.mem_append_right _ (List.mem_singleton.mpr rfl)
  · exact fun ref' hslot hspooled => Or.inl (h.slot ref' hslot hspooled)
  · intro other ref' hother
    by_cases hcall : other = call
    · rw [hcall, Function.update_self] at hother
      cases hother
    · rw [Function.update_of_ne hcall] at hother
      exact h.taken other ref' hother

/-- A run of `sync`. -/
theorem sync (h : LinkInv w t₀ s) (hstore : w.store.Assigns w.rt w.cfg) (batch_size : ℤ)
    (fresh : Dict → Uuid) : LinkInv w t₀ (s.sync w batch_size fresh) := by
  unfold LinkedSession.sync
  cases hread : readSpoolSession w.rt w.src (recordLines (s.http.spool.files w.fileId)) with
  | error e => exact h
  | ok session =>
    have hgood : ∀ e ∈ session.envelopes, w.EnvelopeLinked s.store s.links e := by
      rw [readSpoolSession_records hread]
      intro e he
      obtain ⟨line, hline, he⟩ := List.mem_filterMap.mp he
      exact h.lines line hline e he
    have hsent := @LinkSetup.replay_linked τ w s.store t₀ s.links w.rt w.cfg w.sync_cfg hstore
      session.envelopes h.linked hgood fresh batch_size
    dsimp only
    refine ⟨fun ref hslot hspooled => hsent.later _ _ (h.slot ref hslot hspooled),
      fun call ref hcall => hsent.later _ _ (h.taken call ref hcall), fun line hline => ?_,
      hsent.linked⟩
    have hold : line ∈ s.http.spool.files w.fileId := by
      dsimp only at hline
      split_ifs at hline
      · dsimp only at hline
        rw [Function.update_self] at hline
        cases hline
      · exact hline
    exact fun e he => (h.lines line hold e he).mono hsent.later fun _ hx => hx

/-- **One step.** -/
theorem step (h : LinkInv w t₀ s) (hstore : w.store.Assigns w.rt w.cfg)
    (hok : s.TakesAnswered l) (hstep : s.step w l = some s') : LinkInv w t₀ s' := by
  cases l with
  | decide m now d fresh io =>
    obtain rfl := Option.some.inj hstep
    exact h.decide hstore m now d fresh io
  | take call =>
    unfold LinkedSession.step at hstep
    dsimp only at hstep
    split at hstep
    · cases hstep
    · obtain rfl := Option.some.inj hstep
      -- Taking the reference empties the slot; only the call that took it gains one.
      refine ⟨fun _ hslot => absurd hslot nofun, fun other ref hother => ?_, h.lines, h.linked⟩
      by_cases hcall : other = call
      · dsimp only at hother
        rw [hcall, Function.update_self] at hother
        have hslot := Option.some.inj hother
        exact h.slot ref hslot (hok ref hslot)
      · dsimp only at hother
        rw [Function.update_of_ne hcall] at hother
        exact h.taken other ref hother
  | act call m a fresh io =>
    unfold LinkedSession.step at hstep
    dsimp only at hstep
    split at hstep
    case h_1 ref htaken =>
      obtain rfl := Option.some.inj hstep
      exact h.act hstore htaken m a fresh io
    case h_2 => cases hstep
  | sync batch_size fresh =>
    obtain rfl := Option.some.inj hstep
    exact h.sync hstore batch_size fresh

end LinkInv

/-- **Cross-references hold** in every state of a run in which no tool call takes a decision from
    the spool. -/
theorem LinkedSession.crossLinked (w : LinkSetup τ) (hstore : w.store.Assigns w.rt w.cfg) (t : τ)
    (steps : List LinkStep) (h : Guarded (step w) TakesAnswered (opened t) steps) :
    Throughout (step w) (CrossLinked w t) (opened t) steps :=
  (throughout_of_guarded (fun _ _ _ (hinv : LinkInv w t _) hok hstep =>
    hinv.step hstore hok hstep) (.opened w t) h).mono fun _ hinv => hinv.linked

end

/-! ### A decision in the spool -/

/-- The id that the store of the examples assigns. -/
def assignedId : Uuid := exampleUuid ⟨9, by decide⟩

/-- The id a decision is held under, by what the store has taken. -/
def assigned (taken : List Dict) : Json → Option Uuid
  | .str id =>
    if taken.any fun e => (e.get "event_type").pyEq (.str "DECISION_RECORD") &&
        (e.get "event_id").pyEq (.str id) then some assignedId else none
  | _ => none

/-- What an action carried. -/
def carried (taken : List Dict) : Json → Option Json
  | .str id => (taken.find? fun e => (e.get "event_type").pyEq (.str "ACTION_RECORD") &&
      (e.get "event_id").pyEq (.str id)).map decisionIdOf
  | _ => none

/-- The answer to an event. -/
def assignedAnswer (taken : List Dict) (e : Dict) : Json :=
  .obj (Dict.ofFields [("status", .str "accepted"), ("event_id", e.get "event_id"),
    ("entity_id", uuidOrNone (assigned taken (e.get "event_id")))])

/-- A store whose first POST gets nowhere, and that takes everything from then on: the number of
    POSTs, and the envelopes it has taken. -/
def assigningStore : LinkStore (ℕ × List Dict) where
  post t batch :=
    if t.1 = 0 then (.timeout "ReadTimeout", 1, t.2)
    else (.response 200 (some (.arr (batch.map (assignedAnswer (t.2 ++ batch))))), t.1 + 1,
      t.2 ++ batch)
  holds t id := ∃ e ∈ t.2, e.get "event_id" = id
  decision t := assigned t.2
  link t := carried t.2

/-- What was assigned stays assigned when more is taken. -/
theorem assigned_append {taken : List Dict} {event : Json} {id : Uuid} (batch : List Dict)
    (h : assigned taken event = some id) : assigned (taken ++ batch) event = some id := by
  unfold assigned at h ⊢
  split at h
  case h_2 => cases h
  case h_1 =>
    split_ifs at h with hany
    rw [if_pos, h]
    rw [List.any_append, hany, Bool.true_or]

/-- What is carried was carried before or is of the new batch. -/
theorem carried_append {taken batch : List Dict} {event v : Json}
    (h : carried (taken ++ batch) event = some v) :
    carried taken event = some v ∨ ∃ e ∈ batch, e.get "event_type" = .str "ACTION_RECORD" ∧
      e.get "event_id" = event ∧ decisionIdOf e = v := by
  unfold carried at h ⊢
  split at h
  case h_2 => cases h
  case h_1 id =>
    rw [List.find?_append, Option.map_or] at h
    rcases Option.or_eq_some_iff.mp h with hold | ⟨-, hnew⟩
    · exact Or.inl hold
    · obtain ⟨e, he, rfl⟩ := Option.map_eq_some_iff.mp hnew
      have hfound := List.find?_some he
      rw [Bool.and_eq_true, Json.pyEq_str, Json.pyEq_str] at hfound
      exact Or.inr ⟨e, List.mem_of_find?_eq_some he, hfound.1, hfound.2, rfl⟩

/-- The answer read back. -/
theorem entity_of_readResponse {taken : List Dict} {e : Dict} {response : IngestResponse}
    (h : readResponse (assignedAnswer taken e) = some response) :
    response.entity_id = assigned taken (e.get "event_id") := by
  unfold readResponse assignedAnswer at h
  dsimp only at h
  split_ifs at h
  unfold readFields at h
  simp only [Option.bind_eq_bind, Option.bind_eq_some_iff] at h
  obtain ⟨status, -, event_id, -, entity_id, hentity, n, -, hash, -, code, -, text, -,
    flag, -, h⟩ :=
    h
  obtain rfl := Option.some.inj h
  have hget : Dict.get (Dict.ofFields [("status", .str "accepted"), ("event_id", e.get "event_id"),
      ("entity_id", uuidOrNone (assigned taken (e.get "event_id")))]) "entity_id" =
      uuidOrNone (assigned taken (e.get "event_id")) := by
    simp [Dict.get_ofFields, List.lookup_cons]
  rw [hget] at hentity
  cases hassigned : assigned taken (e.get "event_id") with
  | none =>
    rw [hassigned] at hentity
    exact (Option.some.inj hentity).symm
  | some id =>
    rw [hassigned] at hentity
    have hread : readOptional readUuid (uuidOrNone (some id)) = some (some id) :=
      congrArg (Option.map some) (readUuid_text id)
    exact Option.some.inj (hentity.symm.trans hread)

/-- A batch that is rejected as a whole gets no entity id. -/
theorem entity_of_rejectBatch {rt : Runtime} {batch : List Dict} {code : ErrorCode} {text : JStr}
    {retryable : Bool} {response : IngestResponse}
    (h : response ∈ rejectBatch rt batch code text retryable) : response.entity_id = none := by
  obtain ⟨e, -, rfl⟩ := List.mem_map.mp h
  rfl

/-- A response is the client's own, without an id, or what an element of the answer is read as. -/
theorem response_cases {rt : Runtime} {cfg : HttpConfig} {batch : List Dict} {items : List Json}
    {i : ℕ} {response : IngestResponse}
    (h : (interpret rt cfg batch (.response 200 (some (.arr items))))[i]? = some response) :
    response.entity_id = none ∨
      ∃ item, items[i]? = some item ∧ cfg.validate item = some response := by
  unfold interpret at h
  dsimp only at h
  split at h
  case h_2 => exact Or.inl (entity_of_rejectBatch (List.mem_of_getElem? h))
  case h_1 responses hparse =>
    unfold parseBody at hparse
    dsimp only at hparse
    split_ifs at hparse
    have hone := mapM_eq_some.mp hparse
    obtain ⟨hi, hresponse⟩ := List.getElem?_eq_some_iff.mp h
    have hi' : i < items.length := hone.length_eq ▸ hi
    apply Or.inr
    refine ⟨items[i], List.getElem?_eq_getElem hi', ?_⟩
    rw [← hresponse]
    exact (List.forall₂_iff_get.mp hone).2 i hi' hi

/-- The store of the example assigns ids as the handler does. -/
theorem assigningStore_assigns :
    assigningStore.Assigns exampleRuntime strictConfig where
  keeps t batch event id h := by
    unfold assigningStore at h ⊢
    dsimp only
    split_ifs
    · exact h
    · exact assigned_append batch h
  answers t batch i e response id he _ hresponse hid := by
    -- it answers element by element, or rejects the batch without an id
    unfold assigningStore at hresponse ⊢
    dsimp only at hresponse ⊢
    split_ifs at hresponse ⊢
    · have hnone := entity_of_rejectBatch (List.mem_of_getElem? hresponse)
      rw [hnone] at hid
      cases hid
    · rcases response_cases hresponse with hnone | ⟨item, hitem, hread⟩
      · rw [hnone] at hid
        cases hid
      · rw [List.getElem?_map, he] at hitem
        obtain rfl := Option.some.inj hitem
        exact (entity_of_readResponse hread).symm.trans hid
  takes t batch event v h := by
    unfold assigningStore at h ⊢
    dsimp only at h
    split_ifs at h
    · exact Or.inl h
    · exact carried_append h

/-- A session of the examples, with its store. -/
def linkSetup : LinkSetup (ℕ × List Dict) where
  rt := exampleRuntime
  cfg := strictConfig
  sync_cfg := replayConfig
  store := assigningStore
  sdk_version := "0.3.0"
  context := { agent_id := exampleAgent, session_id := exampleSession }
  src := spooledSource

/-- A decision is recorded, a tool call takes it, and the operator runs `sync`. -/
def decisionAndCall : List LinkStep :=
  [.decide ⟨exampleEvent, mayNoon⟩ mayNoon
      { selected_action := "send_email", reasoning_summary := none, confidence := .null,
        alternatives_considered := [], depth := .MINIMAL } exampleRecord noonIO,
    .take 0,
    .act 0 ⟨exampleRecord, mayNoon⟩
      { tool_name := "send_email", input_hash := "e3b0c44298fc1c149afbf4c8996fb924",
        output_hash := none, redacted_input := .null, redacted_output := .null,
        timestamp := mayNoon, authorization_status := "auto_authorized", decision_id := none }
      exampleRecord noonIO,
    .sync 100 fun _ => exampleRecord]

/-- The store takes the decision: the action it holds is linked to it. -/
theorem crossLinked_answered :
    Throughout (LinkedSession.step linkSetup) (LinkedSession.CrossLinked linkSetup (1, []))
        (.opened (1, [])) decisionAndCall ∧
      (run (LinkedSession.step linkSetup) (.opened (1, [])) decisionAndCall).map (fun s =>
        (assigningStore.link s.store (.str exampleRecord.text)).isSome) = some true :=
  ⟨LinkedSession.crossLinked linkSetup assigningStore_assigns (1, []) decisionAndCall
    (by decide +kernel), by decide +kernel⟩

/-- The decision goes to the spool: the action is uploaded with the id that the writer has minted,
    and the store holds the decision under its own. -/
theorem not_crossLinked_spooled :
    ¬ Throughout (LinkedSession.step linkSetup) (LinkedSession.CrossLinked linkSetup (0, []))
      (.opened (0, [])) decisionAndCall := by
  have hstore : (run (LinkedSession.step linkSetup) (.opened (0, [])) decisionAndCall).map (fun s =>
      (assigningStore.link s.store (.str exampleRecord.text)).any
        (·.pyEq (.str exampleRecord.text))) = some true := by
    decide +kernel
  obtain ⟨s, hrun, hstore⟩ := Option.map_eq_some_iff.mp hstore
  obtain ⟨v, hlink, hv⟩ := (Option.any_eq_true _ _).mp hstore
  obtain rfl := Json.pyEq_str.mp hv
  intro h
  rcases h.last hrun _ _ hlink with hold | hnull | ⟨ref, id, -, hid, hv⟩
  · cases hold
  · cases hnull
  · -- the store assigns one id only
    have hassigned : ∀ taken event, assigned taken event = some id → id = assignedId := by
      intro taken event hsome
      unfold assigned at hsome
      split at hsome
      · split_ifs at hsome
        exact (Option.some.inj hsome).symm
      · cases hsome
    rw [hassigned _ _ hid, Json.str.injEq] at hv
    exact absurd hv (by decide +kernel)

end RootSign
