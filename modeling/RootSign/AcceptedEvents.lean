import RootSign.CrossReferences
import RootSign.ElementFates
import RootSign.SpoolRoundTrip

namespace RootSign

open RootSign.Lib RootSign.Python

/-!
# Accepted events (`rootsign/sdk/client.py`, `rootsign-admin sync`)

The agent's client posts to a store, and writes to its spool what the store does not take.  The
operator uploads the files of the spool to the same store, at any time and as often as they like; a
file that was uploaded whole is moved away.  A write of the spool leaves its whole line or raises.

* `HttpState.handOver` — `handle_batch` against a store, and `handOver_alone`: it is a call of the
  client alone, under the replies that the store gives;
* `Failover.step` — a call, or a run of `sync` on a file;
* `accepted_kept` — an event that was answered accepted is in the store or in the spool from then
  on.
-/

variable {τ : Type}

/-! ### A call against a store -/

/-- `handle_batch`, awaited at once, against a store. -/
def HttpState.handOver (rt : Runtime) (cfg : HttpConfig) (store : EventStore τ) (s : HttpState)
    (t : τ) (envelopes : List (Dict × Uuid)) (io : ℕ → SpoolIO) : CloudOutcome × τ :=
  if envelopes.isEmpty then ({ result := .ok [], state := s, rounds := [], spooled := [] }, t)
  else
    match s.sealAll rt envelopes with
    | (.error e, s) =>
      ({ result := .error (.python e), state := s, rounds := [], spooled := [] }, t)
    | (.ok batch, s) =>
      if s.spooling then
        let written := s.writeToSpool rt cfg io batch.zipIdx
        ({ result := written.1
           state := written.2
           rounds := []
           spooled := List.range batch.length }, t)
      else
        let sent := (HttpBatch.start batch).deliver rt cfg store cfg.max_retries t
        let settled := s.settle rt cfg sent.1 io
        ({ result := settled.1
           state := settled.2
           rounds := sent.2.1
           spooled := if cfg.enable_spool then sent.1.unsent else [] }, sent.2.2)

/-- **The call is one of the client alone**, under the replies that the store gives. -/
theorem handOver_alone (rt : Runtime) (cfg : HttpConfig) (store : EventStore τ) (s : HttpState)
    (t : τ) (envelopes : List (Dict × Uuid)) (io : ℕ → SpoolIO) :
    ∃ replies, s.handleAlone rt cfg ⟨envelopes, replies, io⟩ =
      (s.handOver rt cfg store t envelopes io).1 := by
  unfold HttpState.handleAlone HttpState.handOver
  dsimp only
  by_cases hempty : envelopes.isEmpty = true
  · exact ⟨fun _ => .timeout "", by simp [hempty]⟩
  generalize s.sealAll rt envelopes = sealed
  obtain ⟨result, http⟩ := sealed
  cases result with
  | error e => exact ⟨fun _ => .timeout "", by simp [hempty]⟩
  | ok batch =>
    by_cases hspooling : http.spooling = true
    · exact ⟨fun _ => .timeout "", by simp [hempty, hspooling]⟩
    · -- the store's answers are a sequence of replies
      obtain ⟨replies, hreplies⟩ := HttpBatch.exists_replies rt cfg store cfg.max_retries t
        (HttpBatch.start batch)
      exact ⟨replies, by simp [hempty, hspooling, hreplies]⟩

section

variable {rt : Runtime} {cfg : HttpConfig} {store : EventStore τ} {s : HttpState} {t : τ}
  {envelopes : List (Dict × Uuid)} {io : ℕ → SpoolIO}

/-- **The rule of a call.**  What every POST of the call's events keeps is kept, and what each POST
    makes of an answer it gives, and keeps, is so of every answer to the call. -/
theorem handOver_rule {P : τ → Prop} {R : Dict → IngestResponse → τ → Prop}
    (hkeep : ∀ t batch, (∀ e' ∈ batch, ∃ p ∈ envelopes, SameEvent p.1 e') → P t →
      P (store.post t batch).2)
    (hanswer : ∀ t (batch : List Dict) (j : ℕ) e r, batch[j]? = some e →
      (interpret rt cfg batch (store.post t batch).1)[j]? = some r → R e r (store.post t batch).2)
    (hlater : ∀ t batch e r, R e r t → R e r (store.post t batch).2) (ht : P t) :
    P (s.handOver rt cfg store t envelopes io).2 ∧
      ∀ round ∈ (s.handOver rt cfg store t envelopes io).1.rounds, ∀ p ∈ round,
        ∃ q e, envelopes[p.1]? = some q ∧ SameEvent q.1 e ∧
          R e p.2 (s.handOver rt cfg store t envelopes io).2 := by
  have hnone : ∀ round ∈ ([] : List Round), ∀ p ∈ round, ∃ (q : Dict × Uuid) (e : Dict),
      envelopes[p.1]? = some q ∧ SameEvent q.1 e ∧ R e p.2 t := List.forall_mem_nil _
  have hsealed := @sealAll_keeps rt s envelopes
  unfold HttpState.handOver
  by_cases hempty : envelopes.isEmpty = true
  · rw [if_pos hempty]
    exact ⟨ht, hnone⟩
  rw [if_neg hempty]
  generalize s.sealAll rt envelopes = sealed at hsealed
  obtain ⟨result, http⟩ := sealed
  cases result with
  | error e => exact ⟨ht, hnone⟩
  | ok batch =>
    have hsame := hsealed batch rfl
    dsimp only
    by_cases hspooling : http.spooling = true
    · rw [if_pos hspooling]
      exact ⟨ht, hnone⟩
    rw [if_neg hspooling]
    obtain ⟨hP, -, hrounds⟩ := @HttpBatch.deliver_rule τ rt cfg store (HttpBatch.start batch) P R
      cfg.max_retries t (HttpBatch.start_sound batch)
      (fun t' sent hsub hP => hkeep t' sent
        (fun e' he' => exists_of_mem_right hsame (hsub e' he')) hP)
      (fun t' sent j e r _ _ he hr => hanswer t' sent j e r he hr)
      (fun t' sent e r _ _ hr => hlater t' sent e r hr) ht
    refine ⟨hP, fun round hround p hp => ?_⟩
    -- what was sent is the event that was handed over
    obtain ⟨e, he, hr⟩ := hrounds round hround p hp
    obtain ⟨hi, rfl⟩ := List.getElem?_eq_some_iff.mp he
    have hi' : p.1 < envelopes.length := hsame.length_eq ▸ hi
    exact ⟨_, _, List.getElem?_eq_getElem hi', (List.forall₂_iff_get.mp hsame).2 p.1 hi' hi, hr⟩

/-- The store forgets nothing during a call, and holds what it has accepted. -/
theorem handOver_holds (hstore : store.Honest rt cfg) :
    (∀ id, store.holds t id → store.holds (s.handOver rt cfg store t envelopes io).2 id) ∧
      ∀ round ∈ (s.handOver rt cfg store t envelopes io).1.rounds, ∀ p ∈ round,
        isSuccess p.2 = true → ∃ q, envelopes[p.1]? = some q ∧
          store.holds (s.handOver rt cfg store t envelopes io).2 (q.1.get "event_id") := by
  obtain ⟨hkeeps, hrounds⟩ := @handOver_rule τ rt cfg store s t envelopes io
    (fun t' => ∀ id, store.holds t id → store.holds t' id)
    (fun e r t' => isSuccess r = true → store.holds t' (e.get "event_id"))
    (fun t' batch _ hkept id hid => hstore.keeps t' batch id (hkept id hid))
    (fun t' batch j e r he hr => hstore.honest t' batch j e r he hr)
    (fun t' batch e r hheld hsuccess => hstore.keeps t' batch _ (hheld hsuccess))
    (fun id hid => hid)
  refine ⟨hkeeps, fun round hround p hp hsuccess => ?_⟩
  obtain ⟨q, e, hq, hsame, hheld⟩ := hrounds round hround p hp
  refine ⟨q, hq, ?_⟩
  rw [← hsame.fields "event_id" (by decide)]
  exact hheld hsuccess

end

/-! ### The agent and the operator -/

/-- The agent's client, the client of `sync`, their store, and the names of the spool's files. -/
structure FailoverSetup (τ : Type) where
  rt : Runtime
  cfg : HttpConfig
  sync_cfg : HttpConfig
  store : EventStore τ
  src : JStr → SpoolSource

/-- The agent's client with its spool, and the store.  The last two fields are history: the ids of
    the events handed over, and of those that were answered accepted. -/
structure Failover (τ : Type) where
  http : HttpState
  store : τ
  handed : List Uuid
  accepted : List Uuid

/-- The agent makes a call, or the operator runs `sync` on the file of a session. -/
inductive FailoverStep where
  | call (envelopes : List (Dict × Uuid)) (io : ℕ → SpoolIO)
  | sync (session_id : JStr) (batch_size : ℤ) (fresh : Dict → Uuid)

/-- The ids of the events of a batch. -/
def idsOf (rt : Runtime) (envelopes : List (Dict × Uuid)) : List Uuid :=
  envelopes.filterMap fun p => (rt.toUuid (p.1.get "event_id")).toOption

/-- Of those, the ones answered accepted. -/
def acceptedIds (rt : Runtime) (envelopes : List (Dict × Uuid)) :
    Except ClientError (List IngestResponse) → List Uuid
  | .ok responses => idsOf rt (((envelopes.zip responses).filter (·.2.isAccepted)).map (·.1))
  | .error _ => []

namespace Failover

/-- A client that has not been used. -/
def opened (t : τ) : Failover τ where
  http := .init
  store := t
  handed := []
  accepted := []

/-- `handle_batch`. -/
def call (w : FailoverSetup τ) (s : Failover τ) (envelopes : List (Dict × Uuid))
    (io : ℕ → SpoolIO) : Failover τ :=
  let handed := s.http.handOver w.rt w.cfg w.store s.store envelopes io
  { http := handed.1.state
    store := handed.2
    handed := idsOf w.rt envelopes ++ s.handed
    accepted := s.accepted ++ acceptedIds w.rt envelopes handed.1.result }

/-- `mark_synced`: the file of the session is moved away. -/
def retire (s : Failover τ) (session_id : JStr) : Failover τ :=
  { s with http := { s.http with spool := { s.http.spool with
      files := Function.update s.http.spool.files session_id [] } } }

/-- `_sync_one`: the file is read and uploaded, and moved away if the upload was complete. -/
def sync (w : FailoverSetup τ) (s : Failover τ) (session_id : JStr) (batch_size : ℤ)
    (fresh : Dict → Uuid) : Failover τ :=
  match readSpoolSession w.rt (w.src session_id) (recordLines (s.http.spool.files session_id)) with
  | .error _ => s
  | .ok session =>
    let replayed := replayEnvelopes (SyncLink.client w.rt w.sync_cfg w.store fresh)
      (.opened s.store) session.envelopes batch_size
    let uploaded := { s with store := replayed.2.store }
    match replayed.1 with
    | .ok report => if report.complete then uploaded.retire session_id else uploaded
    | .error _ => uploaded

/-- One step. -/
def step (w : FailoverSetup τ) (s : Failover τ) : FailoverStep → Option (Failover τ)
  | .call envelopes io => some (s.call w envelopes io)
  | .sync session_id batch_size fresh => some (s.sync w session_id batch_size fresh)

/-- The agent hands over events of the schema, each under an id of its own. -/
def NewEvents (w : FailoverSetup τ) (s : Failover τ) : FailoverStep → Prop
  | .call envelopes _ => (∀ p ∈ envelopes, Admissible w.rt (SealableOrSealed w.rt) p.1) ∧
      (idsOf w.rt envelopes).Nodup ∧ ∀ u ∈ idsOf w.rt envelopes, u ∉ s.handed
  | .sync .. => True

/-- The event is in the store or in the spool. -/
def Kept (w : FailoverSetup τ) (s : Failover τ) (u : Uuid) : Prop :=
  (∃ id, w.rt.toUuid id = .ok u ∧ w.store.holds s.store id) ∨ HoldsEvent w.rt s.http.spool u

/-- **Accepted events are kept.** -/
def AcceptedKept (w : FailoverSetup τ) (s : Failover τ) : Prop :=
  ∀ u ∈ s.accepted, s.Kept w u

end Failover

/-! ### Ids -/

section

variable {rt : Runtime} {envelopes : List (Dict × Uuid)}

/-- Every element has its id. -/
theorem map_idsOf (h : ∀ p ∈ envelopes, ∃ u, rt.toUuid (p.1.get "event_id") = .ok u) :
    envelopes.map (fun p => rt.toUuid (p.1.get "event_id")) = (idsOf rt envelopes).map .ok := by
  induction envelopes with
  | nil => rfl
  | cons p rest ih =>
    obtain ⟨u, hu⟩ := h p List.mem_cons_self
    have hrest := ih fun q hq => h q (List.mem_cons_of_mem p hq)
    unfold idsOf at hrest ⊢
    rw [List.map_cons, hrest, List.filterMap_cons, hu]
    rfl

/-- The elements of a call in their slots. -/
theorem map_slots (c : CloudCall) :
    c.slots.map (fun p => rt.toUuid (p.1.get "event_id")) =
      c.envelopes.map fun p => rt.toUuid (p.1.get "event_id") := by
  have hslots : c.slots.map Prod.fst = c.envelopes.map Prod.fst := List.zipIdx_map_fst 0 _
  have hmap := congrArg (List.map fun e : Dict => rt.toUuid (e.get "event_id")) hslots
  rwa [List.map_map, List.map_map] at hmap

/-- An id among the accepted ones is that of an element with an accepted answer. -/
theorem exists_of_mem_acceptedIds {result : Except ClientError (List IngestResponse)} {u : Uuid}
    (hu : u ∈ acceptedIds rt envelopes result) :
    ∃ (responses : List IngestResponse) (i : ℕ) (p : Dict × Uuid) (r : IngestResponse),
      result = .ok responses ∧ envelopes[i]? = some p ∧ responses[i]? = some r ∧
        r.isAccepted = true ∧ rt.toUuid (p.1.get "event_id") = .ok u := by
  cases result with
  | error e => exact absurd hu List.not_mem_nil
  | ok responses =>
    unfold acceptedIds idsOf at hu
    obtain ⟨p, hp, hid⟩ := List.mem_filterMap.mp hu
    obtain ⟨⟨q, r⟩, hq, rfl⟩ := List.mem_map.mp hp
    obtain ⟨hzip, haccepted⟩ := List.mem_filter.mp hq
    dsimp only at hid haccepted
    obtain ⟨i, hi⟩ := List.mem_iff_getElem?.mp hzip
    obtain ⟨hp', hr⟩ := List.getElem?_zip_eq_some.mp hi
    refine ⟨responses, i, q, r, rfl, hp', hr, haccepted, ?_⟩
    cases htext : rt.toUuid (q.1.get "event_id") with
    | error e =>
      rw [htext] at hid
      exact absurd hid (by simp [Except.toOption])
    | ok v =>
      rw [htext] at hid
      rw [Option.some.inj hid]

end

/-! ### Lines that are read back -/

section

variable {rt : Runtime} {src : SpoolSource} {line e : Dict}

/-- The line is one that a sealed envelope was written as, or an annotation behind it. -/
def WrittenFor (rt : Runtime) (line : Dict) : Prop :=
  ∃ envelope, Admissible rt (SealedPayload rt) envelope ∧ LineFrom rt envelope line

/-- A line with an event id is read as an envelope. -/
theorem exists_envelopeOfRecord (h : WrittenFor rt line) (hid : line.has "event_id") :
    ∃ e, envelopeOfRecord src line = some e := by
  obtain ⟨envelope, hready, hfrom⟩ := h
  unfold envelopeOfRecord
  cases hfrom with
  | action event_id hkind htext htype =>
    rw [htype, isEventType_action]
    exact ⟨_, if_pos (Json.pyEq_str.mpr rfl)⟩
  | other hkind hfields =>
    obtain ⟨kind, htype⟩ := hready.event_type
    obtain ⟨payload, hpayload, -⟩ := hready.payload
    rw [htype] at hkind
    rw [hfields "event_type" (by decide) (by decide), htype, isEventType_kind,
      hfields "payload" (by decide) (by decide), hpayload]
    exact ⟨_, if_neg (Bool.eq_false_iff.mp hkind)⟩
  | tally htype hnone => exact absurd hid hnone

theorem get_envelopeShell_payload (payload : Dict) :
    (envelopeShell src line payload).get "payload" = .obj payload := by
  unfold envelopeShell
  dsimp only
  rw [get_setDefault (by decide), get_setDefault (by decide), Dict.get_set, if_pos rfl]

/-- An action that is read back is sealed. -/
theorem sealed_of_envelopeOfRecord (h : WrittenFor rt line)
    (he : envelopeOfRecord src line = some e)
    (haction : (e.get "event_type").pyEq (.str "ACTION_RECORD") = true) :
    ∃ payload : Dict, e.get "payload" = .obj payload ∧ isSealed payload = true := by
  obtain ⟨envelope, -, hfrom⟩ := h
  rw [(envelopeOfRecord_get he).1] at haction
  cases hfrom with
  | action event_id hkind htext htype hevent hdecision hhash =>
    -- an action's payload is picked off its flat line, which carries the seal
    have hget : Dict.get (pick actionPayloadFields line) "self_hash" = line.get "self_hash" := by
      show (pick actionPayloadFields line).getD "self_hash" .null = _
      rw [Dict.getD, lookup_pick (by decide)]
      rfl
    unfold envelopeOfRecord at he
    rw [htype, isEventType_action] at he
    dsimp only at he
    rw [if_pos (Json.pyEq_str.mpr rfl)] at he
    obtain rfl := Option.some.inj he
    refine ⟨_, get_envelopeShell_payload _, ?_⟩
    show (!Json.isNone (Dict.get (pick actionPayloadFields line) "self_hash")) = true
    rw [hget, hhash]
    rfl
  | other hkind hfields =>
    rw [hfields "event_type" (by decide) (by decide)] at haction
    exact absurd haction (Bool.eq_false_iff.mp hkind)
  -- a loss annotation is not read back at all
  | tally htype =>
    rw [envelopeOfRecord_loss htype] at he
    cases he

end

/-! ### Every step keeps what was accepted -/

section

variable {w : FailoverSetup τ} {s s' : Failover τ} {l : FailoverStep}

/-- A retired file takes its lines with it, and no others. -/
theorem Failover.mem_of_mem_retire {session_id session : JStr} {line : Dict}
    (h : line ∈ (s.retire session_id).http.spool.files session) :
    line ∈ s.http.spool.files session := by
  by_cases hsession : session = session_id
  · subst hsession
    rw [show (s.retire session).http.spool.files session = [] from Function.update_self ..] at h
    cases h
  · rwa [show (s.retire session_id).http.spool.files session = s.http.spool.files session from
      Function.update_of_ne hsession ..] at h

/-- The invariant: the spool knows only what was handed over, its lines can be read back, and what
    was accepted is kept. -/
structure FailoverInv (w : FailoverSetup τ) (s : Failover τ) : Prop where
  knows : KnowsOnly w.rt s.handed s.http.spool
  lines : ∀ session, ∀ line ∈ s.http.spool.files session, WrittenFor w.rt line
  kept : s.AcceptedKept w

namespace FailoverInv

theorem opened (w : FailoverSetup τ) (t : τ) : FailoverInv w (.opened t) where
  knows := knowsOnly_init
  lines _ _ hline := absurd hline List.not_mem_nil
  kept _ hu := absurd hu List.not_mem_nil

/-- **A call.**  What the answer accepts was accepted by the store, or written to the spool. -/
theorem call (h : FailoverInv w s) (hspool : w.cfg.enable_spool = true)
    (hwarn : w.cfg.fail_on_loss = false) (hstore : w.store.Honest w.rt w.cfg)
    {envelopes : List (Dict × Uuid)} {io : ℕ → SpoolIO}
    (hnew : s.NewEvents w (.call envelopes io)) :
    FailoverInv w (s.call w envelopes io) := by
  obtain ⟨hadmissible, hnodup, hfresh⟩ := hnew
  obtain ⟨replies, halone⟩ := handOver_alone w.rt w.cfg w.store s.http s.store envelopes io
  obtain ⟨hkeeps, hrounds⟩ :=
    @handOver_holds τ w.rt w.cfg w.store s.http s.store envelopes io hstore
  let c : CloudCall := ⟨envelopes, replies, io⟩
  have hcall : Fresh w.rt s.handed c (idsOf w.rt envelopes) :=
    ⟨hadmissible, (map_slots c).trans (map_idsOf fun p hp => (hadmissible p hp).event_id), hnodup,
      hfresh⟩
  have hfates := handleAlone_fates hspool hwarn h.knows hcall
  have hold := fun session line => @handleAlone_keeps w.rt w.cfg session s.http c line
  have hlines := fun session => @handleAlone_lines w.rt w.cfg session s.http c
  rw [show s.http.handleAlone w.rt w.cfg c = _ from halone] at hfates hold hlines
  refine ⟨hfates.knows, fun session line hline => ?_, fun u hu => ?_⟩
  · -- a new line is that of an envelope which was sealed before
    rcases hlines session line hline with hbefore | ⟨batch, hbatch, envelope, henvelope, hfrom⟩
    · exact h.lines session line hbefore
    · obtain ⟨batch', http, hsealed, -, hall⟩ := sealAll_prepared (s := s.http) hadmissible
      rw [show s.http.sealAll w.rt c.envelopes = _ from hsealed] at hbatch
      obtain rfl := Except.ok.inj hbatch
      obtain ⟨p, -, hprepared⟩ := exists_of_mem_right hall henvelope
      exact ⟨envelope, hprepared.ready, hfrom⟩
  rcases List.mem_append.mp (show u ∈ s.accepted ++ acceptedIds w.rt envelopes _ from hu)
    with hu | hu
  · -- accepted before: the store forgets nothing, and no line goes
    rcases h.kept u hu with ⟨id, hid, hheld⟩ | ⟨session, line, hline, hevent⟩
    · exact Or.inl ⟨id, hid, hkeeps id hheld⟩
    · exact Or.inr ⟨session, line, hold session line hline, hevent⟩
  obtain ⟨responses, i, p, r, hresult, hp, hr, haccepted, hid⟩ := exists_of_mem_acceptedIds hu
  -- nothing stopped the writing, since the call has returned
  have hstop : c.stop w.rt w.cfg s.http = none := by
    cases hstop : c.stop w.rt w.cfg s.http with
    | none => rfl
    | some q =>
      obtain ⟨error, herror, -⟩ := hfates.stopped q hstop
      cases hresult.symm.trans herror
  obtain ⟨responses', hresult', -, hhanded, hanswered, hholds, -⟩ := hfates.answered hstop
  obtain rfl : responses = responses' := Except.ok.inj (hresult.symm.trans hresult')
  have hslot : (p.1, i) ∈ c.slots := CloudCall.mem_slots.mpr (by
    rw [List.getElem?_map, show c.envelopes[i]? = some p from hp]
    rfl)
  by_cases hmem : (p.1, i) ∈ c.handedToSpool w.rt w.cfg s.http
  · -- the spool took it
    obtain ⟨r', hr', hwrite⟩ := hhanded _ hmem
    obtain rfl : r = r' := Option.some.inj (hr.symm.trans hr')
    have hlands := Append.lands_of_returns (hwrite.symm.trans haccepted)
    exact Or.inr ((hholds u).mpr (Or.inr ⟨_, hmem, hlands, hid⟩))
  · -- the store took it
    have hlast := (hanswered _ hslot hmem).symm.trans hr
    obtain ⟨round, hround, hmem⟩ := exists_round_of_lastAnswer hlast
    obtain ⟨q, hq, hheld⟩ := hrounds round hround _ hmem (by
      unfold isSuccess
      rw [haccepted]
      rfl)
    obtain rfl : p = q := Option.some.inj (hp.symm.trans hq)
    exact Or.inl ⟨_, hid, hheld⟩

/-- Where the store holds more, everything stays kept. -/
theorem upload (h : FailoverInv w s) {t : τ}
    (hkeeps : ∀ id, w.store.holds s.store id → w.store.holds t id) :
    FailoverInv w { s with store := t } where
  knows := h.knows
  lines := h.lines
  kept u hu := Or.imp_left (fun ⟨id, hid, hheld⟩ => ⟨id, hid, hkeeps id hheld⟩) (h.kept u hu)

/-- A file may go once the store holds the events of its lines. -/
theorem retire (h : FailoverInv w s) {session_id : JStr}
    (hheld : ∀ line ∈ s.http.spool.files session_id, line.has "event_id" →
      w.store.holds s.store (line.get "event_id")) :
    FailoverInv w (s.retire session_id) := by
  refine ⟨⟨h.knows.store, fun u hu => ?_⟩, fun session line hline =>
    h.lines session line (Failover.mem_of_mem_retire hline), fun u hu => ?_⟩
  · obtain ⟨session, line, hline, hevent⟩ := hu
    exact h.knows.lines u ⟨session, line, Failover.mem_of_mem_retire hline, hevent⟩
  · rcases h.kept u hu with hstored | ⟨session, line, hline, hevent⟩
    · exact Or.inl hstored
    · by_cases hsession : session = session_id
      · -- its line goes, and the store holds it
        subst hsession
        exact Or.inl ⟨_, hevent.2, hheld line hline hevent.1⟩
      · refine Or.inr ⟨session, line, ?_, hevent⟩
        rwa [show (s.retire session_id).http.spool.files session = s.http.spool.files session from
          Function.update_of_ne hsession ..]

/-- **A run of `sync`.** -/
theorem sync (h : FailoverInv w s) (hstore : w.store.Honest w.rt w.sync_cfg) (session_id : JStr)
    (batch_size : ℤ) (fresh : Dict → Uuid) :
    FailoverInv w (s.sync w session_id batch_size fresh) := by
  unfold Failover.sync
  cases hread : readSpoolSession w.rt (w.src session_id)
      (recordLines (s.http.spool.files session_id)) with
  | error e => exact h
  | ok session =>
    dsimp only
    have hrecords := readSpoolSession_records hread
    -- actions are on their lines with the seal, and are not sealed again
    have hsealed : ActionsSealed session.envelopes := by
      intro e he haction
      rw [hrecords] at he
      obtain ⟨line, hline, henvelope⟩ := List.mem_filterMap.mp he
      exact sealed_of_envelopeOfRecord (h.lines session_id line hline) henvelope haction
    obtain ⟨report, hreport, -, hkeeps, hholds⟩ :=
      replay_delivers hstore fresh hsealed batch_size s.store
    rw [hreport]
    dsimp only
    have huploaded := h.upload hkeeps
    split_ifs with hcomplete
    · -- every line with an event id was read, so its event was uploaded
      refine huploaded.retire fun line hline hid => ?_
      obtain ⟨e, he⟩ := @exists_envelopeOfRecord w.rt (w.src session_id) line
        (h.lines session_id line hline) hid
      rw [← (envelopeOfRecord_get he).2.1]
      refine hholds hcomplete e ?_
      rw [hrecords]
      exact List.mem_filterMap.mpr ⟨line, hline, he⟩
    · exact huploaded

end FailoverInv

end

/-- **Nothing accepted is lost.**  In every run of calls and of `sync`, whatever the store answers,
    whatever replies are lost and whatever write of the spool raises, before its line or behind it,
    an event that was answered accepted is in the store or on a line of the spool from then on. -/
theorem accepted_kept (w : FailoverSetup τ) (hspool : w.cfg.enable_spool = true)
    (hwarn : w.cfg.fail_on_loss = false) (hstore : w.store.Honest w.rt w.cfg)
    (hsync : w.store.Honest w.rt w.sync_cfg) (t : τ) (steps : List FailoverStep)
    (h : Guarded (Failover.step w) (Failover.NewEvents w) (.opened t) steps) :
    Throughout (Failover.step w) (Failover.AcceptedKept w) (.opened t) steps := by
  have hinv : Throughout (Failover.step w) (FailoverInv w) (.opened t) steps := by
    refine throughout_of_guarded (fun s l s' hinv hnew hstep => ?_) (FailoverInv.opened w t) h
    cases l with
    | call envelopes io =>
      obtain rfl := Option.some.inj hstep
      exact hinv.call hspool hwarn hstore hnew
    | sync session_id batch_size fresh =>
      obtain rfl := Option.some.inj hstep
      exact hinv.sync hsync session_id batch_size fresh
  exact hinv.mono fun s hs => hs.kept

/-- An agent and an operator whose first request times out. -/
def lossyFailover : FailoverSetup (ℕ × List Json) where
  rt := twoDates
  cfg := oneAttempt
  sync_cfg := replayConfig
  store := lossyStore
  src _ := spooledSource

/-- The agent hands over an action, which goes to the spool, and the operator uploads it. -/
def lossySteps : List FailoverStep :=
  [.call (timedOut "2026-05-01T12:00:00+00:00").envelopes noonIO,
    .sync exampleSession.text 100 fun _ => exampleRecord]

theorem lossySteps_newEvents : Guarded (Failover.step lossyFailover)
    (Failover.NewEvents lossyFailover) (.opened (0, [])) lossySteps := by
  obtain ⟨ids, hfresh, -⟩ := timedOut_fresh "2026-05-01T12:00:00+00:00"
  have hids : idsOf twoDates (timedOut "2026-05-01T12:00:00+00:00").envelopes = [exampleEvent] := by
    simp [idsOf, timedOut, exampleEnvelope, Dict.get_ofFields, List.lookup_cons, Except.toOption]
  refine fun s _ => ⟨⟨hfresh.admissible, ?_, ?_⟩, fun s' _ => ⟨trivial, trivial⟩⟩
  · show (idsOf twoDates _).Nodup
    rw [hids]
    exact List.nodup_singleton _
  · exact fun u _ => List.not_mem_nil

theorem accepted_kept_lossyStore :
    Throughout (Failover.step lossyFailover) (Failover.AcceptedKept lossyFailover)
      (.opened (0, [])) lossySteps :=
  accepted_kept lossyFailover rfl rfl (lossyStore_honest _ _) (lossyStore_honest _ _) (0, [])
    lossySteps lossySteps_newEvents

end RootSign
