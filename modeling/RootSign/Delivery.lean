import RootSign.CloudCalls
import RootSign.EarlyEnds
import RootSign.ForwardAnswers
import RootSign.SpoolLines

namespace RootSign

open RootSign.Lib RootSign.Python

/-!
# Delivery of a spool file (`rootsign/replay.py`, `rootsign-admin sync`)

A spool file is read and uploaded batch by batch by a client that does not spool, as often as the
operator runs `sync`, until an attempt completes and the file is moved.  The store is any state
machine that answers a POST; it may keep what it was sent and lose the reply.

* `HttpBatch.deliver` — the retry loop against a store;
* `SyncLink.handleBatch` — one call of the client, and `handleBatch_alone`: it is `handle_batch`
  under the replies the store gives;
* `syncFile` — the attempts;
* `BatchedDelivery` — what an attempt puts on the wire, and what its report says of it;
* `replay_rule` — what every POST of a file's events keeps is kept by an attempt;
* `sync_delivers` — every attempt is such a delivery, and a file that is moved is in the store.
-/

variable {τ : Type}

/-! ### The store -/

/-- What answers a POST, and the event ids it holds. -/
structure EventStore (τ : Type) where
  post : τ → List Dict → HttpReply × τ
  holds : τ → Json → Prop

/-- A store that forgets nothing, and says accepted or `DUPLICATE_EVENT` only for what it holds. -/
structure EventStore.Honest (rt : Runtime) (cfg : HttpConfig) (store : EventStore τ) : Prop where
  keeps : ∀ t batch id, store.holds t id → store.holds (store.post t batch).2 id
  honest : ∀ t (batch : List Dict) (i : ℕ) (envelope : Dict) response, batch[i]? = some envelope →
    (interpret rt cfg batch (store.post t batch).1)[i]? = some response →
    isSuccess response = true → store.holds (store.post t batch).2 (envelope.get "event_id")

/-- The retry loop against a store: the batch after the last reply, what was sent, and the store. -/
def HttpBatch.deliver (rt : Runtime) (cfg : HttpConfig) (store : EventStore τ) :
    ℕ → τ → HttpBatch → HttpBatch × List Round × τ
  | 0, t, b => (b, [], t)
  | attempts + 1, t, b =>
    let posted := store.post t (b.select b.pending)
    let b' := b.replied rt cfg posted.1
    if b'.isOver cfg then (b', [b.round rt cfg posted.1], posted.2)
    else
      let rest := deliver rt cfg store attempts posted.2 { b' with attempt := b'.attempt + 1 }
      (rest.1, b.round rt cfg posted.1 :: rest.2.1, rest.2.2)

/-! ### The client -/

/-- The client of one attempt and the store, with what each call was given and put on the wire. -/
structure SyncLink (τ : Type) where
  http : HttpState
  store : τ
  calls : List (List Dict × List Round)

namespace SyncLink

/-- `handle_batch` of a client with the spool off. -/
def handleBatch (rt : Runtime) (cfg : HttpConfig) (store : EventStore τ) (fresh : Dict → Uuid)
    (s : SyncLink τ) (envelopes : List Dict) :
    Except ClientError (List IngestResponse) × SyncLink τ :=
  if envelopes.isEmpty then (.ok [], s)
  else
    match s.http.sealAll rt (envelopes.map fun e => (e, fresh e)) with
    | (.error e, http) => (.error (.python e), { s with http := http })
    | (.ok batch, http) =>
      let sent := (HttpBatch.start batch).deliver rt cfg store cfg.max_retries s.store
      (.ok sent.1.results,
        { http := http, store := sent.2.2, calls := s.calls ++ [(batch, sent.2.1)] })

/-- A client that has not been used. -/
def opened (t : τ) : SyncLink τ where
  http := .init
  store := t
  calls := []

/-- The client as `replay_envelopes` sees it. -/
def client (rt : Runtime) (cfg : HttpConfig) (store : EventStore τ) (fresh : Dict → Uuid) :
    Client (SyncLink τ) ClientError :=
  .batching (handleBatch rt cfg store fresh)

end SyncLink

/-! ### The attempts -/

/-- One attempt: its batch size, what `replay_envelopes` returned or raised, and the client after
    it. -/
structure SyncAttempt (τ : Type) where
  batch_size : ℤ
  result : Except ClientError ReplayReport
  link : SyncLink τ

/-- What some runs of `sync` did with a file. -/
structure SyncRuns (τ : Type) where
  attempts : List (SyncAttempt τ)
  moved : Bool
  store : τ

/-- Runs of `sync` on one file, with a batch size for each: the file is read again each time, and is
    moved by the first attempt that completes. -/
def syncFile (rt : Runtime) (cfg : HttpConfig) (store : EventStore τ) (fresh : Dict → Uuid)
    (src : SpoolSource) (lines : List SpoolLine) : List ℤ → τ → SyncRuns τ
  | [], t => { attempts := [], moved := false, store := t }
  | size :: rest, t =>
    match readSpoolSession rt src lines with
    | .error _ => syncFile rt cfg store fresh src lines rest t
    | .ok session =>
      let replayed := replayEnvelopes (SyncLink.client rt cfg store fresh) (.opened t)
        session.envelopes size
      let attempt := { batch_size := size, result := replayed.1, link := replayed.2 }
      match replayed.1 with
      | .ok report =>
        if report.complete then
          { attempts := [attempt], moved := true, store := replayed.2.store }
        else
          let later := syncFile rt cfg store fresh src lines rest replayed.2.store
          { later with attempts := attempt :: later.attempts }
      | .error _ =>
        let later := syncFile rt cfg store fresh src lines rest replayed.2.store
        { later with attempts := attempt :: later.attempts }

/-! ### What an attempt is to do -/

/-- The last answer to the envelope at a position of the file. -/
def answerAt (size : ℕ) (calls : List (List Dict × List Round)) (i : ℕ) : Option IngestResponse :=
  calls[i / size]?.bind fun call => lastAnswer call.2 (i % size)

/-- It was accepted or `DUPLICATE_EVENT`. -/
def delivered (size : ℕ) (calls : List (List Dict × List Round)) (i : ℕ) : Bool :=
  (answerAt size calls i).any isSuccess

/-- What an attempt put on the wire is a beginning of the file that ends with a batch; no batch was
    sent before all of the earlier ones were delivered; and the report names the first envelope that
    was not, and counts those that were. -/
structure BatchedDelivery (envelopes : List Dict) (size : ℕ) (calls : List (List Dict × List Round))
    (report : ReplayReport) : Prop where
  batches : calls.map Prod.fst = (List.range calls.length).map (batchAt envelopes size)
  wire : ∀ call ∈ calls, ∀ i, i < call.1.length ↔ ∃ round ∈ call.2, i ∈ round.map Prod.fst
  beginning : calls.flatMap Prod.fst = envelopes.take (calls.length * size)
  ordered : ∀ k < calls.length, ∀ i < k * size, delivered size calls i = true
  failed_index : report.failed_index =
    (List.range envelopes.length).find? fun i => !delivered size calls i
  counted : report.accepted + report.duplicates =
    ((List.range envelopes.length).filter (delivered size calls)).length

/-- The actions are sealed. -/
def ActionsSealed (envelopes : List Dict) : Prop :=
  ∀ e ∈ envelopes, (e.get "event_type").pyEq (.str "ACTION_RECORD") = true →
    ∃ payload : Dict, e.get "payload" = .obj payload ∧ isSealed payload = true

/-! ### The retry loop against a store -/

section

variable {rt : Runtime} {cfg : HttpConfig} {store : EventStore τ} {b : HttpBatch} {t : τ}

namespace HttpBatch

/-- The loop reads no reply to an earlier request. -/
theorem exchange_congr {replies replies' : ℕ → HttpReply} (attempts : ℕ)
    (h : ∀ a, b.attempt ≤ a → replies a = replies' a) :
    b.exchange rt cfg replies attempts = b.exchange rt cfg replies' attempts := by
  induction attempts generalizing b with
  | zero => rfl
  | succ attempts ih =>
    have hnow : replies b.attempt = replies' b.attempt := h _ le_rfl
    have hlater := @ih { b.replied rt cfg (replies' b.attempt) with
        attempt := (b.replied rt cfg (replies' b.attempt)).attempt + 1 } fun a ha => h a <| by
      have hattempt : (b.replied rt cfg (replies' b.attempt)).attempt = b.attempt := rfl
      rw [← hattempt]
      exact (Nat.le_succ _).trans ha
    unfold exchange
    dsimp only
    rw [hnow, hlater]

/-- Against a store the loop runs under the replies that the store gives. -/
theorem exists_replies (rt : Runtime) (cfg : HttpConfig) (store : EventStore τ) (attempts : ℕ)
    (t : τ) (b : HttpBatch) : ∃ replies, b.exchange rt cfg replies attempts =
      ((b.deliver rt cfg store attempts t).1, (b.deliver rt cfg store attempts t).2.1) := by
  induction attempts generalizing t b with
  | zero => exact ⟨fun _ => .timeout "", rfl⟩
  | succ attempts ih =>
    -- the store answers the first request; the rest of the replies follow from the store it leaves
    let reply := (store.post t (b.select b.pending)).1
    let b' := { b.replied rt cfg reply with attempt := (b.replied rt cfg reply).attempt + 1 }
    obtain ⟨replies, hreplies⟩ := ih (store.post t (b.select b.pending)).2 b'
    refine ⟨Function.update replies b.attempt reply, ?_⟩
    -- changing the reply to this attempt is nothing to the later ones
    have hlater : b'.exchange rt cfg (Function.update replies b.attempt reply) attempts =
        b'.exchange rt cfg replies attempts := by
      apply exchange_congr
      intro a ha
      have hne : a ≠ b.attempt := by
        rintro rfl
        exact absurd ha (Nat.not_succ_le_self _)
      exact Function.update_of_ne hne _ _
    unfold exchange deliver
    dsimp only
    rw [Function.update_self]
    split
    · rfl
    · obtain ⟨hbatch, hrounds⟩ := Prod.ext_iff.mp (hlater.trans hreplies)
      refine Prod.ext ?_ ?_
      · exact hbatch
      · exact congrArg (b.round rt cfg reply :: ·) hrounds

/-- The envelope of a slot that is sent. -/
theorem getElem?_select {slots : List ℕ} (h : ∀ i ∈ slots, i < b.envelopes.length) (j : ℕ) :
    (b.select slots)[j]? = slots[j]?.bind fun i => b.envelopes[i]? := by
  unfold select
  induction slots generalizing j with
  | nil => rfl
  | cons i rest ih =>
    have hi := List.getElem?_eq_getElem (h i List.mem_cons_self)
    rw [List.filterMap_cons_some hi]
    cases j with
    | zero => exact hi.symm
    | succ j => exact ih (fun k hk => h k (List.mem_cons_of_mem i hk)) j

/-- An answer in a round is to an envelope that was sent. -/
theorem sent_of_mem_round {reply : HttpReply} (h : b.Sound) {p : ℕ × IngestResponse}
    (hp : p ∈ b.round rt cfg reply) :
    ∃ (e : Dict) (j : ℕ), b.envelopes[p.1]? = some e ∧ (b.select b.pending)[j]? = some e ∧
      (interpret rt cfg (b.select b.pending) reply)[j]? = some p.2 := by
  obtain ⟨j, hj⟩ := List.mem_iff_getElem?.mp hp
  obtain ⟨hslot, hanswer⟩ := List.getElem?_zip_eq_some.mp hj
  have hi := h.bound p.1 (List.mem_of_getElem? hslot)
  refine ⟨_, j, List.getElem?_eq_getElem hi, ?_, hanswer⟩
  rw [getElem?_select h.bound, hslot]
  exact List.getElem?_eq_getElem hi

/-- **The rule of the loop.**  What every POST of some of the envelopes keeps is kept, and what each
    POST makes of an answer it gives, and keeps, is so of every answer. -/
theorem deliver_rule {P : τ → Prop} {R : Dict → IngestResponse → τ → Prop} (attempts : ℕ) (t : τ)
    (h : b.Sound)
    (hkeep : ∀ t batch, (∀ e ∈ batch, e ∈ b.envelopes) → P t → P (store.post t batch).2)
    (hanswer : ∀ t (batch : List Dict) (j : ℕ) e r, (∀ e ∈ batch, e ∈ b.envelopes) → P t →
      batch[j]? = some e → (interpret rt cfg batch (store.post t batch).1)[j]? = some r →
      R e r (store.post t batch).2)
    (hlater : ∀ t batch e r, (∀ e ∈ batch, e ∈ b.envelopes) → P t → R e r t →
      R e r (store.post t batch).2) (ht : P t) :
    P (b.deliver rt cfg store attempts t).2.2 ∧
      (∀ e r, R e r t → R e r (b.deliver rt cfg store attempts t).2.2) ∧
      ∀ round ∈ (b.deliver rt cfg store attempts t).2.1, ∀ p ∈ round,
        ∃ e, b.envelopes[p.1]? = some e ∧
          R e p.2 (b.deliver rt cfg store attempts t).2.2 := by
  -- the first POST, then the loop on what it has left pending
  induction attempts generalizing t b with
  | zero => exact ⟨ht, fun e r hr => hr, List.forall_mem_nil _⟩
  | succ attempts ih =>
    have hsub : ∀ e ∈ b.select b.pending, e ∈ b.envelopes := fun e he => mem_select he
    have hround : ∀ p ∈ b.round rt cfg (store.post t (b.select b.pending)).1,
        ∃ e, b.envelopes[p.1]? = some e ∧ R e p.2 (store.post t (b.select b.pending)).2 := by
      intro p hp
      obtain ⟨e, j, he, hsent, hgiven⟩ := sent_of_mem_round h hp
      exact ⟨e, he, hanswer t _ j e p.2 hsub ht hsent hgiven⟩
    have hfirst := fun e r => hlater t (b.select b.pending) e r hsub ht
    unfold deliver
    dsimp only
    split
    · refine ⟨hkeep t _ hsub ht, hfirst, fun round hmem p hp => ?_⟩
      obtain rfl := List.mem_singleton.mp hmem
      exact hround p hp
    · obtain ⟨hsound, -⟩ := h.replied rt cfg (store.post t (b.select b.pending)).1
      have hsound' : Sound { b.replied rt cfg (store.post t (b.select b.pending)).1 with
          attempt := (b.replied rt cfg (store.post t (b.select b.pending)).1).attempt + 1 } :=
        ⟨hsound.length, hsound.bound, hsound.nodup⟩
      obtain ⟨hkept, hrest, hanswers⟩ := ih (store.post t (b.select b.pending)).2 hsound' hkeep
        hanswer hlater (hkeep t _ hsub ht)
      refine ⟨hkept, fun e r hr => hrest e r (hfirst e r hr), fun round hmem p hp => ?_⟩
      rcases List.mem_cons.mp hmem with rfl | hmem
      · obtain ⟨e, he, hr⟩ := hround p hp
        exact ⟨e, he, hrest e p.2 hr⟩
      · exact hanswers round hmem p hp

/-- **The loop against a store.**  Whatever was answered with a success is held by the store. -/
theorem holds_deliver (hstore : store.Honest rt cfg) (attempts : ℕ) (t : τ) (h : b.Sound) :
    (∀ id, store.holds t id → store.holds (b.deliver rt cfg store attempts t).2.2 id) ∧
      ∀ round ∈ (b.deliver rt cfg store attempts t).2.1, ∀ p ∈ round, isSuccess p.2 = true →
        ∃ e, b.envelopes[p.1]? = some e ∧
          store.holds (b.deliver rt cfg store attempts t).2.2 (e.get "event_id") := by
  have hrule := @deliver_rule τ rt cfg store b
    (fun t' => ∀ id, store.holds t id → store.holds t' id)
    (fun e r t' => isSuccess r = true → store.holds t' (e.get "event_id")) attempts t h
    (fun t' batch _ hkept id hid => hstore.keeps t' batch id (hkept id hid))
    (fun t' batch j e r _ _ he hr => hstore.honest t' batch j e r he hr)
    (fun t' batch e r _ _ hheld hsuccess => hstore.keeps t' batch _ (hheld hsuccess))
    fun id hid => hid
  refine ⟨hrule.1, fun round hmem p hp hsuccess => ?_⟩
  obtain ⟨e, he, hheld⟩ := hrule.2.2 round hmem p hp
  exact ⟨e, he, hheld hsuccess⟩

end HttpBatch

/-- The last answer to a slot was given in some round. -/
theorem exists_round_of_lastAnswer {rounds : List Round} {i : ℕ} {response : IngestResponse}
    (h : lastAnswer rounds i = some response) : ∃ round ∈ rounds, (i, response) ∈ round := by
  induction rounds with
  | nil => cases h
  | cons round rest ih =>
    rcases Option.or_eq_some_iff.mp h with hlater | ⟨-, hnow⟩
    · obtain ⟨later, hmem, hanswer⟩ := ih hlater
      exact ⟨later, List.mem_cons_of_mem _ hmem, hanswer⟩
    · obtain ⟨before, after, hround, -⟩ := List.lookup_eq_some_iff.mp hnow
      refine ⟨round, List.mem_cons_self, ?_⟩
      rw [hround]
      exact List.mem_append_right _ List.mem_cons_self

/-! ### One call -/

/-- Sealed actions, and other envelopes, are sent as they are. -/
theorem sealAll_of_sealed (s : HttpState) {envelopes : List (Dict × Uuid)}
    (h : ActionsSealed (envelopes.map Prod.fst)) :
    s.sealAll rt envelopes = (.ok (envelopes.map Prod.fst), s) := by
  induction envelopes with
  | nil => rfl
  | cons p rest ih =>
    have hone : s.sealOne rt p.2 p.1 = (.ok p.1, s) := by
      unfold HttpState.sealOne
      by_cases haction : (p.1.get "event_type").pyEq (.str "ACTION_RECORD") = true
      · obtain ⟨payload, hpayload, hsealed⟩ := h p.1 List.mem_cons_self haction
        simp [haction, hpayload, hsealed]
      · simp [haction]
    have hrest := ih fun e he => h e (List.mem_cons_of_mem _ he)
    unfold HttpState.sealAll
    simp only [hone, hrest, List.map_cons]

namespace SyncLink

variable {s : SyncLink τ} {fresh : Dict → Uuid} {batch : List Dict}

/-- **The call is `handle_batch`**, under the replies that the store gives. -/
theorem handleBatch_alone (hspool : cfg.enable_spool = false) (hspooling : s.http.spooling = false)
    (io : ℕ → SpoolIO) : ∃ replies,
      (s.http.handleAlone rt cfg ⟨batch.map fun e => (e, fresh e), replies, io⟩).result =
          (s.handleBatch rt cfg store fresh batch).1 ∧
        (s.http.handleAlone rt cfg ⟨batch.map fun e => (e, fresh e), replies, io⟩).state =
          (s.handleBatch rt cfg store fresh batch).2.http := by
  unfold HttpState.handleAlone handleBatch
  by_cases hempty : batch.isEmpty = true
  · exact ⟨fun _ => .timeout "", by simp [hempty], by simp [hempty]⟩
  · have hmap : (batch.map fun e => (e, fresh e)).isEmpty = false := by
      rw [List.isEmpty_map]
      simpa using hempty
    cases hseal : s.http.sealAll rt (batch.map fun e => (e, fresh e)) with
    | mk result http =>
      have hflag : http.spooling = s.http.spooling := by
        rw [← (sealAll_history s.http (batch.map fun e => (e, fresh e))).2.2.2, hseal]
      cases result with
      | error e =>
        exact ⟨fun _ => .timeout "", by simp [hempty, hmap, hseal], by simp [hempty, hmap, hseal]⟩
      | ok sealed =>
        obtain ⟨replies, hreplies⟩ := HttpBatch.exists_replies rt cfg store cfg.max_retries s.store
          (HttpBatch.start sealed)
        refine ⟨replies, ?_, ?_⟩ <;>
          simp [hempty, hmap, hseal, hflag, hspooling, hreplies, HttpState.settle, hspool]

/-- What a call does with sealed actions: there is an answer for each envelope, the last it got; all
    of them, and no other, were put on the wire; and what was delivered is in the store. -/
structure Called (rt : Runtime) (cfg : HttpConfig) (store : EventStore τ) (s : SyncLink τ)
    (batch : List Dict) (responses : List IngestResponse) (rounds : List Round) (s' : SyncLink τ) :
    Prop where
  calls : s'.calls = s.calls ++ [(batch, rounds)]
  length : responses.length = batch.length
  last : ∀ i < batch.length, responses[i]? = lastAnswer rounds i
  wire : ∀ i, i < batch.length ↔ ∃ round ∈ rounds, i ∈ round.map Prod.fst
  keeps : ∀ id, store.holds s.store id → store.holds s'.store id
  held : ∀ (i : ℕ) (e : Dict) (r : IngestResponse), batch[i]? = some e →
    lastAnswer rounds i = some r → isSuccess r = true → store.holds s'.store (e.get "event_id")

/-- **One call.** -/
theorem handleBatch_called (hstore : store.Honest rt cfg) (hsealed : ActionsSealed batch)
    (hne : batch ≠ []) :
    ∃ responses rounds s', s.handleBatch rt cfg store fresh batch = (.ok responses, s') ∧
      Called rt cfg store s batch responses rounds s' := by
  have hmap : (batch.map fun e => (e, fresh e)).map Prod.fst = batch := by
    rw [List.map_map]
    exact List.map_id _
  -- What is sealed already is sent as it is.
  have hseal : s.http.sealAll rt (batch.map fun e => (e, fresh e)) = (.ok batch, s.http) := by
    rw [sealAll_of_sealed s.http (hmap.symm ▸ hsealed), hmap]
  have hstart := HttpBatch.start_sound batch
  have hretries : 0 < cfg.max_retries := cfg.one_le_max_retries
  let sent := (HttpBatch.start batch).deliver rt cfg store cfg.max_retries s.store
  refine ⟨sent.1.results, sent.2.1,
    { s with store := sent.2.2, calls := s.calls ++ [(batch, sent.2.1)] }, ?_, ?_⟩
  · unfold handleBatch
    rw [hseal, if_neg (by simpa using hne)]
  -- The store's answers are the replies of the cloud client's loop, so its lemmas apply.
  obtain ⟨replies, hreplies⟩ := HttpBatch.exists_replies rt cfg store cfg.max_retries s.store
    (HttpBatch.start batch)
  obtain ⟨hbatch, hrounds⟩ := Prod.ext_iff.mp hreplies
  obtain ⟨henvelopes, -, hpending, -, -⟩ :=
    HttpBatch.exchange_spec rt cfg replies cfg.max_retries hstart
  obtain ⟨hsound, -, -⟩ := HttpBatch.exchange_pending rt cfg replies cfg.max_retries hstart
    (HttpBatch.start_pendingExact batch) rfl (Nat.zero_add _) cfg.one_le_max_retries
  obtain ⟨hkeeps, hheld⟩ := HttpBatch.holds_deliver hstore cfg.max_retries s.store hstart
  have hlast := fun i hi => HttpBatch.results_exchange rt cfg replies batch hretries (i := i) hi
  have hsome := fun i hi => HttpBatch.lastAnswer_isSome rt cfg replies batch hretries (i := i) hi
  rw [hbatch, hrounds] at *
  refine ⟨rfl, ?_, hlast, fun i => ⟨fun hi => ?_, ?_⟩, hkeeps, fun i e r he hr hsuccess => ?_⟩
  · rw [show sent.1.results.length = sent.1.envelopes.length from hsound.length]
    exact congrArg List.length henvelopes
  · obtain ⟨r, hr⟩ := Option.isSome_iff_exists.mp (hsome i hi)
    obtain ⟨round, hround, hmem⟩ := exists_round_of_lastAnswer hr
    exact ⟨round, hround, List.mem_map_of_mem hmem⟩
  · rintro ⟨round, hround, hmem⟩
    obtain ⟨p, hp, rfl⟩ := List.mem_map.mp hmem
    exact List.mem_range.mp (hpending round hround p hp)
  · obtain ⟨round, hround, hmem⟩ := exists_round_of_lastAnswer hr
    obtain ⟨e', he', hholds⟩ := hheld round hround _ hmem hsuccess
    obtain rfl := Option.some.inj (he.symm.trans he')
    exact hholds

end SyncLink

/-! ### The rule of an attempt -/

section

variable {P : τ → Prop} {fresh : Dict → Uuid}

/-- The rule of one call of the client that uploads. -/
theorem handleBatch_rule {s : SyncLink τ} {batch : List Dict}
    (hkeep : ∀ t sent, (∀ e' ∈ sent, ∃ e ∈ batch, SameEvent e e') → P t →
      P (store.post t sent).2) (hs : P s.store) :
    P (s.handleBatch rt cfg store fresh batch).2.store := by
  have hsealed := @sealAll_keeps rt s.http (batch.map fun e => (e, fresh e))
  unfold SyncLink.handleBatch
  by_cases hempty : batch.isEmpty = true
  · rwa [if_pos hempty]
  rw [if_neg hempty]
  generalize s.http.sealAll rt (batch.map fun e => (e, fresh e)) = sealed at hsealed
  obtain ⟨result, http⟩ := sealed
  cases result with
  | error e => exact hs
  | ok sealed =>
    have hsame : List.Forall₂ SameEvent batch sealed := by
      have hmap := hsealed sealed rfl
      rwa [List.forall₂_map_left_iff] at hmap
    have hrule := @HttpBatch.deliver_rule τ rt cfg store (HttpBatch.start sealed) P
      (fun _ _ _ => True) cfg.max_retries s.store (HttpBatch.start_sound sealed)
      (fun t' sent hsub hP => hkeep t' sent
        (fun e' he' => exists_of_mem_right hsame (hsub e' he')) hP)
      (fun _ _ _ _ _ _ _ _ _ => trivial) (fun _ _ _ _ _ _ _ => trivial) hs
    exact hrule.1

/-- **The rule of an attempt.** -/
theorem replay_rule {envelopes : List Dict} {batch_size : ℤ}
    (hkeep : ∀ t sent, (∀ e' ∈ sent, ∃ e ∈ envelopes, SameEvent e e') → P t →
      P (store.post t sent).2) (ht : P t) :
    P (replayEnvelopes (SyncLink.client rt cfg store fresh) (.opened t) envelopes
      batch_size).2.store := by
  have hsend : ∀ k (s : SyncLink τ) result s', P s.store →
      (SyncLink.client rt cfg store fresh).send s
        (batchAt envelopes (batchSize batch_size) k) = (result, s') → P s'.store := by
    intro k s result s' hs hsent
    have hbatch := @handleBatch_rule τ rt cfg store P fresh s
      (batchAt envelopes (batchSize batch_size) k) (fun t sent hsub hP => hkeep t sent (by
        intro e' he'
        obtain ⟨e, he, hsame⟩ := hsub e' he'
        exact ⟨e, List.mem_of_mem_drop (List.mem_of_mem_take he), hsame⟩) hP) hs
    rwa [show s.handleBatch rt cfg store fresh _ = (result, s') from hsent] at hbatch
  exact @replayEnvelopes_rule _ _ (batchSize batch_size) envelopes
    (SyncLink.client rt cfg store fresh) (.opened t) batch_size
    (fun _ s _ => P s.store) (fun _ s => P s.store) rfl ht
    (fun k s _ _ s' _ hs hsent _ _ => hsend k s _ s' hs hsent)
    (fun k s _ _ s' _ hs hsent _ => hsend k s _ s' hs hsent)
    (fun k s _ _ s' _ hs hsent _ _ => hsend k s _ s' hs hsent)
    (fun k s _ _ s' _ hs hsent => hsend k s _ s' hs hsent)
    (fun _ _ _ _ hs => hs)

end

/-! ### One attempt -/

/-- After some batches: each was sent once, all before the last were delivered, and the report holds
    the answers by their positions in the file. -/
structure Uploaded (store : EventStore τ) (t₀ : τ) (envelopes : List Dict) (size k : ℕ)
    (s : SyncLink τ) (report : ReplayReport) : Prop where
  batches : s.calls.map Prod.fst = (List.range k).map (batchAt envelopes size)
  wire : ∀ call ∈ s.calls, ∀ i, i < call.1.length ↔ ∃ round ∈ call.2, i ∈ round.map Prod.fst
  tallied : Tallied report
  length : report.responses.length = min (k * size) envelopes.length
  answers : ∀ i < envelopes.length, report.responses[i]? = answerAt size s.calls i
  ordered : ∀ j < k, ∀ i < j * size, delivered size s.calls i = true
  held : ∀ (i : ℕ) (e : Dict) (r : IngestResponse), envelopes[i]? = some e →
    report.responses[i]? = some r → isSuccess r = true → store.holds s.store (e.get "event_id")
  keeps : ∀ id, store.holds t₀ id → store.holds s.store id

variable {t₀ : τ} {envelopes : List Dict} {size k : ℕ} {s s' : SyncLink τ} {report : ReplayReport}
  {responses : List IngestResponse} {rounds : List Round}

theorem Uploaded.start (store : EventStore τ) (t₀ : τ) (envelopes : List Dict) (size : ℕ) :
    Uploaded store t₀ envelopes size 0 (.opened t₀) { total := envelopes.length } where
  batches := rfl
  wire := List.forall_mem_nil _
  tallied := ⟨rfl, rfl, rfl, nofun⟩
  length := by simp
  answers _ _ := rfl
  ordered _ hj := absurd hj (Nat.not_lt_zero _)
  held _ _ _ _ hr := absurd hr (by simp)
  keeps _ hid := hid

/-- There is a call for each batch. -/
theorem Uploaded.length_calls (h : Uploaded store t₀ envelopes size k s report) :
    s.calls.length = k := by
  have hlength := congrArg List.length h.batches
  rwa [List.length_map, List.length_map, List.length_range] at hlength

/-- A report without a refusal holds successes only. -/
theorem Tallied.success (h : Tallied report) (hnone : report.failed_index = none)
    {r : IngestResponse} (hr : r ∈ report.responses) : isSuccess r = true := by
  rw [h.failed_index, List.findIdx?_eq_none_iff] at hnone
  simpa using hnone r hr

/-- The answer to an envelope of an earlier batch. -/
theorem answerAt_append_of_lt {calls : List (List Dict × List Round)} {i : ℕ}
    (call : List Dict × List Round) (hi : i / size < calls.length) :
    answerAt size (calls ++ [call]) i = answerAt size calls i := by
  unfold answerAt
  rw [List.getElem?_append_left hi]

/-- **One batch** more. -/
theorem Uploaded.call (h : Uploaded store t₀ envelopes size k s report) (hsize : 1 ≤ size)
    (hnone : report.failed_index = none) (hk : k * size < envelopes.length)
    (hcall : SyncLink.Called rt cfg store s (batchAt envelopes size k) responses rounds s') :
    Uploaded store t₀ envelopes size (k + 1) s' (report.observeAll (k * size) responses) := by
  have hcalls := h.length_calls
  have hcount : report.responses.length = k * size := by rw [h.length, min_eq_left hk.le]
  have hbatch := length_batchAt envelopes size k
  have hnext : (k + 1) * size = k * size + size := Nat.succ_mul k size
  have hbefore : ∀ i < k * size, i / size < s.calls.length := by
    intro i hi
    rw [hcalls]
    exact Nat.div_lt_of_lt_mul (by rwa [Nat.mul_comm])
  have hsent : ∀ i < k * size, ∃ r, report.responses[i]? = some r := fun i hi =>
    ⟨_, List.getElem?_eq_getElem (by omega)⟩
  -- an envelope of this batch
  have hslot : ∀ i, k * size ≤ i → i < (k + 1) * size → i / size = k ∧ i % size = i - k * size := by
    intro i hlow hhigh
    have hdiv : i / size = k := (Nat.div_eq_iff (by omega)).mpr ⟨by omega, by omega⟩
    have hmod := Nat.div_add_mod i size
    rw [hdiv, Nat.mul_comm] at hmod
    exact ⟨hdiv, by omega⟩
  refine ⟨?_, ?_, h.tallied.observeAll hcount.symm, ?_, fun i hi => ?_, fun j hj i hi => ?_,
    fun i e r he hr hsuccess => ?_, fun id hid => hcall.keeps id (h.keeps id hid)⟩
  · rw [hcall.calls, List.map_append, h.batches, List.range_succ, List.map_append]
    rfl
  · intro call hmem
    rw [hcall.calls] at hmem
    rcases List.mem_append.mp hmem with hmem | hmem
    · exact h.wire call hmem
    · obtain rfl := List.mem_singleton.mp hmem
      exact hcall.wire
  · rw [ReplayReport.responses_observeAll, List.length_append, hcall.length, hcount, hbatch]
    omega
  · rw [ReplayReport.responses_observeAll, hcall.calls]
    by_cases hold : i < k * size
    · rw [List.getElem?_append_left (by omega), answerAt_append_of_lt _ (hbefore i hold)]
      exact h.answers i hi
    · by_cases hnow : i < (k + 1) * size
      · obtain ⟨hdiv, hmod⟩ := hslot i (by omega) hnow
        unfold answerAt
        rw [List.getElem?_append_right (by omega), hcount, hdiv, ← hcalls,
          List.getElem?_concat_length, hcalls, hmod]
        exact hcall.last _ (by rw [hbatch]; omega)
      · -- a later batch was not sent
        have hdiv : k + 1 ≤ i / size := (Nat.le_div_iff_mul_le (by omega)).mpr (by omega)
        unfold answerAt
        rw [List.getElem?_eq_none (by rw [List.length_append, hcall.length]; omega),
          List.getElem?_eq_none (by rw [List.length_append, hcalls]; exact hdiv)]
        rfl
  · have hlt : i < k * size := hi.trans_le (Nat.mul_le_mul_right _ (Nat.lt_succ_iff.mp hj))
    obtain ⟨r, hr⟩ := hsent i hlt
    unfold delivered
    rw [hcall.calls, answerAt_append_of_lt _ (hbefore i hlt), ← h.answers i (by omega), hr]
    exact h.tallied.success hnone (List.mem_of_getElem? hr)
  · rw [ReplayReport.responses_observeAll] at hr
    by_cases hold : i < k * size
    · rw [List.getElem?_append_left (by omega)] at hr
      exact hcall.keeps _ (h.held i e r he hr hsuccess)
    · rw [List.getElem?_append_right (by omega), hcount] at hr
      have hi : i - k * size < responses.length := (List.getElem?_eq_some_iff.mp hr).1
      have hlength := hcall.length
      have hget : (batchAt envelopes size k)[i - k * size]? = some e := by
        unfold batchAt
        rw [List.getElem?_take_of_lt (by omega), List.getElem?_drop, ← he]
        exact congrArg (envelopes[·]?) (by omega)
      exact hcall.held _ e r hget ((hcall.last _ (by omega)).symm.trans hr) hsuccess

/-- The first batches make up the beginning of the file. -/
theorem flatMap_batchAt (envelopes : List Dict) (size k : ℕ) :
    (List.range k).flatMap (batchAt envelopes size) = envelopes.take (k * size) := by
  induction k with
  | zero => simp
  | succ k ih =>
    rw [List.range_succ, List.flatMap_append, ih, List.flatMap_singleton, take_append_batchAt]

/-- Counting the answers is counting the positions. -/
theorem countP_eq_length_filter {p : IngestResponse → Bool} {n : ℕ} (h : responses.length ≤ n) :
    responses.countP p = ((List.range n).filter fun i => responses[i]?.any p).length := by
  induction responses generalizing n with
  | nil => simp
  | cons r rest ih =>
    obtain ⟨m, rfl⟩ : ∃ m, n = m + 1 := Nat.exists_eq_succ_of_ne_zero (by
      rintro rfl
      exact absurd h (by simp))
    rw [List.countP_cons, ih (Nat.succ_le_succ_iff.mp h), List.range_succ_eq_map, List.filter_cons,
      List.filter_map]
    have hrest : ((fun i => (r :: rest)[i]?.any p) ∘ Nat.succ) = fun i => rest[i]?.any p := rfl
    rw [hrest]
    cases hp : p r <;> simp [hp]

/-- **What the batches amount to**, once there is a refusal or nothing is left. -/
theorem Uploaded.delivery (h : Uploaded store t₀ envelopes size k s report)
    (hend : report.failed_index = none → envelopes.length ≤ k * size) :
    BatchedDelivery envelopes size s.calls report := by
  have hcalls := h.length_calls
  have hle : report.responses.length ≤ envelopes.length := by rw [h.length]; exact min_le_right _ _
  have hdelivered : ∀ i < envelopes.length,
      delivered size s.calls i = report.responses[i]?.any isSuccess := fun i hi => by
    rw [h.answers i hi]
    rfl
  refine ⟨by rw [hcalls, h.batches], h.wire, ?_, by rw [hcalls]; exact h.ordered, ?_, ?_⟩
  · rw [List.flatMap_def, h.batches, ← List.flatMap_def, flatMap_batchAt, hcalls]
  · cases hfailed : report.failed_index with
    | none =>
      have hfull : report.responses.length = envelopes.length := by
        rw [h.length, min_eq_right (hend hfailed)]
      refine (List.find?_eq_none.mpr fun i hi => ?_).symm
      have hi' := List.mem_range.mp hi
      have hget : report.responses[i]? = some report.responses[i] :=
        List.getElem?_eq_getElem (by omega)
      rw [hdelivered i hi', hget]
      simp [h.tallied.success hfailed (List.mem_of_getElem? hget)]
    | some i =>
      have hfind := h.tallied.failed_index.symm.trans hfailed
      obtain ⟨hi, hrefused, hbefore⟩ := List.findIdx?_eq_some_iff_getElem.mp hfind
      refine (List.find?_range_eq_some.mpr ⟨?_, List.mem_range.mpr (by omega), fun j hj => ?_⟩).symm
      · rw [hdelivered i (by omega), List.getElem?_eq_getElem hi]
        simpa using hrefused
      · rw [hdelivered j (by omega), List.getElem?_eq_getElem (by omega)]
        simpa using hbefore j hj
  · rw [h.tallied.accepted, h.tallied.duplicates]
    have hfilter : (List.range envelopes.length).filter (delivered size s.calls) =
        (List.range envelopes.length).filter fun i => report.responses[i]?.any isSuccess :=
      List.filter_congr fun i hi => hdelivered i (List.mem_range.mp hi)
    rw [hfilter, ← countP_eq_length_filter hle]
    -- a response is a success if it is accepted, or else a duplicate
    clear hfilter hdelivered hle hend h
    induction report.responses with
    | nil => rfl
    | cons r rest ih =>
      rw [List.countP_cons, List.countP_cons, List.countP_cons, ← ih]
      unfold isSuccess
      cases r.isAccepted <;> cases r.isDuplicate <;> simp <;> omega

/-- A batch of sealed actions. -/
theorem ActionsSealed.batchAt (h : ActionsSealed envelopes) (size k : ℕ) :
    ActionsSealed (batchAt envelopes size k) :=
  fun e he => h e (List.mem_of_mem_drop (List.mem_of_mem_take he))

/-- A batch that begins in the file is not empty. -/
theorem batchAt_ne_nil (hsize : 1 ≤ size) (hk : k * size < envelopes.length) :
    batchAt envelopes size k ≠ [] := by
  intro hnil
  have hlength := congrArg List.length hnil
  rw [length_batchAt, List.length_nil] at hlength
  omega

/-- Every envelope of the file is held once all of them were answered with a success. -/
theorem Uploaded.holds_all (h : Uploaded store t₀ envelopes size k s report)
    (hcomplete : report.failed_index = none) (hend : envelopes.length ≤ k * size) :
    ∀ e ∈ envelopes, store.holds s.store (e.get "event_id") := by
  intro e he
  obtain ⟨i, hi⟩ := List.mem_iff_getElem?.mp he
  have hlength := h.length
  rw [min_eq_right hend] at hlength
  have hlt : i < report.responses.length := hlength ▸ (List.getElem?_eq_some_iff.mp hi).1
  have hget : report.responses[i]? = some report.responses[i] := List.getElem?_eq_getElem hlt
  exact h.held i e _ hi hget (h.tallied.success hcomplete (List.mem_of_getElem? hget))

/-- **One attempt** is a delivery that takes nothing out of the store, and one that completes leaves
    every event in it. -/
theorem replay_delivers (hstore : store.Honest rt cfg) (fresh : Dict → Uuid)
    (hsealed : ActionsSealed envelopes) (batch_size : ℤ) (t : τ) :
    ∃ report, (replayEnvelopes (SyncLink.client rt cfg store fresh) (.opened t) envelopes
        batch_size).1 = .ok report ∧
      BatchedDelivery envelopes (batchSize batch_size)
        (replayEnvelopes (SyncLink.client rt cfg store fresh) (.opened t) envelopes
          batch_size).2.calls report ∧
      (∀ id, store.holds t id → store.holds (replayEnvelopes
        (SyncLink.client rt cfg store fresh) (.opened t) envelopes batch_size).2.store id) ∧
      (report.complete = true → ∀ e ∈ envelopes, store.holds (replayEnvelopes
        (SyncLink.client rt cfg store fresh) (.opened t) envelopes batch_size).2.store
          (e.get "event_id")) := by
  have hsize := one_le_batchSize batch_size
  -- what every call does
  have hbatch : ∀ k (s : SyncLink τ), k * batchSize batch_size < envelopes.length →
      ∃ responses rounds s', s.handleBatch rt cfg store fresh
          (batchAt envelopes (batchSize batch_size) k) = (.ok responses, s') ∧
        s.Called rt cfg store (batchAt envelopes (batchSize batch_size) k) responses rounds s' :=
    fun k s hk => SyncLink.handleBatch_called hstore (hsealed.batchAt (batchSize batch_size) k)
      (batchAt_ne_nil hsize hk)
  have hsend : ∀ k s responses s', k * batchSize batch_size < envelopes.length →
      (SyncLink.client rt cfg store fresh).send s (batchAt envelopes (batchSize batch_size) k) =
        (.ok responses, s') →
      ∃ rounds, SyncLink.Called rt cfg store s (batchAt envelopes (batchSize batch_size) k)
        responses rounds s' := by
    intro k s responses s' hk hsent
    obtain ⟨responses', rounds, s'', hcall, hcalled⟩ := hbatch k s hk
    obtain ⟨hresponses, rfl⟩ := Prod.ext_iff.mp (hsent.symm.trans hcall)
    obtain rfl := Except.ok.inj hresponses
    exact ⟨rounds, hcalled⟩
  have hrule := @replayEnvelopes_rule _ _ (batchSize batch_size) envelopes
    (SyncLink.client rt cfg store fresh) (.opened t) batch_size
    (fun k s report => Uploaded store t envelopes (batchSize batch_size) k s report ∧
      report.failed_index = none)
    (fun result s => ∃ report, result = .ok report ∧
      BatchedDelivery envelopes (batchSize batch_size) s.calls report ∧
      (∀ id, store.holds t id → store.holds s.store id) ∧
      (report.complete = true → ∀ e ∈ envelopes, store.holds s.store (e.get "event_id")))
    rfl ⟨.start store t envelopes _, rfl⟩
  apply hrule
  · intro k s report responses s' hk hP hsent hnone _
    obtain ⟨rounds, hcalled⟩ := hsend k s responses s' hk hsent
    exact ⟨hP.1.call hsize hP.2 hk hcalled, hnone⟩
  · intro k s report responses s' hk hP hsent hrefusal
    obtain ⟨rounds, hcalled⟩ := hsend k s responses s' hk hsent
    have hcall := hP.1.call hsize hP.2 hk hcalled
    refine ⟨_, rfl, hcall.delivery fun h => absurd h hrefusal, hcall.keeps, fun hcomplete => ?_⟩
    exact absurd (Option.isNone_iff_eq_none.mp hcomplete) hrefusal
  · intro k s report responses s' hk hP hsent _ hshort
    obtain ⟨rounds, hcalled⟩ := hsend k s responses s' hk hsent
    exact absurd hcalled.length hshort.ne
  · intro k s report e s' hk hP hsent
    obtain ⟨responses', rounds, s'', hcall, -⟩ := hbatch k s hk
    exact absurd (congrArg Prod.fst (hsent.symm.trans hcall)) (by simp)
  · intro k s report hk hP
    exact ⟨report, rfl, hP.1.delivery fun _ => hk, hP.1.keeps, fun _ => hP.1.holds_all hP.2 hk⟩

end

/-- **Delivery, attempt after attempt.**  Of a spool file with sealed actions, whatever the store
    answers and whatever replies are lost, each attempt puts a beginning on the wire, batch by
    batch, and reports what was delivered; and a file is moved only when the store holds every event
    of it. -/
theorem sync_delivers (rt : Runtime) (cfg : HttpConfig) (store : EventStore τ)
    (hstore : store.Honest rt cfg) (fresh : Dict → Uuid) (src : SpoolSource)
    (lines : List SpoolLine) (session : SpoolSession)
    (hread : readSpoolSession rt src lines = .ok session)
    (hsealed : ActionsSealed session.envelopes) (sizes : List ℤ) (t : τ) :
    (∀ attempt ∈ (syncFile rt cfg store fresh src lines sizes t).attempts, ∃ report,
      attempt.result = .ok report ∧
        BatchedDelivery session.envelopes (batchSize attempt.batch_size) attempt.link.calls
          report) ∧
      ((syncFile rt cfg store fresh src lines sizes t).moved = true → ∀ e ∈ session.envelopes,
        store.holds (syncFile rt cfg store fresh src lines sizes t).store (e.get "event_id")) := by
  induction sizes generalizing t with
  | nil => exact ⟨List.forall_mem_nil _, nofun⟩
  | cons size rest ih =>
    obtain ⟨report, hreport, hdelivery, -, hholds⟩ := replay_delivers hstore fresh hsealed size t
    unfold syncFile
    simp only [hread, hreport]
    -- a complete report moves the file, and no further attempt is made
    by_cases hcomplete : report.complete = true
    · simp only [hcomplete, if_true]
      refine ⟨fun attempt hattempt => ?_, fun _ => hholds hcomplete⟩
      obtain rfl := List.mem_singleton.mp hattempt
      exact ⟨report, rfl, hdelivery⟩
    · simp only [hcomplete, Bool.false_eq_true, if_false]
      obtain ⟨hattempts, hmoved⟩ := ih (replayEnvelopes (SyncLink.client rt cfg store fresh)
        (.opened t) session.envelopes size).2.store
      refine ⟨fun attempt hattempt => ?_, hmoved⟩
      rcases List.mem_cons.mp hattempt with rfl | hlater
      · exact ⟨report, rfl, hdelivery⟩
      · exact hattempts attempt hlater

/-! ### A lost reply -/

/-- A store that keeps what it is sent, and whose first reply is lost. -/
def lossyStore : EventStore (ℕ × List Json) where
  post t batch :=
    (if t.1 = 0 then .timeout "ReadTimeout"
      else .response 200 (some (.arr (batch.map fun e =>
        if t.2.any fun id => id.pyEq (e.get "event_id") then
          .obj (Dict.ofFields [("status", .str "rejected"), ("event_id", e.get "event_id"),
            ("error_code", .str "DUPLICATE_EVENT"), ("retryable", .bool false)])
        else
          .obj (Dict.ofFields [("status", .str "accepted"), ("event_id", e.get "event_id")])))),
      t.1 + 1, t.2 ++ batch.map fun e => e.get "event_id")
  holds t id := id ∈ t.2

/-- A client that sends each batch once. -/
def replayConfig : HttpConfig := { oneAttempt with enable_spool := false, validate := readResponse }

theorem lossyStore_honest (rt : Runtime) (cfg : HttpConfig) : lossyStore.Honest rt cfg where
  keeps _ _ _ hid := List.mem_append_left _ hid
  honest _ _ _ e _ he _ _ :=
    List.mem_append_right _ (List.mem_map.mpr ⟨e, List.mem_of_getElem? he, rfl⟩)

/-- The opening of a session and a sealed action, in the spool. -/
def spooledLines : List SpoolLine :=
  recordLines
    [Dict.ofFields [("event_id", .str exampleEvent.text), ("event_type", .str "SESSION_OPEN"),
      ("session_id", .str exampleSession.text), ("payload", .obj [])],
    Dict.ofFields [("event_id", .str exampleRecord.text), ("event_type", .str "ACTION_RECORD"),
      ("session_id", .str exampleSession.text), ("tool_name", .str "send_email"),
      ("input_hash", .str "e3b0c44298fc1c149afbf4c8996fb924"), ("sequence_number", .int 1),
      ("self_hash", .str "9f86d081884c7d659a2feaa0c55ad015")]]

/-- The spool file of the example session. -/
def spooledSource : SpoolSource := ⟨"spool/sessions/s.jsonl", exampleSession.text, "0.3.0"⟩

/-- What it is read as. -/
def spooledSession : SpoolSession where
  path := "spool/sessions/s.jsonl"
  session_id := exampleSession.text
  envelopes := spooledLines.filterMap (envelopeOfLine spooledSource)
  annotations := 0

/-- Two runs of `sync` on it. -/
def lossyRuns : SyncRuns (ℕ × List Json) :=
  syncFile exampleRuntime replayConfig lossyStore (fun _ => exampleRecord) spooledSource
    spooledLines [100, 100] (0, [])

theorem spooledSession_sealed : ActionsSealed spooledSession.envelopes := by
  intro e he haction
  rcases List.mem_pair.mp (show e ∈ [_, _] from he) with rfl | rfl
  · exact absurd haction (by decide)
  · exact ⟨_, rfl, by decide⟩

/-- The first run loses the reply and leaves the file; the second finds every event in the store,
    and the file is moved. -/
theorem sync_delivers_lossyStore :
    lossyRuns.attempts.length = 2 ∧ lossyRuns.moved = true ∧
      ∀ e ∈ spooledSession.envelopes, lossyStore.holds lossyRuns.store (e.get "event_id") := by
  have hruns : lossyRuns.attempts.length = 2 ∧ lossyRuns.moved = true := by
    decide +kernel
  exact ⟨hruns.1, hruns.2, (sync_delivers exampleRuntime replayConfig lossyStore
    (lossyStore_honest _ _) (fun _ => exampleRecord) spooledSource spooledLines spooledSession rfl
    spooledSession_sealed [100, 100] (0, [])).2 hruns.2⟩

end RootSign
