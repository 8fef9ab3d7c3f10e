import RootSign.CloudRecords

namespace RootSign

open RootSign.Lib RootSign.Python

/-!
# Cloud calls, one at a time

A caller that awaits each `handle_batch` before the next one.  The steps of such a call follow one
another, and what was put on the wire is a list of rounds.

* `HttpBatch.exchange` — the retry loop under a schedule of replies;
* `HttpState.handleAlone` — the whole call, and `handleAlone_run`: it is a run of the client;
* `exchange_spec` — a slot is sent again only if asked to, and its result is the last answer to it;
* `pendingAfter` — what the replies leave to send, and `unsent_exchange`: it is what the loop gives
  up on.
-/

/-! ### The retry loop -/

/-- One request: the slots that were sent, each with its answer.  A request that the server did
    not answer is answered by the client, with a retryable rejection of each. -/
abbrev Round := List (ℕ × IngestResponse)

namespace HttpBatch

/-- The answers to the slots that are pending. -/
def round (rt : Runtime) (cfg : HttpConfig) (b : HttpBatch) (reply : HttpReply) : Round :=
  b.pending.zip (interpret rt cfg (b.select b.pending) reply)

/-- The loop, for at most the given number of requests: the batch after the last reply, and what
    was sent. -/
def exchange (rt : Runtime) (cfg : HttpConfig) (replies : ℕ → HttpReply) :
    ℕ → HttpBatch → HttpBatch × List Round
  | 0, b => (b, [])
  | attempts + 1, b =>
    let b' := b.replied rt cfg (replies b.attempt)
    if b'.isOver cfg then (b', [b.round rt cfg (replies b.attempt)])
    else
      let rest := exchange rt cfg replies attempts { b' with attempt := b'.attempt + 1 }
      (rest.1, b.round rt cfg (replies b.attempt) :: rest.2)

end HttpBatch

/-! ### The call -/

/-- One call: its envelopes, each with the id minted for it, the reply to each attempt, and what
    each spool write is supplied with. -/
structure CloudCall where
  envelopes : List (Dict × Uuid)
  replies : ℕ → HttpReply
  io : ℕ → SpoolIO

/-- What a call leads to: what it returns or raises, the client after it, what it sent, and the
    slots it handed to the spool. -/
structure CloudOutcome where
  result : Except ClientError (List IngestResponse)
  state : HttpState
  rounds : List Round
  spooled : List ℕ

namespace HttpState

/-- The part of `handle_batch` after the last reply. -/
def settle (rt : Runtime) (cfg : HttpConfig) (s : HttpState) (b : HttpBatch) (io : ℕ → SpoolIO) :
    Except ClientError (List IngestResponse) × HttpState :=
  if b.unsent.isEmpty || !cfg.enable_spool then (.ok b.results, s)
  else
    let s := s.enterSpoolMode (b.unsent.head?.bind fun i => b.results[i]?)
    let written := s.writeToSpool rt cfg io ((b.select b.unsent).zip b.unsent)
    (written.1.map fun spooled => HttpBatch.store b.results (b.unsent.zip spooled), written.2)

/-- `handle_batch`, awaited at once. -/
def handleAlone (rt : Runtime) (cfg : HttpConfig) (s : HttpState) (c : CloudCall) : CloudOutcome :=
  if c.envelopes.isEmpty then { result := .ok [], state := s, rounds := [], spooled := [] }
  else
    match s.sealAll rt c.envelopes with
    | (.error e, s) => { result := .error (.python e), state := s, rounds := [], spooled := [] }
    | (.ok envelopes, s) =>
      if s.spooling then
        let written := s.writeToSpool rt cfg c.io envelopes.zipIdx
        { result := written.1
          state := written.2
          rounds := []
          spooled := List.range envelopes.length }
      else
        let sent := (HttpBatch.start envelopes).exchange rt cfg c.replies cfg.max_retries
        let settled := s.settle rt cfg sent.1 c.io
        { result := settled.1
          state := settled.2
          rounds := sent.2
          spooled := if cfg.enable_spool then sent.1.unsent else [] }

end HttpState

/-! ### A call alone is a run of the client -/

/-- The client with another history. -/
def HttpState.withHistory (s : HttpState) (calls : ℕ → HttpTask) (accepted : List Dict)
    (returned : List (ℕ × Except ClientError (List IngestResponse))) : HttpState :=
  { s with calls := calls, accepted := accepted, returned := returned }

section

variable {rt : Runtime} {cfg : HttpConfig} {calls : ℕ → HttpTask} {accepted : List Dict}
  {returned : List (ℕ × Except ClientError (List IngestResponse))}

@[simp] theorem spool_withHistory (s : HttpState) :
    (s.withHistory calls accepted returned).spool = s.spool := rfl

@[simp] theorem ledgers_withHistory (s : HttpState) :
    (s.withHistory calls accepted returned).ledgers = s.ledgers := rfl

theorem onSpoolWriteFailure_withHistory (io : SpoolIO) (s : HttpState) (envelope : Dict) :
    (s.withHistory calls accepted returned).onSpoolWriteFailure rt cfg io envelope =
      ((s.onSpoolWriteFailure rt cfg io envelope).1,
        (s.onSpoolWriteFailure rt cfg io envelope).2.withHistory calls accepted returned) := by
  unfold HttpState.onSpoolWriteFailure
  cases isControlRecord envelope with
  | error e => rfl
  | ok control =>
    cases control with
    | true => rfl
    | false =>
      cases payloadOf envelope with
      | error e => rfl
      | ok payload =>
        simp only []
        split <;> rfl

theorem spoolOne_withHistory (io : SpoolIO) (s : HttpState) (envelope : Dict) :
    (s.withHistory calls accepted returned).spoolOne rt cfg io envelope =
      ((s.spoolOne rt cfg io envelope).1,
        (s.spoolOne rt cfg io envelope).2.withHistory calls accepted returned) := by
  simp only [HttpState.spoolOne, spool_withHistory]
  cases s.spool.handle rt io.toCallIO envelope with
  | mk result spool =>
    cases result with
    | ok response => rfl
    | error e =>
      cases e
      case osError =>
        exact onSpoolWriteFailure_withHistory io { s with spool := spool } envelope
      all_goals rfl

theorem flushLedger_withHistory (io : SpoolIO) (s : HttpState) (session_id : JStr) :
    (s.withHistory calls accepted returned).flushLedger io session_id =
      (s.flushLedger io session_id).withHistory calls accepted returned := by
  simp only [HttpState.flushLedger, ledgers_withHistory]
  cases s.ledgers session_id with
  | none => rfl
  | some ledger =>
    simp only []
    split <;> rfl

/-- Writing to the spool reads and writes no history. -/
theorem writeToSpool_withHistory (io : ℕ → SpoolIO) (s : HttpState) (batch : List (Dict × ℕ)) :
    (s.withHistory calls accepted returned).writeToSpool rt cfg io batch =
      ((s.writeToSpool rt cfg io batch).1,
        (s.writeToSpool rt cfg io batch).2.withHistory calls accepted returned) := by
  induction batch generalizing s with
  | nil => rfl
  | cons p rest ih =>
    obtain ⟨envelope, slot⟩ := p
    simp only [HttpState.writeToSpool, spoolOne_withHistory]
    cases s.spoolOne rt cfg (io slot) envelope with
    | mk result s₁ =>
      cases result with
      | error e => rfl
      | ok response =>
        cases (envelope.get "event_type").pyEq (.str "SESSION_CLOSE") with
        | true =>
          simp only [if_true, flushLedger_withHistory, ih]
          cases (s₁.flushLedger (io slot) (rt.pyStr (envelope.get "session_id"))).writeToSpool rt
            cfg io rest with
          | mk tail s₂ => cases tail <;> rfl
        | false =>
          simp only [Bool.false_eq_true, if_false, ih]
          cases s₁.writeToSpool rt cfg io rest with
          | mk tail s₂ => cases tail <;> rfl

/-- After the last reply. -/
theorem finish_eq (s : HttpState) (t : ℕ) (b : HttpBatch) (io : ℕ → SpoolIO) :
    s.finish rt cfg t b io = (s.settle rt cfg b io).2.returns t (s.settle rt cfg b io).1 := by
  unfold HttpState.finish HttpState.settle
  split
  · rfl
  · dsimp only
    generalize HttpState.writeToSpool rt cfg io _ _ = written
    obtain ⟨result, s₁⟩ := written
    cases result <;> rfl

theorem settle_withHistory (s : HttpState) (b : HttpBatch) (io : ℕ → SpoolIO) :
    (s.withHistory calls accepted returned).settle rt cfg b io =
      ((s.settle rt cfg b io).1, (s.settle rt cfg b io).2.withHistory calls accepted returned) := by
  have henter : ∀ cause, (s.withHistory calls accepted returned).enterSpoolMode cause =
      (s.enterSpoolMode cause).withHistory calls accepted returned := by
    intro cause
    unfold HttpState.enterSpoolMode
    show (if s.spooling then _ else _) = _
    split <;> rfl
  unfold HttpState.settle
  split
  · rfl
  · simp only [henter, writeToSpool_withHistory]

/-- The labels of the exchange: a reply, and between two of them the backoff. -/
theorem exchange_run {t : ℕ} (c : CloudCall) (attempts : ℕ) (s : HttpState) (b : HttpBatch)
    (hposting : s.calls t = .posting b) (hattempts : b.attempt + attempts = cfg.max_retries)
    (hpos : 0 < attempts) :
    ∃ labels calls accepted, run (HttpState.step rt cfg) s labels =
      some ((s.settle rt cfg (b.exchange rt cfg c.replies attempts).1 c.io).2.withHistory calls
        accepted (s.returned ++
          [(t, (s.settle rt cfg (b.exchange rt cfg c.replies attempts).1 c.io).1)])) := by
  -- The induction is on the attempts left; the history is carried along, since no step reads it.
  induction attempts generalizing s b with
  | zero => exact absurd hpos (lt_irrefl 0)
  | succ attempts ih =>
    have hreply : s.step rt cfg (.reply t (c.replies b.attempt) c.io) =
        some (s.answered rt cfg t b (c.replies b.attempt) c.io) := by
      simp only [HttpState.step, hposting]
    let accepted := s.accepted ++ HttpState.acceptedOf (b.select b.pending)
      -- The reply does not end the call yet: what it leaves is `s₁` but for the task.
      (interpret rt cfg (b.select b.pending) (c.replies b.attempt))
    let s₁ := s.withHistory s.calls accepted s.returned
    by_cases hover : (b.replied rt cfg (c.replies b.attempt)).isOver cfg = true
    · -- the last reply: the call is over
      have hexchange : (b.exchange rt cfg c.replies (attempts + 1)).1 =
          b.replied rt cfg (c.replies b.attempt) := by
        simp only [HttpBatch.exchange, hover, if_true]
      have hanswered : s.answered rt cfg t b (c.replies b.attempt) c.io =
          s₁.finish rt cfg t (b.replied rt cfg (c.replies b.attempt)) c.io := if_pos hover
      rw [hanswered, finish_eq, settle_withHistory] at hreply
      refine ⟨[.reply t (c.replies b.attempt) c.io], Function.update s.calls t .idle, accepted, ?_⟩
      rw [hexchange]
      show (s.step rt cfg _).bind _ = _
      rw [hreply]
      rfl
    · -- a backoff, and the next attempt
      have hexchange : (b.exchange rt cfg c.replies (attempts + 1)).1 =
          (HttpBatch.exchange rt cfg c.replies attempts
            { b.replied rt cfg (c.replies b.attempt) with attempt := b.attempt + 1 }).1 := by
        simp only [HttpBatch.exchange, hover, Bool.false_eq_true, if_false]
        rfl
      have hanswered : s.answered rt cfg t b (c.replies b.attempt) c.io =
          s₁.setCall t (.backoff
            { b.replied rt cfg (c.replies b.attempt) with attempt := b.attempt + 1 }) :=
        if_neg hover
      have hmore : 0 < attempts := by
        rcases Nat.eq_zero_or_pos attempts with rfl | h
        · refine absurd ?_ hover
          show (_ || b.attempt + 1 == cfg.max_retries) = true
          rw [beq_iff_eq.mpr hattempts, Bool.or_true]
        · exact h
      let b' := { b.replied rt cfg (c.replies b.attempt) with attempt := b.attempt + 1 }
      let s₂ := s.withHistory (Function.update (Function.update s.calls t (.backoff b')) t
        (.posting b')) accepted s.returned
      obtain ⟨labels, calls, accepted', hrun⟩ := ih s₂ b' (Function.update_self _ _ _)
        (by show b.attempt + 1 + attempts = _; omega) hmore
      refine ⟨.reply t (c.replies b.attempt) c.io :: .wake t :: labels, calls, accepted', ?_⟩
      have hwake : (s₁.setCall t (.backoff b')).step rt cfg (.wake t) = some s₂ := by
        simp only [HttpState.step, HttpState.setCall, Function.update_self]
        rfl
      have hsettle := @settle_withHistory rt cfg
        (Function.update (Function.update s.calls t (.backoff b')) t (.posting b'))
        accepted s.returned s (HttpBatch.exchange rt cfg c.replies attempts b').1 c.io
      rw [show s₂.settle rt cfg _ c.io = _ from hsettle] at hrun
      rw [hexchange]
      show (s.step rt cfg _).bind _ = _
      rw [hreply, hanswered]
      show ((s₁.setCall t (.backoff b')).step rt cfg (.wake t)).bind _ = _
      rw [hwake]
      exact hrun

/-- Sealing reads and writes no history, and does not make the client spool. -/
theorem sealAll_history (s : HttpState) (envelopes : List (Dict × Uuid)) :
    (s.sealAll rt envelopes).2.calls = s.calls ∧
      (s.sealAll rt envelopes).2.accepted = s.accepted ∧
      (s.sealAll rt envelopes).2.returned = s.returned ∧
      (s.sealAll rt envelopes).2.spooling = s.spooling := by
  -- Sealing one envelope writes chains and spool records only, and the loop stops at an error.
  induction envelopes generalizing s with
  | nil => exact ⟨rfl, rfl, rfl, rfl⟩
  | cons p rest ih =>
    obtain ⟨envelope, fresh⟩ := p
    have hone : (s.sealOne rt fresh envelope).2.calls = s.calls ∧
        (s.sealOne rt fresh envelope).2.accepted = s.accepted ∧
        (s.sealOne rt fresh envelope).2.returned = s.returned ∧
        (s.sealOne rt fresh envelope).2.spooling = s.spooling := by
      unfold HttpState.sealOne
      split_ifs
      · exact ⟨rfl, rfl, rfl, rfl⟩
      · split
        · split_ifs
          · exact ⟨rfl, rfl, rfl, rfl⟩
          · split <;> exact ⟨rfl, rfl, rfl, rfl⟩
        · exact ⟨rfl, rfl, rfl, rfl⟩
    unfold HttpState.sealAll
    cases hsealed : s.sealOne rt fresh envelope with
    | mk result s₁ =>
      rw [hsealed] at hone
      cases result with
      | error e => exact hone
      | ok e =>
        have hrest := ih s₁
        cases htail : s₁.sealAll rt rest with
        | mk tail s₂ =>
          rw [htail] at hrest
          cases tail with
          | error e =>
            simp only [htail]
            exact ⟨hrest.1.trans hone.1, hrest.2.1.trans hone.2.1,
              hrest.2.2.1.trans hone.2.2.1, hrest.2.2.2.trans hone.2.2.2⟩
          | ok es =>
            simp only [htail]
            exact ⟨hrest.1.trans hone.1, hrest.2.1.trans hone.2.1,
              hrest.2.2.1.trans hone.2.2.1, hrest.2.2.2.trans hone.2.2.2⟩

/-- Sealing gives an envelope for each. -/
theorem length_sealAll {s s' : HttpState} {envelopes : List (Dict × Uuid)} {batch : List Dict}
    (h : s.sealAll rt envelopes = (.ok batch, s')) : batch.length = envelopes.length := by
  induction envelopes generalizing s s' batch with
  | nil =>
    obtain rfl := Except.ok.inj (congrArg Prod.fst h)
    rfl
  | cons p rest ih =>
    obtain ⟨envelope, fresh⟩ := p
    unfold HttpState.sealAll at h
    cases hone : s.sealOne rt fresh envelope with
    | mk result s₁ =>
      rw [hone] at h
      cases result with
      | error e => exact absurd (congrArg Prod.fst h) (by simp)
      | ok e =>
        dsimp only at h
        cases htail : s₁.sealAll rt rest with
        | mk tail s₂ =>
          rw [htail] at h
          cases tail with
          | error e => exact absurd (congrArg Prod.fst h) (by simp)
          | ok es =>
            obtain rfl := Except.ok.inj (congrArg Prod.fst h)
            rw [List.length_cons, List.length_cons, ih htail]

/-- **A call alone is a run.**  An idle task that calls, and is answered and woken in turn, returns
    what `handleAlone` does, and leaves the same client but for its history. -/
theorem handleAlone_run (s : HttpState) (t : ℕ) (c : CloudCall) (hidle : s.calls t = .idle) :
    ∃ labels calls accepted, run (HttpState.step rt cfg) s labels =
      some ((s.handleAlone rt cfg c).state.withHistory calls accepted
        (s.returned ++ [(t, (s.handleAlone rt cfg c).result)])) := by
  have hcall : s.step rt cfg (.call t c.envelopes c.io) =
      some (s.handleBatch rt cfg t c.envelopes c.io) := by
    simp only [HttpState.step, hidle]
  obtain ⟨hcalls, haccepted, hreturned, -⟩ := @sealAll_history rt s c.envelopes
  unfold HttpState.handleBatch at hcall
  unfold HttpState.handleAlone
  -- The three ways of a call: nothing to send, a client that spools, and the exchange.
  by_cases hempty : c.envelopes.isEmpty = true
  · rw [if_pos hempty] at hcall ⊢
    refine ⟨[.call t c.envelopes c.io], Function.update s.calls t .idle, s.accepted, ?_⟩
    show (s.step rt cfg _).bind _ = _
    rw [hcall]
    rfl
  rw [if_neg hempty] at hcall ⊢
  cases hsealed : s.sealAll rt c.envelopes with
  | mk result s₁ =>
    rw [hsealed] at hcall hcalls haccepted hreturned
    cases result with
    | error e =>
      refine ⟨[.call t c.envelopes c.io], Function.update s₁.calls t .idle, s₁.accepted, ?_⟩
      show (s.step rt cfg _).bind _ = _
      rw [hcall, ← hreturned]
      rfl
    | ok envelopes =>
      dsimp only at hcall ⊢
      by_cases hspooling : s₁.spooling = true
      · rw [if_pos hspooling] at hcall ⊢
        have hwrite := @writeToSpool_withHistory rt cfg s₁.calls s₁.accepted s₁.returned c.io s₁
          envelopes.zipIdx
        have hhistory : (s₁.writeToSpool rt cfg c.io envelopes.zipIdx).2.returned = s₁.returned :=
          congrArg (fun r => r.2.returned) hwrite
        refine ⟨[.call t c.envelopes c.io], Function.update
          (s₁.writeToSpool rt cfg c.io envelopes.zipIdx).2.calls t .idle,
          (s₁.writeToSpool rt cfg c.io envelopes.zipIdx).2.accepted, ?_⟩
        show (s.step rt cfg _).bind _ = _
        rw [hcall, ← hreturned, ← hhistory]
        rfl
      · rw [if_neg hspooling] at hcall ⊢
        obtain ⟨labels, calls, accepted, hrun⟩ := @exchange_run rt cfg t c cfg.max_retries
          (s₁.setCall t (.posting (.start envelopes))) (.start envelopes)
          (Function.update_self _ _ _) (Nat.zero_add _) cfg.one_le_max_retries
        have hsettle := @settle_withHistory rt cfg (Function.update s₁.calls t
          (.posting (.start envelopes))) s₁.accepted s₁.returned s₁
          ((HttpBatch.start envelopes).exchange rt cfg c.replies cfg.max_retries).1 c.io
        refine ⟨.call t c.envelopes c.io :: labels, calls, accepted, ?_⟩
        show (s.step rt cfg _).bind _ = _
        rw [hcall, ← hreturned]
        rw [show (s₁.setCall t (.posting (.start envelopes))).settle rt cfg _ c.io = _ from
          hsettle] at hrun
        exact hrun

end

/-! ### What the loop has sent -/

/-- The last answer to a slot. -/
def lastAnswer : List Round → ℕ → Option IngestResponse
  | [], _ => none
  | round :: rest, i => (lastAnswer rest i).or (round.lookup i)

/-- **Sent again only if asked to.**  A slot of a later request was answered before, by a retryable
    rejection. -/
def ResentIfAsked (rounds : List Round) : Prop :=
  rounds.Pairwise fun earlier later =>
    ∀ p ∈ earlier, p.1 ∈ later.map Prod.fst → needsRetry p.2 = true

/-- A list is read element by element, or not at all. -/
theorem mapM_eq_some {α β : Type} {f : α → Option β} {xs : List α} {ys : List β} :
    xs.mapM f = some ys ↔ List.Forall₂ (fun x y => f x = some y) xs ys := by
  induction xs generalizing ys with
  | nil =>
    rw [List.mapM_nil, List.forall₂_nil_left_iff]
    exact ⟨fun h => (Option.some.inj h).symm, fun h => by rw [h]; rfl⟩
  | cons x xs ih =>
    rw [List.mapM_cons, List.forall₂_cons_left_iff]
    constructor
    · intro h
      obtain ⟨y, hy, h⟩ := Option.bind_eq_some_iff.mp h
      obtain ⟨tail, htail, h⟩ := Option.bind_eq_some_iff.mp h
      exact ⟨y, tail, hy, ih.mp htail, (Option.some.inj h).symm⟩
    · rintro ⟨y, tail, hy, htail, rfl⟩
      rw [hy, ih.mpr htail]
      rfl

namespace HttpBatch

/-- There is a result for each envelope, and the pending slots are different slots of the batch. -/
structure Sound (b : HttpBatch) : Prop where
  length : b.results.length = b.envelopes.length
  bound : ∀ i ∈ b.pending, i < b.envelopes.length
  nodup : b.pending.Nodup

variable {rt : Runtime} {cfg : HttpConfig} {b : HttpBatch}

/-- Every reply is one response for each element. -/
theorem length_interpret (batch : List Dict) (reply : HttpReply) :
    (interpret rt cfg batch reply).length = batch.length := by
  cases reply with
  | timeout exception_name => simp [interpret, rejectBatch]
  | transportError text => simp [interpret, rejectBatch]
  | response status body =>
    unfold interpret
    dsimp only
    split
    case h_1 responses hparse =>
      unfold parseBody at hparse
      split at hparse
      · split at hparse
        case isTrue hlength =>
          rw [← hlength]
          exact (mapM_eq_some.mp hparse).length_eq.symm
        case isFalse => exact absurd hparse (by simp)
      · exact absurd hparse (by simp)
    case h_2 => simp [rejectBatch]

/-- Slots of the batch select as many envelopes. -/
theorem length_select {slots : List ℕ} (h : ∀ i ∈ slots, i < b.envelopes.length) :
    (b.select slots).length = slots.length := by
  unfold select
  induction slots with
  | nil => rfl
  | cons i rest ih =>
    have hi := List.getElem?_eq_getElem (h i List.mem_cons_self)
    rw [List.filterMap_cons_some hi, List.length_cons, List.length_cons,
      ih fun j hj => h j (List.mem_cons_of_mem i hj)]

variable (rt cfg) in
/-- The slots of a round are the pending ones. -/
theorem map_fst_round (h : b.Sound) (reply : HttpReply) :
    (b.round rt cfg reply).map Prod.fst = b.pending := by
  unfold round
  rw [List.map_fst_zip]
  rw [length_interpret, length_select h.bound]

theorem length_store (results : List IngestResponse) (pairs : List (ℕ × IngestResponse)) :
    (store results pairs).length = results.length := by
  induction pairs generalizing results with
  | nil => rfl
  | cons p rest ih => exact (ih _).trans (List.length_set ..)

/-- Storing pairs with different slots replaces the results of these slots. -/
theorem getElem?_store {pairs : List (ℕ × IngestResponse)} (hnodup : (pairs.map Prod.fst).Nodup)
    (results : List IngestResponse) (i : ℕ) :
    (store results pairs)[i]? = results[i]?.map fun r => (pairs.lookup i).getD r := by
  induction pairs generalizing results with
  | nil => simp [store]
  | cons p rest ih =>
    obtain ⟨slot, response⟩ := p
    rw [List.map_cons, List.nodup_cons] at hnodup
    show (store (results.set slot response) rest)[i]? = _
    rw [ih hnodup.2, List.getElem?_set, List.lookup_cons]
    by_cases hslot : slot = i
    · subst hslot
      have hnone : rest.lookup slot = none := by
        rw [List.lookup_eq_none_iff]
        intro q hq
        refine bne_iff_ne.mpr fun heq => hnodup.1 ?_
        exact List.mem_map.mpr ⟨q, hq, heq.symm⟩
      rw [beq_self_eq_true, hnone]
      by_cases hlt : slot < results.length <;> simp [hlt]
    · rw [if_neg hslot, beq_eq_false_iff_ne.mpr (Ne.symm hslot)]

/-- Storing pairs leaves the other slots. -/
theorem getElem?_store_of_not_mem {pairs : List (ℕ × IngestResponse)} {i : ℕ}
    (h : ∀ p ∈ pairs, p.1 ≠ i) (results : List IngestResponse) :
    (store results pairs)[i]? = results[i]? := by
  induction pairs generalizing results with
  | nil => rfl
  | cons p rest ih =>
    show (store (results.set p.1 p.2) rest)[i]? = _
    rw [ih fun q hq => h q (List.mem_cons_of_mem p hq), List.getElem?_set,
      if_neg (h p List.mem_cons_self)]

variable (rt cfg) in
/-- A reply keeps the batch sound; the slots still pending were, and asked for it. -/
theorem Sound.replied (h : b.Sound) (reply : HttpReply) :
    (b.replied rt cfg reply).Sound ∧
      ∀ i ∈ (b.replied rt cfg reply).pending, ∀ p ∈ b.round rt cfg reply, p.1 = i →
        needsRetry p.2 = true := by
  have hslots := map_fst_round rt cfg h reply
  have hpending : (b.replied rt cfg reply).pending =
      ((b.round rt cfg reply).filter fun p => needsRetry p.2).map Prod.fst := rfl
  have hsub : (b.replied rt cfg reply).pending.Sublist b.pending := by
    rw [hpending, ← hslots]
    exact List.filter_sublist.map Prod.fst
  refine ⟨⟨?_, fun i hi => h.bound i (hsub.subset hi), h.nodup.sublist hsub⟩, ?_⟩
  · show (store b.results _).length = _
    rw [length_store, h.length]
    rfl
  · intro i hi p hp hpi
    rw [hpending] at hi
    obtain ⟨q, hq, hqi⟩ := List.mem_map.mp hi
    obtain ⟨hq, hretry⟩ := List.mem_filter.mp hq
    have hnodup : ((b.round rt cfg reply).map Prod.fst).Nodup := by
      rw [hslots]
      exact h.nodup
    rwa [List.inj_on_of_nodup_map hnodup hp hq (hpi.trans hqi.symm)]

variable (rt cfg) in
/-- **The loop.**  It sends a bounded number of requests, of pending slots only, each again only
    if asked to; the result of a slot is the last answer to it. -/
theorem exchange_spec (replies : ℕ → HttpReply) (attempts : ℕ) (h : b.Sound) :
    (b.exchange rt cfg replies attempts).1.envelopes = b.envelopes ∧
      (b.exchange rt cfg replies attempts).2.length ≤ attempts ∧
      (∀ round ∈ (b.exchange rt cfg replies attempts).2, ∀ p ∈ round, p.1 ∈ b.pending) ∧
      ResentIfAsked (b.exchange rt cfg replies attempts).2 ∧
      ∀ i, (b.exchange rt cfg replies attempts).1.results[i]? = b.results[i]?.map fun r =>
        (lastAnswer (b.exchange rt cfg replies attempts).2 i).getD r := by
  -- The induction is on the attempts left; a round is sent to the slots that are pending then.
  induction attempts generalizing b with
  | zero =>
    refine ⟨rfl, le_rfl, fun round hround => absurd hround List.not_mem_nil, List.Pairwise.nil,
      fun i => ?_⟩
    simp [exchange, lastAnswer]
  | succ attempts ih =>
    have hslots := map_fst_round rt cfg h (replies b.attempt)
    have hmem : ∀ p ∈ b.round rt cfg (replies b.attempt), p.1 ∈ b.pending := by
      intro p hp
      rw [← hslots]
      exact List.mem_map_of_mem hp
    have hresults : ∀ i, (b.replied rt cfg (replies b.attempt)).results[i]? =
        b.results[i]?.map fun r => ((b.round rt cfg (replies b.attempt)).lookup i).getD r := by
      intro i
      refine getElem?_store ?_ _ i
      rw [show (b.pending.zip _).map Prod.fst = b.pending from hslots]
      exact h.nodup
    obtain ⟨hsound, hasked⟩ := h.replied rt cfg (replies b.attempt)
    by_cases hover : (b.replied rt cfg (replies b.attempt)).isOver cfg = true
    · simp only [exchange, hover, if_true]
      refine ⟨rfl, by simp, ?_, List.pairwise_singleton _ _, fun i => ?_⟩
      · intro round hround
        rw [List.mem_singleton.mp hround]
        exact hmem
      · rw [hresults i]
        rfl
    · simp only [exchange, hover, Bool.false_eq_true, if_false]
      let b' := { b.replied rt cfg (replies b.attempt) with
        attempt := (b.replied rt cfg (replies b.attempt)).attempt + 1 }
      have hsound' : b'.Sound := ⟨hsound.length, hsound.bound, hsound.nodup⟩
      obtain ⟨henvelopes, hlength, hpending, hresent, hlast⟩ := ih hsound'
      refine ⟨henvelopes, Nat.succ_le_succ hlength, ?_, List.pairwise_cons.mpr ⟨?_, hresent⟩,
        fun i => ?_⟩
      · intro round hround p hp
        rcases List.mem_cons.mp hround with rfl | hround
        · exact hmem p hp
        · -- later rounds send what is still pending after this one
          have hlater := hpending round hround p hp
          obtain ⟨q, hq, hqp⟩ := List.mem_map.mp hlater
          rw [← hqp]
          exact hmem q (List.mem_of_mem_filter hq)
      · intro later hlater p hp hagain
        obtain ⟨q, hq, hqp⟩ := List.mem_map.mp hagain
        exact hasked q.1 (hpending later hlater q hq) p hp hqp.symm
      · rw [hlast i, hresults i, Option.map_map]
        congr 1
        funext r
        show ((lastAnswer _ i).getD _) = (((lastAnswer _ i).or _).getD r)
        cases lastAnswer (exchange rt cfg replies attempts b').2 i <;> rfl

theorem start_sound (envelopes : List Dict) : (start envelopes).Sound where
  length := List.length_replicate
  bound _ hi := List.mem_range.mp hi
  nodup := List.nodup_range

variable (rt cfg) in
/-- The first request sends everything. -/
theorem lastAnswer_isSome (replies : ℕ → HttpReply) (envelopes : List Dict) {attempts i : ℕ}
    (hattempts : 0 < attempts) (hi : i < envelopes.length) :
    (lastAnswer ((start envelopes).exchange rt cfg replies attempts).2 i).isSome = true := by
  have hround := map_fst_round rt cfg (start_sound envelopes) (replies 0)
  have hfirst : (((start envelopes).round rt cfg (replies 0)).lookup i).isSome = true := by
    rw [Option.isSome_iff_ne_none, ne_eq, List.lookup_eq_none_iff]
    intro h
    have hslot : i ∈ ((start envelopes).round rt cfg (replies 0)).map Prod.fst := by
      rw [hround]
      exact List.mem_range.mpr hi
    obtain ⟨p, hp, hpi⟩ := List.mem_map.mp hslot
    exact absurd (h p hp) (by simp [hpi])
  obtain ⟨n, rfl⟩ := Nat.exists_eq_succ_of_ne_zero hattempts.ne'
  unfold exchange
  dsimp only
  split_ifs
  · exact hfirst
  · show ((lastAnswer _ i).or (((start envelopes).round rt cfg (replies 0)).lookup i)).isSome = true
    rw [Option.isSome_or, hfirst, Bool.or_true]

variable (rt cfg) in
/-- The result of a slot is the last answer to it. -/
theorem results_exchange (replies : ℕ → HttpReply) (envelopes : List Dict) {attempts : ℕ}
    (hattempts : 0 < attempts) {i : ℕ} (hi : i < envelopes.length) :
    ((start envelopes).exchange rt cfg replies attempts).1.results[i]? =
      lastAnswer ((start envelopes).exchange rt cfg replies attempts).2 i := by
  obtain ⟨-, -, -, -, hlast⟩ := exchange_spec rt cfg replies attempts (start_sound envelopes)
  have hsome := lastAnswer_isSome rt cfg replies envelopes hattempts hi
  obtain ⟨response, hresponse⟩ := Option.isSome_iff_exists.mp hsome
  have hplaceholder : (start envelopes).results[i]? = some placeholder :=
    List.getElem?_replicate_of_lt hi
  rw [hlast i, hresponse, hplaceholder]
  rfl

/-! ### What is left to send -/

/-- The slots that each of the first replies asks to send again. -/
def pendingAfter (rt : Runtime) (cfg : HttpConfig) (batch : List Dict) (replies : ℕ → HttpReply) :
    ℕ → List ℕ
  | 0 => List.range batch.length
  | k + 1 =>
    let slots := pendingAfter rt cfg batch replies k
    ((slots.zip (interpret rt cfg (slots.filterMap fun i => batch[i]?) (replies k))).filter
      fun p => needsRetry p.2).map Prod.fst

variable (rt cfg) in
/-- The request with the given number. -/
def request (batch : List Dict) (replies : ℕ → HttpReply) (k : ℕ) : Round :=
  let slots := pendingAfter rt cfg batch replies k
  slots.zip (interpret rt cfg (slots.filterMap fun i => batch[i]?) (replies k))

/-- Slots of a batch select as many envelopes. -/
theorem length_filterMap_get {batch : List Dict} {slots : List ℕ}
    (h : ∀ i ∈ slots, i < batch.length) :
    (slots.filterMap fun i => batch[i]?).length = slots.length :=
  @length_select { start batch with results := [] } slots h

/-- What is left are different slots of the batch, and a request sends them. -/
theorem pendingAfter_sound (batch : List Dict) (replies : ℕ → HttpReply) (k : ℕ) :
    (∀ i ∈ pendingAfter rt cfg batch replies k, i < batch.length) ∧
      (pendingAfter rt cfg batch replies k).Nodup ∧
      (request rt cfg batch replies k).map Prod.fst = pendingAfter rt cfg batch replies k := by
  have hslots : ∀ k, (∀ i ∈ pendingAfter rt cfg batch replies k, i < batch.length) →
      (request rt cfg batch replies k).map Prod.fst = pendingAfter rt cfg batch replies k := by
    intro k hbound
    unfold request
    dsimp only
    rw [List.map_fst_zip]
    rw [length_interpret, length_filterMap_get hbound]
  induction k with
  | zero => exact ⟨fun i hi => List.mem_range.mp hi, List.nodup_range,
      hslots 0 fun i hi => List.mem_range.mp hi⟩
  | succ k ih =>
    obtain ⟨hbound, hnodup, hsent⟩ := ih
    have hsub : (pendingAfter rt cfg batch replies (k + 1)).Sublist
        (pendingAfter rt cfg batch replies k) := by
      show (((request rt cfg batch replies k).filter _).map Prod.fst).Sublist _
      rw [← hsent]
      exact List.filter_sublist.map Prod.fst
    have hbound' := fun i hi => hbound i (hsub.subset hi)
    exact ⟨hbound', hnodup.sublist hsub, hslots (k + 1) hbound'⟩

/-- Whether a reply asks for a retry depends on no envelope. -/
theorem map_needsRetry_interpret {batch batch' : List Dict} (h : batch.length = batch'.length)
    (reply : HttpReply) :
    (interpret rt cfg batch reply).map needsRetry =
      (interpret rt cfg batch' reply).map needsRetry := by
  -- a batch that is rejected as a whole gets one answer as many times as it has elements
  have hreject : ∀ (code : ErrorCode) (message message' : JStr) (retryable : Bool),
      (rejectBatch rt batch code message retryable).map needsRetry =
        (rejectBatch rt batch' code message' retryable).map needsRetry := by
    intro code message message' retryable
    unfold rejectBatch
    rw [List.map_map, List.map_map]
    show batch.map (fun _ => needsRetry (.rejected nilUuid code message retryable)) =
      batch'.map fun _ => needsRetry (.rejected nilUuid code message' retryable)
    rw [List.map_const', List.map_const', h]
    rfl
  cases reply with
  | timeout exception_name => exact hreject _ _ _ _
  | transportError text => exact hreject _ _ _ _
  -- only the number of results is held against the batch
  | response status body =>
    have hparse : parseBody cfg batch body = parseBody cfg batch' body := by
      unfold parseBody
      rw [h]
    unfold interpret
    dsimp only
    rw [hparse]
    cases parseBody cfg batch' body with
    | some responses => rfl
    | none =>
      dsimp only
      unfold statusError
      rw [h]
      exact hreject _ _ _ _

/-- Filtering pairs by the second component needs only the test's answers. -/
theorem map_fst_filter_zip (slots : List ℕ) {xs ys : List IngestResponse}
    (h : xs.map needsRetry = ys.map needsRetry) :
    ((slots.zip xs).filter fun p => needsRetry p.2).map Prod.fst =
      ((slots.zip ys).filter fun p => needsRetry p.2).map Prod.fst := by
  induction slots generalizing xs ys with
  | nil => rfl
  | cons i rest ih =>
    cases xs with
    | nil =>
      obtain rfl := List.map_eq_nil_iff.mp h.symm
      rfl
    | cons x xs =>
      cases ys with
      | nil => exact absurd h (by simp)
      | cons y ys =>
        rw [List.map_cons, List.map_cons, List.cons.injEq] at h
        rw [List.zip_cons_cons, List.zip_cons_cons, List.filter_cons, List.filter_cons]
        show List.map _ (if needsRetry x then _ else _) = List.map _ (if needsRetry y then _ else _)
        rw [h.1]
        split_ifs
        · rw [List.map_cons, List.map_cons, ih h.2]
        · exact ih h.2

/-- Batches of one length have the same slots left. -/
theorem pendingAfter_congr {batch batch' : List Dict} (h : batch.length = batch'.length)
    (replies : ℕ → HttpReply) (k : ℕ) :
    pendingAfter rt cfg batch replies k = pendingAfter rt cfg batch' replies k := by
  induction k with
  | zero => exact congrArg List.range h
  | succ k ih =>
    obtain ⟨hbound, -, -⟩ := @pendingAfter_sound rt cfg batch replies k
    unfold pendingAfter
    dsimp only
    rw [← ih]
    refine map_fst_filter_zip _ (map_needsRetry_interpret ?_ _)
    rw [length_filterMap_get hbound, length_filterMap_get fun i hi => h ▸ hbound i hi]

/-- Nothing is left once nothing was left. -/
theorem pendingAfter_nil {batch : List Dict} {replies : ℕ → HttpReply} {k : ℕ}
    (h : pendingAfter rt cfg batch replies k = []) (m : ℕ) :
    pendingAfter rt cfg batch replies (k + m) = [] := by
  induction m with
  | zero => exact h
  | succ m ih =>
    show pendingAfter rt cfg batch replies (k + m + 1) = []
    unfold pendingAfter
    dsimp only
    rw [ih]
    rfl

/-- The pending slots are those whose result asks for a retry. -/
def PendingExact (b : HttpBatch) : Prop :=
  ∀ i < b.envelopes.length, i ∈ b.pending ↔ (b.results[i]?).any needsRetry = true

theorem start_pendingExact (envelopes : List Dict) : (start envelopes).PendingExact := by
  intro i hi
  have hplaceholder : (start envelopes).results[i]? = some placeholder :=
    List.getElem?_replicate_of_lt hi
  rw [hplaceholder]
  exact ⟨fun _ => rfl, fun _ => List.mem_range.mpr hi⟩

variable (rt cfg) in
/-- A reply leaves pending what it asks to send again. -/
theorem PendingExact.replied (hexact : b.PendingExact) (h : b.Sound) (reply : HttpReply) :
    (b.replied rt cfg reply).PendingExact := by
  have hslots := map_fst_round rt cfg h reply
  have hnodup : ((b.round rt cfg reply).map Prod.fst).Nodup := by
    rw [hslots]
    exact h.nodup
  intro i hi
  have hresult : (b.replied rt cfg reply).results[i]? =
      b.results[i]?.map fun r => ((b.round rt cfg reply).lookup i).getD r :=
    getElem?_store hnodup _ i
  have hsome : ∃ r, b.results[i]? = some r :=
    ⟨_, List.getElem?_eq_getElem (lt_of_lt_of_eq hi h.length.symm)⟩
  obtain ⟨r, hr⟩ := hsome
  rw [hresult, hr]
  show i ∈ ((b.round rt cfg reply).filter fun p => needsRetry p.2).map Prod.fst ↔ _
  cases hlookup : (b.round rt cfg reply).lookup i with
  | none =>
    -- a slot that was not sent keeps its result, which asked for nothing
    have hnone : ∀ p ∈ b.round rt cfg reply, p.1 ≠ i := by
      intro p hp hpi
      exact absurd (List.lookup_eq_none_iff.mp hlookup p hp) (by simp [hpi])
    have hnot : i ∉ b.pending := by
      rw [← hslots]
      intro hmem
      obtain ⟨p, hp, hpi⟩ := List.mem_map.mp hmem
      exact hnone p hp hpi
    rw [hexact i hi, hr] at hnot
    constructor
    · intro hmem
      obtain ⟨p, hp, hpi⟩ := List.mem_map.mp hmem
      exact absurd hpi (hnone p (List.mem_of_mem_filter hp))
    · exact fun hretry => absurd hretry hnot
  | some response =>
    have hmem : (i, response) ∈ b.round rt cfg reply := by
      obtain ⟨front, back, hround, -⟩ := List.lookup_eq_some_iff.mp hlookup
      rw [hround]
      exact List.mem_append_right _ List.mem_cons_self
    constructor
    · intro hi
      obtain ⟨p, hp, hpi⟩ := List.mem_map.mp hi
      obtain ⟨hp, hretry⟩ := List.mem_filter.mp hp
      obtain rfl := List.inj_on_of_nodup_map hnodup hp hmem hpi
      exact hretry
    · intro hretry
      exact List.mem_map.mpr ⟨(i, response), List.mem_filter.mpr ⟨hmem, hretry⟩, rfl⟩

variable (rt cfg) in
/-- **What the loop leaves.**  The slots that every reply asked to send again, and no other result
    asks for a retry. -/
theorem exchange_pending (replies : ℕ → HttpReply) (attempts : ℕ) (h : b.Sound)
    (hexact : b.PendingExact)
    (hpending : b.pending = pendingAfter rt cfg b.envelopes replies b.attempt)
    (hattempts : b.attempt + attempts = cfg.max_retries) (hpos : 0 < attempts) :
    (b.exchange rt cfg replies attempts).1.Sound ∧
      (b.exchange rt cfg replies attempts).1.pending =
        pendingAfter rt cfg b.envelopes replies cfg.max_retries ∧
      (b.exchange rt cfg replies attempts).1.PendingExact := by
  induction attempts generalizing b with
  | zero => exact absurd hpos (lt_irrefl 0)
  | succ attempts ih =>
    have hsound := (h.replied rt cfg (replies b.attempt)).1
    have hexact' := hexact.replied rt cfg h (replies b.attempt)
    -- What this reply leaves pending is what the definition filters out next.
    have hnext : (b.replied rt cfg (replies b.attempt)).pending =
        pendingAfter rt cfg b.envelopes replies (b.attempt + 1) := by
      show ((b.pending.zip (interpret rt cfg (b.select b.pending) _)).filter _).map _ = _
      unfold select pendingAfter
      rw [hpending]
    by_cases hover : (b.replied rt cfg (replies b.attempt)).isOver cfg = true
    · simp only [exchange, hover, if_true]
      refine ⟨hsound, ?_, hexact'⟩
      rw [hnext]
      rcases Bool.or_eq_true_iff.mp hover with hempty | hlast
      · rw [List.isEmpty_iff, hnext] at hempty
        rw [hempty, ← hattempts, ← Nat.add_assoc, Nat.add_right_comm, pendingAfter_nil hempty]
      · rw [beq_iff_eq] at hlast
        rw [← hlast]
        rfl
    · have hmore : 0 < attempts := by
        rcases Nat.eq_zero_or_pos attempts with rfl | hmore
        · refine absurd ?_ hover
          show (_ || b.attempt + 1 == cfg.max_retries) = true
          rw [beq_iff_eq.mpr hattempts, Bool.or_true]
        · exact hmore
      simp only [exchange, hover, Bool.false_eq_true, if_false]
      have hrest := @ih { b.replied rt cfg (replies b.attempt) with attempt := b.attempt + 1 }
        ⟨hsound.length, hsound.bound, hsound.nodup⟩ hexact' hnext
        (by show b.attempt + 1 + attempts = _; omega) hmore
      exact hrest

variable (rt cfg) in
/-- **What is sent.**  A request for what is left, as long as anything is. -/
theorem exchange_rounds (replies : ℕ → HttpReply) (attempts : ℕ)
    (hpending : b.pending = pendingAfter rt cfg b.envelopes replies b.attempt)
    (hattempts : b.attempt + attempts = cfg.max_retries) (hsome : b.pending ≠ []) (k : ℕ)
    (round : Round) :
    (b.exchange rt cfg replies attempts).2[k]? = some round ↔
      k < attempts ∧ pendingAfter rt cfg b.envelopes replies (b.attempt + k) ≠ [] ∧
        round = request rt cfg b.envelopes replies (b.attempt + k) := by
  induction attempts generalizing b k with
  | zero => simp [exchange]
  | succ attempts ih =>
    have hround : b.round rt cfg (replies b.attempt) =
        request rt cfg b.envelopes replies b.attempt := by
      unfold HttpBatch.round request select
      rw [hpending]
    have hnext : (b.replied rt cfg (replies b.attempt)).pending =
        pendingAfter rt cfg b.envelopes replies (b.attempt + 1) := by
      show ((b.pending.zip (interpret rt cfg (b.select b.pending) _)).filter _).map _ = _
      unfold select pendingAfter
      rw [hpending]
    by_cases hover : (b.replied rt cfg (replies b.attempt)).isOver cfg = true
    · simp only [exchange, hover, if_true]
      cases k with
      | zero =>
        rw [show b.attempt + 0 = b.attempt from rfl, ← hpending, ← hround]
        simp [hsome, eq_comm]
      | succ k =>
        -- after the last request nothing is left, or no request is
        refine ⟨fun h => absurd h (by simp), ?_⟩
        rintro ⟨hk, hleft, -⟩
        rcases Bool.or_eq_true_iff.mp hover with hempty | hlast
        · rw [List.isEmpty_iff, hnext] at hempty
          refine absurd ?_ hleft
          rw [show b.attempt + (k + 1) = b.attempt + 1 + k by omega, pendingAfter_nil hempty]
        · have hlast : b.attempt + 1 = cfg.max_retries := beq_iff_eq.mp hlast
          omega
    · have hmore : (b.replied rt cfg (replies b.attempt)).pending ≠ [] := by
        intro hempty
        refine hover ?_
        unfold isOver
        rw [hempty]
        rfl
      simp only [exchange, hover, Bool.false_eq_true, if_false]
      cases k with
      | zero =>
        rw [show b.attempt + 0 = b.attempt from rfl, ← hpending, ← hround]
        simp [hsome, eq_comm]
      | succ k =>
        have hrest := @ih { b.replied rt cfg (replies b.attempt) with attempt := b.attempt + 1 }
          hnext (by show b.attempt + 1 + attempts = _; omega) hmore k
        rw [List.getElem?_cons_succ, show b.attempt + (k + 1) = b.attempt + 1 + k by omega,
          Nat.add_lt_add_iff_right]
        exact hrest

/-- The last answer to a slot is in the last round that sends it. -/
theorem lastAnswer_eq {rounds : List Round} {k i : ℕ} {round : Round} {response : IngestResponse}
    (hround : rounds[k]? = some round) (hanswer : round.lookup i = some response)
    (hlater : ∀ later ∈ rounds.drop (k + 1), i ∉ later.map Prod.fst) :
    lastAnswer rounds i = some response := by
  -- rounds without the slot have no answer to it
  have hnever : ∀ rest : List Round, (∀ later ∈ rest, i ∉ later.map Prod.fst) →
      lastAnswer rest i = none := by
    intro rest hrest
    induction rest with
    | nil => rfl
    | cons later rest ih =>
      show (lastAnswer rest i).or (later.lookup i) = none
      rw [ih fun l hl => hrest l (List.mem_cons_of_mem later hl), Option.none_or,
        List.lookup_eq_none_iff]
      intro p hp
      refine bne_iff_ne.mpr fun heq => hrest later List.mem_cons_self ?_
      exact List.mem_map.mpr ⟨p, hp, heq.symm⟩
  -- by induction on the rounds before the last that sends it
  induction rounds generalizing k with
  | nil => exact absurd hround (by simp)
  | cons first rest ih =>
    show (lastAnswer rest i).or (first.lookup i) = some response
    cases k with
    | zero =>
      obtain rfl := Option.some.inj hround
      rw [hnever rest hlater, hanswer]
      rfl
    | succ k =>
      rw [ih hround hlater]
      rfl

/-- The slots the loop gives up on are those that every reply asked to send again. -/
theorem unsent_exchange (replies : ℕ → HttpReply) (envelopes : List Dict) :
    ((start envelopes).exchange rt cfg replies cfg.max_retries).1.unsent =
      (List.range envelopes.length).filter fun i =>
        (pendingAfter rt cfg envelopes replies cfg.max_retries).contains i := by
  have hstart := start_sound envelopes
  obtain ⟨henvelopes, -, -, -, -⟩ := exchange_spec rt cfg replies cfg.max_retries hstart
  obtain ⟨hsound, hpending, hexact⟩ := exchange_pending rt cfg replies cfg.max_retries hstart
    (start_pendingExact envelopes) rfl (Nat.zero_add _) cfg.one_le_max_retries
  have hlength := hsound.length
  rw [henvelopes] at hlength
  unfold unsent
  rw [show (exchange rt cfg replies cfg.max_retries (start envelopes)).1.results.length =
    envelopes.length from hlength]
  refine List.filter_congr fun i hi => ?_
  rw [Bool.eq_iff_iff, ← hexact i (by rw [henvelopes]; exact List.mem_range.mp hi), hpending,
    List.contains_iff_mem]
  rfl

end HttpBatch

end RootSign
