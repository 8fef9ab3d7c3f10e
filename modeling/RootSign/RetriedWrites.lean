import RootSign.BufferedLoss
import RootSign.JsonlAgreement

namespace RootSign

open RootSign.Lib RootSign.Python

/-!
# Retried writes

`BufferedIngestClient` over `JsonlIngestClient`: actions of one session, tasks that interleave in
any order, and appends that raise at any attempt, before their line is written or after.

* `Buffered.Scattered` — every envelope is in at most one place, whatever was cancelled;
* `RetryPipe`, `RetryPipe.step` — the two clients together;
* `RetryPipe.Inv` — each attempt takes the next number, and no action is attempted again after an
  answer;
* `no_false_gap_iff` — once every action is written, the file verifies `VALID` with one record for
  each exactly when no line was left behind an attempt that left none, and each action has one.
-/

/-! ### What is lost stays lost -/

namespace Buffered

/-- The client with more answers before its own, which no step looks at. -/
def withLost (s : Buffered) (lost : List (ℕ × InnerAnswer)) : Buffered :=
  { s with answers := lost ++ s.answers }

section

variable {cfg : BufferConfig} {s s' : Buffered} {who : Option ℕ} {lost : List (ℕ × InnerAnswer)}

/-- A task goes on alike whatever was lost. -/
theorem resume_withLost (after : AfterFlush) :
    (s.withLost lost).resume who after = (s.resume who after).withLost lost := by
  cases after <;> rfl

theorem finish_withLost (failed : List ℕ) (after : AfterFlush) :
    (s.withLost lost).finish who failed after = (s.finish who failed after).withLost lost := by
  unfold finish
  exact resume_withLost (s := { s with buffer := failed ++ s.buffer }) after

/-- The next event is sent alike whatever was lost. -/
theorem sendNext_withLost (failed rest : List ℕ) (after : AfterFlush) :
    (s.withLost lost).sendNext cfg who failed rest after =
      (s.sendNext cfg who failed rest after).withLost lost := by
  induction rest generalizing failed with
  | nil => exact finish_withLost failed after
  | cons current rest ih =>
    rw [sendNext, sendNext]
    split
    · exact ih _
    · rfl

/-- A send starts alike whatever was lost. -/
theorem startSend_withLost (batch : List ℕ) (after : AfterFlush) :
    (s.withLost lost).startSend cfg who batch after =
      (s.startSend cfg who batch after).withLost lost := by
  unfold startSend
  split
  · split
    · exact finish_withLost batch after
    · rfl
  · exact sendNext_withLost [] batch after

/-- A flush runs alike whatever was lost. -/
theorem flush_withLost (after : AfterFlush) :
    (s.withLost lost).flush cfg who after = (s.flush cfg who after).withLost lost := by
  unfold flush
  show (if s.buffer.isEmpty then _ else _) = _
  split
  · exact resume_withLost after
  · exact startSend_withLost (s := { s with buffer := [] }) s.buffer after

/-- An event is taken in alike whatever was lost. -/
theorem handle_withLost (t : ℕ) (envelope : Dict) :
    (s.withLost lost).handle cfg t envelope = (s.handle cfg t envelope).withLost lost := by
  have hstart : (s.withLost lost).startLoop = s.startLoop.withLost lost := by
    unfold startLoop
    show (if (s.loop_started || s.closed) = true then _ else _) = _
    split <;> rfl
  unfold handle
  simp only [hstart]
  cases shouldBuffer envelope with
  | error e => rfl
  | ok buffers =>
    cases buffers with
    | true =>
      dsimp only
      show (if cfg.max_buffer_size ≤ (s.startLoop.buffer ++ [s.startLoop.next]).length then _
        else _) = _
      split
      · exact flush_withLost (s := { s.startLoop with
          buffer := s.startLoop.buffer ++ [s.startLoop.next], next := s.startLoop.next + 1 }) .done
      · rfl
    | false => exact flush_withLost (.passthrough s.startLoop.next)

/-- The client closes alike whatever was lost. -/
theorem close_withLost (t : ℕ) :
    (s.withLost lost).close cfg t = (s.close cfg t).withLost lost := by
  unfold close
  dsimp only
  show (if s.loop_started = true then _ else _) = _
  split
  · rfl
  · exact flush_withLost (s := { s with closed := true }) .done

/-- An answer to one event is taken alike whatever was lost before. -/
theorem oneAnswered_withLost (failed : List ℕ) (current attempt : ℕ) (rest : List ℕ)
    (after : AfterFlush) (response : Option InnerAnswer) :
    (s.withLost lost).oneAnswered cfg who failed current attempt rest after response =
      (s.oneAnswered cfg who failed current attempt rest after response).withLost lost := by
  cases response with
  | some response =>
    show ({ s with
      answers := (lost ++ s.answers) ++ [(current, response)] } : Buffered).sendNext cfg
      who failed rest after = _
    rw [List.append_assoc]
    exact sendNext_withLost (s := { s with answers := s.answers ++ [(current, response)] }) failed
      rest after
  | none =>
    unfold oneAnswered
    dsimp only
    split
    · rfl
    · exact sendNext_withLost (failed ++ [current]) rest after

end

/-- Every envelope is in at most one place: with those that were lost, each is in exactly one. -/
def Scattered (s : Buffered) : Prop := ∃ lost, Inv (s.withLost lost)

/-- What the client does besides taking an envelope over and handing one on. -/
inductive Move where
  | flush (t : ℕ)
  | close (t : ℕ)
  | closeFlush (t : ℕ)
  | tick
  | wake (who : Option ℕ)

/-- The move as a step of the client. -/
def Move.label : Move → Label
  | .flush t => .flush t
  | .close t => .close t
  | .closeFlush t => .closeFlush t
  | .tick => .tick
  | .wake who => .wake who

section

variable {cfg : BufferConfig} {s s' : Buffered} {who : Option ℕ} {lost : List (ℕ × InnerAnswer)}

theorem tasks_withLost : (s.withLost lost).tasks = s.tasks := rfl

/-- **A move** is made alike whatever was lost. -/
theorem move_withLost (m : Move) (h : step cfg s m.label = some s') :
    step cfg (s.withLost lost) m.label = some (s'.withLost lost) := by
  have heffect := stepEffect_of_step h
  -- no move but a send reads or writes the list of lost events
  cases m with
  | flush t =>
    cases heffect with
    | flush _ hidle =>
      simp only [Move.label, step, tasks_withLost, hidle]
      exact congrArg some (flush_withLost .done)
  | close t =>
    cases heffect with
    | close _ hidle =>
      simp only [Move.label, step, tasks_withLost, hidle]
      exact congrArg some (close_withLost t)
  | closeFlush t =>
    cases heffect with
    | closeFlush _ hclosing =>
      simp only [Move.label, step, tasks_withLost, hclosing]
      exact congrArg some (flush_withLost .done)
  | tick =>
    cases heffect with
    | tick hasleep =>
      simp only [Move.label, step, tasks_withLost, hasleep]
      exact congrArg some (flush_withLost .sleep)
  | wake who =>
    cases heffect with
    | wakeBatch _ pending attempt after hbackoff =>
      simp only [Move.label, step, tasks_withLost, hbackoff]
      rfl
    | wakeOne _ failed current attempt rest after hbackoff =>
      simp only [Move.label, step, tasks_withLost, hbackoff]
      rfl

/-- Cancelling the loop in the middle of a send loses what it was sending. -/
theorem Inv.cancel (h : s.Inv) (hstarted : s.loop_started = true) :
    Inv ((s.withLost ((s.tasks none).sending.map fun i =>
      (i, .accepted))).setTask none .ended) := by
  have hothers : ∀ w, w ≠ none → Function.update s.tasks none Task.ended w = s.tasks w :=
    fun w hw => Function.update_of_ne hw _ _
  refine h.moves ⟨rfl, rfl, hothers, fun i => ?_⟩ fun _ => hstarted
  have hfinals : ((s.withLost ((s.tasks none).sending.map fun i => (i, .accepted))).setTask none
      .ended).finals = (s.tasks none).sending ++ s.finals := by
    show (List.filter _ (_ ++ s.answers)).map Prod.fst = _
    rw [List.filter_append, List.map_append]
    congr 1
    rw [List.filter_eq_self.mpr, List.map_map]
    · exact List.map_id _
    · intro p hp
      obtain ⟨i, -, rfl⟩ := List.mem_map.mp hp
      rfl
  show s.buffer.count i + _ +
    (Task.sending (Function.update s.tasks none Task.ended none)).count i = _
  rw [hfinals, Function.update_self, List.count_append]
  show _ + _ + 0 = _
  omega

/-- Closing loses what the loop is sending. -/
theorem Inv.close_lost {t : ℕ} (hinv : (s.withLost lost).Inv) (htask : s.tasks (some t) = .idle)
    (hsending : (s.tasks none).sending ≠ []) : (s.close cfg t).Scattered := by
  have hstarted : s.loop_started = true := by
    cases hstarted : s.loop_started with
    | true => rfl
    | false =>
      have hidle : s.tasks none = .idle := hinv.unstarted hstarted
      rw [hidle] at hsending
      exact absurd rfl hsending
  refine ⟨(s.tasks none).sending.map (fun i => (i, .accepted)) ++ lost, ?_⟩
  have hcancelled := hinv.cancel hstarted
  rw [tasks_withLost] at hcancelled
  have hclosed : Inv { ((s.withLost lost).withLost ((s.tasks none).sending.map
      fun i => (i, .accepted))).setTask none .ended with closed := true } :=
    ⟨hcancelled.placed, hcancelled.fresh, hcancelled.unstarted⟩
  have hmoves := setTask_moves { ((s.withLost lost).withLost ((s.tasks none).sending.map
      fun i => (i, .accepted))).setTask none .ended with closed := true } (some t) .closing
  -- the caller holds nothing before and after, so only the loop's envelopes change places
  have hidle : (Task.sending (({ ((s.withLost lost).withLost ((s.tasks none).sending.map
      fun i => (i, .accepted))).setTask none .ended with closed := true } :
        Buffered).tasks (some t))) = Task.closing.sending := by
    show (Function.update s.tasks none Task.ended (some t)).sending = _
    rw [Function.update_of_ne (Option.some_ne_none t), htask]
    rfl
  rw [← hidle] at hmoves
  have hfinal := hclosed.moves hmoves fun h => absurd h (Option.some_ne_none t)
  unfold Buffered.close
  dsimp only
  rw [if_pos hstarted]
  show Inv (withLost _ _)
  unfold withLost at hfinal ⊢
  rw [List.append_assoc]
  exact hfinal

/-- **No move** brings a lost envelope back. -/
theorem Scattered.move (h : s.Scattered) (m : Move) (hstep : step cfg s m.label = some s') :
    s'.Scattered := by
  obtain ⟨lost, hinv⟩ := h
  have hwith : step cfg (s.withLost lost) m.label = some (s'.withLost lost) :=
    move_withLost m hstep
  by_cases hlossless : (s.withLost lost).Lossless m.label
  · exact ⟨lost, inv_step hinv hlossless hwith⟩
  · cases m with
    | close t =>
      have heffect := stepEffect_of_step hstep
      cases heffect with
      | close _ hidle => exact hinv.close_lost hidle hlossless
    | _ => exact absurd trivial hlossless

/-- An event taken in goes to one task, so every pending one is still in one place. -/
theorem Scattered.handle (h : s.Scattered) {t : ℕ} {envelope : Dict}
    (hstep : step cfg s (.handle t envelope) = some s') : s'.Scattered := by
  obtain ⟨lost, hinv⟩ := h
  have hwith : step cfg (s.withLost lost) (.handle t envelope) = some (s'.withLost lost) := by
    cases stepEffect_of_step hstep with
    | handle _ _ hidle =>
      simp only [step, tasks_withLost, hidle]
      exact congrArg some (handle_withLost t envelope)
  exact ⟨lost, inv_step hinv (l := .handle t envelope) trivial hwith⟩

/-- An answer that is no refusal for good leaves every event in one place or settled. -/
theorem Scattered.answerOne (h : s.Scattered) {response : Option InnerAnswer}
    (hresponse : response ≠ some (.refused true))
    (hstep : step cfg s (.answerOne who response) = some s') : s'.Scattered := by
  obtain ⟨lost, hinv⟩ := h
  have hlossless : (s.withLost lost).Lossless (.answerOne who response) := by
    unfold Lossless
    split
    · rename_i heq
      injection heq
    · rename_i w heq
      injection heq with _ heq
      exact absurd heq hresponse
    · trivial
  have hwith : step cfg (s.withLost lost) (.answerOne who response) = some (s'.withLost lost) := by
    cases stepEffect_of_step hstep with
    | answerOne _ failed current attempt rest after _ hone =>
      simp only [step, tasks_withLost, hone]
      exact congrArg some (oneAnswered_withLost failed current attempt rest after response)
  exact ⟨lost, inv_step hinv hlossless hwith⟩

/-- What a task is sending has been buffered and is not answered. -/
theorem Scattered.sending (h : s.Scattered) {i : ℕ} (hmem : i ∈ (s.tasks who).sending) :
    i < s.next ∧ i ∉ s.finals := by
  obtain ⟨lost, hinv⟩ := h
  have hsending : i ∈ ((s.withLost lost).tasks who).sending := hmem
  obtain ⟨hlt, -, honly⟩ := hinv.only_sending hsending
  refine ⟨hlt, fun hfinal => ?_⟩
  have hnone : (s.withLost lost).finals.count i = 0 := honly .answered (by simp)
  refine List.count_eq_zero.mp hnone ?_
  show i ∈ (List.filter _ (lost ++ s.answers)).map Prod.fst
  rw [List.filter_append, List.map_append]
  exact List.mem_append_right _ hfinal

/-! ### Answers and numbers -/

/-- The client has the same answers, and has numbered the same envelopes. -/
structure SameLog (s s' : Buffered) : Prop where
  answers : s'.answers = s.answers
  next : s'.next = s.next

theorem SameLog.resume (s : Buffered) (who : Option ℕ) (after : AfterFlush) :
    SameLog s (s.resume who after) := by
  cases after <;> exact ⟨rfl, rfl⟩

theorem SameLog.sendNext (cfg : BufferConfig) (s : Buffered) (who : Option ℕ)
    (failed rest : List ℕ) (after : AfterFlush) :
    SameLog s (s.sendNext cfg who failed rest after) := by
  induction rest generalizing failed with
  | nil =>
    have h := SameLog.resume { s with buffer := failed ++ s.buffer } who after
    exact ⟨h.answers, h.next⟩
  | cons current rest ih =>
    rw [Buffered.sendNext]
    split
    · exact ih _
    · exact ⟨rfl, rfl⟩

theorem SameLog.flush (cfg : BufferConfig) (s : Buffered) (who : Option ℕ)
    (after : AfterFlush) : SameLog s (s.flush cfg who after) := by
  unfold Buffered.flush
  split
  · exact SameLog.resume s who after
  · unfold startSend
    split
    · split
      · have h := SameLog.resume { s with buffer := s.buffer ++ [] } who after
        exact ⟨h.answers, h.next⟩
      · exact ⟨rfl, rfl⟩
    · have h := SameLog.sendNext cfg { s with buffer := [] } who [] s.buffer after
      exact ⟨h.answers, h.next⟩

/-- A move that gets no answer leaves the answers and the buffer's numbering alone. -/
theorem SameLog.move (m : Move) (h : step cfg s m.label = some s') : SameLog s s' := by
  have heffect := stepEffect_of_step h
  cases m with
  | flush t => cases heffect with | flush => exact SameLog.flush cfg s (some t) .done
  | close t =>
    cases heffect with
    | close =>
      unfold Buffered.close
      dsimp only
      split
      · exact ⟨rfl, rfl⟩
      · -- without a loop the buffer is flushed
        have hflush := SameLog.flush cfg { s with closed := true } (some t) .done
        exact ⟨hflush.answers, hflush.next⟩
  | closeFlush t => cases heffect with | closeFlush => exact SameLog.flush cfg s (some t) .done
  | tick => cases heffect with | tick => exact SameLog.flush cfg s none .sleep
  | wake who =>
    cases heffect with
    | wakeBatch => exact ⟨rfl, rfl⟩
    | wakeOne => exact ⟨rfl, rfl⟩

/-- A buffered envelope gets the next number. -/
theorem handle_log {t : ℕ} {envelope : Dict} (hbuffers : shouldBuffer envelope = .ok true)
    (h : step cfg s (.handle t envelope) = some s') :
    s'.answers = s.answers ∧ s'.next = s.next + 1 := by
  cases stepEffect_of_step h with
  | handle =>
    have hstart : SameLog s s.startLoop := by
      unfold startLoop
      split <;> exact ⟨rfl, rfl⟩
    unfold Buffered.handle
    simp only [hbuffers]
    split
    · have hflush := SameLog.flush cfg { s.startLoop with
        buffer := s.startLoop.buffer ++ [s.startLoop.next], next := s.startLoop.next + 1 }
        (some t) .done
      exact ⟨hflush.answers.trans hstart.answers, hflush.next.trans (congrArg (· + 1) hstart.next)⟩
    · exact ⟨hstart.answers, congrArg (· + 1) hstart.next⟩

/-- What the inner client returns is recorded. -/
theorem answerOne_log {failed rest : List ℕ} {current attempt : ℕ} {after : AfterFlush}
    {response : Option InnerAnswer} (htask : s.tasks who = .one failed current attempt rest after)
    (h : step cfg s (.answerOne who response) = some s') :
    s'.answers = s.answers ++ (response.map fun r => (current, r)).toList ∧ s'.next = s.next := by
  unfold step at h
  simp only [htask, Option.some.injEq] at h
  rw [← h]
  unfold oneAnswered
  cases response with
  | some r =>
    have hlog := SameLog.sendNext cfg { s with answers := s.answers ++ [(current, r)] } who failed
      rest after
    exact ⟨hlog.answers, hlog.next⟩
  | none =>
    dsimp only
    split
    · exact ⟨by simp [setTask], rfl⟩
    · have hlog := SameLog.sendNext cfg s who (failed ++ [current]) rest after
      exact ⟨by simp [hlog.answers], hlog.next⟩

end

end Buffered

/-! ### One attempt -/

/-- An auto-authorized action of a session, as the SDK emits it: the ids are UUIDs, the date is
    offset-aware, and the payload is unsealed and bound to its hashes. -/
structure BufferedAction (rt : Runtime) (session : Uuid) where
  envelope : Dict
  event_id : Uuid
  emitted_text : JStr
  emitted_at : PyDateTime
  payload : Dict
  has_event_id : envelope.has "event_id"
  event_id_eq : rt.toUuid (envelope.get "event_id") = .ok event_id
  event_type_eq : envelope.get "event_type" = .str "ACTION_RECORD"
  session_id_eq : envelope.get "session_id" = .str session.text
  emitted_at_eq : envelope.get "emitted_at" = .str emitted_text
  emitted_at_read : rt.fromisoformat emitted_text = some emitted_at
  emitted_at_aware : emitted_at.aware = true
  emitted_in_range : emitted_at.canAdd ttl = true
  payload_eq : envelope.get "payload" = .obj payload
  payload_unsealed : UnsealedPayload payload
  payload_bound : BoundPayload rt payload
  auto_authorized : payload.get "authorization_status" = .str "auto_authorized"

section

variable {rt : Runtime} {session : Uuid}

/-- An action that is emitted without a gate is buffered. -/
theorem BufferedAction.buffers (a : BufferedAction rt session) :
    shouldBuffer a.envelope = .ok true := by
  unfold shouldBuffer
  rw [a.event_type_eq, if_pos (Json.pyEq_str.mpr rfl), payloadOf_obj a.payload_eq]
  show Except.ok ((a.payload.get "authorization_status").pyEq _) = _
  rw [a.auto_authorized]
  rfl

/-- The action as a call whose write returns. -/
def BufferedAction.call (a : BufferedAction rt session) (io : CallIO) : JsonlCall rt where
  io := { io with append := .written }
  envelope := a.envelope
  event_id := a.event_id
  kind := .ACTION_RECORD
  session := session
  emitted_at := a.emitted_at
  payload := a.payload
  written := rfl
  has_event_id := a.has_event_id
  event_id_eq := a.event_id_eq
  event_type_eq := a.event_type_eq
  session_id_eq := a.session_id_eq
  emitted_at_eq := by
    rw [a.emitted_at_eq, parseDt, a.emitted_at_read]
    rfl
  emitted_at_aware := a.emitted_at_aware
  payload_eq := fun _ => a.payload_eq
  payload_unsealed := fun _ => a.payload_unsealed
  payload_bound := fun _ => a.payload_bound

/-- **One attempt** seals the action under the next number.  If the append lands, its line is in the
    file; if not, the chain has advanced all the same.  The answer is cached if nothing is
    raised. -/
theorem handle_attempt (a : BufferedAction rt session) (io : CallIO) (s : JsonlState)
    {handled : List Uuid} (hstore : StoreInv handled s.idempotency)
    (hfresh : a.event_id ∉ handled) :
    ∃ sealed line store response,
      sealed = (s.chains session.text).minted rt io.fresh (.str session.text) a.payload ∧
      CarriesSeal (.str session.text) (a.payload, sealed) line ∧
      line.get "event_id" = .str a.event_id.text ∧
      StoreInv (if io.append.returns then a.event_id :: handled else handled) store ∧
      s.handle rt io a.envelope =
        (if io.append.returns then .ok response else .error .osError,
         { s with
           idempotency := store
           chains := Function.update s.chains session.text
             { tail := some sealed.self_hash, count := (s.chains session.text).count + 1 }
           files := if io.append.lands then
               Function.update s.files session.text (s.files session.text ++ [line])
             else s.files }) := by
  have hhead : JsonlState.readHead rt io a.envelope = .ok (a.call io).head :=
    (a.call io).readHead_eq
  obtain ⟨store, hget, hkept⟩ := IdempotencyStore.get_eq io.now_get hstore hfresh
  -- sealed on the session's tail; an action is never refused by the build
  obtain ⟨response, line, chains, hbuild, -, hkind⟩ :=
    build_eq (a.call io) { s with idempotency := store }
  obtain ⟨-, sealed, hsealed, rfl, hcarries, hevent, -, -⟩ | ⟨hno, -, -⟩ := hkind
  · have hbuild' : JsonlState.build rt io { s with idempotency := store } a.envelope
      (a.call io).head =
        _ := hbuild
    -- whether the append returned decides the cache, whether it landed the file
    cases hwrite : io.append.returns with
    | true =>
      obtain ⟨store', hstore', hrecord⟩ := record_eq (a.call io)
        { s with
          idempotency := store
          chains := Function.update s.chains session.text
            { tail := some sealed.self_hash, count := (s.chains session.text).count + 1 } }
        hkept response line
      refine ⟨sealed, line, store', response, hsealed, hcarries, hevent, hstore', ?_⟩
      have hio : io = (a.call io).io := by
        cases io
        obtain rfl := Append.returns_iff.mp hwrite
        rfl
      rw [Append.lands_of_returns hwrite]
      rw [JsonlState.handle, hhead]
      simp only [show (a.call io).head.event_id = a.event_id from rfl, hget, hbuild']
      have hrange : (a.call io).inRange = true := a.emitted_in_range
      rw [hrange] at hrecord
      rw [← hio] at hrecord
      exact hrecord
    | false =>
      refine ⟨sealed, line, store, response, hsealed, hcarries, hevent, hkept, ?_⟩
      rw [JsonlState.handle, hhead]
      simp only [show (a.call io).head.event_id = a.event_id from rfl, hget, hbuild']
      obtain ⟨b, hb⟩ := shouldFsync_text s.fsync "ACTION_RECORD"
      rw [JsonlState.record, show shouldFsync s.fsync (a.call io).head.event_type = .ok b from hb]
      simp only [JsonlState.appendLine_eq, hwrite, Bool.false_eq_true, if_false]
      rfl
  · exact absurd rfl hno

end

/-! ### The two clients together -/

/-- `BufferedIngestClient` over `JsonlIngestClient`, with the actions that were handed over and, for
    each attempt so far, which of them it was for and how its append ended. -/
structure RetryPipe (rt : Runtime) (session : Uuid) where
  client : Buffered
  store : JsonlState
  sent : List (BufferedAction rt session)
  writes : List (ℕ × Append)

namespace RetryPipe

/-- What happens next: an action is handed over, a task goes on, or a task's attempt is made. -/
inductive Label (rt : Runtime) (session : Uuid) where
  | send (t : ℕ) (a : BufferedAction rt session)
  | move (m : Buffered.Move)
  | attempt (who : Option ℕ) (io : CallIO)

/-- The append of a step that makes an attempt. -/
def Label.appended {rt : Runtime} {session : Uuid} : Label rt session → Option Append
  | .send _ _ => none
  | .move _ => none
  | .attempt _ io => some io.append

/-- The step hands an action over. -/
def Label.sends {rt : Runtime} {session : Uuid} : Label rt session → Bool
  | .send _ _ => true
  | .move _ => false
  | .attempt _ _ => false

/-- No attempt leaves a line after one that has left none, and as many leave one as there are
    actions. -/
structure OneLineEach (appends : List Append) (actions : ℕ) : Prop where
  in_order : appends.Pairwise fun first later => later.lands = true → first.lands = true
  count : appends.countP Append.lands = actions

section

variable {rt : Runtime} {session : Uuid}

/-- The inner client has no `handle_batch`. -/
def config (attempts max_buffer_size : ℕ) : BufferConfig := ⟨false, attempts, max_buffer_size⟩

/-- What the outer client sees of a call: a response, or that it raised. -/
def responseOf : Except PyError IngestResponse → Option InnerAnswer
  | .ok _ => some .accepted
  | .error _ => none

/-- One step.  Every action has an event id of its own. -/
def step (cfg : BufferConfig) (s : RetryPipe rt session) :
    Label rt session → Option (RetryPipe rt session)
  | .send t a =>
    if a.event_id ∈ s.sent.map BufferedAction.event_id then none
    else (Buffered.step cfg s.client (.handle t a.envelope)).map fun client =>
      { s with client := client, sent := s.sent ++ [a] }
  | .move m =>
    (Buffered.step cfg s.client m.label).map fun client => { s with client := client }
  | .attempt who io =>
    match s.client.tasks who with
    | .one _ current _ _ _ =>
      match s.sent[current]? with
      | some a =>
        let answer := (s.store.handle rt io a.envelope).1
        (Buffered.step cfg s.client (.answerOne who (responseOf answer))).map fun client =>
          { s with
            client := client
            store := (s.store.handle rt io a.envelope).2
            writes := s.writes ++ [(current, io.append)] }
      | none => none
    | _ => none

/-- Nothing handed over, nothing written. -/
def init : RetryPipe rt session where
  client := Buffered.init
  store := JsonlState.init
  sent := []
  writes := []

/-- The session file. -/
def file (s : RetryPipe rt session) : List Dict := s.store.files session.text

/-- Every action that was handed over is in the session file. -/
def AllWritten (s : RetryPipe rt session) : Prop :=
  ∀ a ∈ s.sent, ∃ line ∈ s.file, line.get "event_id" = .str a.event_id.text

/-- The session file, if there is one, verifies `VALID` with a record for each action once every
    action is written, and is reported `INCOMPLETE` only when some action is not. -/
def NoFalseGap (s : RetryPipe rt session) : Prop :=
  s.file ≠ [] → ∃ res, verifySessionLocal rt (objectLines s.file) = .ok res ∧
    (s.AllWritten → res.verdict = .VALID ∧ res.record_count = s.sent.length) ∧
    (res.verdict = .INCOMPLETE → ¬ s.AllWritten)

/-! ### What every step keeps -/

/-- The line that an attempt wrote: the record of its action under the number it took. -/
def WrittenBy (session : Uuid) (sent : List (BufferedAction rt session))
    (p : SealedEntry × ℕ × Append) (line : Dict) : Prop :=
  CarriesSeal (.str session.text) p.1 line ∧
    ∃ a, sent[p.2.1]? = some a ∧ line.get "event_id" = .str a.event_id.text

/-- Each attempt took the next number of the chain, and those whose append landed left their line
    in the file. -/
structure Chained (s : RetryPipe rt session) (log : List SealedEntry) : Prop where
  sealed : SealedLog rt (.str session.text) log (s.store.chains session.text)
  bound : ∀ e ∈ log, BoundPayload rt e.1
  length : log.length = s.writes.length
  lines : List.Forall₂ (WrittenBy session s.sent) ((log.zip s.writes).filter fun p =>
    p.2.2.lands) s.file

/-- What holds after any steps. -/
structure Inv (s : RetryPipe rt session) : Prop where
  scattered : s.client.Scattered
  next : s.client.next = s.sent.length
  answers : s.client.answers =
    (s.writes.filter fun p => p.2.returns).map fun p => (p.1, .accepted)
  sent : ∀ p ∈ s.writes, p.1 < s.sent.length
  once : s.writes.Pairwise fun p q => p.1 = q.1 → p.2.returns = false
  distinct : (s.sent.map BufferedAction.event_id).Nodup
  store : ∃ handled, StoreInv handled s.store.idempotency ∧
    ∀ u ∈ handled, ∃ p ∈ s.writes, p.2.returns = true ∧
      ∃ a, s.sent[p.1]? = some a ∧ a.event_id = u
  chained : ∃ log, s.Chained log

/-- Before the first step nothing was sent and the file is empty. -/
theorem Inv.init : Inv (init : RetryPipe rt session) where
  scattered := ⟨[], Buffered.Inv.init⟩
  next := rfl
  answers := rfl
  sent _ hp := absurd hp (List.not_mem_nil)
  once := .nil
  distinct := .nil
  store := ⟨[], (@JsonlInv.init rt).store, fun _ hu => absurd hu (List.not_mem_nil)⟩
  chained := ⟨[], SealedLog.nil rt _, fun _ he => absurd he (List.not_mem_nil), rfl, .nil⟩

/-- An action that was handed over keeps its place. -/
theorem getElem?_sent {sent : List (BufferedAction rt session)} {i : ℕ}
    {a : BufferedAction rt session} (b : BufferedAction rt session) (h : sent[i]? = some a) :
    (sent ++ [b])[i]? = some a := by
  obtain ⟨hi, -⟩ := List.getElem?_eq_some_iff.mp h
  rw [List.getElem?_append_left hi]
  exact h

variable {cfg : BufferConfig} {s s' : RetryPipe rt session}

/-- An action is handed over once. -/
theorem send_cases {t : ℕ} {a : BufferedAction rt session}
    (hstep : step cfg s (.send t a) = some s') :
    ∃ client, a.event_id ∉ s.sent.map BufferedAction.event_id ∧
      Buffered.step cfg s.client (.handle t a.envelope) = some client ∧
      s' = { s with client := client, sent := s.sent ++ [a] } := by
  simp only [step] at hstep
  by_cases hmem : a.event_id ∈ s.sent.map BufferedAction.event_id
  · rw [if_pos hmem] at hstep
    exact absurd hstep (by simp)
  · rw [if_neg hmem] at hstep
    obtain ⟨client, hclient, rfl⟩ := Option.map_eq_some_iff.mp hstep
    exact ⟨client, hmem, hclient, rfl⟩

/-- A new action has a number and an id of its own. -/
theorem Inv.send (h : s.Inv) {t : ℕ} {a : BufferedAction rt session}
    (hstep : step cfg s (.send t a) = some s') : s'.Inv := by
  obtain ⟨client, hmem, hclient, rfl⟩ := send_cases hstep
  obtain ⟨hanswers, hnext⟩ := Buffered.handle_log a.buffers hclient
  obtain ⟨handled, hstore, hhandled⟩ := h.store
  obtain ⟨log, hlog⟩ := h.chained
  -- what was sent is one longer, and everything that pointed into it still does
  exact
    { scattered := h.scattered.handle hclient
      next := by
        show client.next = (s.sent ++ [a]).length
        rw [hnext, h.next, List.length_append, List.length_singleton]
      answers := hanswers.trans h.answers
      sent := fun p hp => by
        show p.1 < (s.sent ++ [a]).length
        have := h.sent p hp
        rw [List.length_append]
        omega
      once := h.once
      distinct := by
        show ((s.sent ++ [a]).map BufferedAction.event_id).Nodup
        rw [List.map_append]
        exact List.nodup_append.mpr ⟨h.distinct, List.nodup_singleton _, fun u hu v hv =>
          (List.mem_singleton.mp hv) ▸ fun heq => hmem (heq ▸ hu)⟩
      store := ⟨handled, hstore, fun u hu => by
        obtain ⟨p, hp, hwritten, b, hb, hid⟩ := hhandled u hu
        exact ⟨p, hp, hwritten, b, getElem?_sent a hb, hid⟩⟩
      chained := ⟨log, hlog.sealed, hlog.bound, hlog.length, hlog.lines.imp
        fun p line ⟨hcarries, b, hb, hid⟩ => ⟨hcarries, b, getElem?_sent a hb, hid⟩⟩ }

/-- A move sends nothing, so the file and the attempts are as before. -/
theorem Inv.move (h : s.Inv) {m : Buffered.Move} (hstep : step cfg s (.move m) = some s') :
    s'.Inv := by
  obtain ⟨client, hclient, rfl⟩ := Option.map_eq_some_iff.mp hstep
  have hlog := Buffered.SameLog.move m hclient
  exact
    { scattered := h.scattered.move m hclient
      next := hlog.next.trans h.next
      answers := hlog.answers.trans h.answers
      sent := h.sent
      once := h.once
      distinct := h.distinct
      store := h.store
      chained := h.chained.imp fun log hlog => ⟨hlog.sealed, hlog.bound, hlog.length, hlog.lines⟩ }

/-- An attempt is for an action that was handed over. -/
theorem attempt_cases {who : Option ℕ} {io : CallIO}
    (hstep : step cfg s (.attempt who io) = some s') :
    ∃ failed current attempt rest after a client,
      s.client.tasks who = .one failed current attempt rest after ∧
      s.sent[current]? = some a ∧
      Buffered.step cfg s.client
        (.answerOne who (responseOf (s.store.handle rt io a.envelope).1)) = some client ∧
      s' = { s with
        client := client
        store := (s.store.handle rt io a.envelope).2
        writes := s.writes ++ [(current, io.append)] } := by
  unfold step at hstep
  cases htask : s.client.tasks who with
  | one failed current attempt rest after =>
    simp only [htask] at hstep
    cases hsent : s.sent[current]? with
    | none => simp [hsent] at hstep
    | some a =>
      simp only [hsent] at hstep
      obtain ⟨client, hclient, rfl⟩ := Option.map_eq_some_iff.mp hstep
      exact ⟨failed, current, attempt, rest, after, a, client, rfl, hsent, hclient, rfl⟩
  | _ => simp [htask] at hstep

/-- What is being sent has had no answer. -/
theorem Inv.unanswered (h : s.Inv) {who : Option ℕ} {i : ℕ}
    (hmem : i ∈ (s.client.tasks who).sending) : ∀ p ∈ s.writes, p.1 = i → p.2.returns = false := by
  intro p hp heq
  by_contra hwritten
  refine (h.scattered.sending hmem).2 ?_
  unfold Buffered.finals
  rw [h.answers, List.filter_map, List.map_map]
  refine List.mem_map.mpr ⟨p, List.mem_filter.mpr ⟨List.mem_filter.mpr ⟨hp, ?_⟩, rfl⟩, heq⟩
  simpa using hwritten

/-- Two actions with one event id are the same action. -/
theorem Inv.position (h : s.Inv) {i j : ℕ} {a b : BufferedAction rt session}
    (hi : s.sent[i]? = some a) (hj : s.sent[j]? = some b) (heq : a.event_id = b.event_id) :
    i = j := by
  obtain ⟨hilt, rfl⟩ := List.getElem?_eq_some_iff.mp hi
  obtain ⟨hjlt, rfl⟩ := List.getElem?_eq_some_iff.mp hj
  have hnodup := List.pairwise_iff_getElem.mp h.distinct
  rcases lt_trichotomy i j with hlt | hij | hgt
  · refine absurd ?_ (hnodup i j (by simpa using hilt) (by simpa using hjlt) hlt)
    rw [List.getElem_map, List.getElem_map]
    exact heq
  · exact hij
  · refine absurd ?_ (hnodup j i (by simpa using hjlt) (by simpa using hilt) hgt)
    rw [List.getElem_map, List.getElem_map]
    exact heq.symm

/-- What is being sent has an event id that the inner client has not cached. -/
theorem Inv.fresh (h : s.Inv) {who : Option ℕ} {i : ℕ} {a : BufferedAction rt session}
    (hmem : i ∈ (s.client.tasks who).sending) (hsent : s.sent[i]? = some a) {handled : List Uuid}
    (hhandled : ∀ u ∈ handled, ∃ p ∈ s.writes, p.2.returns = true ∧
      ∃ b, s.sent[p.1]? = some b ∧ b.event_id = u) : a.event_id ∉ handled := by
  intro hold
  obtain ⟨p, hp, hwritten, b, hb, hid⟩ := hhandled _ hold
  rw [h.unanswered hmem p hp (h.position hb hsent hid)] at hwritten
  exact Bool.false_ne_true hwritten

/-- The inner client answers when the append returns. -/
theorem Inv.response (h : s.Inv) {who : Option ℕ} (io : CallIO) {i : ℕ}
    {a : BufferedAction rt session} (hmem : i ∈ (s.client.tasks who).sending)
    (hsent : s.sent[i]? = some a) :
    responseOf (s.store.handle rt io a.envelope).1 =
      if io.append.returns then some .accepted else none := by
  obtain ⟨handled, hstore, hhandled⟩ := h.store
  obtain ⟨_, _, _, _, -, -, -, -, hhandle⟩ :=
    handle_attempt a io s.store hstore (h.fresh hmem hsent hhandled)
  rw [hhandle]
  cases io.append.returns <;> rfl

/-- **An attempt** keeps the invariant: one record sealed, at most one line and one answer. -/
theorem Inv.attempt (h : s.Inv) {who : Option ℕ} {io : CallIO}
    (hstep : step cfg s (.attempt who io) = some s') : s'.Inv := by
  obtain ⟨failed, current, attempt, rest, after, a, client, htask, hsent, hclient, rfl⟩ :=
    attempt_cases hstep
  -- the action under way has not been answered, so no attempt on it came to an answer
  have hsending : current ∈ (s.client.tasks who).sending := by
    rw [htask]
    simp [Task.sending]
  have hunanswered := h.unanswered hsending
  obtain ⟨handled, hstore, hhandled⟩ := h.store
  obtain ⟨sealed, line, store, response, hsealed, hcarries, hevent, hstore', hhandle⟩ :=
    handle_attempt a io s.store hstore (h.fresh hsending hsent hhandled)
  obtain ⟨log, hlog⟩ := h.chained
  rw [h.response io hsending hsent] at hclient
  obtain ⟨hanswers, hnext⟩ := Buffered.answerOne_log htask hclient
  exact
    { scattered := h.scattered.answerOne (by cases io.append.returns <;> simp) hclient
      next := hnext.trans h.next
      answers := by
        show client.answers = _
        rw [hanswers, h.answers, List.filter_append, List.map_append]
        -- an attempt that raises is answered by nothing
        cases io.append <;> rfl
      sent := fun p hp => by
        rcases List.mem_append.mp hp with hp | hp
        · exact h.sent p hp
        · rw [List.mem_singleton.mp hp]
          exact (List.getElem?_eq_some_iff.mp hsent).1
      once := List.pairwise_append.mpr ⟨h.once, List.pairwise_singleton _ _, fun p hp q hq heq =>
        hunanswered p hp (by rw [heq, List.mem_singleton.mp hq])⟩
      distinct := h.distinct
      store := by
        rw [hhandle]
        refine ⟨_, hstore', fun u hu => ?_⟩
        -- what the cache knows are the ids of the attempts that returned
        have hold : u ∈ handled → ∃ p ∈ s.writes ++ [(current, io.append)], p.2.returns = true ∧
            ∃ a, s.sent[p.1]? = some a ∧ a.event_id = u := fun hu => by
          obtain ⟨p, hp, hrest⟩ := hhandled u hu
          exact ⟨p, List.mem_append_left _ hp, hrest⟩
        cases hwrite : io.append.returns with
        | false =>
          rw [hwrite] at hu
          exact hold hu
        | true =>
          rw [hwrite] at hu
          rcases List.mem_cons.mp hu with rfl | hu
          · exact ⟨(current, io.append), by simp, hwrite, a, hsent, rfl⟩
          · exact hold hu
      chained := by
        -- the log grows by the action sealed, and the file by its line if the append landed
        rw [hhandle]
        refine ⟨log ++ [(a.payload, sealed)], ?_, ?_, ?_, ?_⟩
        · dsimp only
          rw [Function.update_self, hsealed]
          exact hlog.sealed.mint io.fresh a.payload
        · intro e he
          rcases List.mem_append.mp he with he | he
          · exact hlog.bound e he
          · rw [List.mem_singleton.mp he]
            exact a.payload_bound
        · rw [List.length_append, List.length_append, hlog.length]
          rfl
        · dsimp only
          rw [List.zip_append hlog.length, List.filter_append]
          unfold file
          dsimp only
          rw [List.zip_cons_cons, List.zip_nil_left]
          by_cases hlands : io.append.lands = true
          · rw [if_pos hlands, Function.update_self, List.filter_cons_of_pos (by exact hlands)]
            exact List.rel_append hlog.lines (.cons ⟨hcarries, a, hsent, hevent⟩ .nil)
          · rw [if_neg hlands, List.filter_cons_of_neg (by exact hlands), List.filter_nil,
              List.append_nil]
            exact hlog.lines }

/-- **No step** breaks the invariant. -/
theorem Inv.step (h : s.Inv) {l : Label rt session} (hstep : RetryPipe.step cfg s l = some s') :
    s'.Inv := by
  cases l with
  | send t a => exact h.send hstep
  | move m => exact h.move hstep
  | attempt who io => exact h.attempt hstep

/-- A step makes the attempt it says, and hands over the action it says. -/
theorem log_step {l : Label rt session} (hstep : RetryPipe.step cfg s l = some s') :
    s'.writes.map Prod.snd = s.writes.map Prod.snd ++ l.appended.toList ∧
      s'.sent.length = s.sent.length + if l.sends then 1 else 0 := by
  cases l with
  | send t a =>
    obtain ⟨client, -, -, rfl⟩ := send_cases hstep
    exact ⟨(List.append_nil _).symm, List.length_append⟩
  | move m =>
    obtain ⟨client, -, rfl⟩ := Option.map_eq_some_iff.mp hstep
    exact ⟨(List.append_nil _).symm, rfl⟩
  | attempt who io =>
    obtain ⟨_, _, _, _, _, _, _, -, -, -, rfl⟩ := attempt_cases hstep
    exact ⟨List.map_append, rfl⟩

/-- **Every run** keeps the invariant, makes the attempts it says, and hands over the actions. -/
theorem run_spec {labels : List (Label rt session)} (h : s.Inv)
    (hrun : run (RetryPipe.step cfg) s labels = some s') :
    s'.Inv ∧
      s'.writes.map Prod.snd = s.writes.map Prod.snd ++ labels.filterMap Label.appended ∧
      s'.sent.length = s.sent.length + labels.countP Label.sends := by
  induction labels generalizing s with
  | nil =>
    obtain rfl := Option.some.inj hrun
    exact ⟨h, (List.append_nil _).symm, rfl⟩
  | cons l rest ih =>
    obtain ⟨s₁, hstep, hrest⟩ := Option.bind_eq_some_iff.mp hrun
    obtain ⟨hinv, hwrites, hsent⟩ := ih (h.step hstep) hrest
    obtain ⟨hwrites₁, hsent₁⟩ := log_step hstep
    refine ⟨hinv, ?_, ?_⟩
    · rw [hwrites, hwrites₁, List.append_assoc]
      congr 1
      cases hl : l.appended with
      | none => rw [List.filterMap_cons_none hl]; rfl
      | some append => rw [List.filterMap_cons_some hl]; rfl
    · rw [hsent, hsent₁, List.countP_cons]
      omega

/-! ### What the verifier finds -/

/-- Every line of the file was written by an attempt that landed, under its number. -/
theorem Chained.line_attempt {log : List SealedEntry} (hlog : s.Chained log) {line : Dict}
    (hline : line ∈ s.file) :
    ∃ (j : ℕ) (hj : j < s.writes.length), s.writes[j].2.lands = true ∧ sequenceOf line = j + 1 ∧
      (∃ e ∈ log, CarriesSeal (.str session.text) e line) ∧
      ∃ a, s.sent[s.writes[j].1]? = some a ∧ line.get "event_id" = .str a.event_id.text := by
  obtain ⟨i, hi, rfl⟩ := List.mem_iff_getElem.mp hline
  have hi' : i < ((log.zip s.writes).filter fun p => p.2.2.lands).length := by
    rw [hlog.lines.length_eq]
    exact hi
  obtain ⟨hcarries, hsent⟩ := hlog.lines.get hi' hi
  simp only [List.get_eq_getElem] at hcarries hsent
  obtain ⟨hmem, hwritten⟩ := List.mem_filter.mp (List.getElem_mem hi')
  obtain ⟨j, hj, heq⟩ := List.mem_iff_getElem.mp hmem
  rw [← heq] at hcarries hsent hwritten
  have hjlog : j < log.length := by
    rw [List.length_zip] at hj
    omega
  rw [List.getElem_zip] at hcarries hsent hwritten
  refine ⟨j, by rw [← hlog.length]; exact hjlog, hwritten, ?_,
    ⟨log[j], List.getElem_mem hjlog, hcarries⟩, hsent⟩
  rw [hcarries.sequenceOf_eq, hlog.sealed.number j hjlog]

/-- Every line of the file is an action record. -/
theorem Chained.actions_eq {log : List SealedEntry} (hlog : s.Chained log) :
    s.file.filter isActionLine = s.file := by
  refine List.filter_eq_self.mpr fun line hline => ?_
  obtain ⟨_, _, -, -, ⟨e, -, hcarries⟩, -⟩ := hlog.line_attempt hline
  exact hcarries.action_line

/-- No two lines of the file have one number. -/
theorem Chained.distinct_numbers {log : List SealedEntry} (hlog : s.Chained log) :
    s.file.Pairwise fun r r' => sequenceOf r ≠ sequenceOf r' := by
  have hzip : (log.zip s.writes).Pairwise
      fun p q => p.1.2.sequence_number ≠ q.1.2.sequence_number := by
    rw [List.pairwise_iff_getElem]
    intro i j hi hj hij
    rw [List.length_zip] at hi hj
    rw [List.getElem_zip, List.getElem_zip, hlog.sealed.number i (by omega),
      hlog.sealed.number j (by omega)]
    omega
  have hfilter := List.pairwise_iff_getElem.mp (hzip.filter fun p => p.2.2.lands)
  rw [List.pairwise_iff_getElem]
  intro i j hi hj hij
  have hi' : i < ((log.zip s.writes).filter fun p => p.2.2.lands).length := by
    rw [hlog.lines.length_eq]
    exact hi
  have hj' : j < ((log.zip s.writes).filter fun p => p.2.2.lands).length := by
    rw [hlog.lines.length_eq]
    exact hj
  have hcarries := (hlog.lines.get hi' hi).1.sequenceOf_eq
  have hcarries' := (hlog.lines.get hj' hj).1.sequenceOf_eq
  simp only [List.get_eq_getElem] at hcarries hcarries'
  rw [hcarries, hcarries']
  exact hfilter i j hi' hj' hij

/-- An attempt that landed has left its line, under its number. -/
theorem Chained.line_of_lands {log : List SealedEntry} (hlog : s.Chained log) {j : ℕ}
    (hj : j < s.writes.length) (hlands : s.writes[j].2.lands = true) :
    ∃ line ∈ s.file, sequenceOf line = j + 1 ∧
      ∃ a, s.sent[s.writes[j].1]? = some a ∧ line.get "event_id" = .str a.event_id.text := by
  have hjlog : j < log.length := by
    rw [hlog.length]
    exact hj
  have hj' : j < (log.zip s.writes).length := by
    rw [List.length_zip]
    omega
  have hentry : (log.zip s.writes)[j] ∈ (log.zip s.writes).filter fun p => p.2.2.lands := by
    refine List.mem_filter.mpr ⟨List.getElem_mem hj', ?_⟩
    rw [List.getElem_zip]
    exact hlands
  obtain ⟨k, hk, hkeq⟩ := List.mem_iff_getElem.mp hentry
  have hk' : k < s.file.length := by
    rw [← hlog.lines.length_eq]
    exact hk
  obtain ⟨hcarries, hsent⟩ := hlog.lines.get hk hk'
  simp only [List.get_eq_getElem] at hcarries hsent
  rw [hkeq, List.getElem_zip] at hcarries hsent
  exact ⟨_, List.getElem_mem hk', by rw [hcarries.sequenceOf_eq, hlog.sealed.number j hjlog], hsent⟩

/-- **The numbers that are absent** are those of the attempts that left no line and are followed by
    one that left a line. -/
theorem Chained.absent_iff {log : List SealedEntry} (hlog : s.Chained log) :
    (∀ k, ¬ Absent s.file k) ↔
      (s.writes.map Prod.snd).Pairwise fun first later =>
        later.lands = true → first.lands = true := by
  rw [List.pairwise_map, List.pairwise_iff_getElem]
  constructor
  · intro hnone i j hi hj hij hlands
    by_contra hfailed
    obtain ⟨line, hline, hnumber, -⟩ := hlog.line_of_lands hj hlands
    refine hnone (i + 1) ⟨by omega, ⟨line, hline, by omega⟩, fun r hr hequal => ?_⟩
    obtain ⟨i', hi', hlands', hnumber', -⟩ := hlog.line_attempt hr
    have hsame : i' = i := by omega
    subst hsame
    exact hfailed hlands'
  · rintro horder k ⟨hk, ⟨r, hr, hle⟩, habsent⟩
    obtain ⟨j, hj, hlands, hnumber, -⟩ := hlog.line_attempt hr
    obtain ⟨i, rfl⟩ : ∃ i : ℕ, k = i + 1 := ⟨(k - 1).toNat, by omega⟩
    have hi : i < s.writes.length := by omega
    have hfailed : s.writes[i].2.lands ≠ true := by
      intro hwritten
      obtain ⟨line, hline, hequal, -⟩ := hlog.line_of_lands hi hwritten
      exact habsent line hline hequal
    -- the attempt that left the line came later
    have hij : i < j := by
      rcases Nat.lt_or_ge i j with hlt | hge
      · exact hlt
      · obtain rfl : i = j := by omega
        exact absurd hlands hfailed
    exact hfailed (horder i j hi hj hij hlands)

/-- The file has a line for each attempt that landed. -/
theorem Chained.length_file {log : List SealedEntry} (hlog : s.Chained log) :
    s.file.length = (s.writes.map Prod.snd).countP Append.lands := by
  rw [← hlog.lines.length_eq, List.countP_map, ← List.countP_eq_length_filter,
    ← List.map_snd_zip hlog.length.ge, List.countP_map]
  rw [List.map_snd_zip hlog.length.ge]
  rfl

/-- The verifier counts the lines, and finds the numbers that are absent. -/
theorem Chained.verify {log : List SealedEntry} (hlog : s.Chained log) (hne : s.file ≠ []) :
    ∃ res, verifySessionLocal rt (objectLines s.file) = .ok res ∧
      res.record_count = s.file.length ∧
      ((res.verdict = .VALID ∧ ∀ k, ¬ Absent s.file k) ∨
        (res.verdict = .INCOMPLETE ∧ ∃ k, Absent s.file k)) := by
  have hactions : SessionFile.actions ⟨s.file, hne⟩ = s.file := hlog.actions_eq
  obtain ⟨res, hres, hout, hverdict⟩ := verify_sealed (f := ⟨s.file, hne⟩) hlog.sealed hlog.bound
    (by
      rw [hactions]
      intro r hr
      obtain ⟨_, _, -, -, hcarries, -⟩ := hlog.line_attempt hr
      exact hcarries)
    (by
      rw [hactions]
      exact hlog.distinct_numbers)
  rw [hactions] at hverdict
  refine ⟨res, hres, ?_, hverdict⟩
  rw [hout.record_count, hactions]

/-- **No false gap, of a state.** There is none exactly if, once each action is written, each has
    one line and no line comes after an attempt that left none. -/
theorem Inv.noFalseGap_iff (h : s.Inv) :
    s.NoFalseGap ↔ (s.AllWritten → OneLineEach (s.writes.map Prod.snd) s.sent.length) := by
  obtain ⟨log, hlog⟩ := h.chained
  -- a false gap is one reported though each action has a line
  constructor
  · intro hgap hall
    by_cases hne : s.file = []
    · -- no line, so no action and no attempt
      have hsent : s.sent = [] := by
        by_contra hsome
        obtain ⟨a, ha⟩ := List.exists_mem_of_ne_nil _ hsome
        obtain ⟨line, hline, -⟩ := hall a ha
        rw [hne] at hline
        exact absurd hline List.not_mem_nil
      have hwrites : s.writes = [] := by
        by_contra hsome
        obtain ⟨p, hp⟩ := List.exists_mem_of_ne_nil _ hsome
        have := h.sent p hp
        rw [hsent] at this
        exact absurd this (Nat.not_lt_zero _)
      rw [hsent, hwrites]
      exact ⟨.nil, rfl⟩
    · obtain ⟨res, hres, hvalid, -⟩ := hgap hne
      obtain ⟨res', hres', hcount, hverdict⟩ := hlog.verify hne
      obtain rfl : res = res' := Except.ok.inj (hres.symm.trans hres')
      rcases hverdict with ⟨-, hnone⟩ | ⟨hincomplete, -⟩
      · refine ⟨hlog.absent_iff.mp hnone, ?_⟩
        rw [← hlog.length_file, ← hcount]
        exact (hvalid hall).2
      · rw [(hvalid hall).1] at hincomplete
        exact absurd hincomplete (by simp)
  · intro hlines hne
    obtain ⟨res, hres, hcount, hverdict⟩ := hlog.verify hne
    refine ⟨res, hres, fun hall => ?_, fun hincomplete hall => ?_⟩
    -- by the verdict, which is a gap exactly when some number of the log has no line
    · rcases hverdict with ⟨hvalid, -⟩ | ⟨-, k, habsent⟩
      · refine ⟨hvalid, ?_⟩
        rw [hcount, hlog.length_file]
        exact (hlines hall).count
      · exact absurd habsent (hlog.absent_iff.mpr (hlines hall).in_order k)
    · rcases hverdict with ⟨hvalid, -⟩ | ⟨-, k, habsent⟩
      · rw [hvalid] at hincomplete
        exact absurd hincomplete (by simp)
      · exact hlog.absent_iff.mpr (hlines hall).in_order k habsent

/-- **Retried writes and the verifier.**  In every run, whatever order the tasks go on in, the
    file shows no gap for an action that is written exactly when, once all are written, no attempt
    has left a line behind one that left none, and as many attempts left a line as there are
    actions: a failed one keeps the number it took, and the retry takes another. -/
theorem no_false_gap_iff {labels : List (Label rt session)}
    (hrun : run (RetryPipe.step cfg) RetryPipe.init labels = some s) :
    s.NoFalseGap ↔ (s.AllWritten →
      OneLineEach (labels.filterMap Label.appended) (labels.countP Label.sends)) := by
  obtain ⟨hinv, hwrites, hsent⟩ := run_spec Inv.init hrun
  have hwrites : s.writes.map Prod.snd = labels.filterMap Label.appended := hwrites
  have hsent : s.sent.length = labels.countP Label.sends := hsent.trans (Nat.zero_add _)
  rw [hinv.noFalseGap_iff, hwrites, hsent]

end

end RetryPipe

/-! ### One action, written at the second attempt -/

/-- An action payload as the SDK emits it for a call that needs no approval. -/
def autoPayload : Dict :=
  Dict.ofFields
    [("tool_name", .str "send_email"),
     ("input_hash", .str "e3b0c44298fc1c149afbf4c8996fb92427ae41e4649b934ca495991b7852b855"),
     ("timestamp", .str "2026-05-01T12:00:00+00:00"),
     ("authorization_status", .str "auto_authorized")]

/-- The reader of the examples reads noon of the first of May. -/
theorem twoDates_mayNoon :
    twoDates.fromisoformat "2026-05-01T12:00:00+00:00" = some mayNoon.time := by
  simp [twoDates, cpython]

/-- An action emitted in May 2026. -/
def mayAction : BufferedAction twoDates exampleSession where
  envelope := Dict.ofFields
    [("schema_version", .str "1.1"), ("sdk_version", .str "0.3.0"),
     ("event_type", .str "ACTION_RECORD"), ("event_id", .str exampleEvent.text),
     ("emitted_at", .str "2026-05-01T12:00:00+00:00"), ("agent_id", .str exampleAgent.text),
     ("session_id", .str exampleSession.text), ("payload", .obj autoPayload)]
  event_id := exampleEvent
  emitted_text := "2026-05-01T12:00:00+00:00"
  emitted_at := mayNoon.time
  payload := autoPayload
  has_event_id := by simp [Dict.has_ofFields, List.lookup_cons]
  event_id_eq := by simp [Dict.get_ofFields, List.lookup_cons]
  event_type_eq := by simp [Dict.get_ofFields, List.lookup_cons]
  session_id_eq := by simp [Dict.get_ofFields, List.lookup_cons]
  emitted_at_eq := by simp [Dict.get_ofFields, List.lookup_cons]
  emitted_at_read := twoDates_mayNoon
  emitted_at_aware := mayNoon.aware
  emitted_in_range := by
    rw [PyDateTime.canAdd]
    decide
  payload_eq := by simp [Dict.get_ofFields, List.lookup_cons]
  payload_unsealed := by
    constructor <;> simp [autoPayload, Dict.has_ofFields, Dict.get_ofFields, List.lookup_cons]
  payload_bound := by
    constructor <;> simp [autoPayload, Dict.get_ofFields, List.lookup_cons]
  auto_authorized := by simp [autoPayload, Dict.get_ofFields, List.lookup_cons]

/-- A call of the inner client whose append ends in the given way. -/
def appendIO (append : Append) : CallIO :=
  ⟨exampleRecord, mayNoon, mayNoon, mayNoon, mayNoon, append⟩

namespace RetryPipe

/-- The action is handed over to a client that sends at once. -/
def handedOver : RetryPipe twoDates exampleSession where
  client := { Buffered.init.startLoop.setTask (some 0) (.one [] 0 0 [] .done) with next := 1 }
  store := JsonlState.init
  sent := [mayAction]
  writes := []

/-- With a buffer of one action it is sent as soon as it is handed over. -/
theorem step_handedOver : step (config 3 1) init (.send 0 mayAction) = some handedOver := by
  have hclient : Buffered.step (config 3 1) Buffered.init (.handle 0 mayAction.envelope) =
      some handedOver.client := by
    show some (Buffered.init.handle (config 3 1) 0 mayAction.envelope) = _
    unfold Buffered.handle
    simp only [mayAction.buffers]
    rfl
  have hnew : mayAction.event_id ∉
      (init : RetryPipe twoDates exampleSession).sent.map BufferedAction.event_id :=
    List.not_mem_nil
  simp only [step]
  rw [if_neg hnew]
  show (Buffered.step (config 3 1) Buffered.init (.handle 0 mayAction.envelope)).map _ = _
  rw [hclient]
  rfl

/-- The state after an attempt for an action that is not written. -/
theorem attempt_eq {rt : Runtime} {session : Uuid} {s : RetryPipe rt session} (h : s.Inv)
    (cfg : BufferConfig) (who : Option ℕ) (io : CallIO) {failed rest : List ℕ}
    {current attempt : ℕ} {after : AfterFlush} {a : BufferedAction rt session}
    (htask : s.client.tasks who = .one failed current attempt rest after)
    (hsent : s.sent[current]? = some a) :
    ∃ store, step cfg s (.attempt who io) = some
      { s with
        client := s.client.oneAnswered cfg who failed current attempt rest after
          (if io.append.returns then some .accepted else none)
        store := store
        writes := s.writes ++ [(current, io.append)] } := by
  have hsending : current ∈ (s.client.tasks who).sending := by
    rw [htask]
    simp [Task.sending]
  refine ⟨(s.store.handle rt io a.envelope).2, ?_⟩
  simp only [step, htask, hsent, h.response io hsending hsent, Buffered.step]
  rfl

/-- The line is written at once. -/
def writtenAtOnce : List (Label twoDates exampleSession) :=
  [.send 0 mayAction, .attempt (some 0) ( appendIO .written)]

/-- The append writes nothing, and is tried again. -/
def writtenOnRetry : List (Label twoDates exampleSession) :=
  [.send 0 mayAction, .attempt (some 0) ( appendIO .unwritten), .move (.wake (some 0)),
    .attempt (some 0) ( appendIO .written)]

/-- The first run goes through: the append returns at once. -/
theorem run_writtenAtOnce : ∃ s, run (step (config 3 1)) init writtenAtOnce = some s := by
  have hinv : handedOver.Inv := Inv.init.send step_handedOver
  obtain ⟨store, hstep⟩ := attempt_eq hinv (config 3 1) (some 0) ( appendIO .written) rfl rfl
  exact ⟨_, Option.bind_eq_some_iff.mpr ⟨_, step_handedOver,
    Option.bind_eq_some_iff.mpr ⟨_, hstep, rfl⟩⟩⟩

/-- The second run goes through: the append raises once and is repeated. -/
theorem run_writtenOnRetry :
    ∃ s, run (step (config 3 1)) init writtenOnRetry = some s ∧ s.sent = [mayAction] ∧
      s.writes = [(0, .unwritten), (0, .written)] := by
  have hinv : handedOver.Inv := Inv.init.send step_handedOver
  obtain ⟨store, hfailed⟩ := attempt_eq hinv (config 3 1) (some 0) ( appendIO .unwritten) rfl rfl
  have hwoken := (hinv.attempt hfailed).move
    (show step (config 3 1) _ (.move (.wake (some 0))) = some _ from rfl)
  obtain ⟨store', hretry⟩ := attempt_eq hwoken (config 3 1) (some 0) ( appendIO .written) rfl rfl
  exact ⟨_, Option.bind_eq_some_iff.mpr ⟨_, step_handedOver,
    Option.bind_eq_some_iff.mpr ⟨_, hfailed, Option.bind_eq_some_iff.mpr ⟨_, rfl,
      Option.bind_eq_some_iff.mpr ⟨_, hretry, rfl⟩⟩⟩⟩, rfl, rfl⟩

/-- With one append, which writes the line, there is no gap. -/
theorem no_false_gap_writtenAtOnce :
    ∃ s, run (step (config 3 1)) init writtenAtOnce = some s ∧ s.NoFalseGap := by
  obtain ⟨s, hrun⟩ := run_writtenAtOnce
  exact ⟨s, hrun, (no_false_gap_iff hrun).mpr fun _ => ⟨List.pairwise_singleton _ _, rfl⟩⟩

/-- The retried action is written, and the file verifies `INCOMPLETE`. -/
theorem not_no_false_gap_writtenOnRetry :
    ∃ s, run (step (config 3 1)) init writtenOnRetry = some s ∧ s.AllWritten ∧ ¬ s.NoFalseGap := by
  obtain ⟨s, hrun, hsent, hwrites⟩ := run_writtenOnRetry
  obtain ⟨hinv, -⟩ := run_spec Inv.init hrun
  obtain ⟨log, hlog⟩ := hinv.chained
  have hall : s.AllWritten := by
    intro a ha
    rw [hsent, List.mem_singleton] at ha
    subst ha
    have hlong : 1 < s.writes.length := by
      rw [hwrites]
      decide
    have hretry : s.writes[1] = (0, .written) := by simp only [hwrites, List.getElem_cons_succ,
      List.getElem_cons_zero]
    obtain ⟨line, hline, -, a, ha, hid⟩ := hlog.line_of_lands hlong (by rw [hretry]; rfl)
    rw [hretry, hsent] at ha
    obtain rfl : mayAction = a := Option.some.inj ha
    exact ⟨line, hline, hid⟩
  refine ⟨s, hrun, hall, fun hgap => ?_⟩
  have horder := (hinv.noFalseGap_iff.mp hgap hall).in_order
  rw [hwrites] at horder
  exact absurd ((List.pairwise_cons.mp horder).1 .written (by simp) rfl) Bool.false_ne_true

end RetryPipe

end RootSign
