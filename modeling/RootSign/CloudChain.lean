import RootSign.CloudRecords

namespace RootSign

open RootSign.Lib RootSign.Python

/-!
# One chain in cloud mode

The wire path mints seals and the spool adopts them again, through one chain state.  Adoption moves
the tail to the adopted record whatever its number, so a record sealed next may be linked to an
older one than the last.

* `SingleChain` — the actions sealed form one chain, and what the store and the spool hold of it
  never reads as tampering;
* `OnTail` — the condition on a step: an action is sealed only while the tail of its chain is the
  action sealed last;
* `single_chain_of_onTail` — runs of such steps seal one chain.
-/

/-! ### The property -/

/-- The hash of the action sealed last. -/
def lastSealed (log : List SealedRecord) : Option JStr :=
  log.getLast?.map fun r => r.sealed.self_hash

theorem optStr_lastSealed (log : List SealedRecord) :
    optStr (lastSealed log) =
      lastSelf (fun r : SealedRecord => Json.str r.sealed.self_hash) .null log := by
  cases log using List.reverseRecOn with
  | nil => rfl
  | append_singleton log r =>
    rw [lastSelf_concat, lastSealed, List.getLast?_concat]
    rfl

/-- The fields of an action's payload that a stored record shows. -/
def shownFields : List String :=
  ["action_id", "tool_name", "input_hash", "output_hash", "prev_action_hash", "timestamp",
   "sequence_number", "self_hash", "input_redacted", "output_redacted"]

/-- The record under which the store holds an accepted action. -/
structure StoredAs (rt : Runtime) (envelope record : Dict) : Prop where
  action_line : isActionLine record = true
  fields : HasCanonicalFields record
  session_id : record.get "session_id" = .str (sessionOf rt envelope)
  event_id : ∃ event_id : Uuid, rt.toUuid (envelope.get "event_id") = .ok event_id ∧
    record.get "event_id" = .str event_id.text
  payload : ∃ payload, envelope.get "payload" = .obj payload ∧
    ∀ key ∈ shownFields, record.get key = Dict.get payload key

/-- A record of the session that the store or the spool file holds. -/
def Held (rt : Runtime) (s : HttpState) (session : JStr) (record : Dict) : Prop :=
  (∃ envelope ∈ s.accepted, envelope.get "event_type" = .str "ACTION_RECORD" ∧
    sessionOf rt envelope = session ∧ StoredAs rt envelope record) ∨
  record ∈ s.spool.files session

/-- The actions of a session are numbered `1, 2, …`, each names the one before it, and no file of
    held records, one for each event id, verifies as tampered. -/
structure SingleChain (rt : Runtime) (s : HttpState) (session : JStr) : Prop where
  number : ∀ (i : ℕ) (hi : i < (s.sealed session).length),
    (s.sealed session)[i].sealed.sequence_number = i + 1
  linked : LinkedFrom (fun r : SealedRecord => r.sealed.prev_action_hash)
    (fun r => Json.str r.sealed.self_hash) .null (s.sealed session)
  untampered : ∀ f : SessionFile, (∀ r ∈ f.actions, Held rt s session r) →
    (f.actions.Pairwise fun r r' => r.get "event_id" ≠ r'.get "event_id") →
    ∃ res, verifySessionLocal rt f.raw = .ok res ∧ res.verdict ≠ .TAMPERED

/-- The redacted payloads of the actions handed over hash to their recorded hashes. -/
def HttpState.Label.Bound (rt : Runtime) : HttpState.Label → Prop
  | .call _ envelopes _ => ∀ p ∈ envelopes, p.1.get "event_type" = .str "ACTION_RECORD" →
    ∀ payload, p.1.get "payload" = .obj payload → BoundPayload rt payload
  | _ => True

/-- The condition on a step: an action is handed over only while the tail of its session's chain is
    the action sealed last, so that no older one has been spooled since. -/
def OnTail (rt : Runtime) (s : HttpState) : HttpState.Label → Prop
  | .call _ envelopes _ => ∀ p ∈ envelopes, (p.1.get "event_type").pyEq (.str "ACTION_RECORD") →
    (s.spool.chains (sessionOf rt p.1)).tail = lastSealed (s.sealed (sessionOf rt p.1))
  | _ => True

instance (rt : Runtime) (s : HttpState) (l : HttpState.Label) : Decidable (OnTail rt s l) := by
  unfold OnTail
  split
  · infer_instance
  · exact .isTrue trivial

/-! ### Sealing on the tail -/

/-- The actions of every session are linked, canonically hashed and bound. -/
structure Chained (rt : Runtime) (s : HttpState) : Prop where
  linked : ∀ session, LinkedFrom (fun r : SealedRecord => r.sealed.prev_action_hash)
    (fun r => Json.str r.sealed.self_hash) .null (s.sealed session)
  hashed : ∀ session, ∀ r ∈ s.sealed session,
    r.sealed.self_hash = (canonicalOfSeal rt (.str session) r.payload r.sealed).selfHash rt
  bound : ∀ session, ∀ r ∈ s.sealed session, BoundPayload rt r.payload

section

variable {rt : Runtime} {s s' : HttpState} {session : JStr}

/-- A seal minted on the tail extends the chain. -/
theorem Chained.extend (h : Chained rt s) {fresh : Uuid} {r : SealedRecord}
    (htail : (s.spool.chains session).tail = lastSealed (s.sealed session))
    (hminted : r.sealed = (s.spool.chains session).minted rt fresh (.str session) r.payload)
    (hbound : BoundPayload rt r.payload) : Chained rt (s.extend session r) := by
  -- Only the records of the session change, and there the new one stands at the end.
  have hother : ∀ other, other ≠ session → (s.extend session r).sealed other = s.sealed other :=
    fun other hne => by simp [HttpState.extend, hne]
  have hself : (s.extend session r).sealed session = s.sealed session ++ [r] := by
    simp [HttpState.extend]
  refine ⟨fun other => ?_, fun other => ?_, fun other => ?_⟩
  · by_cases hne : other = session
    · subst hne
      rw [hself, linkedFrom_concat]
      refine ⟨h.linked other, ?_⟩
      rw [← optStr_lastSealed, ← htail, hminted]
      rfl
    · rw [hother other hne]
      exact h.linked other
  · by_cases hne : other = session
    · subst hne
      rw [hself]
      intro x hx
      rcases List.mem_append.mp hx with hx | hx
      · exact h.hashed other x hx
      · rw [List.mem_singleton.mp hx, hminted]
        exact ChainState.minted_self_hash _ _ _ _ _
    · rw [hother other hne]
      exact h.hashed other
  · by_cases hne : other = session
    · subst hne
      rw [hself]
      intro x hx
      rcases List.mem_append.mp hx with hx | hx
      · exact h.bound other x hx
      · rw [List.mem_singleton.mp hx]
        exact hbound
    · rw [hother other hne]
      exact h.bound other

/-- Sealing a batch extends the chains, if it starts on their tails. -/
theorem Seals.chained {inputs batch : List Dict} (h : Seals rt s inputs batch s')
    (hchained : Chained rt s)
    (htail : ∀ e ∈ inputs, e.get "event_type" = .str "ACTION_RECORD" →
      (s.spool.chains (sessionOf rt e)).tail = lastSealed (s.sealed (sessionOf rt e)))
    (hbound : ∀ e ∈ inputs, e.get "event_type" = .str "ACTION_RECORD" →
      ∀ payload, e.get "payload" = .obj payload → BoundPayload rt payload) : Chained rt s' := by
  induction h with
  | nil s => exact hchained
  | skip not_action event_type payload rest ih =>
    exact ih hchained (fun e he => htail e (List.mem_cons_of_mem _ he))
      (fun e he => hbound e (List.mem_cons_of_mem _ he))
  | @mint s s' input envelope inputs batch fresh r action payload carried minted rest ih =>
    refine ih (hchained.extend (htail input List.mem_cons_self action) minted
      (hbound input List.mem_cons_self action _ payload)) (fun e he haction => ?_)
      (fun e he => hbound e (List.mem_cons_of_mem _ he))
    -- the new action is the tail of its own chain, and the other tails are as they were
    by_cases hsession : sessionOf rt e = sessionOf rt input
    · simp only [HttpState.extend, hsession, Function.update_self]
      rw [lastSealed, List.getLast?_concat]
      rfl
    · simp only [HttpState.extend, Function.update_of_ne hsession]
      exact htail e (List.mem_cons_of_mem _ he) haction

/-! ### What is held -/

/-- The chain as the sealer's log. -/
theorem Chained.sealedLog (h : Chained rt s) (hnumbered : Numbered s) (session : JStr) :
    ∃ state, SealedLog rt (.str session)
      ((s.sealed session).map fun r => (r.payload, r.sealed)) state := by
  refine ⟨{ tail := lastSealed (s.sealed session), count := (s.sealed session).length }, by simp,
    ?_, ?_, ?_, ?_⟩
  · rw [lastSelf_map]
    exact optStr_lastSealed _
  · intro i hi
    rw [List.getElem_map]
    exact (hnumbered session).2 i (by simpa using hi)
  · rw [linkedFrom_map]
    exact h.linked session
  · intro e he
    obtain ⟨r, hr, rfl⟩ := List.mem_map.mp he
    exact h.hashed session r hr

/-- A held record carries one of the actions sealed, under its event id. -/
theorem Held.exists_sealed (hinv : CloudInv rt s) {r : Dict} (h : Held rt s session r)
    (hline : isActionLine r = true) : ∃ x ∈ s.sealed session,
      CarriesSeal (.str session) (x.payload, x.sealed) r ∧
        ∃ event_id : Uuid, rt.toUuid x.event_id = .ok event_id ∧
          r.get "event_id" = .str event_id.text := by
  rcases h with ⟨envelope, henvelope, haction, hsession, hstored⟩ | hfile
  · cases hinv.accepted envelope henvelope with
    | other not_action event_type payload => exact absurd haction not_action
    | action other x mem carried =>
      obtain rfl := hsession.symm.trans carried.session_id
      obtain ⟨event_id, hid, hrecord⟩ := hstored.event_id
      obtain ⟨payload, hpayload, hshown⟩ := hstored.payload
      obtain rfl := Json.obj.inj (carried.payload.symm.trans hpayload)
      rw [carried.event_id] at hid
      refine ⟨x, mem, ?_, event_id, hid, hrecord⟩
      constructor
      case action_line => exact hline
      case fields => exact hstored.fields
      case session_id => rw [hstored.session_id, hsession]
      all_goals
        rw [hshown _ (by simp [shownFields])]
        simp [SealedRecord.get_sealedPayload]
  · exact (hinv.lines session r hfile).carries hline

/-- Records of different events carry different numbers. -/
theorem sequenceOf_ne (hnumbered : Numbered s) {r r' : Dict} {x x' : SealedRecord}
    {u u' : Uuid} (hx : x ∈ s.sealed session) (hx' : x' ∈ s.sealed session)
    (hcarries : CarriesSeal (.str session) (x.payload, x.sealed) r)
    (hcarries' : CarriesSeal (.str session) (x'.payload, x'.sealed) r')
    (hid : rt.toUuid x.event_id = .ok u) (hid' : rt.toUuid x'.event_id = .ok u')
    (hr : r.get "event_id" = .str u.text) (hr' : r'.get "event_id" = .str u'.text)
    (hne : r.get "event_id" ≠ r'.get "event_id") : sequenceOf r ≠ sequenceOf r' := by
  rw [hcarries.sequenceOf_eq, hcarries'.sequenceOf_eq]
  intro heq
  obtain ⟨i, hi, rfl⟩ := List.mem_iff_getElem.mp hx
  obtain ⟨j, hj, rfl⟩ := List.mem_iff_getElem.mp hx'
  have hi' := (hnumbered session).2 i hi
  have hj' := (hnumbered session).2 j hj
  obtain rfl : i = j := by
    simp only at heq
    omega
  obtain rfl := Except.ok.inj (hid.symm.trans hid')
  exact hne (hr.trans hr'.symm)

/-- **No false alarm.** Chained records never verify as tampered, however few of them are held. -/
theorem Chained.singleChain (h : Chained rt s) (hinv : CloudInv rt s) (session : JStr) :
    SingleChain rt s session where
  number := (hinv.numbered session).2
  linked := h.linked session
  untampered f hheld hdistinct := by
    obtain ⟨state, hlog⟩ := h.sealedLog hinv.numbered session
    have hline : ∀ r ∈ f.actions, isActionLine r = true :=
      fun r hr => (List.mem_filter.mp hr).2
    have hbound : ∀ e ∈ (s.sealed session).map fun r => (r.payload, r.sealed),
        BoundPayload rt e.1 := by
      intro e he
      obtain ⟨r, hr, rfl⟩ := List.mem_map.mp he
      exact h.bound session r hr
    have hnumbers : f.actions.Pairwise fun r r' => sequenceOf r ≠ sequenceOf r' := by
      refine hdistinct.imp_of_mem fun {r r'} hr hr' hne => ?_
      obtain ⟨x, hx, hcarries, u, hid, hrecord⟩ := (hheld r hr).exists_sealed hinv (hline r hr)
      obtain ⟨x', hx', hcarries', u', hid', hrecord'⟩ :=
        (hheld r' hr').exists_sealed hinv (hline r' hr')
      exact sequenceOf_ne hinv.numbered hx hx' hcarries hcarries' hid hid' hrecord hrecord' hne
    obtain ⟨res, hres, -, hverdict⟩ := verify_sealed hlog hbound
      (fun r hr => by
        obtain ⟨x, hx, hcarries, -⟩ := (hheld r hr).exists_sealed hinv (hline r hr)
        exact ⟨_, List.mem_map_of_mem hx, hcarries⟩) hnumbers
    refine ⟨res, hres, ?_⟩
    rcases hverdict with ⟨hv, -⟩ | ⟨hv, -⟩ <;> rw [hv] <;> decide

end

/-! ### Runs -/

/-- What holds after any steps that meet the condition. -/
structure ChainedInv (rt : Runtime) (s : HttpState) : Prop extends CloudInv rt s where
  chained : Chained rt s

theorem ChainedInv.init (rt : Runtime) : ChainedInv rt HttpState.init where
  toCloudInv := .init rt
  chained :=
    { linked _ := trivial
      hashed _ r hr := absurd hr (by simp [HttpState.init])
      bound _ r hr := absurd hr (by simp [HttpState.init]) }

/-- One step: only a call seals, and it starts on the tails. -/
theorem chained_step {rt : Runtime} {cfg : HttpConfig} {s s' : HttpState} {l : HttpState.Label}
    (hinv : ChainedInv rt s) (hl : (l.Emitted ∧ l.Bound rt) ∧ OnTail rt s l)
    (hstep : s.step rt cfg l = some s') : ChainedInv rt s' := by
  obtain ⟨⟨hemitted, hbound⟩, htail⟩ := hl
  obtain ⟨s₁, inputs, batch, written, hmoves⟩ := step_moves hinv.toCloudInv hemitted hstep
  refine ⟨hmoves.inv hinv.toCloudInv, ?_⟩
  have hchained : Chained rt s₁ := by
    apply hmoves.seals.chained hinv.chained
    · intro e he
      rcases hmoves.origin with rfl | ⟨t, envelopes, io, rfl, rfl⟩
      · exact absurd he (by simp)
      · obtain ⟨p, hp, rfl⟩ := List.mem_map.mp he
        exact fun haction => htail p hp (Json.pyEq_str.mpr haction)
    · intro e he
      rcases hmoves.origin with rfl | ⟨t, envelopes, io, rfl, rfl⟩
      · exact absurd he (by simp)
      · obtain ⟨p, hp, rfl⟩ := List.mem_map.mp he
        exact hbound p hp
  constructor
  all_goals rw [hmoves.sealed]
  · exact hchained.linked
  · exact hchained.hashed
  · exact hchained.bound

/-- **One chain.** In every run of calls with bound envelopes as the SDK emits them, under any
    replies, failovers and cancellations, as long as every action is handed over while the tail is
    the action sealed last, each session's actions form a single chain, and what the store and the
    spool hold never verifies as tampered. -/
theorem single_chain_of_onTail (rt : Runtime) (cfg : HttpConfig) (labels : List HttpState.Label)
    (hemitted : ∀ l ∈ labels, l.Emitted ∧ l.Bound rt)
    (h : Guarded (HttpState.step rt cfg) (OnTail rt) .init labels) :
    Throughout (HttpState.step rt cfg) (fun s => ∀ session, SingleChain rt s session) .init
      labels := by
  have hguarded := h.and_forall hemitted
  have hinv := throughout_of_guarded
    (fun _ _ _ (hs : ChainedInv rt _) hok hstep => chained_step hs hok hstep) (.init rt) hguarded
  exact hinv.mono fun s hs session => hs.chained.singleChain hs.toCloudInv session

theorem exampleAction_bound (rt : Runtime) (event_id : Uuid) {payload : Dict}
    (h : (exampleAction event_id).get "payload" = .obj payload) : BoundPayload rt payload := by
  have hplain : (exampleAction event_id).get "payload" = .obj plainPayload := by
    simp [exampleAction, Dict.get_set, exampleEnvelope, Dict.get_ofFields, List.lookup_cons]
  obtain rfl := Json.obj.inj (hplain.symm.trans h)
  exact plainPayload_bound rt

theorem callWith_bound (rt : Runtime) (t : ℕ) (event_id : Uuid) :
    (callWith t event_id).Bound rt := by
  intro p hp _ payload hpayload
  rw [List.mem_singleton.mp hp] at hpayload
  exact exampleAction_bound rt event_id hpayload

/-- A call with two actions. -/
def callBoth (first second : Uuid) : HttpState.Label :=
  .call 0 [(exampleAction first, first), (exampleAction second, second)] noonIO

theorem callBoth_emitted (first second : Uuid) : (callBoth first second).Emitted := by
  intro p hp
  simp only [List.mem_cons, List.not_mem_nil, or_false] at hp
  rcases hp with rfl | rfl <;> exact exampleAction_emitted _

theorem callBoth_bound (rt : Runtime) (first second : Uuid) : (callBoth first second).Bound rt := by
  intro p hp _ payload hpayload
  simp only [List.mem_cons, List.not_mem_nil, or_false] at hp
  rcases hp with rfl | rfl <;> exact exampleAction_bound rt _ hpayload

/-- A batch of two actions times out and is spooled. -/
theorem single_chain_batch :
    Throughout (HttpState.step exampleRuntime oneAttempt)
      (fun s => ∀ session, SingleChain exampleRuntime s session) .init
      [callBoth exampleEvent exampleAgent, timesOut 0] := by
  apply single_chain_of_onTail
  · intro l hl
    simp only [List.mem_cons, List.not_mem_nil, or_false] at hl
    rcases hl with rfl | rfl
    · exact ⟨callBoth_emitted _ _, callBoth_bound _ _ _⟩
    · exact ⟨timesOut_emitted _, trivial⟩
  · decide +kernel

/-- Two actions are in flight, the first of them is spooled, and then a third one is sealed. -/
def spooledBehind : List HttpState.Label :=
  [callWith 0 exampleEvent, callWith 1 exampleAgent, timesOut 0, callWith 2 exampleRecord]

/-- The last of three actions names the second one. -/
def thirdNamesSecond : List SealedRecord → Bool
  | [_, second, third] => third.sealed.prev_action_hash.pyEq (.str second.sealed.self_hash)
  | _ => true

/-- The third action names the first one, not the second. -/
theorem not_single_chain_spooledBehind :
    (∀ l ∈ spooledBehind, l.Emitted ∧ l.Bound exampleRuntime) ∧
      ¬ Throughout (HttpState.step exampleRuntime oneAttempt)
        (fun s => ∀ session, SingleChain exampleRuntime s session) .init spooledBehind := by
  refine ⟨fun l hl => ?_, fun h => ?_⟩
  · simp only [spooledBehind, List.mem_cons, List.not_mem_nil, or_false] at hl
    rcases hl with rfl | rfl | rfl | rfl
    · exact ⟨callWith_emitted _ _, callWith_bound _ _ _⟩
    · exact ⟨callWith_emitted _ _, callWith_bound _ _ _⟩
    · exact ⟨timesOut_emitted _, trivial⟩
    · exact ⟨callWith_emitted _ _, callWith_bound _ _ _⟩
  · have hlinks : ((run (HttpState.step exampleRuntime oneAttempt) .init spooledBehind).map
        fun s => thirdNamesSecond (s.sealed exampleSession.text)) = some false := by
      decide +kernel
    obtain ⟨s, hrun, hlink⟩ := Option.map_eq_some_iff.mp hlinks
    have hlinked := (h.last hrun exampleSession.text).linked
    unfold thirdNamesSecond at hlink
    split at hlink
    case h_1 first second third hsealed =>
      rw [hsealed] at hlinked
      have hthird : third.sealed.prev_action_hash = .str second.sealed.self_hash := hlinked.2.2.1
      rw [hthird, Json.pyEq_str.mpr rfl] at hlink
      exact absurd hlink (by decide)
    case h_2 => exact absurd hlink (by decide)

end RootSign
