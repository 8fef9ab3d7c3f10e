import RootSign.AcceptedEvents

namespace RootSign

open RootSign.Lib RootSign.Python

/-!
# Where the events of the store come from

Both the agent's client and `sync` post to the store.  Of a store that takes only what is posted to
it, every event was handed over by the agent, whichever way it came.

* `FailoverSetup.HoldsOnly` — what the store holds was there before, or is one of given events;
* `held_handed` — an event in the store was there at the start, or the agent has handed it over.
-/

variable {τ : Type}

/-- The store takes only what is posted. -/
def EventStore.Takes (store : EventStore τ) : Prop :=
  ∀ t batch id, store.holds (store.post t batch).2 id →
    store.holds t id ∨ ∃ e ∈ batch, Dict.get e "event_id" = id

/-- What the store holds was there at the start, or is one of the events. -/
def FailoverSetup.HoldsOnly (w : FailoverSetup τ) (t₀ : τ) (ids : List Uuid) (t : τ) : Prop :=
  ∀ id, w.store.holds t id → w.store.holds t₀ id ∨ ∃ u ∈ ids, w.rt.toUuid id = .ok u

/-- **Nothing is made up.** -/
def Failover.NoneMadeUp (w : FailoverSetup τ) (t₀ : τ) (s : Failover τ) : Prop :=
  w.HoldsOnly t₀ s.handed s.store

namespace FailoverSetup.HoldsOnly

variable {w : FailoverSetup τ} {t₀ t : τ} {ids : List Uuid}

theorem mono (h : w.HoldsOnly t₀ ids t) {ids' : List Uuid} (hsub : ∀ u ∈ ids, u ∈ ids') :
    w.HoldsOnly t₀ ids' t := by
  intro id hid
  refine Or.imp_right ?_ (h id hid)
  rintro ⟨u, hu, htext⟩
  exact ⟨u, hsub u hu, htext⟩

/-- A POST of some of the events. -/
theorem post (h : w.HoldsOnly t₀ ids t) (hstore : w.store.Takes) {batch : List Dict}
    (hbatch : ∀ e ∈ batch, ∃ u ∈ ids, w.rt.toUuid (Dict.get e "event_id") = .ok u) :
    w.HoldsOnly t₀ ids (w.store.post t batch).2 := by
  intro id hid
  rcases hstore t batch id hid with hold | ⟨e, he, rfl⟩
  · exact h id hold
  · exact Or.inr (hbatch e he)

end FailoverSetup.HoldsOnly

/-! ### Every step keeps the origin -/

/-- The line of an event is read as an envelope of the same event. -/
theorem toUuid_of_lineFrom {rt : Runtime} {src : SpoolSource} {envelope line e : Dict} {u : Uuid}
    (h : LineFrom rt envelope line) (hu : rt.toUuid (envelope.get "event_id") = .ok u)
    (he : envelopeOfRecord src line = some e) : rt.toUuid (e.get "event_id") = .ok u := by
  rw [(envelopeOfRecord_get he).2.1]
  cases h with
  | action event_id hkind htext htype hevent =>
    rw [hevent, rt.toUuid_text]
    exact htext.symm.trans hu
  | other hkind hfields =>
    rw [hfields "event_id" (by decide) (by decide)]
    exact hu
  | tally htype =>
    rw [envelopeOfRecord_loss htype] at he
    cases he

/-- The invariant: what the store holds, and what would be read from the spool, was handed over. -/
structure HeldInv (w : FailoverSetup τ) (t₀ : τ) (s : Failover τ) : Prop where
  held : s.NoneMadeUp w t₀
  lines : ∀ session, ∀ line ∈ s.http.spool.files session, ∀ src e,
    envelopeOfRecord src line = some e → ∃ u ∈ s.handed, w.rt.toUuid (e.get "event_id") = .ok u

namespace HeldInv

variable {w : FailoverSetup τ} {t₀ : τ} {s : Failover τ}

theorem opened (w : FailoverSetup τ) (t : τ) : HeldInv w t (.opened t) where
  held _ hid := Or.inl hid
  lines _ _ hline := absurd hline List.not_mem_nil

theorem call (h : HeldInv w t₀ s) (hstore : w.store.Takes) {envelopes : List (Dict × Uuid)}
    {io : ℕ → SpoolIO}
    (hids : ∀ p ∈ envelopes, ∃ u, w.rt.toUuid (p.1.get "event_id") = .ok u) :
    HeldInv w t₀ (s.call w envelopes io) := by
  -- every id of the batch is one handed over
  have hhanded : ∀ p ∈ envelopes, ∃ u ∈ idsOf w.rt envelopes ++ s.handed,
      w.rt.toUuid (p.1.get "event_id") = .ok u := by
    intro p hp
    obtain ⟨u, hu⟩ := hids p hp
    refine ⟨u, List.mem_append_left _ (List.mem_filterMap.mpr ⟨p, hp, ?_⟩), hu⟩
    rw [hu]
    rfl
  constructor
  · -- a POST brings the store events of the batch only
    have hrule := @handOver_rule τ w.rt w.cfg w.store s.http s.store envelopes io
      (w.HoldsOnly t₀ (idsOf w.rt envelopes ++ s.handed)) (fun _ _ _ => True)
    refine (hrule (fun t batch hsub hP => hP.post hstore fun e he => ?_)
      (fun _ _ _ _ _ _ _ => trivial) (fun _ _ _ _ _ => trivial)
      (h.held.mono fun u hu => List.mem_append_right _ hu)).1
    obtain ⟨p, hp, hsame⟩ := hsub e he
    rw [hsame.fields "event_id" (by decide)]
    exact hhanded p hp
  · -- and a line is that of an event of the batch
    intro session line hline src e he
    obtain ⟨replies, halone⟩ := handOver_alone w.rt w.cfg w.store s.http s.store envelopes io
    have hlines := @handleAlone_lines w.rt w.cfg session s.http ⟨envelopes, replies, io⟩
    rw [halone] at hlines
    rcases hlines line hline with hbefore | ⟨batch, hbatch, envelope, henvelope, hfrom⟩
    · obtain ⟨u, hu, htext⟩ := h.lines session line hbefore src e he
      exact ⟨u, List.mem_append_right _ hu, htext⟩
    · obtain ⟨p, hp, hsame⟩ := exists_of_mem_right (sealAll_keeps _ _ batch hbatch) henvelope
      obtain ⟨u, hu, htext⟩ := hhanded p hp
      rw [← hsame.fields "event_id" (by decide)] at htext
      exact ⟨u, hu, toUuid_of_lineFrom hfrom htext he⟩

theorem retire (h : HeldInv w t₀ s) (session_id : JStr) : HeldInv w t₀ (s.retire session_id) where
  held := h.held
  lines session line hline := h.lines session line (Failover.mem_of_mem_retire hline)

theorem sync (h : HeldInv w t₀ s) (hstore : w.store.Takes) (session_id : JStr) (batch_size : ℤ)
    (fresh : Dict → Uuid) : HeldInv w t₀ (s.sync w session_id batch_size fresh) := by
  unfold Failover.sync
  cases hread : readSpoolSession w.rt (w.src session_id)
      (recordLines (s.http.spool.files session_id)) with
  | error e => exact h
  | ok session =>
    dsimp only
    have hheld := @replay_rule τ w.rt w.sync_cfg w.store s.store (w.HoldsOnly t₀ s.handed) fresh
      session.envelopes batch_size (fun t sent hsub hP => hP.post hstore fun e' he' => by
        -- the event is on a line of the file
        obtain ⟨e, he, hsame⟩ := hsub e' he'
        rw [readSpoolSession_records hread] at he
        obtain ⟨line, hline, henvelope⟩ := List.mem_filterMap.mp he
        rw [hsame.fields "event_id" (by decide)]
        exact h.lines session_id line hline _ e henvelope) h.held
    have huploaded : HeldInv w t₀ { s with store := _ } := ⟨hheld, h.lines⟩
    split
    · split_ifs
      · exact huploaded.retire session_id
      · exact huploaded
    · exact huploaded

end HeldInv

/-- **Nothing is made up.**  In every run of calls and of `sync`, whatever the store answers, what
    it holds was there at the start or was handed over by the agent. -/
theorem held_handed (w : FailoverSetup τ) (hstore : w.store.Takes) (t : τ)
    (steps : List FailoverStep)
    (h : Guarded (Failover.step w) (Failover.NewEvents w) (.opened t) steps) :
    Throughout (Failover.step w) (Failover.NoneMadeUp w t) (.opened t) steps := by
  have hinv : Throughout (Failover.step w) (HeldInv w t) (.opened t) steps := by
    refine throughout_of_guarded (fun s l s' hinv hnew hstep => ?_) (HeldInv.opened w t) h
    cases l with
    | call envelopes io =>
      obtain rfl := Option.some.inj hstep
      exact hinv.call hstore fun p hp => (hnew.1 p hp).event_id
    | sync session_id batch_size fresh =>
      obtain rfl := Option.some.inj hstep
      exact hinv.sync hstore session_id batch_size fresh
  exact hinv.mono fun s hs => hs.held

/-- The example store takes what is posted, also where its reply is lost. -/
theorem held_handed_lossyStore :
    Throughout (Failover.step lossyFailover) (Failover.NoneMadeUp lossyFailover (0, []))
      (.opened (0, [])) lossySteps := by
  have htakes : lossyStore.Takes := fun t batch id hid =>
    (List.mem_append.mp hid).imp_right List.mem_map.mp
  exact held_handed lossyFailover htakes (0, []) lossySteps lossySteps_newEvents

end RootSign
