import RootSign.CloudRecords

namespace RootSign

open RootSign.Lib RootSign.Python

/-!
# The order of the spool

The reader of a spool file refuses numbers that do not ascend, so the spool should be written in
the order of sealing.  Concurrent calls exhaust their retries in any order.

* `SpoolReadable` — every session's spool file is accepted, its action numbers ascending;
* `NotOvertaken` — the condition on a step: a call that gives up hands over no action when one
  sealed later is already in the file;
* `spool_readable_of_not_overtaken` — runs of such steps leave readable files.
-/

/-- The reader accepts every session's file, and the numbers of its actions ascend. -/
def SpoolReadable (rt : Runtime) (src : JStr → SpoolSource) (s : HttpState) : Prop :=
  ∀ session, Uploadable rt (src session) (s.spool.files session) ∧
    ((s.spool.files session).filterMap actionNumber).Pairwise (· < ·)

/-- The condition on a step: at the last reply to a call, no action still refused was sealed before
    one that its session's file already holds. -/
def NotOvertaken (rt : Runtime) (cfg : HttpConfig) (s : HttpState) : HttpState.Label → Prop
  | .reply t reply _ =>
    match s.calls t with
    | .posting b =>
      let b := b.replied rt cfg reply
      b.isOver cfg = true → cfg.enable_spool = true →
        ∀ e ∈ b.select b.unsent, ∀ m ∈ numberIn rt (sessionOf rt e) e,
          ∀ n ∈ (s.spool.files (sessionOf rt e)).filterMap actionNumber, n < m
    | _ => True
  | _ => True

instance (rt : Runtime) (cfg : HttpConfig) (s : HttpState) (l : HttpState.Label) :
    Decidable (NotOvertaken rt cfg s l) := by
  unfold NotOvertaken
  split
  · split
    · infer_instance
    · exact .isTrue trivial
  · exact .isTrue trivial

/-- What holds after any steps that meet the condition. -/
structure SpoolInv (rt : Runtime) (s : HttpState) : Prop extends CloudInv rt s where
  in_order : ∀ session, ((s.spool.files session).filterMap actionNumber).Pairwise (· < ·)

section

variable {rt : Runtime} {cfg : HttpConfig} {s s' : HttpState} {l : HttpState.Label}

/-- The number of an action line is that of a sealed action. -/
theorem LineOf.exists_number {sealed : List SealedRecord} {session : JStr} {line : Dict} {n : ℤ}
    (h : LineOf rt sealed session line) (hn : actionNumber line = some n) :
    ∃ r ∈ sealed, r.sealed.sequence_number = n := by
  unfold actionNumber at hn
  split at hn
  case isTrue hkind =>
    have htype := Json.pyEq_str.mp hkind
    have hline : isActionLine line = true := by
      obtain ⟨v, hv⟩ := Option.isSome_iff_exists.mp
        (Dict.has_of_get_ne_null (by rw [htype]; exact Json.noConfusion))
      rw [Dict.get, Dict.getD, hv] at htype
      rw [isActionLine, Dict.getD, hv]
      exact Json.pyEq_str.mpr htype
    obtain ⟨r, hr, hcarries, -⟩ := h.carries hline
    rw [hcarries.sequence_number] at hn
    exact ⟨r, hr, Option.some.inj hn⟩
  case isFalse => exact absurd hn (by simp)

/-- **One step.** What is written comes after what the file holds: a new batch was sealed later, and
    a call that gives up has not been overtaken. -/
theorem spool_step (hinv : SpoolInv rt s) (hl : l.Emitted ∧ NotOvertaken rt cfg s l)
    (hstep : s.step rt cfg l = some s') : SpoolInv rt s' := by
  obtain ⟨s₁, inputs, batch, written, hmoves⟩ := step_moves hinv.toCloudInv hl.1 hstep
  have heffect := hmoves.seals.effect hinv.numbered
  refine ⟨hmoves.inv hinv.toCloudInv, fun session => ?_⟩
  obtain ⟨lines, hlines, hsub, -⟩ := hmoves.store.files session
  rw [hlines, heffect.files, List.filterMap_append, List.pairwise_append]
  -- the numbers written ascend, from above those on file
  obtain ⟨hwritten, habove⟩ : (written.filterMap (numberIn rt session)).Pairwise (· < ·) ∧
      ∀ n ∈ (s.spool.files session).filterMap actionNumber,
        ∀ m ∈ written.filterMap (numberIn rt session), n < m := by
    rcases hmoves.writes with rfl | rfl | ⟨t, reply, io, b, rfl, hb, hover, henable, rfl⟩
    · exact ⟨.nil, fun n _ m hm => absurd hm (by simp)⟩
    · obtain ⟨hpair, hlater⟩ := heffect.ascending session
      refine ⟨hpair, fun n hn m hm => ?_⟩
      obtain ⟨line, hline, hnumber⟩ := List.mem_filterMap.mp hn
      obtain ⟨r, hr, rfl⟩ := (hinv.lines session line hline).exists_number hnumber
      exact hlater r hr m hm
    · have hflight := hinv.ascending t b (by rw [hb]; rfl) session
      have hsome := ((b.replied rt cfg reply).select_unsent_sublist).filterMap (numberIn rt session)
      refine ⟨hflight.sublist hsome, fun n hn m hm => ?_⟩
      have hguard := hl.2
      simp only [NotOvertaken, hb] at hguard
      obtain ⟨e, he, hnumber⟩ := List.mem_filterMap.mp hm
      obtain rfl := session_eq_of_numberIn hnumber
      exact hguard hover henable e he m hnumber n hn
  exact ⟨hinv.in_order session, hwritten.sublist hsub,
    fun n hn m hm => habove n hn m (hsub.subset hm)⟩

theorem SpoolInv.init (rt : Runtime) : SpoolInv rt HttpState.init where
  toCloudInv := .init rt
  in_order _ := .nil

theorem SpoolInv.readable (h : SpoolInv rt s) (src : JStr → SpoolSource) :
    SpoolReadable rt src s := by
  intro session
  refine ⟨?_, h.in_order session⟩
  rw [readSpoolSession_ok_iff]
  · exact h.in_order session
  · exact fun line hline => (h.lines session line hline).written

end

/-- **The spool can be uploaded.** In every run of calls with envelopes as the SDK emits them, under
    any replies, backoffs and cancellations, as long as no call that gives up has been overtaken,
    every spool file is accepted and its action numbers ascend. -/
theorem spool_readable_of_not_overtaken (rt : Runtime) (cfg : HttpConfig)
    (src : JStr → SpoolSource) (labels : List HttpState.Label)
    (hemitted : ∀ l ∈ labels, l.Emitted)
    (h : Guarded (HttpState.step rt cfg) (NotOvertaken rt cfg) .init labels) :
    Throughout (HttpState.step rt cfg) (SpoolReadable rt src) .init labels := by
  have hguarded := h.and_forall hemitted
  have hinv := throughout_of_guarded
    (fun _ _ _ (hs : SpoolInv rt _) hok hstep => spool_step hs hok hstep) (.init rt) hguarded
  exact hinv.mono fun s hs => hs.readable src

/-- Two calls that time out in the order of sealing. -/
theorem spool_readable_inTurn :
    Throughout (HttpState.step exampleRuntime oneAttempt)
      (SpoolReadable exampleRuntime fun _ => ⟨"", "", ""⟩) .init
      [callWith 0 exampleEvent, callWith 1 exampleAgent, timesOut 0, timesOut 1] := by
  apply spool_readable_of_not_overtaken
  · simp [callWith_emitted, timesOut_emitted]
  · decide +kernel

/-- The later of two calls times out first: the file holds number 2 before number 1. -/
theorem not_spool_readable_overtaken :
    (∀ l ∈ [callWith 0 exampleEvent, callWith 1 exampleAgent, timesOut 1, timesOut 0],
        l.Emitted) ∧
      ¬ Throughout (HttpState.step exampleRuntime oneAttempt)
        (SpoolReadable exampleRuntime fun _ => ⟨"", "", ""⟩) .init
        [callWith 0 exampleEvent, callWith 1 exampleAgent, timesOut 1, timesOut 0] := by
  refine ⟨by simp [callWith_emitted, timesOut_emitted], fun h => ?_⟩
  have hnumbers : ((run (HttpState.step exampleRuntime oneAttempt) .init
      [callWith 0 exampleEvent, callWith 1 exampleAgent, timesOut 1, timesOut 0]).map fun s =>
        (s.spool.files exampleSession.text).filterMap actionNumber) = some [2, 1] := by
    decide +kernel
  obtain ⟨s, hrun, hfile⟩ := Option.map_eq_some_iff.mp hnumbers
  have hpair := (h.last hrun exampleSession.text).2
  rw [hfile] at hpair
  exact absurd hpair (by decide)

end RootSign
