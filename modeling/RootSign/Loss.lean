import RootSign.JsonlAgreement

namespace RootSign

open RootSign.Lib RootSign.Python

/-!
# Lost records

Actions sealed in order by one fresh `ChainState`, of whose records only some reach the file,
in any order.  Loss is evident and never reads as tampering.

* `ChainState.sealAll` — sealing payloads one after the other;
* `sealAll_eq` — it succeeds on unsealed payloads and leaves a sealed log;
* `loss_is_evident` — the verdict on any nonempty part of the records.
-/

/-- Seal the payloads in order, each under the id minted for it. -/
def ChainState.sealAll (rt : Runtime) (session_id : Json) :
    ChainState → List (Uuid × Dict) → Except PyError (List SealedAction)
  | _, [] => .ok []
  | state, (fresh, payload) :: rest => do
    let result := state.sealPayload rt fresh session_id payload
    let sealed ← result.1
    let others ← sealAll rt session_id result.2 rest
    return sealed :: others

variable {rt : Runtime} {session_id : Json}

/-- Sealing unsealed payloads extends a sealed log by all of them. -/
theorem sealAll_eq {log : List SealedEntry} {state : ChainState}
    (h : SealedLog rt session_id log state) {payloads : List (Uuid × Dict)}
    (hunsealed : ∀ p ∈ payloads, UnsealedPayload p.2) :
    ∃ seals state', state.sealAll rt session_id payloads = .ok seals ∧
      seals.length = payloads.length ∧
      SealedLog rt session_id (log ++ (payloads.map Prod.snd).zip seals) state' := by
  induction payloads generalizing log state with
  | nil => exact ⟨[], state, rfl, rfl, by simpa using h⟩
  | cons p rest ih =>
    obtain ⟨fresh, payload⟩ := p
    have hmint := state.seal_mint rt fresh session_id (hunsealed (fresh, payload) (by simp))
    obtain ⟨seals, state', hseals, hlen, hlog⟩ :=
      ih (h.mint fresh payload) fun q hq => hunsealed q (by simp [hq])
    refine ⟨state.minted rt fresh session_id payload :: seals, state', ?_, by simp [hlen], ?_⟩
    · rw [ChainState.sealAll, hmint]
      simp only [bind, Except.bind, hseals]
      rfl
    · simpa [List.append_assoc] using hlog

/-- No number is absent from nonempty positive numbers exactly when they are `1 … m`. -/
theorem no_absent_iff {records : List Dict} (hne : records ≠ [])
    (hpos : ∀ r ∈ records, 1 ≤ sequenceOf r) :
    (∀ k, ¬ Absent records k) ↔ ∃ m : ℤ, ∀ k, k ∈ numbersOf records ↔ 1 ≤ k ∧ k ≤ m := by
  constructor
  · intro hnone
    obtain ⟨m, hmax⟩ : ∃ m, (records.map sequenceOf).max? = some m :=
      Option.ne_none_iff_exists'.mp fun h =>
        hne (List.map_eq_nil_iff.mp (List.max?_eq_none_iff.mp h))
    obtain ⟨hmem, hle⟩ := List.max?_eq_some_iff.mp hmax
    obtain ⟨top, htop, rfl⟩ := List.mem_map.mp hmem
    refine ⟨sequenceOf top, fun k => ⟨?_, fun ⟨h1, h2⟩ => ?_⟩⟩
    · rintro ⟨r, hr, rfl⟩
      exact ⟨hpos r hr, hle _ (List.mem_map_of_mem hr)⟩
    · by_contra habs
      exact hnone k ⟨h1, ⟨top, htop, h2⟩, fun r hr heq => habs ⟨r, hr, heq⟩⟩
  · rintro ⟨m, hm⟩ k ⟨h1, ⟨r, hr, hle⟩, habs⟩
    have hrm := ((hm (sequenceOf r)).mp ⟨r, hr, rfl⟩).2
    obtain ⟨s, hs, heq⟩ := (hm k).mpr ⟨h1, le_trans hle hrm⟩
    exact habs s hs heq

/-- **Loss is evident and never reads as tampering.**  Of the records of bound, unsealed
    payloads sealed in order by a fresh state, let any nonempty part be written to a file in
    any order.  The verifier counts them, lists the maximal runs of absent numbers below the
    largest one present, and says `VALID` when the part is `1 … m` and `INCOMPLETE`
    otherwise. -/
theorem loss_is_evident (rt : Runtime) (session_id : Json) (payloads : List (Uuid × Dict))
    (hunsealed : ∀ p ∈ payloads, UnsealedPayload p.2)
    (hbound : ∀ p ∈ payloads, BoundPayload rt p.2) :
    ∃ seals, ChainState.sealAll rt session_id {} payloads = .ok seals ∧
      seals.length = payloads.length ∧
      ∀ (records kept : List Dict) (f : SessionFile),
        List.Forall₂ (CarriesSeal session_id) ((payloads.map Prod.snd).zip seals) records →
        kept.Sublist records → kept ≠ [] → f.actions.Perm kept →
        ∃ res, verifySessionLocal rt f.raw = .ok res ∧ res.record_count = kept.length ∧
          (∀ a b, (a, b) ∈ res.missing_ranges ↔ Gap (numbersOf kept) a b) ∧
          (res.missing_ranges.Pairwise fun p q => p.2 + 1 < q.1) ∧
          (res.verdict = .VALID ↔ ∃ m : ℤ, ∀ k, k ∈ numbersOf kept ↔ 1 ≤ k ∧ k ≤ m) ∧
          (res.verdict = .INCOMPLETE ↔ ¬ ∃ m : ℤ, ∀ k, k ∈ numbersOf kept ↔ 1 ≤ k ∧ k ≤ m) ∧
          res.verdict ≠ .TAMPERED := by
  obtain ⟨seals, state', hseals, hlen, hlog⟩ := sealAll_eq (SealedLog.nil rt session_id) hunsealed
  rw [List.nil_append] at hlog
  refine ⟨seals, hseals, hlen, fun records kept f hcarries hsub hne hperm => ?_⟩
  have hbound' : ∀ e ∈ (payloads.map Prod.snd).zip seals, BoundPayload rt e.1 := by
    intro e he
    obtain ⟨p, hp, heq⟩ := List.mem_map.mp (List.of_mem_zip he).1
    rw [← heq]
    exact hbound p hp
  -- Every line of the file carries the seal of one of the sealed payloads, no two of them the same.
  have hentry : ∀ r ∈ f.actions, ∃ e ∈ (payloads.map Prod.snd).zip seals,
      CarriesSeal session_id e r :=
    fun r hr => exists_entry_of_mem hcarries r (hsub.subset (hperm.mem_iff.mp hr))
  have hdistinct : f.actions.Pairwise fun r s => sequenceOf r ≠ sequenceOf s :=
    (hperm.pairwise_iff fun h => h.symm).mpr ((pairwise_of_forall₂ hlog hcarries).sublist hsub)
  obtain ⟨res, hres, hout, hverdict⟩ := verify_sealed hlog hbound' hentry hdistinct
  have hpos := (numberedRecords_of_carriesSeal hlog hentry hdistinct).pos
  have hnumbers : numbersOf f.actions = numbersOf kept := by
    ext k
    simp only [numbersOf, Set.mem_ofPred_eq, hperm.mem_iff]
  -- The numbers present have no gap exactly if they run from 1 to some `m`.
  have hdense := no_absent_iff (fun h => hne (by rw [h] at hperm; exact hperm.nil_eq.symm)) hpos
  rw [hnumbers] at hdense
  refine ⟨res, hres, by rw [hout.record_count, hperm.length_eq], fun a b => ?_, hout.separated, ?_⟩
  · rw [← hnumbers]
    exact hout.missing a b
  · rw [← hdense]
    rcases hverdict with ⟨hv, hnone⟩ | ⟨hv, k, hk⟩
    · simp [hv, hnone]
    · rw [hv]
      exact ⟨⟨fun h => absurd h (by decide), fun h => absurd hk (h k)⟩,
        ⟨fun _ h => h k hk, fun _ => rfl⟩, by decide⟩

/-- The records of sealed payloads, as the JSONL backend writes them. -/
def flatRecords (session : JStr) (payloads : List (Uuid × Dict)) (seals : List SealedAction) :
    List Dict :=
  ((payloads.map Prod.snd).zip seals).map fun e =>
    flatRecord [] e.1 exampleEvent session (e.1.get "tool_name") (e.1.get "input_hash")
      (e.1.get "timestamp") e.2

/-! ### The record in the middle is lost -/

/-- Three payloads, each under its own id. -/
def threePayloads : List (Uuid × Dict) :=
  [(freshUuid 1, plainPayload), (freshUuid 2, plainPayload), (freshUuid 5, plainPayload)]

/-- Of the three records the first and the last one are left. -/
def keptRecords (seals : List SealedAction) : List Dict :=
  (flatRecords exampleSession.text threePayloads seals).eraseIdx 1

/-- Written in the wrong order, they are reported incomplete, with 2 as the gap. -/
theorem loss_is_evident_middle :
    ∃ seals res, ChainState.sealAll exampleRuntime (.str exampleSession.text) {} threePayloads =
        .ok seals ∧
      verifySessionLocal exampleRuntime (objectLines (keptRecords seals).reverse) = .ok res ∧
      res.record_count = 2 ∧ (2, 2) ∈ res.missing_ranges ∧ res.verdict = .INCOMPLETE := by
  have hsealed : (ChainState.sealAll exampleRuntime (.str exampleSession.text) {}
      threePayloads).toOption.map (fun seals =>
        ((keptRecords seals).map sequenceOf, (keptRecords seals).all isActionLine)) =
      some ([1, 3], true) := by
    decide +kernel
  obtain ⟨seals, hseals, -, hall⟩ := loss_is_evident exampleRuntime (.str exampleSession.text)
    threePayloads (by simp [threePayloads, plainPayload_unsealed])
    (by simp [threePayloads, plainPayload_bound])
  rw [hseals] at hsealed
  obtain ⟨hnumbers, hactions⟩ := Prod.mk.inj (Option.some.inj hsealed)
  -- Only the two numbers matter from here on; the records themselves stay closed terms.
  have hlength : (keptRecords seals).length = 2 := by
    rw [← List.length_map sequenceOf, hnumbers]
    rfl
  have hmem : ∀ k, k ∈ numbersOf (keptRecords seals) ↔ k = 1 ∨ k = 3 := by
    intro k
    show (∃ r ∈ keptRecords seals, sequenceOf r = k) ↔ _
    rw [← List.mem_map, hnumbers]
    simp
  have hne : keptRecords seals ≠ [] := List.ne_nil_of_length_pos (by omega)
  let file : SessionFile := ⟨(keptRecords seals).reverse, by simpa using hne⟩
  have hfile : file.actions = (keptRecords seals).reverse :=
    List.filter_eq_self.mpr fun r hr => List.all_eq_true.mp hactions r (List.mem_reverse.mp hr)
  obtain ⟨res, hres, hcount, hgaps, -, -, hincomplete, -⟩ := hall _ (keptRecords seals) file
    (by
      rw [flatRecords, List.forall₂_map_right_iff, List.forall₂_same]
      exact fun e _ => flatRecord_carriesSeal _ _ _ _ _)
    (List.eraseIdx_sublist _ _) hne (hfile ▸ List.reverse_perm _)
  refine ⟨seals, res, hseals, hres, by rw [hcount, hlength], (hgaps 2 2).mpr ?_,
    hincomplete.mpr ?_⟩
  · refine ⟨by omega, le_rfl, fun k hle hge hk => ?_, Or.inr ((hmem _).mpr (Or.inl rfl)),
      (hmem _).mpr (Or.inr rfl)⟩
    have hk := (hmem k).mp hk
    omega
  · rintro ⟨m, hm⟩
    have hthree := (hm 3).mp ((hmem 3).mpr (Or.inr rfl))
    have htwo := (hmem 2).mp ((hm 2).mpr ⟨by omega, by omega⟩)
    omega

end RootSign
