import RootSign.VerdictExact

namespace RootSign

open RootSign.Lib RootSign.Python

/-!
# What `VALID` means on arbitrary records

The verifier reads records whose fields hold any JSON value.

* `verifyRecords_valid_iff` — the verdict is `VALID` exactly when the records, sorted, are
  distinct, agree with their hashes, are linked, and leave no gap among their integer
  sequence numbers (`IntactUpToNumbers`);
* `valid_sound_iff` — nothing there excludes a sequence number that is no positive integer:
  a `VALID` verdict means a dense chain numbered `1 … k` exactly when every sequence number
  is an integer from 1 on.
-/

/-! ### The verdict on arbitrary records -/

/-- Every record names the hash of the one before it, and the first one names nothing. -/
def Linked (records : List Dict) : Prop :=
  LinkedFrom (fun r => (r.get "prev_action_hash").orNone) (fun r => r.get "self_hash") .null
    records

/-- The records keyed by sequence number and sorted. -/
def sortRecords (records : List Dict) : Except PyError (List (Json × Dict)) :=
  (records.mapM fun r => (r.item "sequence_number").map fun k => (k, r)) >>= sortByKey

/-- Everything the verifier checks; of the sequence numbers, that they sort, that no two
    neighbours are equal and that the integers among them leave no gap. -/
structure IntactUpToNumbers (rt : Runtime) (records : List Dict) (sorted : List (Json × Dict)) :
    Prop where
  sort : sortRecords records = .ok sorted
  distinct : firstDuplicate (sorted.map Prod.fst) = none
  no_gap : missingRanges (sorted.map Prod.fst) = []
  intact : ∀ r ∈ sorted.map Prod.snd, RecordIntact rt r
  linked : Linked (sorted.map Prod.snd)

variable {rt : Runtime} {records : List Dict}

/-- Without gaps the walk passes exactly the intact, linked records. -/
theorem firstFault_eq_none_iff_linked {expected_prev : Json}
    (he : expected_prev = .null ∨ ∃ s, expected_prev = .str s) :
    firstFault (reportedFault rt fun _ => false) (fun r => r.get "self_hash") expected_prev
        records = none ↔
      (∀ r ∈ records, RecordIntact rt r) ∧
        LinkedFrom (fun r => (r.get "prev_action_hash").orNone) (fun r => r.get "self_hash")
          expected_prev records := by
  -- by induction on the records; the walk goes on with the digest it has just recomputed
  induction records generalizing expected_prev with
  | nil => simp [firstFault, LinkedFrom]
  | cons r rest ih =>
    have hlink : (r.get "prev_action_hash").orNone.pyEq expected_prev = true ↔
        (r.get "prev_action_hash").orNone = expected_prev := by
      rcases he with rfl | ⟨s, rfl⟩
      · exact Json.pyEq_null
      · exact Json.pyEq_str
    simp only [firstFault, LinkedFrom, List.forall_mem_cons]
    cases hfault : reportedFault rt (fun _ => false) expected_prev r with
    | some x =>
      refine ⟨fun h => by simp at h, ?_⟩
      rintro ⟨⟨hintact, -⟩, hprev, -⟩
      have hpass : recordFault rt (fun _ => false) expected_prev r = none :=
        recordFault_eq_none.mpr ⟨hintact, Or.inl (hlink.mpr hprev)⟩
      rw [reportedFault_eq_none.mpr hpass] at hfault
      exact absurd hfault (by simp)
    | none =>
      obtain ⟨hintact, hprev⟩ := recordFault_eq_none.mp (reportedFault_eq_none.mp hfault)
      simp only [Bool.false_eq_true, or_false] at hprev
      obtain ⟨digest, hdigest, -⟩ := hintact.exists_digest
      rw [ih (Or.inr ⟨digest, hdigest⟩)]
      simp [hintact, hlink.mp hprev]

theorem walk_no_gap : walk rt [] .null records =
    .ok (firstFault (reportedFault rt fun _ => false) (fun r => r.get "self_hash") .null
      records) :=
  walk_eq fun _ _ => rfl

/-- The verdict is `VALID` exactly when the sorted records pass every check. -/
theorem verifyRecords_valid_iff (rt : Runtime) (session_id : Json) (records : List Dict) :
    (∃ res, verifyRecords rt session_id records = .ok res ∧ res.verdict = .VALID) ↔
      ∃ sorted, IntactUpToNumbers rt records sorted := by
  unfold verifyRecords
  rw [← bind_assoc]
  change (∃ res, (sortRecords records >>= _) = _ ∧ _) ↔ _
  constructor
  -- the verifier stops at a duplicate, a fault of the walk or a gap; a VALID file passes all three
  · rintro ⟨res, hres, hvalid⟩
    obtain ⟨sorted, hsort, hres⟩ := bind_eq_ok.mp hres
    cases hdup : firstDuplicate (sorted.map Prod.fst) with
    | some b =>
      simp only [hdup, pure, Except.pure, Except.ok.injEq] at hres
      rw [← hres] at hvalid
      cases hvalid
    | none =>
      simp only [hdup] at hres
      obtain ⟨failure, hwalk, hres⟩ := bind_eq_ok.mp hres
      cases failure with
      | some f =>
        simp only [pure, Except.pure, Except.ok.injEq] at hres
        rw [← hres] at hvalid
        cases hvalid
      | none =>
        simp only [pure, Except.pure, Except.ok.injEq] at hres
        rw [← hres, decideVerdict_eq] at hvalid
        -- a gap would have made the verdict INCOMPLETE
        have hgap : missingRanges (sorted.map Prod.fst) = [] := by
          by_contra hne
          rw [if_neg hne] at hvalid
          cases hvalid
        rw [hgap, walk_no_gap, Except.ok.injEq] at hwalk
        obtain ⟨hintact, hlinked⟩ := (firstFault_eq_none_iff_linked (Or.inl rfl)).mp hwalk
        exact ⟨sorted, hsort, hdup, hgap, hintact, hlinked⟩
  · rintro ⟨sorted, h⟩
    have hwalk := (firstFault_eq_none_iff_linked (Or.inl rfl)).mpr ⟨h.intact, h.linked⟩
    rw [h.sort]
    simp only [bind, Except.bind, h.distinct, h.no_gap, walk_no_gap, hwalk]
    exact ⟨_, rfl, rfl⟩

/-- One intact record that names nothing passes every check, also when it is numbered below
    one. -/
theorem intactUpToNumbers_singleton {r : Dict} {n : ℤ} (hfields : HasCanonicalFields r)
    (hnumber : r.get "sequence_number" = .int n) (hn : n ≤ 1)
    (hprev : (r.get "prev_action_hash").truthy = false) (hintact : RecordIntact rt r) :
    IntactUpToNumbers rt [r] [(.int n, r)] := by
  refine ⟨?_, rfl, ?_, by simpa using hintact, ?_⟩
  · rw [sortRecords, List.mapM_cons, Dict.item_of_has hfields.sequence_number, hnumber]
    rfl
  · rw [missingRanges_eq_nil_iff]
    rintro k hk ⟨m, hm, hlt⟩
    simp only [presentSet, List.map_cons, List.map_nil, List.filterMap_cons, Json.asInt,
      List.filterMap_nil, Set.mem_ofPred_eq, List.mem_singleton] at hm
    omega
  · simp [Linked, LinkedFrom, Json.orNone, hprev]

/-! ### Sorting arbitrary records -/

/-- Keying pairs each record with the value under `sequence_number`. -/
theorem mapM_item_ok {keyed : List (Json × Dict)}
    (h : (records.mapM fun r => (r.item "sequence_number").map fun k => (k, r)) = .ok keyed) :
    keyed = records.map fun r => (r.get "sequence_number", r) := by
  rw [mapM_eq_ok] at h
  induction h with
  | nil => rfl
  | @cons r p records keyed hp _ ih =>
    cases hitem : r.item "sequence_number" with
    | error e => rw [hitem] at hp; exact absurd hp (by simp [Except.map])
    | ok k =>
      rw [hitem] at hp
      rw [ih, ← Except.ok.inj hp, ← (Dict.has_of_item hitem).2]
      rfl

/-- Sorting rearranges the records and keeps each with its sequence number. -/
theorem sortRecords_perm {sorted : List (Json × Dict)} (h : sortRecords records = .ok sorted) :
    sorted.Perm (records.map fun r => (r.get "sequence_number", r)) := by
  obtain ⟨keyed, hkeyed, hsort⟩ := bind_eq_ok.mp h
  rw [← mapM_item_ok hkeyed]
  exact sortByKey_perm hsort

theorem sortRecords_snd {sorted : List (Json × Dict)} (h : sortRecords records = .ok sorted) :
    (sorted.map Prod.snd).Perm records := by
  simpa [Function.comp_def] using (sortRecords_perm h).map Prod.snd

theorem sortRecords_fst {sorted : List (Json × Dict)} (h : sortRecords records = .ok sorted) :
    ∀ p ∈ sorted, p.1 = p.2.get "sequence_number" := by
  intro p hp
  obtain ⟨r, -, rfl⟩ := List.mem_map.mp ((sortRecords_perm h).mem_iff.mp hp)
  rfl

/-- Integer keys come out in ascending order. -/
theorem sortRecords_ascending {sorted : List (Json × Dict)} (h : sortRecords records = .ok sorted)
    (hint : ∀ r ∈ records, r.get "sequence_number" = .int (sequenceOf r)) :
    sorted.Pairwise fun p q => sequenceOf p.2 ≤ sequenceOf q.2 := by
  obtain ⟨keyed, hkeyed, hsort⟩ := bind_eq_ok.mp h
  have hkey : ∀ p ∈ keyed, p.1 = .int (sequenceOf p.2) := by
    intro p hp
    rw [mapM_item_ok hkeyed] at hp
    obtain ⟨r, hr, rfl⟩ := List.mem_map.mp hp
    exact hint r hr
  obtain ⟨sorted', hsort', hasc⟩ := sortByKey_int (fun p => sequenceOf p.2) hkey
  rw [hsort, Except.ok.injEq] at hsort'
  rwa [hsort']

/-! ### Dense chains -/

/-- Records numbered `1, 2, …, k` in order, each agreeing with its hashes and naming the one
    before it. -/
structure DenseChain (rt : Runtime) (records : List Dict) : Prop where
  number : ∀ (i : ℕ) (hi : i < records.length), records[i].get "sequence_number" = .int (i + 1)
  intact : ∀ r ∈ records, RecordIntact rt r
  linked : Linked records

/-- The record carries an integer from 1 on as its sequence number. -/
def PositiveInteger (r : Dict) : Prop := ∃ n : ℤ, 1 ≤ n ∧ r.get "sequence_number" = .int n

theorem PositiveInteger.get_eq {r : Dict} (h : PositiveInteger r) :
    r.get "sequence_number" = .int (sequenceOf r) ∧ 1 ≤ sequenceOf r := by
  obtain ⟨n, hn, heq⟩ := h
  simp [sequenceOf, heq, hn]

/-- Ascending integers without equal neighbours are strictly ascending. -/
theorem pairwise_lt_of_firstDuplicate {l : List Dict}
    (hasc : l.Pairwise fun p q => sequenceOf p ≤ sequenceOf q)
    (hdup : firstDuplicate (sequencesOf l) = none) :
    l.Pairwise fun p q => sequenceOf p < sequenceOf q := by
  induction l with
  | nil => exact List.Pairwise.nil
  | cons r rest ih =>
    rw [List.pairwise_cons] at hasc
    cases rest with
    | nil => exact List.pairwise_singleton _ _
    | cons s rest =>
      simp only [sequencesOf, List.map_cons, firstDuplicate, Json.pyEq_int] at hdup
      split at hdup
      · exact absurd hdup (by simp)
      · rename_i hne
        have hstrict := ih hasc.2 hdup
        have hlt : sequenceOf r < sequenceOf s :=
          lt_of_le_of_ne (hasc.1 s (by simp)) (by simpa using hne)
        refine List.pairwise_cons.mpr ⟨fun q hq => ?_, hstrict⟩
        rcases List.mem_cons.mp hq with rfl | hq
        · exact hlt
        · exact lt_trans hlt ((List.pairwise_cons.mp hstrict).1 q hq)

/-- With positive integers throughout, what the verifier checks is a dense chain. -/
theorem IntactUpToNumbers.denseChain {sorted : List (Json × Dict)}
    (h : IntactUpToNumbers rt records sorted) (hpos : ∀ r ∈ records, PositiveInteger r) :
    DenseChain rt (sorted.map Prod.snd) := by
  have hperm := sortRecords_snd h.sort
  -- positive integers are their own sort keys, and no two are equal
  have hpos' : ∀ r ∈ sorted.map Prod.snd, PositiveInteger r := fun r hr =>
    hpos r (hperm.mem_iff.mp hr)
  have hkeys : sorted.map Prod.fst = sequencesOf (sorted.map Prod.snd) := by
    rw [sequencesOf, List.map_map]
    refine List.map_congr_left fun p hp => ?_
    rw [sortRecords_fst h.sort p hp]
    exact (hpos' p.2 (List.mem_map_of_mem hp)).get_eq.1
  have hasc := sortRecords_ascending h.sort fun r hr => (hpos r hr).get_eq.1
  have hlt := pairwise_lt_of_firstDuplicate (List.pairwise_map.mpr hasc) (hkeys ▸ h.distinct)
  -- no gap below the last, so they are `1, 2, …`
  have hgap := missingRanges_eq_nil_iff.mp (hkeys ▸ h.no_gap)
  refine ⟨fun i hi => ?_, h.intact, h.linked⟩
  rw [(hpos' _ (List.getElem_mem hi)).get_eq.1]
  have hnum := getElem_of_no_gap (l := (sorted.map Prod.snd).map sequenceOf)
    (fun k hk => ?_) (List.pairwise_map.mpr hlt) (fun k hk hm => ?_) i (by simpa using hi)
  · rw [List.getElem_map] at hnum
    rw [hnum]
  · obtain ⟨r, hr, rfl⟩ := List.mem_map.mp hk
    exact (hpos' r hr).get_eq.2
  · obtain ⟨m, hm, hlt⟩ := hm
    obtain ⟨r, hr, rfl⟩ := List.mem_map.mp hm
    obtain ⟨s, hs, rfl⟩ := mem_presentSet_sequencesOf.mp
      (hgap k hk ⟨_, mem_presentSet_sequencesOf.mpr ⟨r, hr, rfl⟩, hlt⟩)
    exact List.mem_map_of_mem hs

/-! ### Soundness -/

/-- `VALID` is sound on a file: with at least one action record it means that the records,
    in the order of their numbers, are a dense chain. -/
def ValidSound (rt : Runtime) (lines : List Dict) : Prop :=
  ∀ res, verifySessionLocal rt (objectLines lines) = .ok res → res.verdict = .VALID →
    1 ≤ res.record_count →
    ∃ sorted, sorted.Perm (lines.filter isActionLine) ∧ sorted.length = res.record_count ∧
      DenseChain rt sorted

/-- The verifier on a file with action records. -/
theorem verifySessionLocal_of_actions (rt : Runtime) {lines : List Dict}
    (h : lines.filter isActionLine ≠ []) :
    ∃ session_id, verifySessionLocal rt (objectLines lines) =
      verifyRecords rt session_id (lines.filter isActionLine) := by
  obtain ⟨d, rest, rfl⟩ := List.exists_cons_of_ne_nil
    (fun hnil => h (by rw [hnil]; rfl) : lines ≠ [])
  rw [verifySessionLocal_cons, if_neg h]
  exact ⟨_, rfl⟩

/-- A file without action records is never reported with a record. -/
theorem record_count_of_no_actions {lines : List Dict} {res : VerifyResult}
    (h : lines.filter isActionLine = [])
    (hres : verifySessionLocal rt (objectLines lines) = .ok res) : res.record_count = 0 := by
  cases lines with
  | nil => rw [← Except.ok.inj hres]
  | cons d rest =>
    rw [verifySessionLocal_cons, if_pos h] at hres
    rw [← Except.ok.inj hres]

/-- The verifier counts the records it was given. -/
theorem verifyRecords_record_count {session_id : Json} {res : VerifyResult}
    (h : verifyRecords rt session_id records = .ok res) : res.record_count = records.length := by
  unfold verifyRecords at h
  rw [← bind_assoc] at h
  obtain ⟨sorted, hsort, h⟩ := bind_eq_ok.mp h
  change sortRecords records = .ok sorted at hsort
  have hlen : (sorted.map Prod.snd).length = records.length := (sortRecords_snd hsort).length_eq
  cases hdup : firstDuplicate (sorted.map Prod.fst) with
  | some b =>
    simp only [hdup] at h
    rw [← Except.ok.inj h, ← hlen]
  | none =>
    simp only [hdup] at h
    obtain ⟨failure, -, h⟩ := bind_eq_ok.mp h
    cases failure with
    | some f => rw [← Except.ok.inj h, ← hlen]
    | none => rw [← Except.ok.inj h, ← hlen]

/-- **When `VALID` is sound.**  It is, for a given file, exactly when every action record
    carries an integer from 1 on as its sequence number or the records fail one of the other
    checks. -/
theorem valid_sound_iff (rt : Runtime) (lines : List Dict) :
    ValidSound rt lines ↔
      (∀ r ∈ lines.filter isActionLine, PositiveInteger r) ∨
        ¬ ∃ sorted, IntactUpToNumbers rt (lines.filter isActionLine) sorted := by
  -- a file without actions counts none, so nothing is claimed of it
  by_cases hnil : lines.filter isActionLine = []
  · refine ⟨fun _ => Or.inl (by simp [hnil]), fun _ res hres _ hcount => ?_⟩
    have := record_count_of_no_actions hnil hres
    omega
  obtain ⟨session_id, hverify⟩ := verifySessionLocal_of_actions rt hnil
  have hvalid := verifyRecords_valid_iff rt session_id (lines.filter isActionLine)
  unfold ValidSound
  rw [hverify]
  constructor
  · intro hsound
    -- all checks passed and some number is odd: VALID, and the chain is not dense
    by_contra hcon
    rw [not_or, not_not] at hcon
    obtain ⟨hodd, hintact⟩ := hcon
    obtain ⟨res, hres, hv⟩ := hvalid.mpr hintact
    have hcount := verifyRecords_record_count hres
    have hpos := List.length_pos_iff.mpr hnil
    obtain ⟨sorted, hperm, -, hdense⟩ := hsound res hres hv (by omega)
    refine hodd fun r hr => ?_
    obtain ⟨i, hi, rfl⟩ := List.mem_iff_getElem.mp (hperm.mem_iff.mpr hr)
    exact ⟨i + 1, by omega, hdense.number i hi⟩
  · rintro (hpos | hno) res hres hv -
    · obtain ⟨sorted, hintact⟩ := hvalid.mp ⟨res, hres, hv⟩
      have hperm := sortRecords_snd hintact.sort
      refine ⟨sorted.map Prod.snd, hperm, ?_, hintact.denseChain hpos⟩
      rw [hperm.length_eq, verifyRecords_record_count hres]
    · exact absurd (hvalid.mp ⟨res, hres, hv⟩) hno

/-- A record numbered zero, with the hash of its own fields. -/
def zeroRecord : Dict :=
  Dict.ofFields
    [("action_id", .str "00000000-0000-4000-8000-000000000001"),
     ("session_id", .str "00000000-0000-4000-8000-000000000002"),
     ("tool_name", .str "send_email"),
     ("input_hash", .str "e3b0c44298fc1c149afbf4c8996fb92427ae41e4649b934ca495991b7852b855"),
     ("prev_action_hash", .null),
     ("timestamp", .str "2026-05-01T12:00:00+00:00"),
     ("sequence_number", .int 0),
     ("self_hash", .str "86eb2b71e21fbfe497a1b0650aca03cc8db2f1f2ffa799ae882681ae28fa6863")]

/-- A session file that holds only the record numbered zero verifies `VALID`. -/
theorem valid_not_sound_zeroRecord : ¬ ValidSound (cpython fun _ => none) [zeroRecord] := by
  have hfields : HasCanonicalFields zeroRecord := by
    constructor <;> simp [zeroRecord, Dict.has_ofFields, List.lookup_cons]
  have hdigest : ((Canonical.ofDict (cpython fun _ => none) zeroRecord).selfHash
      (cpython fun _ => none)) =
        "86eb2b71e21fbfe497a1b0650aca03cc8db2f1f2ffa799ae882681ae28fa6863" := by
    decide +kernel
  have hintact : RecordIntact (cpython fun _ => none) zeroRecord := by
    refine ⟨⟨_, computeActionSelfHash_eq _ hfields, ?_⟩, ?_, ?_⟩
    · rw [hdigest]
      simp [zeroRecord, Dict.get_ofFields, List.lookup_cons]
    · simp [zeroRecord, Dict.get_ofFields, List.lookup_cons]
    · simp [zeroRecord, Dict.get_ofFields, List.lookup_cons]
  have hsequence : zeroRecord.get "sequence_number" = .int 0 := by
    simp [zeroRecord, Dict.get_ofFields, List.lookup_cons]
  have hactions : [zeroRecord].filter isActionLine = [zeroRecord] := by
    simp [isActionLine, zeroRecord, Dict.getD_ofFields, List.lookup_cons, Json.pyEq]
  have hall := intactUpToNumbers_singleton hfields hsequence (by decide)
    (by simp [zeroRecord, Dict.get_ofFields, List.lookup_cons, Json.truthy]) hintact
  intro hsound
  have hne : [zeroRecord].filter isActionLine ≠ [] := by simp [hactions]
  obtain ⟨session_id, hverify⟩ := verifySessionLocal_of_actions (cpython fun _ => none) hne
  rw [hactions] at hverify
  obtain ⟨res, hres, hv⟩ := (verifyRecords_valid_iff _ session_id _).mpr ⟨_, hall⟩
  have hcount := verifyRecords_record_count hres
  obtain ⟨sorted, hperm, -, hdense⟩ := hsound res (hverify.trans hres) hv (by simp [hcount])
  rw [hactions, List.perm_singleton] at hperm
  have hnumber := hdense.number 0 (by simp [hperm])
  simp [hperm, hsequence] at hnumber

end RootSign
