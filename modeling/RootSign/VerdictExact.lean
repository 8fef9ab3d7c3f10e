import RootSign.Verify
import RootSign.Python.Sha256

namespace RootSign

open RootSign.Lib RootSign.Python

/-!
# The verdict on numbered records

When the action records of a file carry every canonical field and distinct positive integer
sequence numbers, the verifier's verdict is decided record by record.

* `Bad` — a record that disagrees with its own hashes, or with the predecessor it must name;
* `Absent` — a number below the largest sequence number that no record carries;
* `verifyRecords_numbered` — the verifier on such records: the verdict, the first invalid
  sequence number and the missing ranges;
* `verdict_exact` — the same read off a session file.
-/

/-! ### Session files -/

/-- Lines that are JSON objects, as the verifier reads them. -/
def objectLines (lines : List Dict) : List Line := lines.map fun d => .value (.obj d)

/-- A session file: at least one line, and every line a JSON object. -/
structure SessionFile where
  lines : List Dict
  nonempty : lines ≠ []

namespace SessionFile

/-- The lines as the verifier reads them. -/
def raw (f : SessionFile) : List Line := objectLines f.lines

/-- The action records of the file. -/
def actions (f : SessionFile) : List Dict := f.lines.filter isActionLine

end SessionFile

/-- Lines that are JSON objects parse to their dicts. -/
theorem parseLines_objects (lines : List Dict) :
    parseLines (objectLines lines) = .ok (lines.map Json.obj, false) := by
  unfold objectLines
  induction lines with
  | nil => rfl
  | cons d rest ih => simp [parseLines, ih, Except.map]

theorem mapM_asDict (lines : List Dict) : (lines.map Json.obj).mapM asDict = .ok lines := by
  induction lines with
  | nil => rfl
  | cons d rest ih => rw [List.map_cons, List.mapM_cons, ih]; rfl

/-- On lines that are JSON objects the verifier selects the action records and verifies
    them. -/
theorem verifySessionLocal_cons (rt : Runtime) (d : Dict) (rest : List Dict) :
    verifySessionLocal rt (objectLines (d :: rest)) =
      if (d :: rest).filter isActionLine = [] then
        .ok { verdict := .VALID, record_count := 0, session_id := d.get "session_id" }
      else verifyRecords rt (d.get "session_id") ((d :: rest).filter isActionLine) := by
  simp only [verifySessionLocal, parseLines_objects, ← List.isEmpty_iff]
  show ((d :: rest).map Json.obj).mapM asDict >>= _ = _
  rw [mapM_asDict]
  rfl

/-! ### Numbered records -/

/-- The integer a record carries as its sequence number; `0` when it carries none. -/
def sequenceOf (r : Dict) : ℤ :=
  match r.get "sequence_number" with
  | .int n => n
  | _ => 0

/-- Records with every canonical field and distinct positive integer sequence numbers. -/
structure NumberedRecords (records : List Dict) : Prop where
  fields : ∀ r ∈ records, HasCanonicalFields r
  number : ∀ r ∈ records, r.get "sequence_number" = .int (sequenceOf r)
  pos : ∀ r ∈ records, 1 ≤ sequenceOf r
  distinct : records.Pairwise fun r s => sequenceOf r ≠ sequenceOf s

/-- Records with distinct positive integer sequence numbers, whatever else they carry. -/
structure DistinctNumbers (records : List Dict) : Prop where
  number : ∀ r ∈ records, r.get "sequence_number" = .int (sequenceOf r)
  pos : ∀ r ∈ records, 1 ≤ sequenceOf r
  distinct : records.Pairwise fun r s => sequenceOf r ≠ sequenceOf s

theorem NumberedRecords.distinctNumbers {records : List Dict} (h : NumberedRecords records) :
    DistinctNumbers records :=
  ⟨h.number, h.pos, h.distinct⟩

/-- The record's link is broken: it names something although it is the first one, or it does
    not name the record numbered one less. -/
def LinkBroken (records : List Dict) (r : Dict) : Prop :=
  (sequenceOf r = 1 ∧ (r.get "prev_action_hash").truthy = true) ∨
    ∃ p ∈ records, sequenceOf p = sequenceOf r - 1 ∧
      r.get "prev_action_hash" ≠ p.get "self_hash"

/-- The record was altered: it disagrees with its own hashes or its link is broken. -/
def Bad (rt : Runtime) (records : List Dict) (r : Dict) : Prop :=
  ¬ RecordIntact rt r ∨ LinkBroken records r

/-- `k` lies in `1 … max` and no record carries it. -/
def Absent (records : List Dict) (k : ℤ) : Prop :=
  1 ≤ k ∧ (∃ r ∈ records, k ≤ sequenceOf r) ∧ ∀ r ∈ records, sequenceOf r ≠ k

section

variable {rt : Runtime} {records sorted : List Dict}

/-- Rearranging the records changes neither which are bad nor which numbers are absent. -/
theorem bad_perm (h : sorted.Perm records) {r : Dict} :
    Bad rt sorted r ↔ Bad rt records r := by
  simp only [Bad, LinkBroken, h.mem_iff]

/-- Records with distinct positive integer sequence numbers, in ascending order. -/
structure AscendingRecords (sorted : List Dict) : Prop where
  number : ∀ r ∈ sorted, r.get "sequence_number" = .int (sequenceOf r)
  pos : ∀ r ∈ sorted, 1 ≤ sequenceOf r
  ascending : sorted.Pairwise fun r s => sequenceOf r < sequenceOf s

/-- Sorting records by integer sequence numbers, as the verifier does. -/
theorem sortByKey_records
    (hnumber : ∀ r ∈ records, r.get "sequence_number" = .int (sequenceOf r)) :
    (records.mapM fun r => (r.item "sequence_number").map fun k => (k, r)) >>= sortByKey =
      .ok ((records.insertionSort fun r s => sequenceOf r ≤ sequenceOf s).map
        fun r => (Json.int (sequenceOf r), r)) := by
  have hkeyed : (records.mapM fun r => (r.item "sequence_number").map fun k => (k, r)) =
      .ok (records.map fun r => (Json.int (sequenceOf r), r)) := by
    induction records with
    | nil => rfl
    | cons r rest ih =>
      have hr := hnumber r (by simp)
      have hhas : r.has "sequence_number" := Dict.has_of_get_ne_null (by rw [hr]; simp)
      rw [List.mapM_cons, Dict.item_of_has hhas, hr, ih fun s hs => hnumber s (by simp [hs])]
      rfl
  rw [hkeyed]
  show sortByKey (records.map fun r => (Json.int (sequenceOf r), r)) = _
  rw [sortByKey_eq (fun p => sequenceOf p.2) (by simp),
    List.map_insertionSort (fun r s => sequenceOf r ≤ sequenceOf s)
      (fun p q : Json × Dict => sequenceOf p.2 ≤ sequenceOf q.2) _ _ (fun _ _ _ _ => Iff.rfl)]

/-- Sorting distinct numbers puts them in ascending order. -/
theorem DistinctNumbers.exists_sorted (h : DistinctNumbers records) :
    ∃ sorted, (records.mapM fun r => (r.item "sequence_number").map fun k => (k, r)) >>= sortByKey =
        .ok (sorted.map fun r => (Json.int (sequenceOf r), r)) ∧
      sorted.Perm records ∧ AscendingRecords sorted := by
  have hperm := List.perm_insertionSort (fun r s => sequenceOf r ≤ sequenceOf s) records
  refine ⟨_, sortByKey_records h.number, hperm, ⟨?_, ?_, ?_⟩⟩
  · exact fun r hr => h.number r (hperm.mem_iff.mp hr)
  · exact fun r hr => h.pos r (hperm.mem_iff.mp hr)
  · have hne := (hperm.pairwise_iff fun hne => hne.symm).mpr h.distinct
    exact ((pairwise_insertionSort_key sequenceOf records).and hne).imp
      fun hle => lt_of_le_of_ne hle.1 hle.2

/-! ### The walk over numbered records -/

/-- The sequence numbers, as the verifier collects them. -/
def sequencesOf (records : List Dict) : List Json := records.map fun r => .int (sequenceOf r)

theorem mem_presentSet_sequencesOf {k : ℤ} :
    k ∈ presentSet (sequencesOf records) ↔ ∃ r ∈ records, sequenceOf r = k := by
  simp [presentSet, sequencesOf, Json.asInt]

/-- A gap excuses the link of a record when its predecessor is positive and absent. -/
def excused (records : List Dict) (r : Dict) : Bool :=
  decide (1 ≤ sequenceOf r - 1) && records.all fun p => sequenceOf p != sequenceOf r - 1

theorem excused_iff {r : Dict} :
    excused records r = true ↔
      1 ≤ sequenceOf r - 1 ∧ ∀ p ∈ records, sequenceOf p ≠ sequenceOf r - 1 := by
  simp [excused]

/-- A gap explains the break of a record that is there exactly when it is excused. -/
theorem explainsBreak_eq_excused {r : Dict} (hr : r ∈ records)
    (hnumber : r.get "sequence_number" = .int (sequenceOf r)) :
    explainsBreak rt (r.get "sequence_number") (missingRanges (sequencesOf records)) =
      .ok (excused records r) := by
  obtain ⟨b, hb, hiff⟩ := explainsBreak_int rt
    (mem_presentSet_sequencesOf.mpr ⟨r, hr, rfl⟩ : sequenceOf r ∈ presentSet (sequencesOf records))
  rw [hnumber, hb, Except.ok.injEq, Bool.eq_iff_iff, hiff, excused_iff,
    mem_presentSet_sequencesOf]
  simp

/-- The hash an intact record carries is truthy. -/
theorem RecordIntact.exists_digest {r : Dict} (h : RecordIntact rt r) :
    ∃ digest : JStr, r.get "self_hash" = .str digest ∧ digest.units ≠ [] := by
  obtain ⟨digest, hself, heq⟩ := h.self_hash
  obtain ⟨-, rfl⟩ := computeActionSelfHash_ok hself
  exact ⟨_, heq, rt.sha256_units_ne_nil _⟩

/-- Comparing `v or None` with a nonempty text is comparing `v` with it. -/
theorem orNone_pyEq_str {v : Json} {s : JStr} (hs : s.units ≠ []) :
    v.orNone.pyEq (.str s) = true ↔ v = .str s := by
  rw [Json.pyEq_str, Json.orNone]
  split
  case isTrue => rfl
  case isFalse hfalsy =>
    refine ⟨fun h => by simp at h, fun h => absurd ?_ hfalsy⟩
    rw [h]
    simp [Json.truthy, hs]

/-- Comparing `v or None` with `None` is asking whether `v` is falsy. -/
theorem orNone_pyEq_null {v : Json} : v.orNone.pyEq .null = true ↔ v.truthy = false := by
  rw [Json.pyEq_null, Json.orNone]
  split
  case isTrue htruthy =>
    refine ⟨fun h => ?_, fun h => by simp [htruthy] at h⟩
    rw [h] at htruthy
    simp [Json.truthy] at htruthy
  case isFalse hfalsy => simpa using hfalsy

/-- **The step of the walk.** When every earlier record is intact, a record passes exactly
    when it is not bad.  The record before it in the list is its predecessor by number, or
    the predecessor is absent and the gap excuses the link. -/
theorem recordFault_eq_none_iff (h : AscendingRecords records) {a b : List Dict} {r : Dict}
    (hsplit : records = a ++ r :: b) (hintact : ∀ p ∈ a, RecordIntact rt p) :
    recordFault rt (excused records) (lastSelf (fun p => p.get "self_hash") .null a) r = none ↔
      ¬ Bad rt records r := by
  rw [recordFault_eq_none, Bad, not_or, not_not, excused_iff]
  refine and_congr_right fun _ => ?_
  have hr : r ∈ records := by simp [hsplit]
  have hposr := h.pos r hr
  have hasc := h.ascending
  rw [hsplit, List.pairwise_append, List.pairwise_cons] at hasc
  obtain ⟨-, ⟨hafter, -⟩, hbefore⟩ := hasc
  cases a using List.reverseRecOn with
  | nil =>
    -- the first record: every other number is larger
    have hothers : ∀ p ∈ records, sequenceOf r ≤ sequenceOf p := by
      intro p hp
      rw [hsplit, List.nil_append, List.mem_cons] at hp
      rcases hp with rfl | hp
      · exact le_rfl
      · exact le_of_lt (hafter p hp)
    have hnopred : ∀ p ∈ records, sequenceOf p ≠ sequenceOf r - 1 := fun p hp => by
      have := hothers p hp
      omega
    rw [lastSelf_nil, orNone_pyEq_null, LinkBroken]
    constructor
    · rintro (hfalsy | ⟨hpos, -⟩) (⟨h1, htruthy⟩ | ⟨p, hp, hpred, -⟩)
      · simp [hfalsy] at htruthy
      · exact hnopred p hp hpred
      · omega
      · exact hnopred p hp hpred
    · intro hlink
      by_cases h1 : sequenceOf r = 1
      · left
        rw [← Bool.not_eq_true]
        exact fun htruthy => hlink (Or.inl ⟨h1, htruthy⟩)
      · right
        exact ⟨by omega, hnopred⟩
  | append_singleton a q =>
    have hq : q ∈ records := by simp [hsplit]
    have hqr : sequenceOf q < sequenceOf r := hbefore q (by simp) r (by simp)
    have hposq := h.pos q hq
    obtain ⟨digest, hdigest, hne⟩ := (hintact q (by simp)).exists_digest
    rw [lastSelf_concat, hdigest, orNone_pyEq_str hne, LinkBroken]
    -- records other than `q` are numbered below `q` or from `r` on
    have hothers : ∀ p ∈ records, p = q ∨ sequenceOf p < sequenceOf q ∨
        sequenceOf r ≤ sequenceOf p := by
      intro p hp
      have hasc := h.ascending
      rw [hsplit, List.pairwise_append, List.pairwise_append] at hasc
      rw [hsplit] at hp
      simp only [List.mem_append, List.mem_cons, List.not_mem_nil, or_false] at hp
      rcases hp with (hp | rfl) | rfl | hp
      · exact Or.inr (Or.inl (hasc.1.2.2 p hp q (by simp)))
      · exact Or.inl rfl
      · exact Or.inr (Or.inr le_rfl)
      · exact Or.inr (Or.inr (le_of_lt (hafter p hp)))
    by_cases hadj : sequenceOf q = sequenceOf r - 1
    · constructor
      · rintro (hlink | ⟨-, hnone⟩)
        · rintro (⟨h1, -⟩ | ⟨p, hp, hpred, hneq⟩)
          · omega
          · rcases hothers p hp with rfl | hlt | hge
            · exact hneq (by rw [hlink, hdigest])
            · omega
            · omega
        · exact absurd hadj (hnone q hq)
      · intro hlink
        left
        by_contra hneq
        exact hlink (Or.inr ⟨q, hq, hadj, by rw [hdigest]; exact hneq⟩)
    · have hnopred : ∀ p ∈ records, sequenceOf p ≠ sequenceOf r - 1 := by
        intro p hp
        rcases hothers p hp with rfl | hlt | hge
        · exact hadj
        · omega
        · omega
      constructor
      · rintro - (⟨h1, -⟩ | ⟨p, hp, hpred, -⟩)
        · omega
        · exact hnopred p hp hpred
      · exact fun _ => Or.inr ⟨by omega, hnopred⟩

/-- What the walk looks for in numbered records. -/
def walkFault (rt : Runtime) (records : List Dict) :
    Json → Dict → Option (FailureKind × Json × JStr) :=
  reportedFault rt (excused records)

/-- A prefix the walk passed holds no bad record. -/
theorem not_bad_of_firstFault_eq_none (h : AscendingRecords records) {a b : List Dict}
    (hsplit : records = a ++ b)
    (hnone : firstFault (walkFault rt records) (fun r => r.get "self_hash") .null a = none) :
    ∀ r ∈ a, RecordIntact rt r ∧ ¬ Bad rt records r := by
  rw [firstFault_eq_none] at hnone
  have hpass : ∀ c r d, a = c ++ r :: d →
      recordFault rt (excused records) (lastSelf (fun p => p.get "self_hash") .null c) r = none :=
    fun c r d hcd => reportedFault_eq_none.mp (hnone c r d hcd)
  have hintact : ∀ r ∈ a, RecordIntact rt r := by
    intro r hr
    obtain ⟨c, d, hcd⟩ := List.append_of_mem hr
    exact (recordFault_eq_none.mp (hpass c r d hcd)).1
  intro r hr
  obtain ⟨c, d, hcd⟩ := List.append_of_mem hr
  refine ⟨hintact r hr, ?_⟩
  have hsplit' : records = c ++ r :: (d ++ b) := by rw [hsplit, hcd]; simp
  exact (recordFault_eq_none_iff h hsplit' fun p hp => hintact p (by simp [hcd, hp])).mp
    (hpass c r d hcd)

/-- The walk passes every record exactly when none is bad. -/
theorem firstFault_eq_none_iff_not_bad (h : AscendingRecords records) :
    firstFault (walkFault rt records) (fun r => r.get "self_hash") .null records = none ↔
      ∀ r ∈ records, ¬ Bad rt records r := by
  refine ⟨fun hnone r hr => (not_bad_of_firstFault_eq_none h
    (List.append_nil records).symm hnone r hr).2, ?_⟩
  intro hgood
  have hintact : ∀ r ∈ records, RecordIntact rt r := by
    intro r hr
    by_contra hbad
    exact hgood r hr (Or.inl hbad)
  rw [firstFault_eq_none]
  intro a r b hsplit
  rw [walkFault, reportedFault_eq_none]
  exact (recordFault_eq_none_iff h hsplit fun p hp => hintact p (by simp [hsplit, hp])).mpr
    (hgood r (by simp [hsplit]))

/-- What the walk reports is the bad record with the smallest number. -/
theorem exists_bad_of_firstFault_eq_some (h : AscendingRecords records)
    {x : FailureKind × Json × JStr}
    (hsome : firstFault (walkFault rt records) (fun r => r.get "self_hash") .null records =
      some x) :
    ∃ r ∈ records, Bad rt records r ∧ x.2.1 = .int (sequenceOf r) ∧
      ∀ s ∈ records, Bad rt records s → sequenceOf r ≤ sequenceOf s := by
  obtain ⟨a, r, b, hsplit, hnone, hfault⟩ := exists_of_firstFault_eq_some hsome
  have hr : r ∈ records := by simp [hsplit]
  have hbefore := not_bad_of_firstFault_eq_none h hsplit hnone
  have hbad : Bad rt records r := by
    by_contra hgood
    have hpass := (recordFault_eq_none_iff h hsplit fun p hp => (hbefore p hp).1).mpr hgood
    rw [walkFault, reportedFault, hpass] at hfault
    exact absurd hfault (by simp)
  obtain ⟨f, -, hx⟩ := Option.map_eq_some_iff.mp hfault
  refine ⟨r, hr, hbad, by rw [← hx, h.number r hr], fun s hs hsbad => ?_⟩
  have hasc := h.ascending
  rw [hsplit, List.pairwise_append, List.pairwise_cons] at hasc
  rw [hsplit, List.mem_append, List.mem_cons] at hs
  rcases hs with hs | rfl | hs
  · exact absurd hsbad (hbefore s hs).2
  · exact le_rfl
  · exact le_of_lt (hasc.2.1.1 s hs)

/-! ### The outcome -/

/-- The sequence numbers present. -/
def numbersOf (records : List Dict) : Set ℤ := {k | ∃ r ∈ records, sequenceOf r = k}

/-- The outcome of verifying numbered records. -/
structure NumberedOutcome (rt : Runtime) (records : List Dict) (res : VerifyResult) : Prop where
  record_count : res.record_count = records.length
  missing : ∀ a b, (a, b) ∈ res.missing_ranges ↔ Gap (numbersOf records) a b
  separated : res.missing_ranges.Pairwise fun r s => r.2 + 1 < s.1
  bad : (∃ r ∈ records, Bad rt records r) → ∃ r ∈ records, Bad rt records r ∧
    (∀ s ∈ records, Bad rt records s → sequenceOf r ≤ sequenceOf s) ∧
    res.verdict = .TAMPERED ∧ res.first_invalid_sequence = .int (sequenceOf r)
  good : (∀ r ∈ records, ¬ Bad rt records r) →
    res.verdict = if res.missing_ranges = [] then .VALID else .INCOMPLETE

/-- Ascending numbers hold no duplicate. -/
theorem firstDuplicate_ascending
    (h : records.Pairwise fun r s => sequenceOf r < sequenceOf s) :
    firstDuplicate (sequencesOf records) = none := by
  induction records with
  | nil => rfl
  | cons r rest ih =>
    rw [List.pairwise_cons] at h
    cases rest with
    | nil => rfl
    | cons s rest =>
      have hlt := h.1 s (by simp)
      simp only [sequencesOf, List.map_cons, firstDuplicate, Json.pyEq_int]
      rw [if_neg (by simp; omega)]
      exact ih h.2

theorem decideVerdict_eq (gaps : List SeqRange) :
    decideVerdict gaps none = if gaps = [] then .VALID else .INCOMPLETE := by
  cases gaps <;> rfl

/-- **The verifier on distinctly numbered records.**  Sorting lines the records up, and the walk
    finds the smallest bad one whatever gaps there are. -/
theorem verifyRecords_numbered (rt : Runtime) (session_id : Json) (h : DistinctNumbers records) :
    ∃ res, verifyRecords rt session_id records = .ok res ∧ res.session_id = session_id ∧
      NumberedOutcome rt records res := by
  obtain ⟨sorted, hsort, hperm, hsorted⟩ := h.exists_sorted
  have hfst : (sorted.map fun r => (Json.int (sequenceOf r), r)).map Prod.fst =
      sequencesOf sorted := by simp [sequencesOf]
  have hsnd : (sorted.map fun r => (Json.int (sequenceOf r), r)).map Prod.snd = sorted := by
    simp [Function.comp_def]
  -- a gap excuses a break at the same numbers whether it is read off the ranges or the set
  have hwalk : walk rt (missingRanges (sequencesOf sorted)) .null sorted = _ :=
    walk_eq fun r hr => explainsBreak_eq_excused hr (hsorted.number r hr)
  have hgap : ∀ a b, (a, b) ∈ missingRanges (sequencesOf sorted) ↔ Gap (numbersOf records) a b := by
    intro a b
    rw [mem_missingRanges]
    have : presentSet (sequencesOf sorted) = numbersOf records := by
      ext k
      rw [mem_presentSet_sequencesOf]
      simp only [numbersOf, Set.mem_ofPred_eq, hperm.mem_iff]
    rw [this]
  -- sorting moves no record, so a record is bad in the file exactly when it is bad sorted
  have hbad : ∀ r, Bad rt sorted r ↔ Bad rt records r := fun r => bad_perm hperm
  unfold verifyRecords
  rw [← bind_assoc, hsort]
  simp only [bind, Except.bind, hfst, hsnd, firstDuplicate_ascending hsorted.ascending, hwalk]
  -- by whether the walk over the sorted records finds a fault
  cases hfault : firstFault (reportedFault rt (excused sorted)) (fun r => r.get "self_hash")
      .null sorted with
  | none =>
    have hgood := (firstFault_eq_none_iff_not_bad hsorted).mp hfault
    refine ⟨_, rfl, rfl, ⟨hperm.length_eq, hgap, missingRanges_separated, ?_, fun _ => ?_⟩⟩
    · rintro ⟨r, hr, hrbad⟩
      exact absurd ((hbad r).mpr hrbad) (hgood r (hperm.mem_iff.mpr hr))
    · exact decideVerdict_eq _
  | some x =>
    obtain ⟨r, hr, hrbad, hx, hmin⟩ := exists_bad_of_firstFault_eq_some hsorted hfault
    rw [hbad] at hrbad
    -- the least fault is the least bad record: those before it passed
    refine ⟨_, rfl, rfl, ⟨hperm.length_eq, hgap, missingRanges_separated, fun _ => ?_, ?_⟩⟩
    · exact ⟨r, hperm.mem_iff.mp hr, hrbad,
        fun s hs hsbad => hmin s (hperm.mem_iff.mpr hs) ((hbad s).mpr hsbad), rfl, hx⟩
    · exact fun hgood => absurd hrbad (hgood r (hperm.mem_iff.mp hr))

/-- The missing ranges cover exactly the absent numbers. -/
theorem NumberedOutcome.covered_iff {res : VerifyResult} (h : NumberedOutcome rt records res)
    {k : ℤ} : (∃ p ∈ res.missing_ranges, p.1 ≤ k ∧ k ≤ p.2) ↔ Absent records k := by
  have hcover : (∃ p ∈ res.missing_ranges, p.1 ≤ k ∧ k ≤ p.2) ↔
      ∃ a b, Gap (numbersOf records) a b ∧ a ≤ k ∧ k ≤ b := by
    constructor
    · rintro ⟨⟨a, b⟩, hmem, hk⟩
      exact ⟨a, b, (h.missing a b).mp hmem, hk⟩
    · rintro ⟨a, b, hgap, hk⟩
      exact ⟨(a, b), (h.missing a b).mpr hgap, hk⟩
  rw [hcover, exists_gap_iff, Absent]
  simp only [numbersOf, Set.mem_ofPred_eq, not_exists, not_and]
  refine and_congr_right fun _ => ⟨?_, ?_⟩
  · rintro ⟨habs, m, ⟨r, hr, rfl⟩, hlt⟩
    exact ⟨⟨r, hr, le_of_lt hlt⟩, habs⟩
  · rintro ⟨⟨r, hr, hle⟩, habs⟩
    exact ⟨habs, _, ⟨r, hr, rfl⟩, lt_of_le_of_ne hle fun heq => habs r hr heq.symm⟩

/-- Nothing is missing exactly when no number is absent. -/
theorem NumberedOutcome.missing_eq_nil_iff {res : VerifyResult}
    (h : NumberedOutcome rt records res) :
    res.missing_ranges = [] ↔ ∀ k, ¬ Absent records k := by
  rw [List.eq_nil_iff_forall_not_mem]
  constructor
  · intro hnil k hk
    obtain ⟨p, hp, -⟩ := h.covered_iff.mpr hk
    exact hnil p hp
  · intro hnone p hp
    have hgap := (h.missing p.1 p.2).mp hp
    exact hnone p.1 (h.covered_iff.mp ⟨p, hp, le_rfl, hgap.le⟩)

end

/-! ### The verdict -/

/-- The outcome of verifying a file of numbered records, with or without records. -/
theorem verifySessionLocal_numbered (rt : Runtime) {f : SessionFile}
    (h : DistinctNumbers f.actions) :
    ∃ res, verifySessionLocal rt f.raw = .ok res ∧ NumberedOutcome rt f.actions res := by
  obtain ⟨lines, hne⟩ := f
  obtain ⟨d, rest, rfl⟩ := List.exists_cons_of_ne_nil hne
  rw [SessionFile.raw, verifySessionLocal_cons]
  split
  case isTrue hnil =>
    refine ⟨_, rfl, ?_⟩
    rw [SessionFile.actions, hnil]
    refine ⟨rfl, fun a b => ?_, List.Pairwise.nil, fun ⟨r, hr, _⟩ => by simp at hr, fun _ => rfl⟩
    refine ⟨fun hmem => by simp at hmem, fun hgap => ?_⟩
    obtain ⟨r, hr, -⟩ := hgap.right
    simp at hr
  case isFalse =>
    obtain ⟨res, hres, -, hout⟩ :=
      verifyRecords_numbered rt (d.get "session_id") h
    exact ⟨res, hres, hout⟩

/-- Exactly one of the three outcomes, by precedence. -/
theorem NumberedOutcome.trichotomy {rt : Runtime} {records : List Dict} {res : VerifyResult}
    (h : NumberedOutcome rt records res) :
    ((∃ r ∈ records, Bad rt records r) ∧ res.verdict = .TAMPERED) ∨
      ((∀ r ∈ records, ¬ Bad rt records r) ∧ (∃ k, Absent records k) ∧
        res.verdict = .INCOMPLETE) ∨
      ((∀ r ∈ records, ¬ Bad rt records r) ∧ (∀ k, ¬ Absent records k) ∧
        res.verdict = .VALID) := by
  by_cases hbad : ∃ r ∈ records, Bad rt records r
  · obtain ⟨-, -, -, -, hverdict, -⟩ := h.bad hbad
    exact Or.inl ⟨hbad, hverdict⟩
  · have hgood : ∀ r ∈ records, ¬ Bad rt records r := fun r hr hrbad => hbad ⟨r, hr, hrbad⟩
    have hverdict := h.good hgood
    right
    by_cases hmiss : res.missing_ranges = []
    · rw [if_pos hmiss] at hverdict
      exact Or.inr ⟨hgood, h.missing_eq_nil_iff.mp hmiss, hverdict⟩
    · rw [if_neg hmiss] at hverdict
      refine Or.inl ⟨hgood, ?_, hverdict⟩
      by_contra hnone
      exact hmiss (h.missing_eq_nil_iff.mpr fun k hk => hnone ⟨k, hk⟩)

/-- **The three-way verdict.**  On numbered records `TAMPERED` means that some record is bad,
    whatever gaps there are, and the smallest bad number is reported; otherwise `INCOMPLETE`
    means that some number is absent, and otherwise the verdict is `VALID`.  In every case the
    missing ranges list the absent numbers. -/
theorem verdict_exact (rt : Runtime) (f : SessionFile) (h : NumberedRecords f.actions) :
    ∃ res, verifySessionLocal rt f.raw = .ok res ∧
      (res.verdict = .TAMPERED ↔ ∃ r ∈ f.actions, Bad rt f.actions r) ∧
      (res.verdict = .TAMPERED → ∃ r ∈ f.actions, Bad rt f.actions r ∧
        (∀ s ∈ f.actions, Bad rt f.actions s → sequenceOf r ≤ sequenceOf s) ∧
        res.first_invalid_sequence = .int (sequenceOf r)) ∧
      (res.verdict = .INCOMPLETE ↔
        (∀ r ∈ f.actions, ¬ Bad rt f.actions r) ∧ ∃ k, Absent f.actions k) ∧
      (res.verdict = .VALID ↔
        (∀ r ∈ f.actions, ¬ Bad rt f.actions r) ∧ ∀ k, ¬ Absent f.actions k) ∧
      (∀ k, (∃ p ∈ res.missing_ranges, p.1 ≤ k ∧ k ≤ p.2) ↔ Absent f.actions k) ∧
      res.missing_ranges.Pairwise fun p q => p.2 + 1 < q.1 := by
  obtain ⟨res, hres, hout⟩ := verifySessionLocal_numbered rt h.distinctNumbers
  have hfirst : res.verdict = .TAMPERED → ∃ r ∈ f.actions, Bad rt f.actions r ∧
      (∀ s ∈ f.actions, Bad rt f.actions s → sequenceOf r ≤ sequenceOf s) ∧
      res.first_invalid_sequence = .int (sequenceOf r) := by
    intro hverdict
    rcases hout.trichotomy with ⟨hbad, -⟩ | ⟨-, -, hv⟩ | ⟨-, -, hv⟩
    · obtain ⟨r, hr, hrbad, hmin, -, hfirst⟩ := hout.bad hbad
      exact ⟨r, hr, hrbad, hmin, hfirst⟩
    · simp [hverdict] at hv
    · simp [hverdict] at hv
  refine ⟨res, hres, ?_, hfirst, ?_, ?_, fun k => hout.covered_iff, hout.separated⟩
  -- three equivalences, each read off the three outcomes
  all_goals
    rcases hout.trichotomy with ⟨hbad, hv⟩ | ⟨hgood, ⟨k, hk⟩, hv⟩ | ⟨hgood, hnone, hv⟩
  · exact ⟨fun _ => hbad, fun _ => hv⟩
  · exact ⟨fun h => by simp [hv] at h, fun ⟨r, hr, hrbad⟩ => absurd hrbad (hgood r hr)⟩
  · exact ⟨fun h => by simp [hv] at h, fun ⟨r, hr, hrbad⟩ => absurd hrbad (hgood r hr)⟩
  · obtain ⟨r, hr, hrbad⟩ := hbad
    exact ⟨fun h => by simp [hv] at h, fun h => absurd hrbad (h.1 r hr)⟩
  · exact ⟨fun _ => ⟨hgood, k, hk⟩, fun _ => hv⟩
  · exact ⟨fun h => by simp [hv] at h, fun ⟨_, k, hk⟩ => absurd hk (hnone k)⟩
  · obtain ⟨r, hr, hrbad⟩ := hbad
    exact ⟨fun h => by simp [hv] at h, fun h => absurd hrbad (h.1 r hr)⟩
  · exact ⟨fun h => by simp [hv] at h, fun h => absurd hk (h.2 k)⟩
  · exact ⟨fun _ => ⟨hgood, hnone⟩, fun _ => hv⟩

/-- A record with every canonical field and no hash of its own. -/
def unhashedRecord (n : ℤ) : Dict :=
  Dict.ofFields
    [("action_id", .str "a"), ("session_id", .str "s"), ("tool_name", .str "t"),
     ("input_hash", .str ""), ("timestamp", .str ""), ("sequence_number", .int n)]

theorem unhashedRecord_isActionLine (n : ℤ) : isActionLine (unhashedRecord n) = true := by
  simp [isActionLine, unhashedRecord, Dict.getD_ofFields, List.lookup_cons, Json.pyEq]

theorem unhashedRecord_fields (n : ℤ) : HasCanonicalFields (unhashedRecord n) := by
  constructor <;> simp [unhashedRecord, Dict.has_ofFields, List.lookup_cons]

theorem unhashedRecord_get_sequence (n : ℤ) :
    (unhashedRecord n).get "sequence_number" = .int n := by
  simp [unhashedRecord, Dict.get_ofFields, List.lookup_cons]

theorem unhashedRecord_sequenceOf (n : ℤ) : sequenceOf (unhashedRecord n) = n := by
  rw [sequenceOf, unhashedRecord_get_sequence]

theorem unhashedRecord_not_intact (rt : Runtime) (n : ℤ) :
    ¬ RecordIntact rt (unhashedRecord n) := by
  intro h
  obtain ⟨digest, hdigest, -⟩ := h.exists_digest
  simp [unhashedRecord, Dict.get_ofFields, List.lookup_cons] at hdigest

/-- Records 4 and 2, neither with a hash: the smaller one is reported, behind its gap. -/
theorem verdict_exact_altered :
    ∃ res, verifySessionLocal (cpython fun _ => none)
        (SessionFile.mk [unhashedRecord 4, unhashedRecord 2] (by simp)).raw = .ok res ∧
      res.verdict = .TAMPERED ∧ res.first_invalid_sequence = .int 2 := by
  have hactions : (SessionFile.mk [unhashedRecord 4, unhashedRecord 2] (by simp)).actions =
      [unhashedRecord 4, unhashedRecord 2] := by
    simp [SessionFile.actions, unhashedRecord_isActionLine]
  have hnumbered : NumberedRecords [unhashedRecord 4, unhashedRecord 2] := by
    constructor <;>
      simp [unhashedRecord_fields, unhashedRecord_get_sequence, unhashedRecord_sequenceOf]
  obtain ⟨res, hres, hiff, hfirst, -⟩ := verdict_exact (cpython fun _ => none)
    (SessionFile.mk [unhashedRecord 4, unhashedRecord 2] (by simp)) (by rwa [hactions])
  rw [hactions] at hiff hfirst
  have hbad : ∀ n, Bad (cpython fun _ => none) [unhashedRecord 4, unhashedRecord 2]
      (unhashedRecord n) := fun n => Or.inl (unhashedRecord_not_intact _ n)
  have hverdict := hiff.mpr ⟨unhashedRecord 2, by simp, hbad 2⟩
  obtain ⟨r, hr, -, hmin, heq⟩ := hfirst hverdict
  refine ⟨res, hres, hverdict, ?_⟩
  have hle := hmin (unhashedRecord 2) (by simp) (hbad 2)
  simp only [List.mem_cons, List.not_mem_nil, or_false] at hr
  rcases hr with rfl | rfl
  · simp [unhashedRecord_sequenceOf] at hle
  · simpa [unhashedRecord_sequenceOf] using heq

end RootSign
