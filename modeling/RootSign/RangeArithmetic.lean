import RootSign.Sdk.Receipt

namespace RootSign

open RootSign.Lib RootSign.Python

/-!
# Range arithmetic

Two loops write sets of sequence numbers as ranges, `compressRanges` for a receipt and
`missingRanges` for a verdict.  They agree.

* `absentNumbers` — the numbers below the highest one that are not listed;
* `missingRanges_eq_compress` — the gaps are the compressed absent numbers;
* `missingCount_eq` — `missingCount` counts them;
* `range_arithmetic` — the two together with expansion and `explainsBreak`.
-/

/-- The numbers from 1 to the highest one listed that are not listed. -/
def absentNumbers (sequences : List ℤ) : List ℤ :=
  match sequences.max? with
  | none => []
  | some m => (expandRange (1, m)).filter fun k => k ∉ sequences

section

variable {sequences : List ℤ} {ranges : List (ℤ × ℤ)} {k s : ℤ}

/-- A number is absent when it is positive, not listed, and below one that is. -/
theorem mem_absentNumbers :
    k ∈ absentNumbers sequences ↔ 1 ≤ k ∧ k ∉ sequences ∧ ∃ m ∈ sequences, k < m := by
  unfold absentNumbers
  cases hmax : sequences.max? with
  | none =>
    rw [List.max?_eq_none_iff] at hmax
    simp [hmax]
  | some m =>
    obtain ⟨hm, hle⟩ := List.max?_eq_some_iff.mp hmax
    rw [List.mem_filter, mem_expandRange, decide_eq_true_iff]
    constructor
    · rintro ⟨⟨hpos, hkm⟩, habs⟩
      have hne : k ≠ m := fun heq => habs (heq ▸ hm)
      exact ⟨hpos, habs, m, hm, lt_of_le_of_ne hkm hne⟩
    · rintro ⟨hpos, habs, n, hn, hkn⟩
      have := hle n hn
      exact ⟨⟨hpos, by omega⟩, habs⟩

theorem pairwise_absentNumbers : (absentNumbers sequences).Pairwise (· < ·) := by
  unfold absentNumbers
  cases sequences.max? with
  | none => exact List.Pairwise.nil
  | some m => exact (pairwise_expandRange (1, m)).filter _

theorem presentSet_int : presentSet (sequences.map .int) = {k | k ∈ sequences} := by
  have hints : (sequences.map Json.int).filterMap Json.asInt = sequences := by
    rw [List.filterMap_map]
    exact List.filterMap_some
  rw [presentSet, hints]

theorem canonical_missingRanges (sequences : List Json) :
    CanonicalRanges (missingRanges sequences) :=
  ⟨fun _ hr => (mem_missingRanges.mp hr).le, missingRanges_separated⟩

/-- The gaps cover the absent numbers. -/
theorem covers_missingRanges :
    Covers (missingRanges (sequences.map .int)) k ↔ k ∈ absentNumbers sequences := by
  rw [Covers, covered_missingRanges, presentSet_int, mem_absentNumbers]
  rfl

/-- **The two loops agree.**  The gaps are the compressed absent numbers. -/
theorem missingRanges_eq_compress :
    missingRanges (sequences.map .int) = compressRanges (absentNumbers sequences) := by
  obtain ⟨hcanonical, hcovers⟩ := compressRanges_spec (absentNumbers sequences)
  apply (canonical_missingRanges _).eq_of_covers hcanonical
  intro k
  rw [covers_missingRanges, hcovers]

/-- The sizes of nonempty ranges add up to how many numbers they expand to. -/
theorem missingCount_eq_length (h : ∀ r ∈ ranges, r.1 ≤ r.2) :
    missingCount ranges = (ranges.flatMap expandRange).length := by
  induction ranges with
  | nil => rfl
  | cons r rest ih =>
    have hr : r.1 ≤ r.2 := h r List.mem_cons_self
    have hlen : ((expandRange r).length : ℤ) = r.2 - r.1 + 1 := by
      rw [expandRange, List.length_map, List.length_range]
      omega
    have hrest := ih fun r hr => h r (List.mem_cons_of_mem _ hr)
    unfold missingCount at hrest ⊢
    rw [List.map_cons, List.sum_cons, List.flatMap_cons, List.length_append, hrest]
    push_cast
    rw [hlen]

/-- The gaps hold as many numbers as are absent. -/
theorem missingCount_eq :
    missingCount (missingRanges (sequences.map .int)) =
      (absentNumbers sequences).toFinset.card := by
  have hcanonical := canonical_missingRanges (sequences.map .int)
  rw [missingCount_eq_length hcanonical.nonempty,
    List.toFinset_card_of_nodup (pairwise_absentNumbers.imp ne_of_lt)]
  -- both lists are free of duplicates and have the same elements
  have hperm : ((missingRanges (sequences.map .int)).flatMap expandRange).Perm
      (absentNumbers sequences) := by
    apply (List.perm_ext_iff_of_nodup (hcanonical.pairwise_expand.imp ne_of_lt)
      (pairwise_absentNumbers.imp ne_of_lt)).mpr
    intro k
    rw [mem_flatMap_expandRange, covers_missingRanges]
  rw [hperm.length_eq]

/-- A number ends a gap exactly when it is absent and the next one is not. -/
theorem gap_end_iff :
    (∃ a, (a, s - 1) ∈ missingRanges (sequences.map .int)) ↔
      s - 1 ∈ absentNumbers sequences ∧ s ∉ absentNumbers sequences := by
  rw [mem_absentNumbers, mem_absentNumbers]
  constructor
  · rintro ⟨a, hmem⟩
    have hgap := mem_missingRanges.mp hmem
    rw [presentSet_int] at hgap
    have hs : s ∈ sequences := by
      have hright := hgap.right
      rwa [sub_add_cancel] at hright
    have hpos : 1 ≤ s - 1 := le_trans hgap.pos hgap.le
    exact ⟨⟨hpos, hgap.absent (s - 1) hgap.le le_rfl, s, hs, by omega⟩, fun h => h.2.1 hs⟩
  · rintro ⟨⟨hpos, habs, m, hm, hlt⟩, hnext⟩
    have hs : s ∈ sequences := by
      by_contra hs
      -- then `s` is below the highest number too
      have hne : s ≠ m := fun heq => hs (heq ▸ hm)
      exact hnext ⟨by omega, hs, m, hm, by omega⟩
    have hmem : s ∈ presentSet (sequences.map .int) := by
      rw [presentSet_int]
      exact hs
    have hend := (exists_gap_end_iff hmem).mpr ⟨hpos, by
      rw [presentSet_int]
      exact habs⟩
    obtain ⟨a, hgap⟩ := hend
    exact ⟨a, mem_missingRanges.mpr hgap⟩

theorem explainsBreak_ranges (rt : Runtime) (ranges : List SeqRange) :
    explainsBreak rt (.int s) ranges = .ok (ranges.any fun r => r.2 == s - 1) := by
  unfold explainsBreak
  cases ranges with
  | nil => rfl
  | cons r rest =>
    have hend : ∀ r : SeqRange, (ExtRat.ofRat (r.2 : ℚ) == ExtRat.ofRat ((s - 1 : ℤ) : ℚ)) =
        (r.2 == s - 1) := by
      intro r
      rw [Bool.eq_iff_iff, beq_iff_eq, beq_iff_eq, ExtRat.ofRat.injEq, Int.cast_inj]
    simp only [List.isEmpty_cons, Bool.false_eq_true, if_false, Runtime.minusOne, Json.asInt,
      Option.map_some]
    exact congrArg Except.ok (List.any_congr rfl hend)

end

/-- **Range arithmetic.**  Compressed positions are canonical ranges and expand to the positions.
    The missing ranges are the compressed absent numbers, their count is how many are absent, and
    they explain a break exactly at the number after a gap. -/
theorem range_arithmetic (rt : Runtime) (positions sequences : List ℤ) :
    CanonicalRanges (compressRanges positions) ∧
      (expandRanges (compressRanges positions)).toFinset = positions.toFinset ∧
      missingRanges (sequences.map .int) = compressRanges (absentNumbers sequences) ∧
      missingCount (missingRanges (sequences.map .int)) =
        (absentNumbers sequences).toFinset.card ∧
      ∀ s, ∃ explained,
        explainsBreak rt (.int s) (missingRanges (sequences.map .int)) = .ok explained ∧
          (explained = true ↔
            1 ≤ s - 1 ∧ s - 1 ∈ absentNumbers sequences ∧ s ∉ absentNumbers sequences) := by
  obtain ⟨hcanonical, hcovers⟩ := compressRanges_spec positions
  refine ⟨hcanonical, ?_, missingRanges_eq_compress, missingCount_eq, fun s => ?_⟩
  · ext k
    rw [List.mem_toFinset, List.mem_toFinset, mem_expandRanges, hcovers]
  · refine ⟨_, explainsBreak_ranges rt _, ?_⟩
    rw [List.any_eq_true]
    constructor
    · rintro ⟨⟨a, b⟩, hmem, hend⟩
      obtain rfl := beq_iff_eq.mp hend
      obtain ⟨habs, hnext⟩ := gap_end_iff.mp ⟨a, hmem⟩
      exact ⟨(mem_absentNumbers.mp habs).1, habs, hnext⟩
    · rintro ⟨-, habs, hnext⟩
      obtain ⟨a, hmem⟩ := gap_end_iff.mpr ⟨habs, hnext⟩
      exact ⟨(a, s - 1), hmem, beq_self_eq_true _⟩

/-! Records 1, 4 and 6 of a chain: 2, 3 and 5 are absent. -/
example : compressRanges (absentNumbers [4, 1, 6, 4]) = [(2, 3), (5, 5)] := by decide

end RootSign
