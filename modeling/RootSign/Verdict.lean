import RootSign.Lib.Gaps
import RootSign.Python.Runtime

namespace RootSign

open RootSign.Lib RootSign.Python

/-!
# The verification vocabulary (`rootsign/verdict.py`)

Both verifiers share the verdicts, the gap computation and the precedence rule.

* `missingRanges` scans `1 … max` and lists the runs of absent sequence numbers;
  `mem_missingRanges` says these are exactly the gaps of the present integers, and
  `missingRanges_separated` that they come in ascending order, apart from each other.
* `explainsBreak` asks whether a record sits right after a gap;
  `explainsBreak_int` evaluates it for a present integer.
* `decideVerdict` is the precedence rule: worst verdict wins.
-/

/-! ### Verdicts -/

/-- A session's verification outcome. -/
inductive Verdict where
  | VALID
  | TAMPERED
  | INCOMPLETE
deriving DecidableEq, Repr

/-- Why a chain failed, for the cases that are not a plain gap. -/
inductive FailureKind where
  | SELF_HASH_MISMATCH
  | PREV_HASH_MISMATCH
  | DUPLICATE_SEQUENCE
  | PAYLOAD_BINDING
  | MISSING_FIELD
  | MALFORMED
deriving DecidableEq, Repr

/-- An inclusive range of sequence numbers. -/
abbrev SeqRange := ℤ × ℤ

/-- Combine what a verifier found into one verdict: worst wins. -/
def decideVerdict (missing : List SeqRange) (failure_kind : Option FailureKind) : Verdict :=
  if failure_kind.isSome then .TAMPERED
  else if !missing.isEmpty then .INCOMPLETE
  else .VALID

/-! ### Missing ranges -/

/-- One candidate of the scan: close the open run, open one, or go on. -/
def missingStep (present : List ℤ) (state : List SeqRange × Option ℤ) (candidate : ℤ) :
    List SeqRange × Option ℤ :=
  if candidate ∈ present then
    match state.2 with
    | some start => (state.1 ++ [(start, candidate - 1)], none)
    | none => state
  else
    match state.2 with
    | none => (state.1, some candidate)
    | some _ => state

/-- The scan of `1 … n`. -/
def missingScan (present : List ℤ) (n : ℕ) : List SeqRange × Option ℤ :=
  ((List.range n).map fun i : ℕ => (i : ℤ) + 1).foldl (missingStep present) ([], none)

/-- Contiguous runs of sequence numbers absent from a dense `1 … max` chain. -/
def missingRanges (sequences : List Json) : List SeqRange :=
  let present := sequences.filterMap Json.asInt
  match present.max? with
  | none => []
  | some m => (missingScan present m.toNat).1

/-- True when the record at `sequence_number` sits immediately after a gap. -/
def explainsBreak (rt : Runtime) (sequence_number : Json) (ranges : List SeqRange) :
    Except PyError Bool :=
  if ranges.isEmpty then .ok false
  else
    match rt.minusOne sequence_number with
    | some x => .ok (ranges.any fun r => ExtRat.ofRat (r.2 : ℚ) == x)
    | none => .error .typeError

/-- One range as text, e.g. `3` or `3-5`. -/
def describeRange (r : SeqRange) : List Char :=
  if r.1 = r.2 then intText r.1 else intText r.1 ++ '-' :: intText r.2

/-- Human-readable summary of the gaps, e.g. `3` or `3-5, 9`. -/
def describeMissing (ranges : List SeqRange) : List Char :=
  joinComma (ranges.map describeRange)

/-- How many sequence numbers the ranges cover. -/
def missingCount (ranges : List SeqRange) : ℤ := (ranges.map fun r => r.2 - r.1 + 1).sum

/-! ### What the scan computes -/

variable {present : List ℤ}

theorem missingScan_succ (n : ℕ) :
    missingScan present (n + 1) = missingStep present (missingScan present n) (n + 1) := by
  simp [missingScan, List.range_succ, List.foldl_append]

/-- The scan after `n` candidates: the closed runs are the gaps below `n`, and the open run,
    if any, reaches up to `n`. -/
structure ScanInv (present : List ℤ) (n : ℕ) (state : List SeqRange × Option ℤ) : Prop where
  closed : ∀ a b, (a, b) ∈ state.1 ↔ Gap {k | k ∈ present} a b ∧ b < n
  separated : state.1.Pairwise fun r s => r.2 + 1 < s.1
  open_some : ∀ a, state.2 = some a →
    1 ≤ a ∧ a ≤ n ∧ (∀ k, a ≤ k → k ≤ n → k ∉ present) ∧ (a = 1 ∨ a - 1 ∈ present)
  open_none : state.2 = none → n = 0 ∨ (n : ℤ) ∈ present

theorem missingScan_inv (n : ℕ) : ScanInv present n (missingScan present n) := by
  induction n with
  | zero =>
    refine ⟨fun a b => ?_, List.Pairwise.nil, fun a h => by simp [missingScan] at h,
      fun _ => Or.inl rfl⟩
    simp only [missingScan, List.range_zero, List.map_nil, List.foldl_nil, List.not_mem_nil,
      false_iff, not_and, not_lt]
    intro h
    have := h.pos
    have := h.le
    push_cast
    omega
  | succ n ih =>
    rw [missingScan_succ]
    generalize missingScan present n = state at ih
    obtain ⟨runs, openRun⟩ := state
    unfold missingStep
    by_cases hmem : ((n : ℤ) + 1) ∈ present
    · rw [if_pos hmem]
      cases openRun with
      | some a =>
        -- the open run ends here: it is a gap, and every other gap ends earlier
        obtain ⟨ha1, han, hrun, hleft⟩ := ih.open_some a rfl
        have hgap : Gap {k | k ∈ present} a n := ⟨ha1, han, hrun, hleft, hmem⟩
        refine ⟨fun c d => ?_, ?_, fun _ h => by simp at h, fun _ => Or.inr (by simpa using hmem)⟩
        · simp only [List.mem_append, ih.closed, List.mem_singleton, Prod.mk.injEq,
            add_sub_cancel_right]
          constructor
          · rintro (⟨h, hlt⟩ | ⟨rfl, rfl⟩)
            · exact ⟨h, by push_cast; omega⟩
            · exact ⟨hgap, by push_cast; omega⟩
          · rintro ⟨h, hlt⟩
            rcases lt_or_ge d n with hd | hd
            · exact Or.inl ⟨h, hd⟩
            · have hdn : d = n := by push_cast at hlt; omega
              subst hdn
              obtain ⟨rfl, -⟩ := h.eq_of_mem hgap h.le le_rfl hgap.le le_rfl
              exact Or.inr ⟨rfl, rfl⟩
        · rw [List.pairwise_append]
          refine ⟨ih.separated, List.pairwise_singleton _ _, fun r hr s hs => ?_⟩
          rw [List.mem_singleton] at hs
          subst hs
          obtain ⟨h, hlt⟩ := (ih.closed r.1 r.2).mp hr
          -- a gap that ends at or after `a - 1` would share a number with the open run
          have hright := h.right
          have hne : ¬ a ≤ r.2 + 1 := fun hle => hrun (r.2 + 1) hle (by omega) hright
          omega
      | none =>
        refine ⟨fun c d => ?_, ih.separated, fun _ h => by simp at h,
          fun _ => Or.inr (by simpa using hmem)⟩
        rw [ih.closed]
        refine and_congr_right fun h => ⟨fun hlt => by push_cast; omega, fun hlt => ?_⟩
        -- `n` is present (or zero), so no gap ends at `n`
        rcases ih.open_none rfl with h0 | hn
        · have := h.pos
          have := h.le
          push_cast at hlt
          omega
        · have hne : d ≠ n := fun hd => h.absent d h.le le_rfl (by rw [hd]; exact hn)
          push_cast at hlt
          omega
    · rw [if_neg hmem]
      have hstep : ∀ c d, Gap {k | k ∈ present} c d → (d < n ↔ d < ((n + 1 : ℕ) : ℤ)) := by
        intro c d h
        refine ⟨fun hlt => by push_cast; omega, fun hlt => ?_⟩
        have hne : d ≠ n := fun hd => hmem (by have := h.right; rwa [hd] at this)
        push_cast at hlt
        omega
      cases openRun with
      | some a =>
        obtain ⟨ha1, han, hrun, hleft⟩ := ih.open_some a rfl
        refine ⟨fun c d => ?_, ih.separated, fun a' h => ?_, fun h => by simp at h⟩
        · rw [ih.closed]
          exact and_congr_right fun h => hstep c d h
        · obtain rfl := Option.some.inj h
          refine ⟨ha1, by push_cast; omega, fun k h1 h2 => ?_, hleft⟩
          rcases eq_or_ne k ((n : ℤ) + 1) with heq | hne
          · rwa [heq]
          · exact hrun k h1 (by push_cast at h2; omega)
      | none =>
        refine ⟨fun c d => ?_, ih.separated, fun a' h => ?_, fun h => by simp at h⟩
        · rw [ih.closed]
          exact and_congr_right fun h => hstep c d h
        · obtain rfl := Option.some.inj h
          refine ⟨by omega, by push_cast; omega, fun k h1 h2 => ?_, ?_⟩
          · rwa [show k = (n : ℤ) + 1 by push_cast at h2; omega]
          · rcases ih.open_none rfl with h0 | hn
            · left; omega
            · right; simpa using hn

/-! ### Missing ranges are the gaps -/

variable {sequences : List Json}

/-- The integers among the given sequence numbers. -/
def presentSet (sequences : List Json) : Set ℤ := {k | k ∈ sequences.filterMap Json.asInt}

theorem missingRanges_of_none (h : (sequences.filterMap Json.asInt).max? = none) :
    missingRanges sequences = [] := by
  simp [missingRanges, h]

theorem missingRanges_of_some {m : ℤ} (h : (sequences.filterMap Json.asInt).max? = some m) :
    missingRanges sequences = (missingScan (sequences.filterMap Json.asInt) m.toNat).1 := by
  simp [missingRanges, h]

/-- **The listed ranges are exactly the gaps** of the integers present. -/
theorem mem_missingRanges {a b : ℤ} :
    (a, b) ∈ missingRanges sequences ↔ Gap (presentSet sequences) a b := by
  cases hmax : (sequences.filterMap Json.asInt).max? with
  | none =>
    rw [missingRanges_of_none hmax]
    rw [List.max?_eq_none_iff] at hmax
    simp only [List.not_mem_nil, false_iff]
    intro h
    have := h.right
    simp [presentSet, hmax] at this
  | some m =>
    obtain ⟨-, hle⟩ := List.max?_eq_some_iff.mp hmax
    rw [missingRanges_of_some hmax, (missingScan_inv m.toNat).closed]
    refine ⟨fun h => h.1, fun h => ⟨h, ?_⟩⟩
    have hbm := hle (b + 1) h.right
    have := h.pos
    have := h.le
    omega

/-- The listed ranges are ascending, and a present number lies between any two of them. -/
theorem missingRanges_separated :
    (missingRanges sequences).Pairwise fun r s => r.2 + 1 < s.1 := by
  cases hmax : (sequences.filterMap Json.asInt).max? with
  | none => rw [missingRanges_of_none hmax]; exact List.Pairwise.nil
  | some m => rw [missingRanges_of_some hmax]; exact (missingScan_inv m.toNat).separated

/-- A number is covered by the listed ranges exactly when it is absent, positive and below
    some present number. -/
theorem covered_missingRanges {k : ℤ} :
    (∃ r ∈ missingRanges sequences, r.1 ≤ k ∧ k ≤ r.2) ↔
      1 ≤ k ∧ k ∉ presentSet sequences ∧ ∃ m ∈ presentSet sequences, k < m := by
  rw [← exists_gap_iff]
  constructor
  · rintro ⟨⟨a, b⟩, hmem, hak, hkb⟩
    exact ⟨a, b, mem_missingRanges.mp hmem, hak, hkb⟩
  · rintro ⟨a, b, hgap, hak, hkb⟩
    exact ⟨(a, b), mem_missingRanges.mpr hgap, hak, hkb⟩

/-- No range is listed exactly when every positive number below a present one is present. -/
theorem missingRanges_eq_nil_iff :
    missingRanges sequences = [] ↔
      ∀ k, 1 ≤ k → (∃ m ∈ presentSet sequences, k < m) → k ∈ presentSet sequences := by
  rw [← no_gap_iff, List.eq_nil_iff_forall_not_mem]
  exact ⟨fun h a b hgap => h (a, b) (mem_missingRanges.mpr hgap),
    fun h r hr => h r.1 r.2 (mem_missingRanges.mp hr)⟩

/-- A present integer sits right after a gap exactly when its predecessor is positive and
    absent. -/
theorem explainsBreak_int (rt : Runtime) {s : ℤ} (hs : s ∈ presentSet sequences) :
    ∃ b, explainsBreak rt (.int s) (missingRanges sequences) = .ok b ∧
      (b = true ↔ 1 ≤ s - 1 ∧ s - 1 ∉ presentSet sequences) := by
  rw [← exists_gap_end_iff hs]
  unfold explainsBreak
  split
  case isTrue hnil =>
    refine ⟨false, rfl, ⟨fun h => by simp at h, fun ⟨a, hgap⟩ => ?_⟩⟩
    rw [List.isEmpty_iff] at hnil
    have := mem_missingRanges.mpr hgap
    rw [hnil] at this
    simp at this
  case isFalse =>
    simp only [Runtime.minusOne, Json.asInt, Option.map_some]
    refine ⟨_, rfl, ?_⟩
    rw [List.any_eq_true]
    constructor
    · rintro ⟨⟨a, b⟩, hmem, heq⟩
      rw [beq_iff_eq, ExtRat.ofRat.injEq, Int.cast_inj] at heq
      exact ⟨a, by rw [← heq]; exact mem_missingRanges.mp hmem⟩
    · rintro ⟨a, hgap⟩
      exact ⟨(a, s - 1), mem_missingRanges.mpr hgap, by simp⟩

end RootSign
