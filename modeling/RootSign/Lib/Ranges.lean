import Mathlib.Data.Int.Interval
import Mathlib.Data.List.Range
import Mathlib.Order.Basic

namespace RootSign.Lib

/-!
# Sets of integers as lists of ranges

A finite set of integers is written as inclusive ranges `(start, end)`.  The writing is *canonical*
when the ranges are nonempty, ascend, and leave at least one number out between each two.

* `Covers`, `CanonicalRanges`, and `CanonicalRanges.eq_of_covers`: a set has one canonical writing;
* `expandRange` — the numbers of a range;
* `RunScan` — what a scan over ascending numbers holds: closed ranges and an open run, with
  `RunScan.single`, `RunScan.extend` and `RunScan.jump` for its steps.
-/

variable {ranges : List (ℤ × ℤ)} {a b k : ℤ} {S : Set ℤ}

/-! ### Canonical ranges -/

/-- `k` lies in one of the ranges. -/
def Covers (ranges : List (ℤ × ℤ)) (k : ℤ) : Prop := ∃ r ∈ ranges, r.1 ≤ k ∧ k ≤ r.2

/-- Nonempty ranges that ascend and do not touch. -/
structure CanonicalRanges (ranges : List (ℤ × ℤ)) : Prop where
  nonempty : ∀ r ∈ ranges, r.1 ≤ r.2
  apart : ranges.Pairwise fun r s => r.2 + 1 < s.1

@[simp] theorem covers_nil : ¬ Covers [] k := by simp [Covers]

@[simp] theorem covers_cons : Covers ((a, b) :: ranges) k ↔ (a ≤ k ∧ k ≤ b) ∨ Covers ranges k := by
  simp [Covers]

@[simp] theorem covers_append {ranges' : List (ℤ × ℤ)} :
    Covers (ranges ++ ranges') k ↔ Covers ranges k ∨ Covers ranges' k := by
  simp [Covers, or_and_right, exists_or]

theorem CanonicalRanges.nil : CanonicalRanges [] := ⟨by simp, List.Pairwise.nil⟩

theorem CanonicalRanges.tail (h : CanonicalRanges ((a, b) :: ranges)) : CanonicalRanges ranges :=
  ⟨fun r hr => h.nonempty r (List.mem_cons_of_mem _ hr), h.apart.of_cons⟩

/-- What the ranges after the first cover lies beyond a gap. -/
theorem CanonicalRanges.lt_of_covers (h : CanonicalRanges ((a, b) :: ranges))
    (hk : Covers ranges k) :
    b + 1 < k := by
  obtain ⟨r, hr, hle, -⟩ := hk
  have := List.rel_of_pairwise_cons h.apart hr
  omega

/-- The first range is decided by what is covered: its start is the least number, and its end the
    last number before the first one left out. -/
theorem CanonicalRanges.head_eq {c d : ℤ} {ranges' : List (ℤ × ℤ)}
    (h : CanonicalRanges ((a, b) :: ranges))
    (h' : CanonicalRanges ((c, d) :: ranges'))
    (hsame : ∀ k, Covers ((a, b) :: ranges) k ↔ Covers ((c, d) :: ranges') k) : a = c ∧ b = d := by
  have hab : a ≤ b := h.nonempty (a, b) List.mem_cons_self
  have hcd : c ≤ d := h'.nonempty (c, d) List.mem_cons_self
  have hge : ∀ k, Covers ((c, d) :: ranges') k → c ≤ k ∧ (k ≤ d ∨ d + 1 < k) := by
    intro k hk
    rcases covers_cons.mp hk with hk | hk
    · exact ⟨hk.1, Or.inl hk.2⟩
    · have := h'.lt_of_covers hk
      exact ⟨by omega, Or.inr this⟩
  have hge' : ∀ k, Covers ((a, b) :: ranges) k → a ≤ k ∧ (k ≤ b ∨ b + 1 < k) := by
    intro k hk
    rcases covers_cons.mp hk with hk | hk
    · exact ⟨hk.1, Or.inl hk.2⟩
    · have := h.lt_of_covers hk
      exact ⟨by omega, Or.inr this⟩
  have hca := hge a ((hsame a).mp (by simp [hab]))
  have hac := hge' c ((hsame c).mpr (by simp [hcd]))
  have heq : a = c := by omega
  refine ⟨heq, ?_⟩
  -- the number after the shorter of the two ranges would be covered on one side only
  rcases lt_trichotomy b d with hlt | hbd | hlt
  · have := hge' (b + 1) ((hsame (b + 1)).mpr (covers_cons.mpr (Or.inl (by omega))))
    omega
  · exact hbd
  · have := hge (d + 1) ((hsame (d + 1)).mp (covers_cons.mpr (Or.inl (by omega))))
    omega

/-- **One canonical writing.** Canonical ranges that cover the same numbers are the same. -/
theorem CanonicalRanges.eq_of_covers {ranges' : List (ℤ × ℤ)} (h : CanonicalRanges ranges)
    (h' : CanonicalRanges ranges') (hsame : ∀ k, Covers ranges k ↔ Covers ranges' k) :
    ranges = ranges' := by
  -- by induction on the first list: the numbers covered determine where the first range starts and
  -- ends
  induction ranges generalizing ranges' with
  | nil =>
    cases ranges' with
    | nil => rfl
    | cons r rest =>
      have hr := h'.nonempty r List.mem_cons_self
      exact absurd ((hsame r.1).mpr ⟨r, List.mem_cons_self, le_rfl, hr⟩) covers_nil
  | cons r rest ih =>
    cases ranges' with
    | nil =>
      have hr := h.nonempty r List.mem_cons_self
      exact absurd ((hsame r.1).mp ⟨r, List.mem_cons_self, le_rfl, hr⟩) covers_nil
    | cons s rest' =>
      obtain ⟨a, b⟩ := r
      obtain ⟨c, d⟩ := s
      obtain ⟨rfl, rfl⟩ := h.head_eq h' hsame
      have hrest : rest = rest' := by
        apply ih h.tail h'.tail
        intro k
        have hk := hsame k
        rw [covers_cons, covers_cons] at hk
        constructor
        -- what the rest covers lies above the first range
        · intro hcov
          have := h.lt_of_covers hcov
          exact (hk.mp (Or.inr hcov)).resolve_left (by omega)
        · intro hcov
          have := h'.lt_of_covers hcov
          exact (hk.mpr (Or.inr hcov)).resolve_left (by omega)
      rw [hrest]

/-! ### Expanding -/

/-- The numbers from `start` to `end`. -/
def expandRange (r : ℤ × ℤ) : List ℤ :=
  (List.range (r.2 + 1 - r.1).toNat).map fun i : ℕ => r.1 + i

theorem mem_expandRange {r : ℤ × ℤ} : k ∈ expandRange r ↔ r.1 ≤ k ∧ k ≤ r.2 := by
  rw [expandRange, List.mem_map]
  constructor
  · rintro ⟨i, hi, rfl⟩
    rw [List.mem_range] at hi
    omega
  · rintro ⟨hle, hge⟩
    refine ⟨(k - r.1).toNat, ?_, by omega⟩
    rw [List.mem_range]
    omega

theorem pairwise_expandRange (r : ℤ × ℤ) : (expandRange r).Pairwise (· < ·) := by
  rw [expandRange, List.pairwise_map]
  exact List.pairwise_lt_range.imp fun h => by omega

theorem mem_flatMap_expandRange : k ∈ ranges.flatMap expandRange ↔ Covers ranges k := by
  simp [Covers, List.mem_flatMap, mem_expandRange]

/-- Canonical ranges expand in ascending order. -/
theorem CanonicalRanges.pairwise_expand (h : CanonicalRanges ranges) :
    (ranges.flatMap expandRange).Pairwise (· < ·) := by
  rw [List.pairwise_flatMap]
  refine ⟨fun r _ => pairwise_expandRange r, h.apart.imp fun {r s} hlt x hx y hy => ?_⟩
  rw [mem_expandRange] at hx hy
  omega

/-! ### Scanning ascending numbers -/

/-- A scan has read the numbers `S`: all of them lie in the closed ranges or in the open run
    `start … previous`. -/
structure RunScan (closed : List (ℤ × ℤ)) (start previous : ℤ) (S : Set ℤ) : Prop where
  canonical : CanonicalRanges (closed ++ [(start, previous)])
  covers : ∀ k, Covers (closed ++ [(start, previous)]) k ↔ k ∈ S

namespace RunScan

variable {closed : List (ℤ × ℤ)} {start previous position : ℤ}

theorem start_le (h : RunScan closed start previous S) : start ≤ previous :=
  h.canonical.nonempty (start, previous) (by simp)

/-- The scan of one number. -/
theorem single (position : ℤ) : RunScan [] position position {position} where
  canonical := ⟨by simp, by simp⟩
  covers k := by
    simp only [List.nil_append, covers_cons, covers_nil, or_false, Set.mem_singleton_iff]
    omega

/-- The next number extends the open run. -/
theorem extend (h : RunScan closed start previous S) :
    RunScan closed start (previous + 1) (insert (previous + 1) S) where
  canonical := by
    have hstart := h.start_le
    have happart := List.pairwise_append.mp h.canonical.apart
    refine ⟨fun r hr => ?_, List.pairwise_append.mpr ⟨happart.1, by simp, ?_⟩⟩
    -- a closed range is as it was, the open one only grows
    · rcases List.mem_append.mp hr with hr | hr
      · exact h.canonical.nonempty r (List.mem_append_left _ hr)
      · obtain rfl := List.mem_singleton.mp hr
        show start ≤ previous + 1
        omega
    · intro r hr s hs
      obtain rfl := List.mem_singleton.mp hs
      exact happart.2.2 r hr (start, previous) (by simp)
  covers k := by
    have hk := h.covers k
    have hstart := h.start_le
    simp only [covers_append, covers_cons, covers_nil, or_false] at hk ⊢
    rw [Set.mem_insert_iff, ← hk]
    constructor
    -- the new number is the end of the open run
    · rintro (hclosed | hrun)
      · exact Or.inr (Or.inl hclosed)
      · by_cases heq : k = previous + 1
        · exact Or.inl heq
        · exact Or.inr (Or.inr (by omega))
    · rintro (heq | hclosed | hrun)
      · exact Or.inr (by omega)
      · exact Or.inl hclosed
      · exact Or.inr (by omega)

/-- A number beyond a gap closes the open run and starts another. -/
theorem jump (h : RunScan closed start previous S) (hgap : previous + 1 < position) :
    RunScan (closed ++ [(start, previous)]) position position (insert position S) where
  canonical := by
    have hstart := h.start_le
    refine ⟨fun r hr => ?_, List.pairwise_append.mpr ⟨h.canonical.apart, by simp, ?_⟩⟩
    · rcases List.mem_append.mp hr with hr | hr
      · exact h.canonical.nonempty r hr
      · obtain rfl := List.mem_singleton.mp hr
        exact le_rfl
    · intro r hr s hs
      obtain rfl := List.mem_singleton.mp hs
      show r.2 + 1 < position
      rcases List.mem_append.mp hr with hr | hr
      · have := (List.pairwise_append.mp h.canonical.apart).2.2 r hr (start, previous) (by simp)
        -- a closed range ends before the open run
        omega
      · obtain rfl := List.mem_singleton.mp hr
        exact hgap
  covers k := by
    rw [covers_append, h.covers, covers_cons, Set.mem_insert_iff]
    constructor
    · rintro (hk | hk | hk)
      · exact Or.inr hk
      · exact Or.inl (by omega)
      · exact absurd hk covers_nil
    · rintro (rfl | hk)
      · exact Or.inr (Or.inl ⟨le_rfl, le_rfl⟩)
      · exact Or.inl hk

end RunScan

end RootSign.Lib
