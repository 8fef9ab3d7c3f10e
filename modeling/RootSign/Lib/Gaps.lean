import Mathlib.Data.Set.Basic
import Mathlib.Algebra.Order.Ring.Int
import Mathlib.Order.Basic

namespace RootSign.Lib

/-!
# Maximal runs of absent numbers

A numbering that should be `1, 2, …, m` with some numbers missing is described by its
*gaps*: the maximal runs of absent numbers that have a present number above them.

* `Gap S a b` — `[a, b]` is such a run for the set `S` of present numbers;
* `Gap.eq_of_mem` — two gaps that share a number are the same gap;
* `exists_gap_iff` — a number lies in a gap exactly when it is absent, positive and below
  some present number;
* `exists_gap_end_iff` — a present number sits right after a gap exactly when its
  predecessor is positive and absent;
* `getElem_of_no_gap` — ascending positive numbers without a gap are `1, 2, …`.
-/

variable {S : Set ℤ}

/-- `[a, b]` is a maximal run of positive numbers absent from `S` that ends right below a
    present number. -/
structure Gap (S : Set ℤ) (a b : ℤ) : Prop where
  pos : 1 ≤ a
  le : a ≤ b
  absent : ∀ k, a ≤ k → k ≤ b → k ∉ S
  left : a = 1 ∨ a - 1 ∈ S
  right : b + 1 ∈ S

/-- Two gaps that share a number are the same gap. -/
theorem Gap.eq_of_mem {a b c d k : ℤ} (h : Gap S a b) (h' : Gap S c d)
    (hak : a ≤ k) (hkb : k ≤ b) (hck : c ≤ k) (hkd : k ≤ d) : a = c ∧ b = d := by
  have hac : a = c := by
    rcases lt_trichotomy a c with hlt | heq | hgt
    · rcases h'.left with h1 | hmem
      · have := h.pos; omega
      · exact absurd hmem (h.absent (c - 1) (by omega) (by omega))
    · exact heq
    · rcases h.left with h1 | hmem
      · have := h'.pos; omega
      · exact absurd hmem (h'.absent (a - 1) (by omega) (by omega))
  have hbd : b = d := by
    rcases lt_trichotomy b d with hlt | heq | hgt
    · exact absurd h.right (h'.absent (b + 1) (by omega) (by omega))
    · exact heq
    · exact absurd h'.right (h.absent (d + 1) (by omega) (by omega))
  exact ⟨hac, hbd⟩

/-- Going down from an absent positive number one reaches the left end of its run. -/
theorem exists_left_end {k : ℤ} (hk : 1 ≤ k) (habs : k ∉ S) :
    ∃ a, 1 ≤ a ∧ a ≤ k ∧ (∀ j, a ≤ j → j ≤ k → j ∉ S) ∧ (a = 1 ∨ a - 1 ∈ S) := by
  induction k, hk using Int.leInduction with
  | base =>
    refine ⟨1, le_rfl, le_rfl, fun j h1 h2 => ?_, Or.inl rfl⟩
    rwa [show j = 1 by omega]
  | succ n hn ih =>
    by_cases hmem : n ∈ S
    · refine ⟨n + 1, by omega, le_rfl, fun j h1 h2 => ?_, Or.inr (by simpa using hmem)⟩
      rwa [show j = n + 1 by omega]
    · obtain ⟨a, ha1, han, hrun, hleft⟩ := ih hmem
      refine ⟨a, ha1, by omega, fun j h1 h2 => ?_, hleft⟩
      rcases eq_or_lt_of_le h2 with heq | hlt
      · rwa [heq]
      · exact hrun j h1 (by omega)

/-- Going up from an absent number below a present one, one reaches the right end of its
    run. -/
theorem exists_right_end (n : ℕ) {k : ℤ} (hm : k + 1 + n ∈ S) (habs : k ∉ S) :
    ∃ b, k ≤ b ∧ (∀ j, k ≤ j → j ≤ b → j ∉ S) ∧ b + 1 ∈ S := by
  have hself : ∀ j, k ≤ j → j ≤ k → j ∉ S := fun j h1 h2 => by rwa [show j = k by omega]
  induction n generalizing k with
  | zero => exact ⟨k, le_rfl, hself, by simpa using hm⟩
  | succ n ih =>
    by_cases hnext : k + 1 ∈ S
    · exact ⟨k, le_rfl, hself, hnext⟩
    · have hm' : k + 1 + 1 + n ∈ S := by
        rwa [show k + 1 + 1 + (n : ℤ) = k + 1 + ((n + 1 : ℕ) : ℤ) by push_cast; omega]
      obtain ⟨b, hkb, hrun, hright⟩ :=
        ih hm' hnext (fun j h1 h2 => by rwa [show j = k + 1 by omega])
      refine ⟨b, by omega, fun j h1 h2 => ?_, hright⟩
      rcases eq_or_lt_of_le h1 with heq | hlt
      · rwa [← heq]
      · exact hrun j (by omega) h2

/-- **Coverage.** A number lies in a gap exactly when it is positive, absent and below some
    present number. -/
theorem exists_gap_iff {k : ℤ} :
    (∃ a b, Gap S a b ∧ a ≤ k ∧ k ≤ b) ↔ 1 ≤ k ∧ k ∉ S ∧ ∃ m ∈ S, k < m := by
  constructor
  · rintro ⟨a, b, h, hak, hkb⟩
    exact ⟨le_trans h.pos hak, h.absent k hak hkb, b + 1, h.right, by omega⟩
  · rintro ⟨hk, habs, m, hm, hkm⟩
    obtain ⟨a, ha1, hak, hbelow, hleft⟩ := exists_left_end hk habs
    have hm' : k + 1 + ((m - k - 1).toNat : ℤ) ∈ S := by
      rwa [show k + 1 + ((m - k - 1).toNat : ℤ) = m by omega]
    obtain ⟨b, hkb, habove, hright⟩ := exists_right_end _ hm' habs
    refine ⟨a, b, ⟨ha1, by omega, fun j h1 h2 => ?_, hleft, hright⟩, hak, hkb⟩
    rcases le_or_gt j k with hjk | hjk
    · exact hbelow j h1 hjk
    · exact habove j (by omega) h2

/-- **Explained position.** A present number sits right after a gap exactly when its
    predecessor is positive and absent. -/
theorem exists_gap_end_iff {s : ℤ} (hs : s ∈ S) :
    (∃ a, Gap S a (s - 1)) ↔ 1 ≤ s - 1 ∧ s - 1 ∉ S := by
  constructor
  · rintro ⟨a, h⟩
    exact ⟨le_trans h.pos h.le, h.absent (s - 1) h.le le_rfl⟩
  · rintro ⟨h1, habs⟩
    obtain ⟨a, ha1, hak, hrun, hleft⟩ := exists_left_end h1 habs
    exact ⟨a, ha1, hak, hrun, hleft, by simpa using hs⟩

/-- A set of positive numbers has no gap exactly when every positive number below a present
    one is present. -/
theorem no_gap_iff :
    (∀ a b, ¬ Gap S a b) ↔ ∀ k, 1 ≤ k → (∃ m ∈ S, k < m) → k ∈ S := by
  constructor
  · intro h k hk hm
    by_contra habs
    obtain ⟨a, b, hgap, -, -⟩ := exists_gap_iff.mpr ⟨hk, habs, hm⟩
    exact h a b hgap
  · intro h a b hgap
    exact hgap.absent a le_rfl hgap.le
      (h a hgap.pos ⟨b + 1, hgap.right, by have := hgap.le; omega⟩)

/-- Ascending positive numbers without a gap are `1, 2, …`. -/
theorem getElem_of_no_gap {l : List ℤ} (hpos : ∀ k ∈ l, 1 ≤ k) (hasc : l.Pairwise (· < ·))
    (hfull : ∀ k, 1 ≤ k → (∃ m ∈ l, k < m) → k ∈ l) (i : ℕ) (hi : i < l.length) :
    l[i] = i + 1 := by
  induction i using Nat.strongRecOn with
  | ind i ih =>
    have hlt : ∀ {a b : ℕ} (hb : b < l.length) (hab : a < b), l[a] < l[b] := fun hb hab =>
      List.pairwise_iff_getElem.mp hasc _ _ _ hb hab
    have hge : (i : ℤ) + 1 ≤ l[i] := by
      cases i with
      | zero => simpa using hpos _ (List.getElem_mem hi)
      | succ j =>
        have := hlt hi (Nat.lt_succ_self j)
        rw [ih j (Nat.lt_succ_self j) (by omega)] at this
        push_cast
        omega
    by_contra hne
    -- otherwise `i + 1` is below `l[i]`, so it is in the list, and at no position
    obtain ⟨j, hj, hval⟩ := List.mem_iff_getElem.mp
      (hfull (i + 1) (by omega) ⟨l[i], List.getElem_mem hi, by omega⟩)
    rcases Nat.lt_trichotomy j i with hji | rfl | hij
    · rw [ih j hji hj] at hval
      omega
    · omega
    · have := hlt hj hij
      omega

end RootSign.Lib
