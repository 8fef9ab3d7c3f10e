import Mathlib.Data.Finset.Image
import Mathlib.Data.List.Basic
import Mathlib.Order.Interval.Finset.Nat

namespace RootSign.Lib

/-!
# Shelves of numbered files

A directory in which a name that is taken gets a number: the first that is free.  An entry may be
replaced, and the newest counts.

* `Shelf.free` — the first free number from a given one on;
* `Shelf.put` — a file is added under it, and nothing that stands there changes;
* `Shelf.Holds` — the files of each name, in the order of their numbers.
-/

variable {α β : Type*} [DecidableEq α]

/-- Files under names with a number. -/
abbrev Shelf (α β : Type*) := List ((α × ℕ) × β)

namespace Shelf

/-- The file with the name and the number. -/
def file (s : Shelf α β) (a : α) (k : ℕ) : Option β := s.lookup (a, k)

/-- The first free number from `k` on; there is one among as many as there are files and one. -/
def free (s : Shelf α β) (a : α) (k : ℕ) : ℕ :=
  k + ((List.range (s.length + 1)).find? fun i => (s.file a (k + i)).isNone).getD 0

/-- A file is added under the first free number from `k` on. -/
def put (s : Shelf α β) (a : α) (k : ℕ) (b : β) : Shelf α β := ((a, s.free a k), b) :: s

/-- The file is replaced. -/
def replace (s : Shelf α β) (a : α) (k : ℕ) (b : β) : Shelf α β := ((a, k), b) :: s

variable {s : Shelf α β} {a x : α} {k n : ℕ} {b c : β}

/-- Finitely many numbers are taken. -/
theorem exists_free (s : Shelf α β) (a : α) (k : ℕ) :
    ∃ i < s.length + 1, (s.file a (k + i)).isNone = true := by
  by_contra hnone
  push Not at hnone
  have hmem : ∀ i ∈ Finset.range (s.length + 1), (a, k + i) ∈ (s.map Prod.fst).toFinset := by
    intro i hi
    rw [List.mem_toFinset]
    by_contra hnot
    refine hnone i (Finset.mem_range.mp hi) ?_
    rw [Option.isNone_iff_eq_none]
    refine List.lookup_eq_none_iff.mpr fun p hp => ?_
    rw [bne_iff_ne]
    intro heq
    exact hnot (heq ▸ List.mem_map_of_mem hp)
  have hcard := Finset.card_le_card_of_injOn (fun i => (a, k + i)) hmem
    fun _ _ _ _ h => Nat.add_left_cancel (Prod.mk.inj h).2
  have hle := (s.map Prod.fst).toFinset_card_le
  rw [Finset.card_range] at hcard
  rw [List.length_map] at hle
  omega

/-- It is free, and no number from `k` on before it is. -/
theorem free_spec (s : Shelf α β) (a : α) (k : ℕ) : ∃ i, s.free a k = k + i ∧
    s.file a (k + i) = none ∧ ∀ j < i, s.file a (k + j) ≠ none := by
  obtain ⟨i₀, hi₀, hfree⟩ := exists_free s a k
  unfold free
  cases hfind : (List.range (s.length + 1)).find? fun i => (s.file a (k + i)).isNone with
  | none => exact absurd hfree (List.find?_eq_none.mp hfind i₀ (List.mem_range.mpr hi₀))
  | some i =>
    obtain ⟨hnone, -, hbefore⟩ := List.find?_range_eq_some.mp hfind
    refine ⟨i, rfl, Option.isNone_iff_eq_none.mp hnone, fun j hj hnone => ?_⟩
    have htaken := hbefore j hj
    rw [hnone] at htaken
    exact absurd htaken (by simp)

theorem le_free (s : Shelf α β) (a : α) (k : ℕ) : k ≤ s.free a k := Nat.le_add_right _ _

theorem file_free (s : Shelf α β) (a : α) (k : ℕ) : s.file a (s.free a k) = none := by
  obtain ⟨i, heq, hnone, -⟩ := free_spec s a k
  rw [heq, hnone]

/-- A number that is free is not passed over. -/
theorem free_le (hk : k ≤ n) (hn : s.file a n = none) : s.free a k ≤ n := by
  obtain ⟨i, heq, -, hbefore⟩ := free_spec s a k
  rw [heq]
  by_contra hlt
  refine hbefore (n - k) (by omega) ?_
  rwa [Nat.add_sub_cancel' hk]

/-- A free number is taken at once. -/
theorem free_eq (h : s.file a k = none) : s.free a k = k :=
  Nat.le_antisymm (free_le le_rfl h) (le_free s a k)

@[simp] theorem file_replace_self : (s.replace a k b).file a k = some b := by
  simp [file, replace]

theorem file_replace_of_ne (h : (x, n) ≠ (a, k)) : (s.replace a k b).file x n = s.file x n := by
  unfold file replace
  rw [List.lookup_cons, beq_false_of_ne h]

@[simp] theorem file_put_self : (s.put a k b).file a (s.free a k) = some b := file_replace_self

theorem file_put_of_ne (h : (x, n) ≠ (a, s.free a k)) : (s.put a k b).file x n = s.file x n :=
  file_replace_of_ne h

/-! ### The files of a name -/

/-- The files of each name stand under the numbers from 0 on. -/
def Holds (s : Shelf α β) (history : α → List β) : Prop := ∀ a k, s.file a k = (history a)[k]?

variable {history : α → List β}

theorem Holds.free (h : s.Holds history) (a : α) : s.free a 0 = (history a).length := by
  have hle : s.free a 0 ≤ (history a).length := by
    apply free_le (Nat.zero_le _)
    rw [h a, List.getElem?_eq_none le_rfl]
  have hnone := h a (s.free a 0)
  rw [file_free] at hnone
  exact Nat.le_antisymm hle (List.getElem?_eq_none_iff.mp hnone.symm)

/-- The files under the numbers below the first free one. -/
theorem Holds.filterMap_range (h : s.Holds history) (a : α) :
    (List.range (s.free a 0)).filterMap (s.file a) = history a := by
  rw [h.free, show s.file a = fun k => (history a)[k]? from funext (h a)]
  induction history a with
  | nil => rfl
  | cons b rest ih =>
    have hzero : (b :: rest)[0]? = some b := rfl
    rw [List.length_cons, List.range_succ_eq_map, List.filterMap_cons_some hzero,
      List.filterMap_map]
    exact congrArg _ ih

/-- A file that is added comes last. -/
theorem Holds.put (h : s.Holds history) (a : α) (b : β) :
    (s.put a 0 b).Holds (Function.update history a (history a ++ [b])) := by
  intro x n
  by_cases hx : x = a
  · subst hx
    rw [Function.update_self]
    by_cases hn : n = s.free x 0
    · subst hn
      rw [file_put_self, h.free, List.getElem?_concat_length]
    · rw [file_put_of_ne fun heq => hn (Prod.mk.inj heq).2, h x n]
      rw [h.free] at hn
      by_cases hlt : n < (history x).length
      · rw [List.getElem?_append_left hlt]
      · rw [List.getElem?_eq_none (by omega), List.getElem?_eq_none]
        rw [List.length_append, List.length_singleton]
        omega
  · rw [Function.update_of_ne hx, file_put_of_ne fun heq => hx (Prod.mk.inj heq).1, h x n]

end Shelf

end RootSign.Lib
