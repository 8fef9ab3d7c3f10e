import Mathlib.Data.List.Sort

namespace RootSign.Lib

/-!
# Stable sorting by a key

Two lists sorted by key with a stable sort are compared key by key.

* `filter_insertionSort` — **stability**: sorting keeps the order among equal keys;
* `forall₂_of_filter` — two ascending lists match element by element when they do so among
  the elements of each key;
* `forall₂_insertionSort` — hence so do two sorted lists;
* `exists_of_forall₂_append` — a match with a concatenation splits;
* `ascending_cases` — an ascending list is strictly ascending, or has a first repeated key.
-/

variable {α β κ : Type*} [LinearOrder κ]

theorem pairwise_insertionSort_key (key : α → κ) (l : List α) :
    (l.insertionSort fun a b => key a ≤ key b).Pairwise fun a b => key a ≤ key b := by
  have : Std.Total fun a b : α => key a ≤ key b := ⟨fun a b => le_total _ _⟩
  have : IsTrans α fun a b => key a ≤ key b := ⟨fun _ _ _ => le_trans⟩
  exact List.pairwise_insertionSort _ _

/-- **Stability.** Sorting by a key keeps the order among elements of equal key. -/
theorem filter_insertionSort (key : α → κ) (k : κ) (l : List α) :
    (l.insertionSort fun a b => key a ≤ key b).filter (fun a => key a = k) =
      l.filter fun a => key a = k := by
  have hequal : (l.filter fun a => key a = k).Pairwise fun a b => key a ≤ key b := by
    rw [List.pairwise_filter]
    apply List.pairwise_of_forall
    intro a b ha hb
    rw [of_decide_eq_true ha, of_decide_eq_true hb]
  -- the elements of key `k` survive as a sublist, and there are no more of them
  have hsub := (List.sublist_insertionSort hequal List.filter_sublist).filter
    fun a => decide (key a = k)
  simp only [List.filter_filter, Bool.and_self] at hsub
  exact (hsub.eq_of_length ((List.perm_insertionSort _ l).filter _).length_eq.symm).symm

/-- Two ascending lists match element by element when they do so among the elements of each
    key: their heads carry the same least key. -/
theorem forall₂_of_filter {R : α → β → Prop} {key : α → κ} {key' : β → κ} {l : List α}
    {l' : List β} (hl : l.Pairwise fun a b => key a ≤ key b)
    (hl' : l'.Pairwise fun a b => key' a ≤ key' b)
    (h : ∀ k, List.Forall₂ R (l.filter fun a => key a = k) (l'.filter fun b => key' b = k)) :
    List.Forall₂ R l l' := by
  induction l generalizing l' with
  | nil =>
    cases l' with
    | nil => exact List.Forall₂.nil
    | cons b l' =>
      have hb := h (key' b)
      simp at hb
  | cons a l ih =>
    cases l' with
    | nil =>
      have ha := h (key a)
      simp at ha
    | cons b l' =>
      rw [List.pairwise_cons] at hl hl'
      -- each head has a partner in the other list, so neither key can be below the other
      have hba : key' b ≤ key a := by
        have ha := h (key a)
        rw [List.filter_cons_of_pos (by simp)] at ha
        obtain ⟨b', _, -, -, heq⟩ := List.forall₂_cons_left_iff.mp ha
        have hmem : b' ∈ (b :: l').filter fun b => key' b = key a := by rw [heq]; simp
        obtain ⟨hmem, hkey⟩ := List.mem_filter.mp hmem
        rw [← of_decide_eq_true hkey]
        rcases List.mem_cons.mp hmem with rfl | hmem
        · exact le_rfl
        · exact hl'.1 b' hmem
      have hab : key a ≤ key' b := by
        have hb := h (key' b)
        rw [List.filter_cons_of_pos (l := l') (by simp)] at hb
        obtain ⟨a', _, -, -, heq⟩ := List.forall₂_cons_right_iff.mp hb
        have hmem : a' ∈ (a :: l).filter fun a => key a = key' b := by rw [heq]; simp
        obtain ⟨hmem, hkey⟩ := List.mem_filter.mp hmem
        rw [← of_decide_eq_true hkey]
        rcases List.mem_cons.mp hmem with rfl | hmem
        · exact le_rfl
        · exact hl.1 a' hmem
      have hkey : key' b = key a := le_antisymm hba hab
      have hhead := h (key a)
      rw [List.filter_cons_of_pos (by simp), List.filter_cons_of_pos (by simp [hkey]),
        List.forall₂_cons] at hhead
      refine List.Forall₂.cons hhead.1 (ih hl.2 hl'.2 fun k => ?_)
      -- at the key of the heads they are taken off both filters; at any other key they are in
      -- neither
      by_cases hk : key a = k
      · subst hk
        exact hhead.2
      · have hrest := h k
        rwa [List.filter_cons_of_neg (by simpa using hk),
          List.filter_cons_of_neg (by simpa [hkey] using hk)] at hrest

/-- Sorting two lists that match among the elements of each key matches them up. -/
theorem forall₂_insertionSort {R : α → β → Prop} {key : α → κ} {key' : β → κ} {l : List α}
    {l' : List β}
    (h : ∀ k, List.Forall₂ R (l.filter fun a => key a = k) (l'.filter fun b => key' b = k)) :
    List.Forall₂ R (l.insertionSort fun a b => key a ≤ key b)
      (l'.insertionSort fun a b => key' a ≤ key' b) := by
  apply forall₂_of_filter (pairwise_insertionSort_key key l) (pairwise_insertionSort_key key' l')
  intro k
  rw [filter_insertionSort, filter_insertionSort]
  exact h k

/-- A list that matches a concatenation is one. -/
theorem exists_of_forall₂_append {R : α → β → Prop} {a b : List α} {l : List β}
    (h : List.Forall₂ R (a ++ b) l) :
    ∃ a' b', l = a' ++ b' ∧ List.Forall₂ R a a' ∧ List.Forall₂ R b b' :=
  ⟨l.take a.length, l.drop a.length, (List.take_append_drop _ _).symm,
    (List.forall₂_take_append l a b h.flip).flip, (List.forall₂_drop_append l a b h.flip).flip⟩

/-- An ascending list is strictly ascending, or strictly ascending up to the second element
    of the first pair of neighbours with one key. -/
theorem ascending_cases {key : α → κ} {l : List α}
    (h : l.Pairwise fun a b => key a ≤ key b) :
    (l.Pairwise fun a b => key a < key b) ∨
      ∃ a p q b, l = a ++ p :: q :: b ∧ key p = key q ∧
        -- by induction: the first pair of neighbours with one key is here or further on
        (a ++ [p]).Pairwise fun a b => key a < key b := by
  induction l with
  | nil => exact Or.inl List.Pairwise.nil
  | cons x rest ih =>
    rw [List.pairwise_cons] at h
    cases rest with
    | nil => exact Or.inl (List.pairwise_singleton _ _)
    | cons y rest =>
      by_cases hxy : key x = key y
      · exact Or.inr ⟨[], x, y, rest, rfl, hxy, List.pairwise_singleton _ _⟩
      have hlt : ∀ z ∈ y :: rest, key x < key z := by
        intro z hz
        have hx : key x < key y := lt_of_le_of_ne (h.1 y (by simp)) hxy
        rcases List.mem_cons.mp hz with rfl | hz
        · exact hx
        · exact lt_of_lt_of_le hx ((List.pairwise_cons.mp h.2).1 z hz)
      rcases ih h.2 with hstrict | ⟨a, p, q, b, hsplit, hpq, hstrict⟩
      · exact Or.inl (List.pairwise_cons.mpr ⟨hlt, hstrict⟩)
      · right
        refine ⟨x :: a, p, q, b, by rw [hsplit]; rfl, hpq, ?_⟩
        rw [List.cons_append, List.pairwise_cons]
        refine ⟨fun z hz => hlt z ?_, hstrict⟩
        rw [hsplit]
        rw [List.mem_append, List.mem_singleton] at hz
        rw [List.mem_append, List.mem_cons]
        rcases hz with hz | hz
        · exact Or.inl hz
        · exact Or.inr (Or.inl hz)

end RootSign.Lib
