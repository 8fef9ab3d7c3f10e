import Mathlib.Data.List.Range

namespace RootSign.Lib

/-!
# Walks

Walks of a given length along the successors of a node.

* `Walk.forall_iff` — what holds at the end of every walk, by its first step;
* `Walk.around` — on a cycle there are walks of any length.
-/

/-- A walk: how many steps it takes, where it starts and where it ends. -/
inductive Walk {α : Type} (next : α → List α) : ℕ → α → α → Prop where
  | nil (a : α) : Walk next 0 a a
  | cons {a b c : α} {k : ℕ} (first : b ∈ next a) (rest : Walk next k b c) : Walk next (k + 1) a c

namespace Walk

variable {α : Type} {next : α → List α} {a b c : α} {j k : ℕ}

/-- By the first step of the walk. -/
theorem forall_iff {P : ℕ → α → Prop} :
    (∀ k c, Walk next k a c → P k c) ↔
      P 0 a ∧ ∀ b ∈ next a, ∀ k c, Walk next k b c → P (k + 1) c := by
  constructor
  · intro h
    exact ⟨h 0 a (.nil a), fun b hb k c hwalk => h (k + 1) c (.cons hb hwalk)⟩
  · rintro ⟨hnil, hcons⟩ k c hwalk
    cases hwalk with
    | nil => exact hnil
    | cons first rest => exact hcons _ first _ c rest

/-- One walk after another. -/
theorem append (first : Walk next j a b) (second : Walk next k b c) : Walk next (j + k) a c := by
  induction first with
  | nil a => rwa [Nat.zero_add]
  | cons h _ ih =>
    rw [Nat.add_right_comm]
    exact .cons h (ih second)

/-- Around a cycle. -/
theorem around (cycle : Walk next (k + 1) a a) (m : ℕ) : ∃ n, m ≤ n ∧ Walk next n a a := by
  induction m with
  | zero => exact ⟨0, Nat.le_refl 0, .nil a⟩
  | succ m ih =>
    obtain ⟨n, hn, hwalk⟩ := ih
    refine ⟨k + 1 + n, ?_, cycle.append hwalk⟩
    omega

end Walk

end RootSign.Lib
