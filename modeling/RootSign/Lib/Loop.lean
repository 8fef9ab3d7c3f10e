import Mathlib.Data.List.Range

namespace RootSign.Lib

/-!
# Loops that may be left early

`for i in is: …`, where the body either goes on with a new state or leaves the loop with a result.

* `loop` — the loop, and `loop_rule`, its rule: an invariant indexed by the number of rounds done;
* `loop_add` — the rounds of a loop in two parts.
-/

variable {α β : Type*}

/-- The rounds `k, k + 1, …` of the loop, `rounds` of them. -/
def loop (body : ℕ → α → α ⊕ β) : ℕ → ℕ → α → α ⊕ β
  | _, 0, a => .inl a
  | k, rounds + 1, a =>
    match body k a with
    | .inl a => loop body (k + 1) rounds a
    | .inr b => .inr b

/-- **The loop rule.** What a round keeps holds when the rounds are done; what a leaving round
    gives holds of the result. -/
theorem loop_rule {body : ℕ → α → α ⊕ β} {P : ℕ → α → Prop} {Q : β → Prop} {k rounds : ℕ} {a : α}
    (hgo : ∀ j a a', k ≤ j → j < k + rounds → P j a → body j a = .inl a' → P (j + 1) a')
    (hleave : ∀ j a b, k ≤ j → j < k + rounds → P j a → body j a = .inr b → Q b)
    (hstart : P k a) :
    (∃ a', loop body k rounds a = .inl a' ∧ P (k + rounds) a') ∨
      ∃ b, loop body k rounds a = .inr b ∧ Q b := by
  induction rounds generalizing k a with
  | zero => exact Or.inl ⟨a, rfl, hstart⟩
  | succ rounds ih =>
    cases hbody : body k a with
    | inr b => exact Or.inr ⟨b, by simp [loop, hbody], hleave k a b le_rfl (by omega) hstart hbody⟩
    | inl a' =>
      have hnext := hgo k a a' le_rfl (by omega) hstart hbody
      have hrest := ih (fun j a a' hk hj => hgo j a a' (by omega) (by omega))
        (fun j a b hk hj => hleave j a b (by omega) (by omega)) hnext
      rw [show k + 1 + rounds = k + (rounds + 1) by omega] at hrest
      simpa only [loop, hbody] using hrest

/-- Rounds are done one after the other: first some, then the rest. -/
theorem loop_add (body : ℕ → α → α ⊕ β) (k m n : ℕ) (a : α) :
    loop body k (m + n) a =
      match loop body k m a with
      | .inl a => loop body (k + m) n a
      | .inr b => .inr b := by
  induction m generalizing k a with
  | zero => rw [Nat.zero_add]; rfl
  | succ m ih =>
    rw [Nat.succ_add]
    show (match body k a with
      | .inl a => loop body (k + 1) (m + n) a
      | .inr b => .inr b) = _
    cases hbody : body k a with
    | inr b => simp only [loop, hbody]
    | inl a' =>
      simp only [loop, hbody, ih]
      rw [show k + 1 + m = k + (m + 1) by omega]

end RootSign.Lib
