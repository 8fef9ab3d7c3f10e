import Mathlib.Data.List.Basic

namespace RootSign.Lib

/-!
# Prefix-free encodings

A serializer is injective when every piece it writes can be split off the front of what
follows.  `SelfDelimiting D f` says so for the continuations satisfying `D` (a number needs
a non-digit after it, a quoted string needs nothing), and the lemmas below compose pieces:

* `SelfDelimiting.flatMap_stop` — a repetition closed by a stop symbol;
* `SelfDelimiting.flatMap_injective` — a repetition that runs to the end of the text;
* `SelfDelimiting.append_left` — a fixed text in front of a piece.
-/

variable {α γ : Type*}

/-- `f` writes codes that can be split off the front of any continuation satisfying `D`. -/
def SelfDelimiting (D : List γ → Prop) (f : α → List γ) : Prop :=
  ∀ (a b : α) (s t : List γ), D s → D t → f a ++ s = f b ++ t → a = b ∧ s = t

/-- `f` writes codes that can be split off the front of any continuation. -/
def PrefixFree (f : α → List γ) : Prop := SelfDelimiting (fun _ => True) f

theorem PrefixFree.split {f : α → List γ} (h : PrefixFree f) {a b : α} {s t : List γ}
    (heq : f a ++ s = f b ++ t) : a = b ∧ s = t :=
  h a b s t trivial trivial heq

/-- A fixed text in front of a piece keeps it self-delimiting. -/
theorem SelfDelimiting.append_left {D : List γ → Prop} {f : α → List γ}
    (h : SelfDelimiting D f) (front : List γ) : SelfDelimiting D (fun a => front ++ f a) := by
  intro a b s t hs ht heq
  rw [List.append_assoc, List.append_assoc] at heq
  exact h a b s t hs ht (List.append_cancel_left heq)

/-- **Closed repetition.** Codes from a prefix-free family, none of which starts with
    `stop`, repeated and closed by `stop`. -/
theorem PrefixFree.flatMap_stop {f : α → List γ} (h : PrefixFree f) (stop : γ)
    (hstop : ∀ a, ∃ c cs, f a = c :: cs ∧ c ≠ stop) :
    PrefixFree (fun xs : List α => xs.flatMap f ++ [stop]) := by
  intro xs
  -- by induction on the repeated codes; a code never starts as the closing one does
  induction xs with
  | nil =>
    intro ys s t _ _ heq
    cases ys with
    | nil => simpa using heq
    | cons y ys =>
      obtain ⟨c, cs, hc, hne⟩ := hstop y
      simp only [List.flatMap_nil, List.flatMap_cons, hc, List.nil_append, List.cons_append,
        List.cons.injEq] at heq
      exact absurd heq.1.symm hne
  | cons x xs ih =>
    intro ys s t _ _ heq
    cases ys with
    | nil =>
      obtain ⟨c, cs, hc, hne⟩ := hstop x
      simp only [List.flatMap_nil, List.flatMap_cons, hc, List.nil_append, List.cons_append,
        List.cons.injEq] at heq
      exact absurd heq.1 hne
    | cons y ys =>
      simp only [List.flatMap_cons, List.append_assoc] at heq
      obtain ⟨rfl, hrest⟩ := h.split heq
      obtain ⟨rfl, hst⟩ := ih ys s t trivial trivial (by simpa using hrest)
      exact ⟨rfl, hst⟩

/-- **Open repetition.** Nonempty codes from a prefix-free family determine the list they
    were written from. -/
theorem PrefixFree.flatMap_injective {f : α → List γ} (h : PrefixFree f)
    (hne : ∀ a, f a ≠ []) : Function.Injective (fun xs : List α => xs.flatMap f) := by
  intro xs
  induction xs with
  | nil =>
    intro ys heq
    cases ys with
    | nil => rfl
    | cons y ys => simp [hne y] at heq
  | cons x xs ih =>
    intro ys heq
    cases ys with
    | nil => simp [hne x] at heq
    | cons y ys =>
      simp only [List.flatMap_cons] at heq
      obtain ⟨rfl, hrest⟩ := h.split heq
      rw [ih hrest]

end RootSign.Lib
