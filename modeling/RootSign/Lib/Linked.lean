import Mathlib.Data.List.Basic
import Mathlib.Data.List.Induction

namespace RootSign.Lib

/-!
# Linked records and walks over them

A log is *linked* when every record names the record before it.  Records are of any type `ρ`;
`prev` reads the name a record gives to its predecessor, `self` the name it goes by itself.

* `LinkedFrom prev self e l` — `l` continues a log whose last record goes by `e`;
* `lastSelf self e l` — the name the log ends with;
* `linkedFrom_map_eq` — **commitment**: if a record's name determines its content and the
  name of its predecessor, the last name determines the whole log;
* `firstFault` — a walk that carries the last name and stops at the first fault, with the
  two characterizations its users need.
-/

variable {ρ η : Type*}

/-! ### Linked logs -/

/-- Every record of `l` names the one before it; the first one names `e`. -/
def LinkedFrom (prev self : ρ → η) : η → List ρ → Prop
  | _, [] => True
  | e, r :: rs => prev r = e ∧ LinkedFrom prev self (self r) rs

/-- The name of the last record of `l`, or `e` when `l` is empty. -/
def lastSelf (self : ρ → η) : η → List ρ → η
  | e, [] => e
  | _, r :: rs => lastSelf self (self r) rs

section

variable {prev self : ρ → η} {e : η}

@[simp] theorem lastSelf_nil : lastSelf self e [] = e := rfl

@[simp] theorem lastSelf_append (a b : List ρ) :
    lastSelf self e (a ++ b) = lastSelf self (lastSelf self e a) b := by
  induction a generalizing e with
  | nil => rfl
  | cons r rs ih => exact ih

@[simp] theorem lastSelf_concat (a : List ρ) (r : ρ) :
    lastSelf self e (a ++ [r]) = self r := by
  rw [lastSelf_append]; rfl

/-- A nonempty log ends with the name of its last record. -/
theorem lastSelf_eq_getLast {l : List ρ} (h : l ≠ []) :
    lastSelf self e l = self (l.getLast h) := by
  obtain ⟨a, r, rfl⟩ := (List.eq_nil_or_concat' l).resolve_left h
  rw [lastSelf_concat, List.getLast_concat]

theorem linkedFrom_append (a b : List ρ) :
    LinkedFrom prev self e (a ++ b) ↔
      LinkedFrom prev self e a ∧ LinkedFrom prev self (lastSelf self e a) b := by
  induction a generalizing e with
  | nil => simp [LinkedFrom]
  | cons r rs ih => simp [LinkedFrom, ih, lastSelf, and_assoc]

theorem linkedFrom_concat (a : List ρ) (r : ρ) :
    LinkedFrom prev self e (a ++ [r]) ↔
      LinkedFrom prev self e a ∧ prev r = lastSelf self e a := by
  simp [linkedFrom_append, LinkedFrom]

theorem lastSelf_map {ρ' : Type*} (f : ρ' → ρ) (l : List ρ') :
    lastSelf self e (l.map f) = lastSelf (fun r => self (f r)) e l := by
  induction l generalizing e with
  | nil => rfl
  | cons r rs ih => exact ih

theorem linkedFrom_map {ρ' : Type*} (f : ρ' → ρ) (l : List ρ') :
    LinkedFrom prev self e (l.map f) ↔
      LinkedFrom (fun r => prev (f r)) (fun r => self (f r)) e l := by
  induction l generalizing e with
  | nil => rfl
  | cons r rs ih => exact and_congr_right fun _ => ih

/-- The first record of a linked log names `e`. -/
theorem LinkedFrom.getElem_zero {l : List ρ} (h : LinkedFrom prev self e l) (hl : 0 < l.length) :
    prev l[0] = e := by
  cases l with
  | nil => simp at hl
  | cons r rs => exact h.1

/-- Every later record of a linked log names the one before it. -/
theorem LinkedFrom.getElem_succ {l : List ρ} (h : LinkedFrom prev self e l) (i : ℕ)
    (hi : i + 1 < l.length) : prev l[i + 1] = self l[i] := by
  induction l generalizing e i with
  | nil => simp at hi
  | cons r rs ih =>
    cases i with
    | zero => exact LinkedFrom.getElem_zero h.2 (by simpa using hi)
    | succ j => exact ih h.2 j (by simpa using hi)

/-- **Commitment.** If a name determines the content of its record and the name of the
    record before it, and no record goes by the initial name `e`, then two linked logs with
    the same last name have the same contents throughout. -/
theorem linkedFrom_map_eq {κ : Type*} {content : ρ → κ} {l l' : List ρ}
    (hname : ∀ r ∈ l, ∀ r' ∈ l', self r = self r' → content r = content r' ∧ prev r = prev r')
    (hroot : ∀ r ∈ l, self r ≠ e) (hroot' : ∀ r ∈ l', self r ≠ e)
    (hl : LinkedFrom prev self e l) (hl' : LinkedFrom prev self e l')
    (hlast : lastSelf self e l = lastSelf self e l') :
    l.map content = l'.map content := by
  -- from the last record back: its name determines it and the name of the one before
  induction l using List.reverseRecOn generalizing l' with
  | nil =>
    cases l' using List.reverseRecOn with
    | nil => rfl
    | append_singleton l' r' =>
      rw [lastSelf_nil, lastSelf_concat] at hlast
      exact absurd hlast.symm (hroot' r' (by simp))
  | append_singleton l r ih =>
    cases l' using List.reverseRecOn with
    | nil =>
      rw [lastSelf_nil, lastSelf_concat] at hlast
      exact absurd hlast (hroot r (by simp))
    -- the last records have one name
    | append_singleton l' r' =>
      rw [lastSelf_concat, lastSelf_concat] at hlast
      rw [linkedFrom_concat] at hl hl'
      obtain ⟨hcontent, hprev⟩ := hname r (by simp) r' (by simp) hlast
      have hinit : l.map content = l'.map content :=
        ih (fun x hx y hy => hname x (by simp [hx]) y (by simp [hy]))
          (fun x hx => hroot x (by simp [hx])) (fun x hx => hroot' x (by simp [hx]))
          hl.1 hl'.1 (by rw [← hl.2, ← hl'.2, hprev])
      simp [hinit, hcontent]

end

/-! ### Walks with a carried name -/

section

variable {φ : Type*}

/-- Walk `l` carrying the name of the last record seen, and stop at the first fault. -/
def firstFault (fault : η → ρ → Option φ) (self : ρ → η) : η → List ρ → Option φ
  | _, [] => none
  | e, r :: rs =>
    match fault e r with
    | some x => some x
    | none => firstFault fault self (self r) rs

variable {fault : η → ρ → Option φ} {self : ρ → η} {e : η}

/-- The walk finds nothing exactly when no record is at fault at its position. -/
theorem firstFault_eq_none {l : List ρ} :
    firstFault fault self e l = none ↔
      ∀ a r b, l = a ++ r :: b → fault (lastSelf self e a) r = none := by
  induction l generalizing e with
  | nil => simp [firstFault]
  | cons r rs ih =>
    constructor
    · intro h a r' b hsplit
      cases hf : fault e r with
      | some x => simp [firstFault, hf] at h
      | none =>
        simp only [firstFault, hf] at h
        cases a with
        | nil =>
          obtain ⟨rfl, -⟩ := List.cons.inj hsplit
          exact hf
        | cons y a =>
          obtain ⟨rfl, hrest⟩ := List.cons.inj hsplit
          exact ih.mp h a r' b hrest
    · intro h
      have hr : fault e r = none := h [] r rs rfl
      simp only [firstFault, hr]
      exact ih.mpr fun a r' b hsplit => h (r :: a) r' b (by rw [hsplit]; rfl)

/-- A fault found is the fault of some record that every earlier record leads up to without
    one. -/
theorem exists_of_firstFault_eq_some {l : List ρ} {x : φ}
    (h : firstFault fault self e l = some x) :
    ∃ a r b, l = a ++ r :: b ∧ firstFault fault self e a = none ∧
      fault (lastSelf self e a) r = some x := by
  induction l generalizing e with
  | nil => simp [firstFault] at h
  | cons r rs ih =>
    cases hf : fault e r with
    | some y =>
      simp only [firstFault, hf, Option.some.injEq] at h
      exact ⟨[], r, rs, rfl, rfl, by rw [← h]; exact hf⟩
    | none =>
      simp only [firstFault, hf] at h
      obtain ⟨a, r', b, rfl, hnone, hfault⟩ := ih h
      exact ⟨r :: a, r', b, rfl, by simp [firstFault, hf, hnone], hfault⟩

end

end RootSign.Lib
