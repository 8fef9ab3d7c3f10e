import Mathlib.Logic.Function.Basic
import Mathlib.Data.List.Basic

namespace RootSign.Lib

/-!
# Runs of a transition system

A system is a partial step function on states and labels; a label that is not enabled ends
the run.  A run is a list of labels, so a statement about every list is one about every
interleaving.

* `run` — the state a list of labels leads to;
* `Throughout` — a property holds in every state of the run;
* `Guarded` — every step taken meets a condition on the state before it;
* `throughout_of_guarded` — an invariant kept by the steps that meet the condition holds
  throughout every guarded run;
* `throughout_iff_guarded` — and when any other step destroys the property, only there;
* `run_rel` — an invariant, and a preorder between the states before and after every step,
  hold from the start to the end of a run.
-/

variable {σ ι : Type*} (step : σ → ι → Option σ)

/-- The state after the labels, if each of them is enabled in turn. -/
def run : σ → List ι → Option σ
  | s, [] => some s
  | s, l :: rest => (step s l).bind fun s' => run s' rest

/-- The property holds in every state the labels lead through. -/
def Throughout (P : σ → Prop) : σ → List ι → Prop
  | s, [] => P s
  | s, l :: rest => P s ∧ ∀ s', step s l = some s' → Throughout P s' rest

/-- Every step the labels take meets the condition. -/
def Guarded (ok : σ → ι → Prop) : σ → List ι → Prop
  | _, [] => True
  | s, l :: rest => ∀ s', step s l = some s' → ok s l ∧ Guarded ok s' rest

/-- A condition that can be decided can be decided along a run. -/
instance Guarded.decidable (ok : σ → ι → Prop) [∀ s l, Decidable (ok s l)] :
    ∀ (s : σ) (labels : List ι), Decidable (Guarded step ok s labels)
  | _, [] => .isTrue trivial
  | s, l :: rest =>
    match h : step s l with
    | none => .isTrue fun s' hs' => absurd (h.symm.trans hs') (by simp)
    | some s₁ =>
      have := Guarded.decidable ok s₁ rest
      decidable_of_iff (ok s l ∧ Guarded step ok s₁ rest)
        ⟨fun hall s' hs' => Option.some.inj (h.symm.trans hs') ▸ hall, fun hall => hall s₁ h⟩

variable {step} {P Q Inv : σ → Prop} {ok : σ → ι → Prop} {s s' : σ} {labels : List ι}

theorem Throughout.head (h : Throughout step P s labels) : P s := by
  cases labels with
  | nil => exact h
  | cons l rest => exact h.1

theorem Throughout.mono (hPQ : ∀ s, P s → Q s) (h : Throughout step P s labels) :
    Throughout step Q s labels := by
  induction labels generalizing s with
  | nil => exact hPQ s h
  | cons l rest ih => exact ⟨hPQ s h.1, fun s' hs' => ih (h.2 s' hs')⟩

/-- A property that holds throughout holds at the end. -/
theorem Throughout.last (h : Throughout step P s labels) (hrun : run step s labels = some s') :
    P s' := by
  induction labels generalizing s with
  | nil =>
    obtain rfl := Option.some.inj hrun
    exact h
  | cons l rest ih =>
    obtain ⟨s₁, hstep, hrest⟩ := Option.bind_eq_some_iff.mp hrun
    exact ih (h.2 s₁ hstep) hrest

/-- A condition on labels alone can be added to the one on steps. -/
theorem Guarded.and_forall {dom : ι → Prop} (h : Guarded step ok s labels)
    (hdom : ∀ l ∈ labels, dom l) : Guarded step (fun s l => dom l ∧ ok s l) s labels := by
  induction labels generalizing s with
  | nil => trivial
  | cons l rest ih =>
    intro s' hs'
    obtain ⟨hok, hrest⟩ := h s' hs'
    exact ⟨⟨hdom l List.mem_cons_self, hok⟩,
      ih hrest fun l' hl' => hdom l' (List.mem_cons_of_mem l hl')⟩

/-- **The invariant rule.** What the guarded steps keep holds throughout a guarded run. -/
theorem throughout_of_guarded (hstep : ∀ s l s', Inv s → ok s l → step s l = some s' → Inv s')
    (hs : Inv s) (h : Guarded step ok s labels) : Throughout step Inv s labels := by
  induction labels generalizing s with
  | nil => exact hs
  | cons l rest ih =>
    refine ⟨hs, fun s' hs' => ?_⟩
    obtain ⟨hok, hrest⟩ := h s' hs'
    exact ih (hstep s l s' hs hok hs') hrest

/-- **The exact condition**, for labels of a given kind.  If guarded steps keep an invariant that
    implies the property, and any other step from it destroys the property, the property holds
    throughout exactly the guarded runs. -/
theorem throughout_iff_guarded_of_forall {dom : ι → Prop}
    (hstep : ∀ s l s', Inv s → dom l → ok s l → step s l = some s' → Inv s')
    (hbreaks : ∀ s l s', Inv s → dom l → ¬ ok s l → step s l = some s' → ¬ P s')
    (hP : ∀ s, Inv s → P s) (hs : Inv s) (hdom : ∀ l ∈ labels, dom l) :
    Throughout step P s labels ↔ Guarded step ok s labels := by
  constructor
  · intro h
    induction labels generalizing s with
    | nil => trivial
    | cons l rest ih =>
      intro s' hs'
      have hrest := h.2 s' hs'
      have hl := hdom l List.mem_cons_self
      by_cases hok : ok s l
      · exact ⟨hok, ih (hstep s l s' hs hl hok hs')
          (fun l' hl' => hdom l' (List.mem_cons_of_mem l hl')) hrest⟩
      · exact absurd hrest.head (hbreaks s l s' hs hl hok hs')
  · intro h
    exact (throughout_of_guarded (fun s l s' hinv hl => hstep s l s' hinv hl.1 hl.2) hs
      (h.and_forall hdom)).mono hP

/-- **The exact condition.** If guarded steps keep an invariant that implies the property, and
    any other step from it destroys the property, the property holds throughout exactly the
    guarded runs. -/
theorem throughout_iff_guarded
    (hstep : ∀ s l s', Inv s → ok s l → step s l = some s' → Inv s')
    (hbreaks : ∀ s l s', Inv s → ¬ ok s l → step s l = some s' → ¬ P s')
    (hP : ∀ s, Inv s → P s) (hs : Inv s) :
    Throughout step P s labels ↔ Guarded step ok s labels :=
  @throughout_iff_guarded_of_forall σ ι step P Inv ok s labels (fun _ => True)
    (fun s l s' hinv _ => hstep s l s' hinv) (fun s l s' hinv _ => hbreaks s l s' hinv) hP hs
    fun _ _ => trivial

/-- A system whose steps all keep the invariant has it throughout every run. -/
theorem throughout_of_step (hstep : ∀ s l s', Inv s → step s l = some s' → Inv s')
    (hs : Inv s) : Throughout step Inv s labels := by
  induction labels generalizing s with
  | nil => exact hs
  | cons l rest ih => exact ⟨hs, fun s' hs' => ih (hstep s l s' hs hs')⟩

/-- **The two-state rule.**  What every step keeps, and a preorder that every step follows, hold
    at the end of the run and from its start to its end. -/
theorem run_rel {R : σ → σ → Prop} {dom : ι → Prop} (hrefl : ∀ s, R s s)
    (htrans : ∀ {s₁ s₂ s₃}, R s₁ s₂ → R s₂ s₃ → R s₁ s₃)
    (hstep : ∀ s l s', Inv s → dom l → step s l = some s' → Inv s' ∧ R s s')
    (hs : Inv s) (hdom : ∀ l ∈ labels, dom l) (hrun : run step s labels = some s') :
    Inv s' ∧ R s s' := by
  induction labels generalizing s with
  | nil =>
    obtain rfl := Option.some.inj hrun
    exact ⟨hs, hrefl s⟩
  | cons l rest ih =>
    obtain ⟨s₁, hfirst, hrest⟩ := Option.bind_eq_some_iff.mp hrun
    obtain ⟨hinv, hbefore⟩ := hstep s l s₁ hs (hdom l List.mem_cons_self) hfirst
    obtain ⟨hinv', hafter⟩ := ih hinv (fun l' hl' => hdom l' (List.mem_cons_of_mem l hl')) hrest
    exact ⟨hinv', htrans hbefore hafter⟩

end RootSign.Lib
