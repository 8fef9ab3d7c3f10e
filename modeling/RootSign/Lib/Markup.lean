import Mathlib.Data.List.Basic

namespace RootSign.Lib

/-!
# The tags of a marked-up text

How a text with tags is read, one symbol at a time.  A text that is put together from parts has the
tags of its fixed parts, if what fills the others stays in the content of an element.

* `Place`, `Place.after` — the content of an element, a tag, or a quoted attribute;
* `Scan`, `Scan.run` — the tags read so far;
* `Placed` — every part stands where it may;
* `run_parts` — what the reader finds depends on the skeleton only.
-/

section

variable {α : Type*} [DecidableEq α]

/-- The symbols that open and close a tag, and those around an attribute. -/
structure Marks (α : Type*) where
  opens : α
  closes : α
  quote : α
  apostrophe : α

/-! ### Places -/

/-- Where a symbol stands. -/
inductive Place where
  | content
  | tag
  | quoted
  | apostrophed
deriving DecidableEq, Repr

/-- The place after a symbol. -/
def Place.next (m : Marks α) : Place → α → Place
  | .content, u => if u = m.opens then .tag else .content
  | .tag, u =>
    if u = m.closes then .content
    else if u = m.quote then .quoted
    else if u = m.apostrophe then .apostrophed else .tag
  | .quoted, u => if u = m.quote then .tag else .quoted
  | .apostrophed, u => if u = m.apostrophe then .tag else .apostrophed

/-- The place after a text. -/
def Place.after (m : Marks α) (p : Place) (text : List α) : Place := text.foldl (Place.next m) p

variable {m : Marks α} {p q : Place} {text : List α}

@[simp] theorem after_nil : p.after m [] = p := rfl

@[simp] theorem after_append (rest : List α) :
    p.after m (text ++ rest) = (p.after m text).after m rest := List.foldl_append

/-- A text that opens no tag stays in the content. -/
theorem after_content (h : m.opens ∉ text) : Place.content.after m text = .content := by
  induction text with
  | nil => rfl
  | cons u rest ih =>
    have hu : u ≠ m.opens := fun hu => h (hu ▸ List.mem_cons_self)
    show (Place.content.next m u).after m rest = _
    rw [Place.next, if_neg hu]
    exact ih fun hmem => h (List.mem_cons_of_mem _ hmem)

/-- A text without the quote stays in the attribute. -/
theorem after_quoted (h : m.quote ∉ text) : Place.quoted.after m text = .quoted := by
  induction text with
  | nil => rfl
  | cons u rest ih =>
    have hu : u ≠ m.quote := fun hu => h (hu ▸ List.mem_cons_self)
    show (Place.quoted.next m u).after m rest = _
    rw [Place.next, if_neg hu]
    exact ih fun hmem => h (List.mem_cons_of_mem _ hmem)

/-! ### Reading -/

/-- What a reader of the text knows: where it is, the tag it is in, and the tags it has read. -/
@[ext] structure Scan (α : Type*) where
  place : Place
  opened : List α
  tags : List (List α)

/-- A reader that has read nothing. -/
def Scan.start : Scan α := ⟨.content, [], []⟩

/-- One symbol is read. -/
def Scan.step (m : Marks α) (s : Scan α) (u : α) : Scan α :=
  if s.place = .content then
    if s.place.next m u = .content then s else ⟨s.place.next m u, [], s.tags⟩
  -- the symbol that closes a tag adds the tag, with its attributes, to those read
  else if s.place.next m u = .content then ⟨.content, [], s.tags ++ [s.opened]⟩
  else ⟨s.place.next m u, s.opened ++ [u], s.tags⟩

/-- A text is read. -/
def Scan.run (m : Marks α) (s : Scan α) (text : List α) : Scan α := text.foldl (Scan.step m) s

variable {s : Scan α}

@[simp] theorem run_append (rest : List α) : s.run m (text ++ rest) = (s.run m text).run m rest :=
  List.foldl_append

theorem step_place (u : α) : (s.step m u).place = s.place.next m u := by
  unfold Scan.step
  split_ifs with hplace hnext hnext
  · rw [hnext, hplace]
  · rfl
  · exact hnext.symm
  · rfl

theorem run_place : (s.run m text).place = s.place.after m text := by
  induction text generalizing s with
  | nil => rfl
  | cons u rest ih =>
    show ((s.step m u).run m rest).place = _
    rw [ih, step_place]
    rfl

/-- A text in the content that opens no tag is passed over. -/
theorem run_content (hs : s.place = .content) (h : m.opens ∉ text) : s.run m text = s := by
  induction text with
  | nil => rfl
  | cons u rest ih =>
    have hu : u ≠ m.opens := fun hu => h (hu ▸ List.mem_cons_self)
    have hstep : s.step m u = s := by
      rw [Scan.step, if_pos hs, if_pos (by rw [hs, Place.next, if_neg hu])]
    show (s.step m u).run m rest = s
    rw [hstep]
    exact ih fun hmem => h (List.mem_cons_of_mem _ hmem)

/-! ### Parts -/

/-- Where a part of a text comes from: it is fixed, or filled in, in the content of an element or in
    an attribute. -/
inductive Filling where
  | fixed
  | content
  | quoted
deriving DecidableEq, Repr

/-- A part of a text. -/
structure Part (α : Type*) where
  filling : Filling
  text : List α

/-- The part may stand at the place. -/
def Part.Fits (m : Marks α) (p : Place) (part : Part α) : Prop :=
  (part.filling = .content → p = .content ∧ m.opens ∉ part.text) ∧
  (part.filling = .quoted → p = .quoted ∧ m.quote ∉ part.text)

omit [DecidableEq α] in
theorem Part.fits_quoted {m : Marks α} {p : Place} {text : List α} :
    (Part.mk .quoted text).Fits m p ↔ p = .quoted ∧ m.quote ∉ text := by
  simp [Part.Fits]

/-- Every part stands where it may, and the text leads from `p` to `q`. -/
def Placed (m : Marks α) : Place → List (Part α) → Place → Prop
  | p, [], q => p = q
  | p, part :: rest, q => part.Fits m p ∧ Placed m (p.after m part.text) rest q

/-- The parts but those filled into the content of an element. -/
def skeleton (parts : List (Part α)) : List (Part α) := parts.filter (·.filling ≠ .content)

variable {parts others : List (Part α)}

theorem placed_append {r : Place} (h : Placed m p parts q) (hothers : Placed m q others r) :
    Placed m p (parts ++ others) r := by
  induction parts generalizing p with
  | nil => exact h.symm ▸ hothers
  | cons part rest ih => exact ⟨h.1, ih h.2⟩

/-- Texts that stay in the content may follow each other. -/
theorem placed_flatMap {β : Type*} {f : β → List (Part α)} {xs : List β}
    (h : ∀ x ∈ xs, Placed m .content (f x) .content) :
    Placed m .content (xs.flatMap f) .content := by
  induction xs with
  | nil => rfl
  | cons x rest ih =>
    rw [List.forall_mem_cons] at h
    exact placed_append h.1 (ih h.2)

/-- What stands before a part leads to a place where the part may stand. -/
theorem Placed.fits {before after : List (Part α)} {part : Part α}
    (h : Placed m p (before ++ part :: after) q) :
    part.Fits m (p.after m (before.flatMap (·.text))) := by
  induction before generalizing p with
  | nil => exact h.1
  | cons first rest ih =>
    rw [List.flatMap_cons, after_append]
    exact ih h.2

/-- **What the reader finds.**  The parts filled into the content of elements change nothing. -/
theorem run_parts (h : Placed m s.place parts q) :
    s.run m (parts.flatMap (·.text)) = s.run m ((skeleton parts).flatMap (·.text)) := by
  induction parts generalizing s with
  | nil => rfl
  | cons part rest ih =>
    obtain ⟨⟨hcontent, -⟩, hrest⟩ := h
    have hread : (s.run m part.text).run m (rest.flatMap (·.text)) =
        (s.run m part.text).run m ((skeleton rest).flatMap (·.text)) :=
      ih (by rwa [run_place])
    rw [List.flatMap_cons, run_append, hread]
    by_cases hfilled : part.filling = .content
    · obtain ⟨hplace, htext⟩ := hcontent hfilled
      have hskeleton : skeleton (part :: rest) = skeleton rest :=
        List.filter_cons_of_neg (by simpa using hfilled)
      rw [run_content hplace htext, hskeleton]
    · have hskeleton : skeleton (part :: rest) = part :: skeleton rest :=
        List.filter_cons_of_pos (by simpa using hfilled)
      rw [hskeleton, List.flatMap_cons, run_append]

end

end RootSign.Lib
