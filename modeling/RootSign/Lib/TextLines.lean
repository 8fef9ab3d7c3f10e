import Mathlib.Data.List.Basic

namespace RootSign.Lib

/-!
# Lines, rows and sections of a text

How a text is read line by line, with the reading of a table's row and of a document's sections.

* `splitLines` — the lines, which a line feed, a carriage return or the two together end;
* `splitLines_eq_iff` — when the lines that were written are the lines that are read;
* `bareCount`, `splitBare` — a row parted where a separator has no escape before it;
* `sectionsOf` — each marked line with the lines below it.
-/

section

variable {α : Type*} [DecidableEq α]

/-! ### Lines -/

/-- The lines of a text; a line feed after a carriage return ends no line of its own. -/
def splitLines (lf cr : α) : Bool → List α → List (List α)
  | _, [] => [[]]
  | after_cr, u :: rest =>
    if u = lf then
      if after_cr then splitLines lf cr false rest else [] :: splitLines lf cr false rest
    else if u = cr then [] :: splitLines lf cr true rest
    else (splitLines lf cr false rest).modifyHead (u :: ·)

/-- No symbol of a line ends it. -/
def Unbroken (lf cr : α) (line : List α) : Prop := ∀ u ∈ line, u ≠ lf ∧ u ≠ cr

/-- A line without the carriage return it ends with: before a line feed the two are one end. -/
def dropFinal (cr : α) (line : List α) : List α :=
  if line.getLast? = some cr then line.dropLast else line

variable {lf cr : α} {line : List α} {lines : List (List α)}

omit [DecidableEq α] in
theorem unbroken_append {s t : List α} :
    Unbroken lf cr (s ++ t) ↔ Unbroken lf cr s ∧ Unbroken lf cr t := List.forall_mem_append

/-- Either there is nothing to drop, or one carriage return. -/
theorem dropFinal_cases (cr : α) (line : List α) :
    dropFinal cr line = line ∨ line = dropFinal cr line ++ [cr] := by
  unfold dropFinal
  split_ifs with hlast
  · exact Or.inr (List.dropLast_append_getLast? cr hlast).symm
  · exact Or.inl rfl

theorem dropFinal_of_unbroken (h : Unbroken lf cr line) : dropFinal cr line = line := by
  unfold dropFinal
  rw [if_neg fun hlast => (h cr (List.mem_of_getLast? hlast)).2 rfl]

/-- What stands in front is kept. -/
theorem dropFinal_cons {u : α} (hu : u ≠ cr) (rest : List α) :
    dropFinal cr (u :: rest) = u :: dropFinal cr rest := by
  unfold dropFinal
  cases rest with
  | nil => simp [hu]
  | cons v others =>
    rw [List.getLast?_cons_cons]
    split_ifs <;> rfl

/-- So is everything in front of a text that is not empty. -/
theorem dropFinal_append_of_ne {rest : List α} (hne : rest ≠ []) (line : List α) :
    dropFinal cr (line ++ rest) = line ++ dropFinal cr rest := by
  unfold dropFinal
  rw [List.getLast?_append_of_ne_nil _ hne]
  split_ifs
  · exact List.dropLast_append_of_ne_nil hne
  · rfl

theorem dropFinal_append (hline : Unbroken lf cr line) (rest : List α) :
    dropFinal cr (line ++ rest) = line ++ dropFinal cr rest := by
  induction line with
  | nil => rfl
  | cons u others ih =>
    obtain ⟨⟨-, hcr⟩, hothers⟩ := List.forall_mem_cons.mp hline
    rw [List.cons_append, dropFinal_cons hcr, ih hothers, List.cons_append]

theorem unbroken_of_mem_splitLines {after_cr : Bool} {text : List α}
    (h : line ∈ splitLines lf cr after_cr text) : Unbroken lf cr line := by
  induction text generalizing after_cr line with
  | nil =>
    obtain rfl := List.mem_singleton.mp h
    exact List.forall_mem_nil _
  | cons u rest ih =>
    rw [splitLines] at h
    split_ifs at h with hlf hafter hcr
    · exact ih h
    · rcases List.mem_cons.mp h with rfl | h
      · exact List.forall_mem_nil _
      · exact ih h
    · rcases List.mem_cons.mp h with rfl | h
      · exact List.forall_mem_nil _
      · exact ih h
    · -- the symbol goes to the first line of the rest
      cases hrest : splitLines lf cr false rest with
      | nil =>
        rw [hrest] at h
        cases h
      | cons first others =>
        rw [hrest, List.modifyHead_cons] at h
        rcases List.mem_cons.mp h with rfl | h
        · have hfirst : Unbroken lf cr first := ih (hrest ▸ List.mem_cons_self)
          exact List.forall_mem_cons.mpr ⟨⟨hlf, hcr⟩, hfirst⟩
        · exact ih (hrest ▸ List.mem_cons_of_mem _ h)

/-- A line in front is read as it is. -/
theorem splitLines_append (hline : Unbroken lf cr line) (text : List α) :
    splitLines lf cr false (line ++ text) =
      (splitLines lf cr false text).modifyHead (line ++ ·) := by
  induction line with
  | nil =>
    show _ = (splitLines lf cr false text).modifyHead id
    rw [List.modifyHead_id]
    rfl
  | cons u rest ih =>
    obtain ⟨⟨hlf, hcr⟩, hrest⟩ := List.forall_mem_cons.mp hline
    rw [List.cons_append, splitLines, if_neg hlf, if_neg hcr, ih hrest, List.modifyHead_modifyHead]
    rfl

/-- A line is read up to its line feed, without a carriage return before it. -/
theorem splitLines_line (hne : cr ≠ lf) (hline : Unbroken lf cr (dropFinal cr line))
    (rest : List α) : splitLines lf cr false (line ++ lf :: rest) =
      dropFinal cr line :: splitLines lf cr false rest := by
  have hfeed : splitLines lf cr false (lf :: rest) = [] :: splitLines lf cr false rest := by
    rw [splitLines, if_pos rfl]
    rfl
  have hboth : splitLines lf cr false (cr :: lf :: rest) = [] :: splitLines lf cr false rest := by
    rw [splitLines, if_neg hne, if_pos rfl, splitLines, if_pos rfl, if_pos rfl]
  have hread : line ++ lf :: rest = dropFinal cr line ++ lf :: rest ∨
      line ++ lf :: rest = dropFinal cr line ++ cr :: lf :: rest := by
    rcases dropFinal_cases cr line with hself | hcr
    · rw [hself]
      exact Or.inl rfl
    · refine Or.inr ?_
      nth_rewrite 1 [hcr]
      rw [List.append_assoc, List.singleton_append]
  rcases hread with h | h
  · rw [h, splitLines_append hline, hfeed, List.modifyHead_cons, List.append_nil]
  · rw [h, splitLines_append hline, hboth, List.modifyHead_cons, List.append_nil]

/-- **Reading lines back**: the lines that were written, each with a line feed, are read but for a
    carriage return at their ends exactly if none of them is broken. -/
theorem splitLines_eq_iff (hne : cr ≠ lf) : splitLines lf cr false (lines.flatMap (· ++ [lf])) =
    lines.map (dropFinal cr) ++ [[]] ↔ ∀ line ∈ lines, Unbroken lf cr (dropFinal cr line) := by
  constructor
  · intro h line hline
    have hread : dropFinal cr line ∈ splitLines lf cr false (lines.flatMap (· ++ [lf])) := by
      rw [h]
      exact List.mem_append_left _ (List.mem_map_of_mem hline)
    exact unbroken_of_mem_splitLines hread
  · intro h
    induction lines with
    | nil => rfl
    | cons line rest ih =>
      obtain ⟨hline, hrest⟩ := List.forall_mem_cons.mp h
      rw [List.flatMap_cons, List.append_assoc, List.singleton_append, splitLines_line hne hline,
        ih hrest, List.map_cons, List.cons_append]

/-! ### Rows -/

/-- The separators in a text that no escape stands before. -/
def bareCount (sep esc : α) : Bool → List α → ℕ
  | _, [] => 0
  | escaped, u :: rest =>
    (if u = sep ∧ escaped = false then 1 else 0) + bareCount sep esc (decide (u = esc)) rest

variable {sep esc : α}

/-- What a text does not start with a separator counts the same after an escape. -/
theorem bareCount_of_ne {u : α} (hu : u ≠ sep) (escaped : Bool) (rest : List α) :
    bareCount sep esc escaped (u :: rest) = bareCount sep esc false (u :: rest) := by
  simp [bareCount, hu]

/-- A symbol other than the separator parts a text in two. -/
theorem bareCount_append {u : α} (hu : u ≠ sep) (escaped : Bool) (s rest : List α) :
    bareCount sep esc escaped (s ++ u :: rest) =
      bareCount sep esc escaped s + bareCount sep esc false (u :: rest) := by
  induction s generalizing escaped with
  | nil =>
    rw [List.nil_append, bareCount_of_ne hu]
    simp [bareCount]
  | cons v s ih =>
    show _ + bareCount sep esc (decide (v = esc)) (s ++ u :: rest) =
      _ + bareCount sep esc (decide (v = esc)) s + _
    rw [ih, Nat.add_assoc]

/-- The parts of a text between the separators that no escape stands before. -/
def splitBare (sep esc : α) : Bool → List α → List (List α)
  | _, [] => [[]]
  | escaped, u :: rest =>
    if u = sep ∧ escaped = false then [] :: splitBare sep esc (decide (u = esc)) rest
    else (splitBare sep esc (decide (u = esc)) rest).modifyHead (u :: ·)

/-- There is one part more than separators. -/
theorem length_splitBare (escaped : Bool) (s : List α) :
    (splitBare sep esc escaped s).length = bareCount sep esc escaped s + 1 := by
  induction s generalizing escaped with
  | nil => rfl
  | cons u s ih =>
    rw [splitBare, bareCount]
    split_ifs
    · rw [List.length_cons, ih]
      omega
    · rw [List.length_modifyHead, ih]
      omega

/-- The parts have no symbols of their own. -/
theorem mem_of_mem_splitBare {part : List α} {escaped : Bool} {s : List α}
    (h : part ∈ splitBare sep esc escaped s) : ∀ u ∈ part, u ∈ s := by
  induction s generalizing escaped part with
  | nil =>
    obtain rfl := List.mem_singleton.mp h
    exact List.forall_mem_nil _
  | cons v s ih =>
    have hrest : ∀ part ∈ splitBare sep esc (decide (v = esc)) s, ∀ u ∈ part, u ∈ v :: s :=
      fun part hpart u hu => List.mem_cons_of_mem _ (ih hpart u hu)
    rw [splitBare] at h
    split_ifs at h
    · rcases List.mem_cons.mp h with rfl | h
      · exact List.forall_mem_nil _
      · exact hrest part h
    · -- the symbol goes to the first part of the rest
      cases hparts : splitBare sep esc (decide (v = esc)) s with
      | nil =>
        rw [hparts] at h
        cases h
      | cons first others =>
        rw [hparts, List.modifyHead_cons] at h
        rw [hparts] at hrest
        rcases List.mem_cons.mp h with rfl | h
        · exact List.forall_mem_cons.mpr ⟨List.mem_cons_self, hrest first List.mem_cons_self⟩
        · exact hrest part (List.mem_cons_of_mem _ h)

/-- A text without bare separators, up to one that is. -/
theorem splitBare_append {u : α} {s : List α} (hu : u ≠ sep) (hesc : u ≠ esc) (hsep : sep ≠ esc)
    (escaped : Bool) (h : bareCount sep esc escaped s = 0) (rest : List α) :
    splitBare sep esc escaped (s ++ u :: sep :: rest) =
      (s ++ [u]) :: splitBare sep esc false rest := by
  induction s generalizing escaped with
  | nil =>
    rw [List.nil_append, splitBare, if_neg fun hcut => hu hcut.1, splitBare,
      if_pos ⟨rfl, decide_eq_false hesc⟩, decide_eq_false hsep]
    rfl
  | cons v s ih =>
    rw [bareCount, Nat.add_eq_zero_iff] at h
    have hcut : ¬ (v = sep ∧ escaped = false) := fun hcut => by
      rw [if_pos hcut] at h
      exact absurd h.1 Nat.one_ne_zero
    rw [List.cons_append, splitBare, if_neg hcut, ih _ h.2]
    rfl

/-- With an escape before each of its separators, a text has none that is bare. -/
theorem bareCount_flatMap (hne : sep ≠ esc) (escaped : Bool) (s : List α) :
    bareCount sep esc escaped (s.flatMap fun u => if u = sep then [esc, sep] else [u]) = 0 := by
  induction s generalizing escaped with
  | nil => rfl
  | cons u s ih =>
    rw [List.flatMap_cons]
    by_cases hu : u = sep
    · rw [if_pos hu]
      simp [bareCount, hne.symm, ih]
    · rw [if_neg hu]
      simp [bareCount, hu, ih]

end

/-! ### Sections -/

section

variable {β : Type*} {mark : β → Bool}

/-- Each marked line with the unmarked ones below it. -/
def sectionsOf (mark : β → Bool) : List β → List (β × List β)
  | [] => []
  | line :: rest =>
    if mark line then (line, rest.takeWhile fun l => !mark l) :: sectionsOf mark rest
    else sectionsOf mark rest

theorem sectionsOf_append {before : List β} (h : ∀ line ∈ before, mark line = false)
    (after : List β) : sectionsOf mark (before ++ after) = sectionsOf mark after := by
  induction before with
  | nil => rfl
  | cons line rest ih =>
    obtain ⟨hline, hrest⟩ := List.forall_mem_cons.mp h
    rw [List.cons_append, sectionsOf, hline, if_neg Bool.false_ne_true, ih hrest]

/-- A section ends where the next one starts. -/
theorem sectionsOf_cons {title : β} {body after : List β} (htitle : mark title = true)
    (hbody : ∀ line ∈ body, mark line = false) (hafter : ∀ line ∈ after.head?, mark line = true) :
    sectionsOf mark (title :: (body ++ after)) = (title, body) :: sectionsOf mark after := by
  rw [sectionsOf, if_pos htitle, sectionsOf_append hbody]
  have htake : (body ++ after).takeWhile (fun l => !mark l) = body := by
    rw [List.takeWhile_append_of_pos fun line hline => by simp [hbody line hline]]
    cases after with
    | nil => simp
    | cons next rest => simp [hafter next rfl]
  rw [htake]

/-- **Reading sections back**: the lines of the sections, in their order. -/
theorem sectionsOf_flatMap {before : List β} {sections : List (β × List β)}
    (hbefore : ∀ line ∈ before, mark line = false)
    (h : ∀ s ∈ sections, mark s.1 = true ∧ ∀ line ∈ s.2, mark line = false) :
    sectionsOf mark (before ++ sections.flatMap fun s => s.1 :: s.2) = sections := by
  rw [sectionsOf_append hbefore]
  induction sections with
  | nil => rfl
  | cons s rest ih =>
    obtain ⟨⟨htitle, hbody⟩, hrest⟩ := List.forall_mem_cons.mp h
    have hnext : ∀ line ∈ (rest.flatMap fun s => s.1 :: s.2).head?, mark line = true := by
      intro line hline
      cases rest with
      | nil => cases hline
      | cons next others =>
        obtain rfl := Option.some.inj hline
        exact (hrest next List.mem_cons_self).1
    rw [List.flatMap_cons, List.cons_append, sectionsOf_cons htitle hbody hnext, ih hrest]

/-- The marked lines of sections are their titles exactly if no line below one is marked. -/
theorem filter_flatMap_iff {sections : List (β × List β)}
    (htitles : ∀ s ∈ sections, mark s.1 = true) :
    (sections.flatMap fun s => s.1 :: s.2).filter mark = sections.map Prod.fst ↔
      ∀ s ∈ sections, ∀ line ∈ s.2, mark line = false := by
  have hlength : ∀ sections : List (β × List β), (∀ s ∈ sections, mark s.1 = true) →
      sections.length ≤ ((sections.flatMap fun s => s.1 :: s.2).filter mark).length := by
    intro sections
    induction sections with
    | nil => exact fun _ => Nat.le_refl _
    | cons s rest ih =>
      intro h
      obtain ⟨hs, hrest⟩ := List.forall_mem_cons.mp h
      rw [List.flatMap_cons, List.filter_append, List.filter_cons_of_pos hs, List.cons_append,
        List.length_cons, List.length_cons, List.length_append]
      have := ih hrest
      omega
  induction sections with
  | nil => exact iff_of_true rfl (List.forall_mem_nil _)
  | cons s rest ih =>
    obtain ⟨hs, hrest⟩ := List.forall_mem_cons.mp htitles
    rw [List.flatMap_cons, List.filter_append, List.filter_cons_of_pos hs, List.map_cons,
      List.cons_append, List.cons.injEq, and_iff_right rfl, List.forall_mem_cons]
    constructor
    · intro h
      -- a marked line below a title would be one line too many
      have hnone : s.2.filter mark = [] := by
        have hsum := congrArg List.length h
        have hle := hlength rest hrest
        rw [List.length_append, List.length_map] at hsum
        exact List.length_eq_zero_iff.mp (by omega)
      rw [hnone, List.nil_append] at h
      exact ⟨fun line hline => Bool.eq_false_iff.mpr (List.filter_eq_nil_iff.mp hnone line hline),
        (ih hrest).mp h⟩
    · rintro ⟨hbody, h⟩
      have hnone : s.2.filter mark = [] :=
        List.filter_eq_nil_iff.mpr fun line hline => by simp [hbody line hline]
      rw [hnone, List.nil_append, (ih hrest).mpr h]

end

end RootSign.Lib
