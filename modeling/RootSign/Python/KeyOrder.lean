import RootSign.Lib.StableSort
import RootSign.Python.Dumps
import Mathlib.Data.List.Lex

namespace RootSign.Python

open RootSign.Lib

/-!
# The order of keys

Two dicts are equal in Python when they have the same keys with equal values, in whatever order.

* `JStr.lt_eq_decide` — `<` on strings is the order of their code points;
* `Json.Same` — equal up to the order of the keys;
* `dumps_same` — `json.dumps(…, sort_keys=True)` makes one text of values that are the same;
* `Json.InOrder` — the keys of two values come in the same order.
-/

/-! ### Strings by their code points -/

namespace JStr

theorem ltPoints_eq_decide (a b : List ℕ) : ltPoints a b = decide (a < b) := by
  induction a generalizing b with
  | nil => cases b <;> simp [ltPoints]
  | cons x a ih =>
    cases b with
    | nil => simp [ltPoints]
    | cons y b =>
      rw [ltPoints, ih, Bool.eq_iff_iff]
      simp [List.cons_lt_cons_iff]

/-- The code points of a string. -/
def points (s : JStr) : List ℕ := codePointsOf s.units

theorem lt_eq_decide (a b : JStr) : lt a b = decide (a.points < b.points) :=
  ltPoints_eq_decide _ _

/-- The units of a code point. -/
def unitsOfPoint (p : ℕ) : List ℕ :=
  if p < 0x10000 then [p] else [0xD800 + (p - 0x10000) / 0x400, 0xDC00 + (p - 0x10000) % 0x400]

theorem flatMap_codePointsOf (units : List CodeUnit) :
    (codePointsOf units).flatMap unitsOfPoint = units.map Fin.val := by
  induction units using codePointsOf.induct with
  | case1 => rfl
  | case2 u => simp [codePointsOf, unitsOfPoint]
  | case3 u v rest hpair ih =>
    rw [codePointsOf, if_pos hpair, List.flatMap_cons, ih, unitsOfPoint, if_neg (by omega)]
    simp only [List.cons_append, List.nil_append, List.map_cons, List.cons.injEq, and_true]
    omega
  | case4 u v rest hpair ih =>
    rw [codePointsOf, if_neg hpair, List.flatMap_cons, ih, unitsOfPoint, if_pos u.isLt]
    rfl

/-- Different strings have different code points. -/
theorem points_inj {a b : JStr} (h : a.points = b.points) : a = b := by
  have hunits := congrArg (List.flatMap unitsOfPoint) h
  rw [points, points, flatMap_codePointsOf, flatMap_codePointsOf] at hunits
  exact JStr.ext (List.map_injective_iff.mpr Fin.val_injective hunits)

end JStr

/-- The fields are sorted by the code points of their keys. -/
theorem sortKeys_eq (fields : List (JStr × List Char)) :
    sortKeys fields = fields.insertionSort fun a b => a.1.points ≤ b.1.points := by
  unfold sortKeys
  congr 1
  ext a b
  rw [JStr.lt_eq_decide, decide_eq_false_iff_not, not_lt]

/-- Fields in any order are sorted to the same, if no key is there twice. -/
theorem sortKeys_perm {fields fields' : List (JStr × List Char)} (hperm : fields.Perm fields')
    (hkeys : (fields.map Prod.fst).Nodup) : sortKeys fields = sortKeys fields' := by
  rw [sortKeys_eq, sortKeys_eq]
  refine List.Perm.eq_of_pairwise ?_ (pairwise_insertionSort_key _ fields)
    (pairwise_insertionSort_key _ fields') ?_
  · -- two fields with one key are one field
    intro a b ha hb hab hba
    have hkey : a.1 = b.1 := JStr.points_inj (le_antisymm hab hba)
    have ha' := (List.perm_insertionSort _ fields).mem_iff.mp ha
    have hb' := hperm.mem_iff.mpr ((List.perm_insertionSort _ fields').mem_iff.mp hb)
    exact List.inj_on_of_nodup_map hkeys ha' hb' hkey
  · exact (List.perm_insertionSort _ fields).trans
      (hperm.trans (List.perm_insertionSort _ fields').symm)

/-! ### Equality up to the order of keys -/

mutual

/-- Two values are equal as Python compares dicts: a dict has each key once, and the order of the
    keys does not matter. -/
def Json.Same : Json → Json → Prop
  | .arr items, w => ∃ items', w = .arr items' ∧ SameItems items items'
  | .obj fields, w =>
    (fields.map Prod.fst).Nodup ∧ ∃ fields', w = .obj fields' ∧ SameFields fields fields'
  | v, w => v = w

/-- The items of two lists are the same, one by one. -/
def SameItems : List Json → List Json → Prop
  | [], items' => items' = []
  | v :: rest, items' => ∃ w rest', items' = w :: rest' ∧ Json.Same v w ∧ SameItems rest rest'

/-- Each field is found among the others, wherever it stands. -/
def SameFields : List (JStr × Json) → List (JStr × Json) → Prop
  | [], fields' => fields' = []
  | (k, v) :: rest, fields' => ∃ w before after, fields' = before ++ (k, w) :: after ∧
      Json.Same v w ∧ SameFields rest (before ++ after)

end

/-- Dicts that are the same have the same keys. -/
theorem SameFields.keys {fields fields' : List (JStr × Json)} (h : SameFields fields fields') :
    (fields.map Prod.fst).Perm (fields'.map Prod.fst) := by
  induction fields generalizing fields' with
  | nil =>
    obtain rfl : fields' = [] := h
    exact List.Perm.refl _
  | cons p rest ih =>
    obtain ⟨w, before, after, rfl, -, hrest⟩ := h
    have hkeys := ih hrest
    rw [List.map_append] at hkeys
    rw [List.map_append, List.map_cons, List.map_cons]
    exact (hkeys.cons _).trans List.perm_middle.symm

/-- A key has the same value in dicts that are the same. -/
theorem SameFields.lookup {fields fields' : List (JStr × Json)} {key : JStr} {v w : Json}
    (hkeys : (fields.map Prod.fst).Nodup) (h : SameFields fields fields')
    (hv : fields.lookup key = some v) (hw : fields'.lookup key = some w) : v.Same w := by
  -- by induction on the first dict: its first key stands somewhere in the other
  induction fields generalizing fields' with
  | nil => exact absurd hv (by simp)
  | cons p rest ih =>
    obtain ⟨k, v'⟩ := p
    have hkeys' := h.keys.nodup_iff.mp hkeys
    obtain ⟨w', before, after, rfl, hsame, hrest⟩ := h
    rw [List.map_cons, List.nodup_cons] at hkeys
    rw [List.map_append, List.map_cons, List.nodup_middle, List.nodup_cons,
      ← List.map_append] at hkeys'
    rw [List.lookup_cons] at hv
    rw [List.lookup_append, List.lookup_cons] at hw
    by_cases hkey : key = k
    · subst hkey
      -- the keys differ, so the key is not before that place
      have hnone : before.lookup key = none := by
        rw [List.lookup_eq_none_iff]
        intro p hp
        rw [bne_iff_ne]
        rintro rfl
        exact hkeys'.1 (List.mem_map.mpr ⟨p, List.mem_append_left _ hp, rfl⟩)
      rw [hnone] at hw
      simp only [beq_self_eq_true, Option.none_or, Option.some.injEq] at hv hw
      rwa [← hv, ← hw]
    · have hne : (key == k) = false := beq_eq_false_iff_ne.mpr hkey
      rw [hne] at hv hw
      apply ih hkeys.2 hrest hv
      rw [List.lookup_append]
      exact hw

/-- Only `null` is the same as `null`. -/
theorem Json.Same.null_iff {v w : Json} (h : v.Same w) : v = .null ↔ w = .null := by
  cases v with
  | arr items =>
    obtain ⟨items', rfl, -⟩ := h
    exact iff_of_false (by simp) (by simp)
  | obj fields =>
    obtain ⟨-, fields', rfl, -⟩ := h
    exact iff_of_false (by simp) (by simp)
  | _ =>
    obtain rfl := h
    exact Iff.rfl

theorem dumpsFields_eq_map (fields : List (JStr × Json)) :
    dumpsFields fields = fields.map fun p => (p.1, dumps p.2) := by
  induction fields with
  | nil => rfl
  | cons p rest ih =>
    rw [dumpsFields, ih]
    rfl

mutual

/-- **One text** is made of values that are the same. -/
theorem dumps_same : ∀ {v w : Json}, v.Same w → dumps v = dumps w
  | .arr items, w, h => by
    obtain ⟨items', rfl, hitems⟩ := h
    rw [dumps, dumps, dumpsItems_same hitems]
  | .obj fields, w, h => by
    obtain ⟨hkeys, fields', rfl, hfields⟩ := h
    have hkeys' : ((dumpsFields fields).map Prod.fst).Nodup := by
      rw [dumpsFields_eq_map, List.map_map]
      exact hkeys
    rw [dumps, dumps, sortKeys_perm (dumpsFields_same hfields) hkeys']
  | .null, w, h => congrArg dumps h
  | .bool _, w, h => congrArg dumps h
  | .int _, w, h => congrArg dumps h
  | .float _, w, h => congrArg dumps h
  | .str _, w, h => congrArg dumps h

theorem dumpsItems_same : ∀ {items items' : List Json}, SameItems items items' →
    dumpsItems items = dumpsItems items'
  | [], _, h => congrArg dumpsItems (Eq.symm h)
  | v :: rest, _, h => by
    obtain ⟨w, rest', rfl, hv, hrest⟩ := h
    rw [dumpsItems, dumpsItems, dumps_same hv, dumpsItems_same hrest]

theorem dumpsFields_same : ∀ {fields fields' : List (JStr × Json)}, SameFields fields fields' →
    (dumpsFields fields).Perm (dumpsFields fields')
  | [], _, h => List.Perm.of_eq (congrArg dumpsFields (Eq.symm h))
  | (k, v) :: rest, _, h => by
    obtain ⟨w, before, after, rfl, hv, hrest⟩ := h
    have hsame := dumpsFields_same hrest
    rw [dumpsFields_eq_map (before ++ after), List.map_append] at hsame
    rw [dumpsFields, dumpsFields_eq_map (before ++ _), List.map_append, List.map_cons,
      dumps_same hv]
    exact (hsame.cons _).trans List.perm_middle.symm

end

/-! ### Keys in one order -/

mutual

/-- The keys of two values come in the same order, at every depth. -/
def Json.InOrder : Json → Json → Prop
  | .arr items, .arr items' => InOrderItems items items'
  | .obj fields, .obj fields' => InOrderFields fields fields'
  | _, _ => True

def InOrderItems : List Json → List Json → Prop
  | v :: rest, w :: rest' => Json.InOrder v w ∧ InOrderItems rest rest'
  | _, _ => True

def InOrderFields : List (JStr × Json) → List (JStr × Json) → Prop
  | (k, v) :: rest, (k', w) :: rest' => k = k' ∧ Json.InOrder v w ∧ InOrderFields rest rest'
  | _, _ => True

end

mutual

/-- Values that are the same, with their keys in the same order, are one value. -/
theorem eq_of_inOrder : ∀ {v w : Json}, v.Same w → v.InOrder w → v = w
  | .arr items, w, h, horder => by
    obtain ⟨items', rfl, hitems⟩ := h
    rw [eq_of_inOrderItems hitems horder]
  | .obj fields, w, h, horder => by
    obtain ⟨hkeys, fields', rfl, hfields⟩ := h
    rw [eq_of_inOrderFields hkeys hfields horder]
  | .null, w, h, _ => h
  | .bool _, w, h, _ => h
  | .int _, w, h, _ => h
  | .float _, w, h, _ => h
  | .str _, w, h, _ => h

theorem eq_of_inOrderItems : ∀ {items items' : List Json}, SameItems items items' →
    InOrderItems items items' → items = items'
  | [], _, h, _ => Eq.symm h
  | v :: rest, _, h, horder => by
    obtain ⟨w, rest', rfl, hv, hrest⟩ := h
    rw [eq_of_inOrder hv horder.1, eq_of_inOrderItems hrest horder.2]

theorem eq_of_inOrderFields : ∀ {fields fields' : List (JStr × Json)},
    (fields.map Prod.fst).Nodup → SameFields fields fields' → InOrderFields fields fields' →
      fields = fields'
  | [], _, _, h, _ => Eq.symm h
  | (k, v) :: rest, _, hkeys, h, horder => by
    obtain ⟨w, before, after, rfl, hv, hrest⟩ := h
    rw [List.map_cons, List.nodup_cons] at hkeys
    cases before with
    | nil =>
      obtain ⟨-, hvalue, hafter⟩ := horder
      rw [eq_of_inOrder hv hvalue, eq_of_inOrderFields hkeys.2 hrest hafter]
      rfl
    | cons p before =>
      -- the first key would be there twice
      have hfirst : k = p.1 := horder.1
      have hmem : p.1 ∈ rest.map Prod.fst :=
        hrest.keys.mem_iff.mpr (List.mem_map_of_mem List.mem_cons_self)
      exact absurd (hfirst ▸ hmem) hkeys.1

end

end RootSign.Python
