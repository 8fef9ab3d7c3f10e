import Mathlib.Data.Rat.Cast.Order
import Mathlib.Data.List.Sort
import RootSign.Lib.StableSort
import RootSign.Python.Str

namespace RootSign.Python

open RootSign.Lib

/-!
# Python values read from JSON

The values `json.loads` builds, and the operations the verifiers and the sealers apply to
them: `dict.get` and indexing, truth value, `==`, `<` and `list.sort` with a key.

* Numbers: an integer literal is an `int`, any other number a `float`.  A float carries the
  exact number it stands for (an overflowing literal is infinite) and its shortest decimal
  form, which is what `json.dumps` writes.
* `Dict.get` is `d.get(key)`: a missing key and a stored `null` are both `None`.
* `pyLt` is `<`; comparing values of unrelated types raises `TypeError`.
* `sortByKey` is `list.sort(key=…)`, a stable sort.
-/

/-! ### Exceptions -/

/-- The exceptions the modelled functions can raise. -/
inductive PyError where
  | keyError (key : String)
  | typeError
  | attributeError
  | valueError (message : JStr)
  | overflowError
  | osError
  | indexError
  | recursionError
deriving DecidableEq, Repr

section

variable {ε α β : Type} {x : Except ε α} {f : α → Except ε β}

/-- A sequence of two computations returns when both do. -/
theorem bind_eq_ok {b : β} : x >>= f = .ok b ↔ ∃ a, x = .ok a ∧ f a = .ok b := by
  cases x <;> simp [bind, Except.bind]

/-- A sequence of two computations raises when one of them does. -/
theorem bind_eq_error {e : ε} :
    x >>= f = .error e ↔ x = .error e ∨ ∃ a, x = .ok a ∧ f a = .error e := by
  cases x <;> simp [bind, Except.bind]

/-- A computation over a list returns when it does on every item. -/
theorem mapM_eq_ok {xs : List α} {ys : List β} :
    xs.mapM f = .ok ys ↔ List.Forall₂ (fun x y => f x = .ok y) xs ys := by
  induction xs generalizing ys with
  | nil =>
    rw [List.forall₂_nil_left_iff]
    exact ⟨fun h => (Except.ok.inj h).symm, fun h => by rw [h]; rfl⟩
  | cons x xs ih =>
    rw [List.mapM_cons, List.forall₂_cons_left_iff]
    constructor
    · intro h
      obtain ⟨y, hy, h⟩ := bind_eq_ok.mp h
      obtain ⟨ys', hys, h⟩ := bind_eq_ok.mp h
      exact ⟨y, ys', hy, ih.mp hys, (Except.ok.inj h).symm⟩
    · rintro ⟨y, ys', hy, hys, rfl⟩
      rw [hy, ih.mpr hys]
      rfl

theorem exists_mapM_eq_ok {xs : List α} (h : ∀ x ∈ xs, ∃ y, f x = .ok y) :
    ∃ ys, xs.mapM f = .ok ys := by
  induction xs with
  | nil => exact ⟨[], rfl⟩
  | cons x xs ih =>
    obtain ⟨y, hy⟩ := h x (by simp)
    obtain ⟨ys, hys⟩ := ih fun x' hx' => h x' (by simp [hx'])
    exact ⟨y :: ys, mapM_eq_ok.mpr (List.Forall₂.cons hy (mapM_eq_ok.mp hys))⟩

end

/-! ### Values -/

/-- The number a numeric value stands for: rational or infinite. -/
inductive ExtRat where
  | negInf
  | ofRat (q : ℚ)
  | posInf
deriving DecidableEq

/-- `<` on numbers. -/
def ExtRat.lt : ExtRat → ExtRat → Bool
  | .negInf, .negInf => false
  | .negInf, _ => true
  | .ofRat p, .ofRat q => decide (p < q)
  | .ofRat _, .posInf => true
  | _, _ => false

/-- A float: the number it stands for, and its shortest decimal form `±0.d₁d₂… · 10^point`. -/
structure PyFloat where
  value : ExtRat
  negative : Bool
  digits : ℕ
  point : ℤ
deriving DecidableEq

/-- A Python value as `json.loads` builds it. -/
inductive Json where
  | null
  | bool (b : Bool)
  | int (n : ℤ)
  | float (x : PyFloat)
  | str (s : JStr)
  | arr (xs : List Json)
  | obj (fields : List (JStr × Json))

/-- A Python `dict` with string keys, in insertion order. -/
abbrev Dict := List (JStr × Json)

instance : Inhabited Json := ⟨.null⟩

/-! ### Reading a dict -/

namespace Dict

/-- `d.get(key, default)`. -/
def getD (d : Dict) (key : String) (default : Json) : Json :=
  (d.lookup (JStr.ofString key)).getD default

/-- `d.get(key)`. -/
def get (d : Dict) (key : String) : Json := d.getD key .null

/-- `d[key]`. -/
def item (d : Dict) (key : String) : Except PyError Json :=
  match d.lookup (JStr.ofString key) with
  | some v => .ok v
  | none => .error (.keyError key)

/-- `key in d`. -/
def has (d : Dict) (key : String) : Prop := (d.lookup (JStr.ofString key)).isSome

/-- A dict display: the pairs as the source writes them. -/
def ofFields (fields : List (String × Json)) : Dict :=
  fields.map fun p => (JStr.ofString p.1, p.2)

/-- `{**d, key: value}`: replace the value under `key`, or append the pair. -/
def set : Dict → String → Json → Dict
  | [], key, value => [(JStr.ofString key, value)]
  | (k, v) :: rest, key, value =>
    if k = JStr.ofString key then (k, value) :: rest else (k, v) :: set rest key value

@[simp] theorem lookup_ofFields (fields : List (String × Json)) (key : String) :
    List.lookup (JStr.ofString key) (ofFields fields) = fields.lookup key := by
  induction fields with
  | nil => rfl
  | cons p rest ih =>
    obtain ⟨k, v⟩ := p
    simp only [ofFields, List.map_cons, List.lookup_cons, JStr.ofString_beq]
    split
    · rfl
    · exact ih

/-- A dict display has the keys that are written in it. -/
theorem has_ofFields {fields : List (String × Json)} {key : String} :
    (ofFields fields).has key ↔ (fields.lookup key).isSome := by
  rw [has, lookup_ofFields]

theorem getD_ofFields (fields : List (String × Json)) (key : String) (default : Json) :
    (ofFields fields).getD key default = (fields.lookup key).getD default := by
  rw [getD, lookup_ofFields]

theorem get_ofFields (fields : List (String × Json)) (key : String) :
    (ofFields fields).get key = (fields.lookup key).getD .null :=
  getD_ofFields fields key .null

/-- Indexing by a key that is there gives what `get` gives. -/
theorem item_of_has {d : Dict} {key : String} (h : d.has key) :
    d.item key = .ok (d.get key) := by
  unfold item get getD
  obtain ⟨v, hv⟩ := Option.isSome_iff_exists.mp h
  rw [hv]; rfl

/-- Indexing raises nothing but `KeyError`. -/
theorem item_eq_error {d : Dict} {key : String} {e : PyError} (h : d.item key = .error e) :
    e = .keyError key := by
  unfold item at h
  split at h
  · exact absurd h (by simp)
  · exact (Except.error.inj h).symm

/-- Indexing that returns shows that the key is there. -/
theorem has_of_item {d : Dict} {key : String} {v : Json} (h : d.item key = .ok v) :
    d.has key ∧ d.get key = v := by
  unfold item at h
  unfold has get getD
  cases hl : d.lookup (JStr.ofString key) with
  | none => rw [hl] at h; simp at h
  | some w => rw [hl] at h; simp_all

/-- A key whose value is not `None` is in the dict. -/
theorem has_of_get_ne_null {d : Dict} {key : String} (h : d.get key ≠ .null) : d.has key := by
  unfold get getD at h
  unfold has
  cases hl : d.lookup (JStr.ofString key) with
  | none => rw [hl] at h; exact absurd rfl h
  | some w => rfl

/-- Reading any key back after `{**d, key: value}`. -/
theorem lookup_set_any (d : Dict) (key : String) (value : Json) (k : JStr) :
    List.lookup k (d.set key value) =
      if k = JStr.ofString key then some value else d.lookup k := by
  induction d with
  | nil =>
    by_cases hk : k = JStr.ofString key
    · simp [set, hk]
    · simp [set, List.lookup_cons, hk, beq_eq_false_iff_ne.mpr hk]
  | cons p rest ih =>
    obtain ⟨k', v⟩ := p
    by_cases hkey : k' = JStr.ofString key
    · subst hkey
      by_cases hk : k = JStr.ofString key
      · simp [set, hk]
      · simp [set, List.lookup_cons, hk, beq_eq_false_iff_ne.mpr hk]
    · rw [set, if_neg hkey, List.lookup_cons, List.lookup_cons, ih]
      by_cases hk : k = k'
      · subst hk
        simp [hkey]
      · simp [beq_eq_false_iff_ne.mpr hk]

/-- Reading back after `{**d, key: value}`. -/
theorem lookup_set (d : Dict) (key key' : String) (value : Json) :
    List.lookup (JStr.ofString key') (d.set key value) =
      if key' = key then some value else d.lookup (JStr.ofString key') := by
  simp only [lookup_set_any, JStr.ofString_inj]

/-- What is found under a key is what `get` returns. -/
theorem get_of_lookup {d : Dict} {key : String} {v : Json}
    (h : d.lookup (JStr.ofString key) = some v) : d.get key = v := by
  rw [get, getD, h]
  rfl

/-- A key that is there is found with its value. -/
theorem lookup_of_has {d : Dict} {key : String} (h : d.has key) :
    d.lookup (JStr.ofString key) = some (d.get key) := by
  obtain ⟨v, hv⟩ := Option.isSome_iff_exists.mp h
  rw [hv, get_of_lookup hv]

/-- `d.update(fields)`. -/
def update (d : Dict) (fields : List (String × Json)) : Dict :=
  fields.foldl (fun d p => d.set p.1 p.2) d

/-- An assignment changes one key. -/
theorem get_set (d : Dict) (key key' : String) (value : Json) :
    (d.set key value).get key' = if key' = key then value else d.get key' := by
  unfold get getD
  rw [lookup_set]
  split <;> rfl

/-- Setting a key removes none. -/
theorem has_set {d : Dict} {key : String} (h : d.has key) (key' : String) (value : Json) :
    (d.set key' value).has key := by
  unfold has at h ⊢
  rw [lookup_set]
  split
  · rfl
  · exact h

end Dict

/-! ### Truth value and numbers -/

namespace Json

/-- `bool(v)`. -/
def truthy : Json → Bool
  | .null => false
  | .bool b => b
  | .int n => n != 0
  | .float x => x.value != .ofRat 0
  | .str s => !s.units.isEmpty
  | .arr xs => !xs.isEmpty
  | .obj fields => !fields.isEmpty

/-- `v or None`. -/
def orNone (v : Json) : Json := if v.truthy then v else .null

/-- `v or ""`. -/
def orEmpty (v : Json) : Json := if v.truthy then v else .str ""

/-- `isinstance(v, int)`, with the value; a `bool` is an `int`. -/
def asInt : Json → Option ℤ
  | .bool b => some (if b then 1 else 0)
  | .int n => some n
  | _ => none

/-- The number a numeric value stands for. -/
def asNumber : Json → Option ExtRat
  | .bool b => some (.ofRat (if b then 1 else 0))
  | .int n => some (.ofRat n)
  | .float x => some x.value
  | _ => none

/-! ### Comparison -/

mutual

/-- `v == w`. -/
def pyEq : Json → Json → Bool
  | .null, .null => true
  | .int m, .int n => m == n
  | .str s, .str t => s == t
  | .arr xs, .arr ys => pyEqList xs ys
  | .obj fs, .obj gs => fs.length == gs.length && pyEqFields fs gs
  | v, w =>
    match v.asNumber, w.asNumber with
    | some x, some y => x == y
    | _, _ => false

/-- `==` on lists, item by item. -/
def pyEqList : List Json → List Json → Bool
  | [], [] => true
  | x :: xs, y :: ys => pyEq x y && pyEqList xs ys
  | _, _ => false

/-- Every field of the first dict is in the second one with an equal value. -/
def pyEqFields : List (JStr × Json) → List (JStr × Json) → Bool
  | [], _ => true
  | (k, v) :: fs, gs =>
    (match gs.lookup k with
      | some w => pyEq v w
      | none => false) && pyEqFields fs gs

end

mutual

/-- `v < w`, or `none` where Python raises `TypeError`. -/
def pyLt : Json → Json → Option Bool
  | .int m, .int n => some (decide (m < n))
  | .str s, .str t => some (JStr.lt s t)
  | .arr xs, .arr ys => pyLtList xs ys
  | v, w =>
    match v.asNumber, w.asNumber with
    | some x, some y => some (x.lt y)
    | _, _ => none

/-- `<` on lists: the first differing items decide. -/
def pyLtList : List Json → List Json → Option Bool
  | [], [] => some false
  | [], _ :: _ => some true
  | _ :: _, [] => some false
  | x :: xs, y :: ys => if pyEq x y then pyLtList xs ys else pyLt x y

end

@[simp] theorem pyEq_int (m n : ℤ) : pyEq (.int m) (.int n) = (m == n) := by
  simp [pyEq]

@[simp] theorem pyLt_int (m n : ℤ) : pyLt (.int m) (.int n) = some (decide (m < n)) := by
  simp [pyLt]

/-- A value equals a string only by being that string. -/
theorem pyEq_str {v : Json} {s : JStr} : pyEq v (.str s) = true ↔ v = .str s := by
  cases v <;> simp [pyEq, asNumber]

/-- A value equals `None` only by being `None`. -/
theorem pyEq_null {v : Json} : pyEq v .null = true ↔ v = .null := by
  cases v <;> simp [pyEq, asNumber]

end Json

/-! ### Sorting -/

/-- `items.sort(key=…)`, keys given: stable, and `TypeError` when keys do not compare. -/
def sortByKey {α : Type} (items : List (Json × α)) : Except PyError (List (Json × α)) :=
  if items.all fun a => items.all fun b => items.length ≤ 1 || (a.1.pyLt b.1).isSome then
    .ok (items.insertionSort fun a b => b.1.pyLt a.1 ≠ some true)
  else .error .typeError

section

variable {α : Type}

/-- Sorting only rearranges. -/
theorem sortByKey_perm {items sorted : List (Json × α)} (h : sortByKey items = .ok sorted) :
    sorted.Perm items := by
  unfold sortByKey at h
  split at h
  · rw [← Except.ok.inj h]; exact List.perm_insertionSort _ _
  · exact absurd h (by simp)

/-- Keys that sort compare with one another. -/
theorem sortByKey_comparable {items sorted : List (Json × α)} (h : sortByKey items = .ok sorted)
    {a b : Json × α} (ha : a ∈ items) (hb : b ∈ items) :
    items.length ≤ 1 ∨ (a.1.pyLt b.1).isSome = true := by
  unfold sortByKey at h
  split at h
  case isTrue hall =>
    have hpair := List.all_eq_true.mp (List.all_eq_true.mp hall a ha) b hb
    simpa using hpair
  case isFalse => exact absurd h (by simp)

/-- Integer keys always sort, by their values. -/
theorem sortByKey_eq {items : List (Json × α)} (key : Json × α → ℤ)
    (hkey : ∀ p ∈ items, p.1 = .int (key p)) :
    sortByKey items = .ok (items.insertionSort fun p q => key p ≤ key q) := by
  have hcomparable : items.all (fun a => items.all fun b =>
      items.length ≤ 1 || (a.1.pyLt b.1).isSome) = true := by
    simp only [List.all_eq_true]
    intro a ha b hb
    simp [hkey a ha, hkey b hb]
  unfold sortByKey
  rw [if_pos hcomparable]
  -- on these items the relation is `≤` on the keys
  have hsame := List.map_insertionSort (fun a b : Json × α => b.1.pyLt a.1 ≠ some true)
    (fun a b => key a ≤ key b) id items (fun a ha b hb => by simp [hkey a ha, hkey b hb])
  rw [List.map_id, List.map_id] at hsame
  rw [hsame]

/-- Integer keys come out in ascending order. -/
theorem sortByKey_int {items : List (Json × α)} (key : Json × α → ℤ)
    (hkey : ∀ p ∈ items, p.1 = .int (key p)) :
    ∃ sorted, sortByKey items = .ok sorted ∧ sorted.Pairwise fun p q => key p ≤ key q :=
  ⟨_, sortByKey_eq key hkey, pairwise_insertionSort_key key items⟩

end

end RootSign.Python
