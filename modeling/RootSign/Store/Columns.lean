import Mathlib.Algebra.BigOperators.Group.List.Basic
import RootSign.Python.Datetime

namespace RootSign

open RootSign.Python

/-!
# What the columns give back

The hash of an action is computed from the values in memory and recomputed from the values
the database returns.  A `timestamptz` column returns the instant in UTC
(`PyDateTime.toUtc`); a `JSONB` column keeps each number as an exact decimal.

* `storableText`, `storable` — what the text and `JSONB` columns take at all;
* `jsonb` — what a `JSONB` column returns: a float of seventeen integer digits or more comes
  back an `int`, and negative zero loses its sign;
* `jsonb_of_plainNumbers`, `plainNumbers_of_dumps_jsonb` — the JSON text survives exactly
  when the value has no such number.
-/

/-! ### Text -/

/-- The first half of a surrogate pair. -/
def isHighSurrogate (u : CodeUnit) : Bool := 0xD800 ≤ u.val && u.val < 0xDC00

/-- The second half of a surrogate pair. -/
def isLowSurrogate (u : CodeUnit) : Bool := 0xDC00 ≤ u.val && u.val < 0xE000

/-- No NUL, and every surrogate in a pair. -/
def storableUnits : List CodeUnit → Bool
  | [] => true
  | [u] => u.val != 0 && !isHighSurrogate u && !isLowSurrogate u
  | u :: v :: rest =>
    if isHighSurrogate u && isLowSurrogate v then storableUnits rest
    else u.val != 0 && !isHighSurrogate u && !isLowSurrogate u && storableUnits (v :: rest)

/-- A text column takes the string. -/
def storableText (s : JStr) : Bool := storableUnits s.units

/-! ### JSONB -/

namespace Python.PyFloat

/-- A float whose decimal form without an exponent has no fraction: it is an `int` again. -/
def widened (x : PyFloat) : Bool :=
  match x.value with
  | .ofRat _ => 16 < x.point && (Nat.toDigits 10 x.digits).length ≤ x.point
  | _ => false

/-- `-0.0`. -/
def negativeZero (x : PyFloat) : Bool := x.negative && x.value == .ofRat 0

/-- The integer a widened float comes back as. -/
def widenedInt (x : PyFloat) : ℤ :=
  let n : ℤ := x.digits * 10 ^ (x.point.toNat - (Nat.toDigits 10 x.digits).length)
  if x.negative then -n else n

end Python.PyFloat

/-- A number through a `JSONB` column. -/
def jsonbFloat (x : PyFloat) : Json :=
  if x.widened then .int x.widenedInt
  else if x.negativeZero then .float { x with negative := false }
  else .float x

mutual

/-- A value through a `JSONB` column. -/
def jsonb : Json → Json
  | .float x => jsonbFloat x
  | .arr xs => .arr (jsonbItems xs)
  | .obj fields => .obj (jsonbFields fields)
  | v => v

/-- The items of a list. -/
def jsonbItems : List Json → List Json
  | [] => []
  | x :: xs => jsonb x :: jsonbItems xs

/-- The fields of an object. -/
def jsonbFields : List (JStr × Json) → List (JStr × Json)
  | [] => []
  | (k, v) :: rest => (k, jsonb v) :: jsonbFields rest

end

mutual

/-- A `JSONB` column takes the value: no infinite number, and storable strings. -/
def storable : Json → Bool
  | .float x => match x.value with
    | .ofRat _ => true
    | _ => false
  | .str s => storableText s
  | .arr xs => storableItems xs
  | .obj fields => storableFields fields
  | _ => true

/-- `storable` on every item. -/
def storableItems : List Json → Bool
  | [] => true
  | x :: xs => storable x && storableItems xs

/-- `storable` on every key and value. -/
def storableFields : List (JStr × Json) → Bool
  | [] => true
  | (k, v) :: rest => storableText k && storable v && storableFields rest

end

mutual

/-- No number in the value changes its text: no float written with a positive exponent, and
    no negative zero. -/
def plainNumbers : Json → Bool
  | .float x => !x.widened && !x.negativeZero
  | .arr xs => plainNumbersItems xs
  | .obj fields => plainNumbersFields fields
  | _ => true

/-- `plainNumbers` on every item. -/
def plainNumbersItems : List Json → Bool
  | [] => true
  | x :: xs => plainNumbers x && plainNumbersItems xs

/-- `plainNumbers` on every value. -/
def plainNumbersFields : List (JStr × Json) → Bool
  | [] => true
  | (_, v) :: rest => plainNumbers v && plainNumbersFields rest

end

/-! ### Plain values come back as they were -/

mutual

/-- **A plain value survives** its column. -/
theorem jsonb_of_plainNumbers : ∀ v : Json, plainNumbers v = true → jsonb v = v
  | .null, _ => rfl
  | .bool _, _ => rfl
  | .int _, _ => rfl
  | .str _, _ => rfl
  | .float x, h => by
    rw [plainNumbers, Bool.and_eq_true, Bool.not_eq_true', Bool.not_eq_true'] at h
    simp [jsonb, jsonbFloat, h.1, h.2]
  | .arr xs, h => by
    rw [jsonb, jsonbItems_of_plainNumbers xs h]
  | .obj fields, h => by
    rw [jsonb, jsonbFields_of_plainNumbers fields h]

/-- A list whose numbers are plain is stored as it stands. -/
theorem jsonbItems_of_plainNumbers :
    ∀ xs : List Json, plainNumbersItems xs = true → jsonbItems xs = xs
  | [], _ => rfl
  | x :: xs, h => by
    rw [plainNumbersItems, Bool.and_eq_true] at h
    rw [jsonbItems, jsonb_of_plainNumbers x h.1, jsonbItems_of_plainNumbers xs h.2]

/-- A dict whose numbers are plain is stored as it stands. -/
theorem jsonbFields_of_plainNumbers :
    ∀ fields : List (JStr × Json), plainNumbersFields fields = true →
      jsonbFields fields = fields
  | [], _ => rfl
  | (k, v) :: rest, h => by
    rw [plainNumbersFields, Bool.and_eq_true] at h
    rw [jsonbFields, jsonb_of_plainNumbers v h.1, jsonbFields_of_plainNumbers rest h.2]

end

/-! ### Counting signs

The text of a changed number loses a sign character: the `+` of its exponent, or the `-` of
negative zero.  No text gains one, and sorting keys only moves them, so counting signs tells
whether any number changed. -/

/-- How many signs a text has. -/
def signs (text : List Char) : ℕ := text.countP fun c => c == '+' || c == '-'

@[simp] theorem signs_nil : signs [] = 0 := rfl

@[simp] theorem signs_append (a b : List Char) : signs (a ++ b) = signs a + signs b :=
  List.countP_append

/-- One character more. -/
theorem signs_cons (c : Char) (text : List Char) :
    signs (c :: text) = signs text + if c == '+' || c == '-' then 1 else 0 :=
  List.countP_cons

/-- Digits have no sign. -/
theorem signs_digits (n : ℕ) : signs (Nat.toDigits 10 n) = 0 := by
  rw [signs, List.countP_eq_zero]
  intro c hc hsign
  have hdigit := isDigit_of_mem_toDigits c hc
  rw [Bool.or_eq_true, beq_iff_eq, beq_iff_eq] at hsign
  rcases hsign with rfl | rfl <;> exact absurd hdigit (by decide)

/-- The separator has no sign. -/
theorem signs_joinComma (parts : List (List Char)) :
    signs (joinComma parts) = (parts.map signs).sum := by
  induction parts with
  | nil => rfl
  | cons part rest ih =>
    cases rest with
    | nil => simp [joinComma]
    | cons next rest =>
      rw [joinComma, signs_append, signs_cons, signs_cons, ih, List.map_cons, List.sum_cons]
      · rfl
      · exact List.cons_ne_nil _ _

/-- The text of a float is its sign followed by the text of its magnitude. -/
theorem floatRepr_sign (x : PyFloat) :
    floatRepr x = (if x.negative then ['-'] else []) ++ floatRepr { x with negative := false } := by
  unfold floatRepr PyFloat.exponential
  cases x.value <;> simp only [Bool.false_eq_true, if_false, List.nil_append]
  case ofRat q => split_ifs <;> simp

/-- A finite float is written in its shortest form. -/
theorem dumpsFloat_finite {x : PyFloat} {q : ℚ} (h : x.value = .ofRat q) :
    dumpsFloat x = floatRepr x := by
  rw [dumpsFloat, h]

/-- The text of a float with a large exponent has the exponent's sign. -/
theorem one_le_signs_floatRepr {x : PyFloat} {q : ℚ} (hvalue : x.value = .ofRat q)
    (hpoint : 16 < x.point) : 1 ≤ signs (floatRepr x) := by
  have hexp : x.exponential = true := by
    rw [PyFloat.exponential, Bool.or_eq_true, decide_eq_true_eq, decide_eq_true_eq]
    exact Or.inr hpoint
  have hpos : ¬ x.point - 1 < 0 := by omega
  have hplus : '+' ∈ floatRepr x := by
    simp [floatRepr, hvalue, hexp, hpos]
  exact List.countP_pos_iff.mpr ⟨'+', hplus, by decide⟩

/-- An integer has at most the one sign it starts with. -/
theorem signs_intText_le (n : ℤ) : signs (intText n) ≤ if n < 0 then 1 else 0 := by
  unfold intText
  by_cases hneg : n < 0
  · rw [if_pos hneg, if_pos hneg, signs_cons, signs_digits]
    decide
  · rw [if_neg hneg, if_neg hneg, signs_digits]

/-- A changed float loses a sign. -/
theorem signs_jsonbFloat (x : PyFloat) :
    signs (dumps (jsonbFloat x)) ≤ signs (dumpsFloat x) ∧
      (signs (dumps (jsonbFloat x)) = signs (dumpsFloat x) →
        x.widened = false ∧ x.negativeZero = false) := by
  unfold jsonbFloat
  by_cases hwide : x.widened = true
  · rw [if_pos hwide]
    -- the exponent's sign goes, and the integer has the sign of the float
    unfold PyFloat.widened at hwide
    split at hwide
    case h_2 => exact absurd hwide (by simp)
    case h_1 q hvalue =>
      rw [Bool.and_eq_true, decide_eq_true_eq] at hwide
      have hplus := one_le_signs_floatRepr (x := { x with negative := false }) hvalue hwide.1
      have hint := signs_intText_le x.widenedInt
      have htext : signs (dumpsFloat x) = (if x.negative then 1 else 0) +
          signs (floatRepr { x with negative := false }) := by
        rw [dumpsFloat_finite hvalue, floatRepr_sign x, signs_append]
        cases x.negative <;> rfl
      have hneg : (if x.widenedInt < 0 then 1 else 0) ≤ if x.negative then 1 else 0 := by
        cases hn : x.negative with
        | true => split <;> simp
        | false =>
          have hpos : 0 ≤ x.widenedInt := by
            rw [PyFloat.widenedInt, hn]
            exact mul_nonneg (Int.natCast_nonneg _) (pow_nonneg (by decide) _)
          rw [if_neg (not_lt.mpr hpos)]
          exact Nat.zero_le _
      have hlt : signs (dumps (.int x.widenedInt)) < signs (dumpsFloat x) := by
        rw [dumps, htext]
        omega
      exact ⟨hlt.le, fun h => absurd h hlt.ne⟩
  · rw [if_neg hwide]
    by_cases hzero : x.negativeZero = true
    · rw [if_pos hzero]
      rw [PyFloat.negativeZero, Bool.and_eq_true, beq_iff_eq] at hzero
      have hlt : signs (dumps (.float { x with negative := false })) < signs (dumpsFloat x) := by
        rw [dumps, dumpsFloat_finite (x := { x with negative := false }) hzero.2,
          dumpsFloat_finite hzero.2, floatRepr_sign x, hzero.1, signs_append]
        show _ < 1 + _
        omega
      exact ⟨hlt.le, fun h => absurd h hlt.ne⟩
    · rw [if_neg hzero]
      exact ⟨le_rfl, fun _ => ⟨by simpa using hwide, by simpa using hzero⟩⟩

/-- The signs of an object's text: those of its keys and of its values' texts. -/
theorem signs_dumps_obj (fields : List (JStr × Json)) :
    signs (dumps (.obj fields)) =
      (fields.map fun p => signs (dumpsStr p.1) + signs (dumps p.2)).sum := by
  have hfields : dumpsFields fields = fields.map fun p => (p.1, dumps p.2) := by
    induction fields with
    | nil => rfl
    | cons p rest ih => rw [dumpsFields, ih, List.map_cons]
  have hperm := (List.perm_insertionSort (fun a b : JStr × List Char => JStr.lt b.1 a.1 = false)
    (dumpsFields fields)).map fun p => signs (dumpsField p)
  rw [dumps, signs_cons, signs_append, signs_joinComma, List.map_map]
  show (List.map (fun p => signs (dumpsField p)) (sortKeys (dumpsFields fields))).sum = _
  rw [sortKeys, hperm.sum_eq, hfields, List.map_map]
  refine congrArg List.sum (List.map_congr_left fun p _ => ?_)
  show signs (dumpsStr p.1 ++ ':' :: ' ' :: dumps p.2) = _
  rw [signs_append, signs_cons, signs_cons]
  rfl

/-- The signs of a list are those of its items. -/
theorem signs_dumps_arr (xs : List Json) :
    signs (dumps (.arr xs)) = (xs.map fun x => signs (dumps x)).sum := by
  have hitems : dumpsItems xs = xs.map dumps := by
    induction xs with
    | nil => rfl
    | cons x rest ih => rw [dumpsItems, ih, List.map_cons]
  rw [dumps, signs_cons, signs_append, signs_joinComma, hitems, List.map_map]
  rfl

mutual

/-- **No text gains a sign**, and one that keeps all its signs is the text of a plain value. -/
theorem signs_jsonb : ∀ v : Json, signs (dumps (jsonb v)) ≤ signs (dumps v) ∧
    (signs (dumps (jsonb v)) = signs (dumps v) → plainNumbers v = true)
  | .null => ⟨le_rfl, fun _ => rfl⟩
  | .bool _ => ⟨le_rfl, fun _ => rfl⟩
  | .int _ => ⟨le_rfl, fun _ => rfl⟩
  | .str _ => ⟨le_rfl, fun _ => rfl⟩
  | .float x => by
    obtain ⟨hle, heq⟩ := signs_jsonbFloat x
    refine ⟨by rw [jsonb, dumps]; exact hle, fun h => ?_⟩
    obtain ⟨hwide, hzero⟩ := heq (by rw [jsonb, dumps] at h; exact h)
    rw [plainNumbers, hwide, hzero]
    rfl
  | .arr xs => by
    rw [jsonb, signs_dumps_arr, signs_dumps_arr, plainNumbers]
    exact signs_jsonbItems xs
  | .obj fields => by
    rw [jsonb, signs_dumps_obj, signs_dumps_obj, plainNumbers]
    exact signs_jsonbFields fields

/-- Storing a list loses signs exactly if it changes a number of it. -/
theorem signs_jsonbItems : ∀ xs : List Json,
    ((jsonbItems xs).map fun x => signs (dumps x)).sum ≤ (xs.map fun x => signs (dumps x)).sum ∧
    (((jsonbItems xs).map fun x => signs (dumps x)).sum = (xs.map fun x => signs (dumps x)).sum →
      plainNumbersItems xs = true)
  | [] => ⟨le_rfl, fun _ => rfl⟩
  | x :: xs => by
    obtain ⟨hle, heq⟩ := signs_jsonb x
    obtain ⟨hles, heqs⟩ := signs_jsonbItems xs
    rw [jsonbItems, List.map_cons, List.map_cons, List.sum_cons, List.sum_cons,
      plainNumbersItems]
    refine ⟨by omega, fun h => ?_⟩
    rw [heq (by omega), heqs (by omega)]
    rfl

/-- Storing a dict loses signs exactly if it changes a number of it. -/
theorem signs_jsonbFields : ∀ fields : List (JStr × Json),
    ((jsonbFields fields).map fun p => signs (dumpsStr p.1) + signs (dumps p.2)).sum ≤
        (fields.map fun p => signs (dumpsStr p.1) + signs (dumps p.2)).sum ∧
    (((jsonbFields fields).map fun p => signs (dumpsStr p.1) + signs (dumps p.2)).sum =
        (fields.map fun p => signs (dumpsStr p.1) + signs (dumps p.2)).sum →
      plainNumbersFields fields = true)
  | [] => ⟨le_rfl, fun _ => rfl⟩
  | (k, v) :: rest => by
    obtain ⟨hle, heq⟩ := signs_jsonb v
    obtain ⟨hles, heqs⟩ := signs_jsonbFields rest
    rw [jsonbFields, List.map_cons, List.map_cons, List.sum_cons, List.sum_cons,
      plainNumbersFields]
    refine ⟨by simp only; omega, fun h => ?_⟩
    simp only at h
    rw [heq (by omega), heqs (by omega)]
    rfl

end

/-- **A surviving text is that of a plain value.** -/
theorem plainNumbers_of_dumps_jsonb {v : Json} (h : dumps (jsonb v) = dumps v) :
    plainNumbers v = true :=
  (signs_jsonb v).2 (by rw [h])

end RootSign
