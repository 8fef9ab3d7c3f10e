import RootSign.Python.Json

namespace RootSign.Python

open RootSign.Lib

/-!
# `json.dumps(…, sort_keys=True, ensure_ascii=True)`

The serializer both hashes are computed from, with its default separators.  The text is
ASCII, so it is modelled as a list of characters.

* `dumpsStr` escapes quotes, backslashes, control characters and everything outside ASCII;
* `dumps` writes a value, `sortKeys` orders an object's fields by key;
* `dumpsStr_prefixFree`, `dumps_scalar_inj` — a string or integer can be read back off the
  front of the text it was written into, which is what makes a serialized object with fixed
  keys determine its values.
-/

/-! ### Strings -/

/-- One lowercase hexadecimal digit. -/
def hexDigit (n : ℕ) : Char :=
  if n < 10 then Char.ofNat (48 + n) else Char.ofNat (87 + n)

/-- The letter of a two-character escape, for the units that have one. -/
def shortEscape (u : CodeUnit) : Option Char :=
  if u.val = 0x22 then some (Char.ofNat 0x22)
  else if u.val = 0x5C then some '\\'
  else if u.val = 0x0A then some 'n'
  else if u.val = 0x0D then some 'r'
  else if u.val = 0x09 then some 't'
  else if u.val = 0x0C then some 'f'
  else if u.val = 0x08 then some 'b'
  else none

/-- The escape of one code unit: `\n`-style, itself when printable ASCII, else `\uXXXX`. -/
def escapeUnit (u : CodeUnit) : List Char :=
  match shortEscape u with
  | some c => ['\\', c]
  | none =>
    if 0x20 ≤ u.val ∧ u.val ≤ 0x7E then [Char.ofNat u.val]
    else ['\\', 'u', hexDigit (u.val / 0x1000), hexDigit (u.val / 0x100 % 0x10),
      hexDigit (u.val / 0x10 % 0x10), hexDigit (u.val % 0x10)]

/-- The quote character. -/
def quote : Char := Char.ofNat 0x22

/-- `json.dumps` of a string. -/
def dumpsStr (s : JStr) : List Char := quote :: (s.units.flatMap escapeUnit ++ [quote])

/-! ### Numbers -/

/-- `str(n)` of an integer. -/
def intText (n : ℤ) : List Char :=
  if n < 0 then '-' :: Nat.toDigits 10 n.natAbs else Nat.toDigits 10 n.natAbs

/-- Whether `repr` writes a float with an exponent. -/
def PyFloat.exponential (x : PyFloat) : Bool := x.point ≤ -4 || 16 < x.point

/-- `float.__repr__`: the shortest digits, with an exponent outside `1e-4 … 1e16`. -/
def floatRepr (x : PyFloat) : List Char :=
  let sign := if x.negative then ['-'] else []
  let ds := Nat.toDigits 10 x.digits
  match x.value with
  | .negInf => sign ++ "inf".toList
  | .posInf => sign ++ "inf".toList
  | .ofRat _ =>
    if x.exponential then
      let e := x.point - 1
      let mantissa := if ds.length ≤ 1 then ds else ds.take 1 ++ '.' :: ds.drop 1
      let exponent := Nat.toDigits 10 e.natAbs
      sign ++ mantissa ++ 'e' :: (if e < 0 then '-' else '+') ::
        (if exponent.length < 2 then '0' :: exponent else exponent)
    else if x.point ≤ 0 then
      sign ++ "0.".toList ++ List.replicate x.point.natAbs '0' ++ ds
    else if ds.length ≤ x.point.toNat then
      sign ++ ds ++ List.replicate (x.point.toNat - ds.length) '0' ++ ".0".toList
    else sign ++ ds.take x.point.toNat ++ '.' :: ds.drop x.point.toNat

/-- `json.dumps` of a float: `repr`, except for the infinities. -/
def dumpsFloat (x : PyFloat) : List Char :=
  match x.value with
  | .negInf => "-Infinity".toList
  | .posInf => "Infinity".toList
  | .ofRat _ => floatRepr x

/-! ### Values -/

/-- An object's fields in key order. -/
def sortKeys (fields : List (JStr × List Char)) : List (JStr × List Char) :=
  fields.insertionSort fun a b => JStr.lt b.1 a.1 = false

/-- `", ".join(parts)`. -/
def joinComma : List (List Char) → List Char
  | [] => []
  | [part] => part
  | part :: rest => part ++ ',' :: ' ' :: joinComma rest

/-- `"key": value`. -/
def dumpsField (field : JStr × List Char) : List Char :=
  dumpsStr field.1 ++ ':' :: ' ' :: field.2

mutual

/-- `json.dumps(v, sort_keys=True, ensure_ascii=True)`. -/
def dumps : Json → List Char
  | .null => "null".toList
  | .bool true => "true".toList
  | .bool false => "false".toList
  | .int n => intText n
  | .float x => dumpsFloat x
  | .str s => dumpsStr s
  | .arr xs => '[' :: (joinComma (dumpsItems xs) ++ [']'])
  | .obj fields => '{' :: (joinComma ((sortKeys (dumpsFields fields)).map dumpsField) ++ ['}'])

/-- The serialized items of a list. -/
def dumpsItems : List Json → List (List Char)
  | [] => []
  | x :: xs => dumps x :: dumpsItems xs

/-- The fields of an object with their values serialized. -/
def dumpsFields : List (JStr × Json) → List (JStr × List Char)
  | [] => []
  | (k, v) :: rest => (k, dumps v) :: dumpsFields rest

end

/-- The order of the fields depends on the keys only. -/
theorem sortKeys_map {α : Type} (text : α → List Char) (fields : List (JStr × α)) :
    sortKeys (fields.map fun p => (p.1, text p.2)) =
      (fields.insertionSort fun a b => JStr.lt b.1 a.1 = false).map fun p => (p.1, text p.2) := by
  exact (List.map_insertionSort (fun a b : JStr × α => JStr.lt b.1 a.1 = false)
    (fun a b : JStr × List Char => JStr.lt b.1 a.1 = false) (fun p => (p.1, text p.2)) fields
    fun _ _ _ _ => Iff.rfl).symm

/-! ### Reading strings back -/

theorem hexDigit_toNat {n : ℕ} (h : n < 16) :
    (hexDigit n).toNat = if n < 10 then 48 + n else 87 + n := by
  have : ∀ m < 16, (hexDigit m).toNat = if m < 10 then 48 + m else 87 + m := by decide
  exact this n h

theorem hexDigit_inj {m n : ℕ} (hm : m < 16) (hn : n < 16) (h : hexDigit m = hexDigit n) :
    m = n := by
  have := congrArg Char.toNat h
  rw [hexDigit_toNat hm, hexDigit_toNat hn] at this
  split at this <;> split at this <;> omega

/-- A printable ASCII unit is its own character. -/
theorem toNat_ofNat_ascii {n : ℕ} (h : n ≤ 0x7E) : (Char.ofNat n).toNat = n := by
  have : ∀ m < 0x7F, (Char.ofNat m).toNat = m := by decide
  exact this n (by omega)

/-- The unit a two-character escape stands for. -/
def unitOfShort (c : Char) : ℕ :=
  if c = 'n' then 0x0A else if c = 'r' then 0x0D else if c = 't' then 0x09
  else if c = 'f' then 0x0C else if c = 'b' then 0x08 else c.toNat

theorem unitOfShort_of_shortEscape {u : CodeUnit} {c : Char} (h : shortEscape u = some c) :
    unitOfShort c = u.val := by
  unfold shortEscape at h
  split_ifs at h with h1 h2 h3 h4 h5 h6 h7 <;> cases h
  · rw [h1]; decide
  · rw [h2]; decide
  · rw [h3]; decide
  · rw [h4]; decide
  · rw [h5]; decide
  · rw [h6]; decide
  · rw [h7]; decide

/-- Two-character escapes are distinct. -/
theorem shortEscape_inj {u v : CodeUnit} {c : Char} (hu : shortEscape u = some c)
    (hv : shortEscape v = some c) : u = v :=
  Fin.ext (by rw [← unitOfShort_of_shortEscape hu, unitOfShort_of_shortEscape hv])

/-- No two-character escape looks like `\u`. -/
theorem shortEscape_ne_u {u : CodeUnit} : shortEscape u ≠ some 'u' := by
  unfold shortEscape
  split_ifs <;> decide

/-- A unit without a two-character escape is neither a quote nor a backslash. -/
theorem plain_of_shortEscape_none {u : CodeUnit} (h : shortEscape u = none) :
    u.val ≠ 0x22 ∧ u.val ≠ 0x5C := by
  unfold shortEscape at h
  split_ifs at h with h1 h2
  exact ⟨h1, h2⟩

/-- The first character of an escape is not a quote. -/
theorem escapeUnit_head (u : CodeUnit) : ∃ c cs, escapeUnit u = c :: cs ∧ c ≠ quote := by
  unfold escapeUnit
  cases hs : shortEscape u with
  | some c => exact ⟨_, _, rfl, by decide⟩
  | none =>
    split_ifs with hp
    · refine ⟨_, _, rfl, fun h => (plain_of_shortEscape_none hs).1 ?_⟩
      have := congrArg Char.toNat h
      rwa [toNat_ofNat_ascii hp.2, quote, toNat_ofNat_ascii (by decide)] at this
    · exact ⟨_, _, rfl, by decide⟩

/-- A backslash is not the character of a printable unit without a short escape. -/
theorem backslash_ne_plain {u : CodeUnit} (hs : shortEscape u = none) (hp : u.val ≤ 0x7E) :
    '\\' ≠ Char.ofNat u.val := by
  intro h
  have := congrArg Char.toNat h
  rw [toNat_ofNat_ascii hp] at this
  exact (plain_of_shortEscape_none hs).2 this.symm

/-- **Escapes are prefix-free.** The first one or two characters tell the three forms apart,
    and each form determines its unit. -/
theorem escapeUnit_prefixFree : PrefixFree escapeUnit := by
  intro u v s t _ _ heq
  unfold escapeUnit at heq
  -- by the form of either escape: short, plain or `\uXXXX`
  cases hu : shortEscape u with
  | some c =>
    cases hv : shortEscape v with
    | some d =>
      simp only [hu, hv, List.cons_append, List.nil_append, List.cons.injEq, true_and] at heq
      exact ⟨shortEscape_inj hu (heq.1 ▸ hv), heq.2⟩
    | none =>
      -- a plain character is no backslash
      simp only [hu, hv] at heq
      split_ifs at heq with hp
      · simp only [List.cons_append, List.nil_append, List.cons.injEq] at heq
        exact absurd heq.1 (backslash_ne_plain hv hp.2)
      -- no short escape ends in `u`
      · simp only [List.cons_append, List.nil_append, List.cons.injEq, true_and] at heq
        exact absurd (heq.1 ▸ hu) shortEscape_ne_u
  | none =>
    cases hv : shortEscape v with
    | some d =>
      simp only [hu, hv] at heq
      split_ifs at heq with hp
      · simp only [List.cons_append, List.nil_append, List.cons.injEq] at heq
        exact absurd heq.1.symm (backslash_ne_plain hu hp.2)
      · simp only [List.cons_append, List.nil_append, List.cons.injEq, true_and] at heq
        exact absurd (heq.1.symm ▸ hv) shortEscape_ne_u
    | none =>
      simp only [hu, hv] at heq
      split_ifs at heq with hp hq hq
      · simp only [List.cons_append, List.nil_append, List.cons.injEq] at heq
        have := congrArg Char.toNat heq.1
        rw [toNat_ofNat_ascii hp.2, toNat_ofNat_ascii hq.2] at this
        exact ⟨Fin.ext this, heq.2⟩
      · simp only [List.cons_append, List.nil_append, List.cons.injEq] at heq
        exact absurd heq.1.symm (backslash_ne_plain hu hp.2)
      · simp only [List.cons_append, List.nil_append, List.cons.injEq] at heq
        exact absurd heq.1 (backslash_ne_plain hv hq.2)
      · simp only [List.cons_append, List.nil_append, List.cons.injEq, true_and] at heq
        -- four equal hexadecimal digits determine the unit
        obtain ⟨h1, h2, h3, h4, hst⟩ := heq
        have hu := u.isLt
        have hv := v.isLt
        have e1 := hexDigit_inj (by omega) (by omega) h1
        have e2 := hexDigit_inj (by omega) (by omega) h2
        have e3 := hexDigit_inj (by omega) (by omega) h3
        have e4 := hexDigit_inj (by omega) (by omega) h4
        exact ⟨Fin.ext (by omega), hst⟩

/-- A serialized string can be read back off the front of any text. -/
theorem dumpsStr_prefixFree : PrefixFree dumpsStr := by
  intro a b s t _ _ heq
  simp only [dumpsStr, List.cons_append, List.cons.injEq, true_and] at heq
  obtain ⟨hunits, hst⟩ := (escapeUnit_prefixFree.flatMap_stop quote escapeUnit_head).split heq
  exact ⟨JStr.ext hunits, hst⟩

/-! ### Reading integers back -/

/-- A text that does not continue a number. -/
def NotDigitFirst (s : List Char) : Prop := ∀ c cs, s = c :: cs → c.isDigit = false

/-- Digits followed by something else can be split off. -/
theorem digits_append_inj {xs ys s t : List Char} (hx : ∀ c ∈ xs, c.isDigit = true)
    (hy : ∀ c ∈ ys, c.isDigit = true) (hs : NotDigitFirst s) (ht : NotDigitFirst t)
    (heq : xs ++ s = ys ++ t) : xs = ys ∧ s = t := by
  induction xs generalizing ys with
  | nil =>
    cases ys with
    | nil => exact ⟨rfl, heq⟩
    | cons y ys =>
      have h1 := hs y (ys ++ t) heq
      rw [hy y (by simp)] at h1
      exact absurd h1 (by decide)
  | cons x xs ih =>
    cases ys with
    | nil =>
      have h1 := ht x (xs ++ s) heq.symm
      rw [hx x (by simp)] at h1
      exact absurd h1 (by decide)
    | cons y ys =>
      simp only [List.cons_append, List.cons.injEq] at heq
      obtain ⟨rfl, hrest⟩ := heq
      obtain ⟨rfl, hst⟩ := ih (fun c hc => hx c (by simp [hc])) (fun c hc => hy c (by simp [hc]))
        hrest
      exact ⟨rfl, hst⟩

theorem isDigit_of_mem_toDigits {n : ℕ} : ∀ c ∈ Nat.toDigits 10 n, c.isDigit = true :=
  fun _ hc => Nat.isDigit_of_mem_toDigits (by decide) (by decide) hc

/-- Decimal texts determine their numbers. -/
theorem toDigits_inj {m n : ℕ} (h : Nat.toDigits 10 m = Nat.toDigits 10 n) : m = n := by
  have := congrArg (fun ds => Nat.ofDigitChars 10 ds 0) h
  simpa [Nat.ofDigitChars_ten_toDigits] using this

/-- The first character of a serialized integer is a digit or a minus sign. -/
theorem intText_head (n : ℤ) :
    ∃ c cs, intText n = c :: cs ∧ (c.isDigit = true ∨ c = '-') := by
  unfold intText
  split_ifs
  · exact ⟨_, _, rfl, Or.inr rfl⟩
  · cases hd : Nat.toDigits 10 n.natAbs with
    | nil => exact absurd hd Nat.toDigits_ne_nil
    | cons c cs => exact ⟨c, cs, rfl, Or.inl (isDigit_of_mem_toDigits c (by rw [hd]; simp))⟩

/-- A serialized integer can be read back when no digit follows it. -/
theorem intText_selfDelimiting : SelfDelimiting NotDigitFirst intText := by
  intro m n s t hs ht heq
  have hminus : ∀ {k : ℕ} {x y : List Char}, '-' :: x ≠ Nat.toDigits 10 k ++ y := by
    intro k x y h
    cases hd : Nat.toDigits 10 k with
    | nil => exact absurd hd Nat.toDigits_ne_nil
    | cons c cs =>
      rw [hd, List.cons_append, List.cons.injEq] at h
      have := isDigit_of_mem_toDigits c (by rw [hd]; simp)
      rw [← h.1] at this
      exact absurd this (by decide)
  have hsplit : ∀ {j k : ℕ}, Nat.toDigits 10 j ++ s = Nat.toDigits 10 k ++ t → j = k ∧ s = t := by
    intro j k h
    obtain ⟨hd, hst⟩ := digits_append_inj isDigit_of_mem_toDigits isDigit_of_mem_toDigits hs ht h
    exact ⟨toDigits_inj hd, hst⟩
  unfold intText at heq
  split_ifs at heq with hm hn hn
  · simp only [List.cons_append, List.cons.injEq, true_and] at heq
    obtain ⟨habs, hst⟩ := hsplit heq
    exact ⟨by omega, hst⟩
  · exact absurd heq hminus
  · exact absurd heq.symm hminus
  · obtain ⟨habs, hst⟩ := hsplit heq
    exact ⟨by omega, hst⟩

/-! ### Strings and integers -/

/-- A string or an integer. -/
def Json.IsScalar : Json → Prop
  | .str _ => True
  | .int _ => True
  | _ => False

/-- A serialized string or integer can be read back when no digit follows it. -/
theorem dumps_scalar_inj {v w : Json} {s t : List Char} (hv : v.IsScalar) (hw : w.IsScalar)
    (hs : NotDigitFirst s) (ht : NotDigitFirst t) (heq : dumps v ++ s = dumps w ++ t) :
    v = w ∧ s = t := by
  have hquote : ∀ {n : ℤ} {a : JStr} {x y : List Char}, dumpsStr a ++ x ≠ intText n ++ y := by
    intro n a x y h
    obtain ⟨c, cs, hc, hor⟩ := intText_head n
    rw [hc, dumpsStr, List.cons_append, List.cons_append, List.cons.injEq] at h
    rw [← h.1] at hor
    exact absurd hor (by decide)
  cases v <;> cases w <;> simp only [Json.IsScalar] at hv hw
  case int.int m n =>
    simp only [dumps] at heq
    obtain ⟨rfl, hst⟩ := intText_selfDelimiting m n s t hs ht heq
    exact ⟨rfl, hst⟩
  case int.str m b => simp only [dumps] at heq; exact absurd heq.symm hquote
  case str.int a n => simp only [dumps] at heq; exact absurd heq hquote
  case str.str a b =>
    simp only [dumps] at heq
    obtain ⟨rfl, hst⟩ := dumpsStr_prefixFree.split heq
    exact ⟨rfl, hst⟩

end RootSign.Python
