import RootSign.Python.Dumps

namespace RootSign.Python

/-!
# `json.dumps(…, ensure_ascii=False)` and its bytes

The text of a value, indented or with sorted keys, which keeps characters outside ASCII as they are,
and its UTF-8 encoding, which there is none of for an unpaired surrogate.

* `prettyDumps`, `sortedDumps` — the texts; `utf8Encode` — the bytes of a text;
* `paired`, `Closed` — the texts that can be encoded, and those that can be cut off the front of a
  text without separating a pair;
* `Json.paired`, `says_prettyDumps` — a value's text can be encoded exactly when each of its strings
  can.
-/

/-! ### The text -/

/-- The code units of a literal. -/
def lit (s : String) : List CodeUnit := (JStr.ofString s).units

/-- The escape of one code unit: only quotes, backslashes and control characters have one. -/
def escapeControl (u : CodeUnit) : List CodeUnit :=
  match shortEscape u with
  | some c => (JStr.ofChars ['\\', c]).units
  | none =>
    if u.val < 0x20 then
      (JStr.ofChars ['\\', 'u', '0', '0', hexDigit (u.val / 0x10), hexDigit (u.val % 0x10)]).units
    else [u]

/-- The quote. -/
def quoteUnits : List CodeUnit := (JStr.ofChars [quote]).units

/-- A string in quotes. -/
def prettyStr (s : JStr) : List CodeUnit :=
  quoteUnits ++ s.units.flatMap escapeControl ++ quoteUnits

/-- A line break and the indentation of a level. -/
def newline (level : ℕ) : List CodeUnit :=
  (JStr.ofChars ('\n' :: List.replicate (2 * level) ' ')).units

mutual

/-- `json.dumps(v, indent=2, ensure_ascii=False)`, at a level of indentation. -/
def prettyDumps (level : ℕ) : Json → List CodeUnit
  | .null => lit "null"
  | .bool true => lit "true"
  | .bool false => lit "false"
  | .int n => (JStr.ofChars (intText n)).units
  | .float x => (JStr.ofChars (dumpsFloat x)).units
  | .str s => prettyStr s
  | .arr [] => lit "[]"
  | .arr (v :: rest) =>
    lit "[" ++ newline (level + 1) ++ prettyDumps (level + 1) v ++ prettyItems (level + 1) rest ++
      newline level ++ lit "]"
  | .obj [] => lit "\x7b\x7d"
  | .obj ((k, v) :: rest) =>
    lit "\x7b" ++ newline (level + 1) ++ (prettyStr k ++ lit ": " ++ prettyDumps (level + 1) v) ++
      prettyFields (level + 1) rest ++ newline level ++ lit "\x7d"

/-- The items after the first. -/
def prettyItems (level : ℕ) : List Json → List CodeUnit
  | [] => []
  | v :: rest => lit "," ++ newline level ++ prettyDumps level v ++ prettyItems level rest

/-- The fields after the first. -/
def prettyFields (level : ℕ) : List (JStr × Json) → List CodeUnit
  | [] => []
  | (k, v) :: rest =>
    lit "," ++ newline level ++ (prettyStr k ++ lit ": " ++ prettyDumps level v) ++
      prettyFields level rest

end

/-- `sep.join(parts)`. -/
def joinUnits (sep : List CodeUnit) : List (List CodeUnit) → List CodeUnit
  | [] => []
  | [part] => part
  | part :: rest => part ++ sep ++ joinUnits sep rest

/-- The fields of an object by key. -/
def sortUnits (fields : List (JStr × List CodeUnit)) : List (JStr × List CodeUnit) :=
  fields.insertionSort fun a b => JStr.lt b.1 a.1 = false

mutual

/-- `json.dumps(v, ensure_ascii=False, sort_keys=True)`. -/
def sortedDumps : Json → List CodeUnit
  | .null => lit "null"
  | .bool true => lit "true"
  | .bool false => lit "false"
  | .int n => (JStr.ofChars (intText n)).units
  | .float x => (JStr.ofChars (dumpsFloat x)).units
  | .str s => prettyStr s
  | .arr items => lit "[" ++ joinUnits (lit ", ") (sortedItems items) ++ lit "]"
  | .obj fields =>
    lit "\x7b" ++ joinUnits (lit ", ")
      ((sortUnits (sortedFields fields)).map fun p => prettyStr p.1 ++ lit ": " ++ p.2) ++
      lit "\x7d"

/-- The items of a list. -/
def sortedItems : List Json → List (List CodeUnit)
  | [] => []
  | v :: rest => sortedDumps v :: sortedItems rest

/-- The fields of an object. -/
def sortedFields : List (JStr × Json) → List (JStr × List CodeUnit)
  | [] => []
  | (k, v) :: rest => (k, sortedDumps v) :: sortedFields rest

end

/-! ### UTF-8 -/

/-- A high surrogate. -/
def isHigh (u : CodeUnit) : Bool := decide (0xD800 ≤ u.val ∧ u.val < 0xDC00)

/-- A low surrogate. -/
def isLow (u : CodeUnit) : Bool := decide (0xDC00 ≤ u.val ∧ u.val < 0xE000)

/-- The characters of a text, or nothing if a surrogate is unpaired. -/
def scalarValues : List CodeUnit → Option (List Char)
  | [] => some []
  | [u] => if isHigh u || isLow u then none else some [Char.ofNat u.val]
  | u :: v :: rest =>
    if isHigh u then
      if isLow v then
        (scalarValues rest).map fun cs =>
          Char.ofNat (0x10000 + (u.val - 0xD800) * 0x400 + (v.val - 0xDC00)) :: cs
      else none
    else if isLow u then none
    else (scalarValues (v :: rest)).map fun cs => Char.ofNat u.val :: cs

/-- `text.encode("utf-8")`, or nothing where it raises `UnicodeEncodeError`. -/
def utf8Encode (text : List CodeUnit) : Option (List UInt8) :=
  (scalarValues text).map fun cs => cs.flatMap String.utf8EncodeChar

/-- Whether every surrogate of a text is paired; `open_` says whether a high one stands before. -/
def paired : Bool → List CodeUnit → Bool
  | open_, [] => !open_
  | false, u :: rest => if isHigh u then paired true rest else !isLow u && paired false rest
  | true, u :: rest => isLow u && paired false rest

section

variable {s t : List CodeUnit} {u : CodeUnit}

/-- The texts that can be encoded are those whose surrogates are paired. -/
theorem scalarValues_isSome : ∀ text, (scalarValues text).isSome = paired false text
  | [] => rfl
  | [u] => by
    cases hhigh : isHigh u with
    | true => simp [scalarValues, paired, hhigh]
    | false => cases hlow : isLow u <;> simp [scalarValues, paired, hhigh, hlow]
  | u :: v :: rest => by
    have hrest := scalarValues_isSome rest
    have hnext := scalarValues_isSome (v :: rest)
    cases hhigh : isHigh u with
    | true =>
      cases hlow : isLow v with
      | true => simp [scalarValues, paired, hhigh, hlow, hrest]
      | false => simp [scalarValues, paired, hhigh, hlow]
    | false =>
      rw [scalarValues, paired, hhigh]
      cases hlow : isLow u with
      | true => simp
      | false => simpa [hlow] using hnext

/-- A text that can be cut off the front of any other. -/
def Closed (s : List CodeUnit) : Prop :=
  ∀ t, paired false (s ++ t) = (paired false s && paired false t)

/-- Two closed parts, one behind the other. -/
theorem Closed.append (hs : Closed s) (ht : Closed t) : Closed (s ++ t) := by
  intro r
  rw [List.append_assoc, hs, ht, hs, Bool.and_assoc]

theorem closed_nil : Closed [] := fun _ => rfl

/-- A unit that is no surrogate ends what stands before it. -/
theorem paired_append_cons (hhigh : isHigh u = false) (hlow : isLow u = false) :
    ∀ (open_ : Bool) (s t : List CodeUnit),
      paired open_ (s ++ u :: t) = (paired open_ s && paired false t) := by
  intro open_ s t
  induction s generalizing open_ with
  | nil => cases open_ <;> simp [paired, hhigh, hlow]
  | cons v rest ih =>
    rw [List.cons_append]
    cases open_ with
    | false =>
      simp only [paired]
      split_ifs
      · exact ih true
      · rw [ih false, Bool.and_assoc]
    | true => rw [paired, paired, ih false, Bool.and_assoc]

/-- The units of characters are paired, and pair with nothing that follows. -/
theorem paired_chars (cs : List Char) :
    paired false (JStr.ofChars cs).units = true ∧ Closed (JStr.ofChars cs).units := by
  have hpair : ∀ (high low : CodeUnit) (t : List CodeUnit), isHigh high = true →
      isLow low = true → paired false (high :: low :: t) = paired false t := by
    intro high low t hhigh hlow
    simp [paired, hhigh, hlow]
  -- one character at a time: one unit outside the surrogates, or a high one and a low one
  have hchar : ∀ (c : Char) (t : List CodeUnit),
      paired false (JStr.encodeChar c ++ t) = paired false t := by
    intro c t
    have hrange := JStr.toNat_range c
    unfold JStr.encodeChar
    split
    case isTrue h =>
      have hhigh : isHigh ⟨c.toNat, h⟩ = false := by
        simp only [isHigh, decide_eq_false_iff_not]
        omega
      have hlow : isLow ⟨c.toNat, h⟩ = false := by
        simp only [isLow, decide_eq_false_iff_not]
        omega
      simp [paired, hhigh, hlow]
    case isFalse h =>
      have hhigh : isHigh (Fin.ofNat 0x10000 (0xD800 + (c.toNat - 0x10000) / 0x400)) = true := by
        simp only [isHigh, Fin.val_ofNat, decide_eq_true_eq]
        omega
      have hlow : isLow (Fin.ofNat 0x10000 (0xDC00 + (c.toNat - 0x10000) % 0x400)) = true := by
        simp only [isLow, Fin.val_ofNat, decide_eq_true_eq]
        omega
      exact hpair _ _ t hhigh hlow
  -- by induction on the text before the units that follow
  have hall : ∀ t, paired false ((JStr.ofChars cs).units ++ t) = paired false t := by
    intro t
    show paired false (cs.flatMap JStr.encodeChar ++ t) = _
    induction cs with
    | nil => rfl
    | cons c rest ih => rw [List.flatMap_cons, List.append_assoc, hchar, ih]
  have hself : paired false (JStr.ofChars cs).units = true := by
    have h := hall []
    rw [List.append_nil] at h
    rw [h]
    rfl
  exact ⟨hself, fun t => by rw [hall, hself, Bool.true_and]⟩

/-- A unit with an escape is no surrogate. -/
theorem not_surrogate_of_val (h : u.val < 0xD800) : isHigh u = false ∧ isLow u = false := by
  simp only [isHigh, isLow, decide_eq_false_iff_not]
  omega

/-- No surrogate has a short escape. -/
theorem lt_of_shortEscape {c : Char} (h : shortEscape u = some c) : u.val < 0xD800 := by
  unfold shortEscape at h
  split_ifs at h
  all_goals omega

/-- Characters that begin with a backslash stand for a unit that is no surrogate. -/
theorem paired_backslash (cs : List Char) (open_ : Bool) (s : List CodeUnit) :
    paired open_ ((JStr.ofChars ('\\' :: cs)).units ++ s) = (!open_ && paired false s) := by
  cases open_ with
  | false =>
    obtain ⟨hself, hclosed⟩ := paired_chars ('\\' :: cs)
    rw [hclosed, hself]
    rfl
  | true => rfl

/-- An escape changes nothing about the surrogates of a text. -/
theorem paired_escape (open_ : Bool) (units : List CodeUnit) :
    paired open_ (units.flatMap escapeControl) = paired open_ units := by
  induction units generalizing open_ with
  | nil => rfl
  | cons u rest ih =>
    rw [List.flatMap_cons]
    -- what is escaped is no surrogate, and neither is any character of its escape
    have hplain : u.val < 0xD800 → paired open_ (u :: rest) = (!open_ && paired false rest) := by
      intro hu
      obtain ⟨hhigh, hlow⟩ := not_surrogate_of_val hu
      cases open_ <;> simp [paired, hhigh, hlow]
    cases hshort : shortEscape u with
    | some c =>
      have hesc : escapeControl u = (JStr.ofChars ['\\', c]).units := by
        simp only [escapeControl, hshort]
      rw [hesc, paired_backslash, ih, hplain (lt_of_shortEscape hshort)]
    | none =>
      by_cases hcontrol : u.val < 0x20
      · have hesc : escapeControl u =
            (JStr.ofChars ['\\', 'u', '0', '0', hexDigit (u.val / 0x10),
              hexDigit (u.val % 0x10)]).units := by
          simp only [escapeControl, hshort, if_pos hcontrol]
        rw [hesc, paired_backslash, ih, hplain (by omega)]
      · have hesc : escapeControl u = [u] := by
          simp only [escapeControl, hshort, if_neg hcontrol]
        rw [hesc, List.singleton_append]
        cases open_ with
        | false => simp only [paired, ih]
        | true => simp only [paired, ih]

/-- A text between quotes can be cut off, if it can be encoded. -/
theorem paired_prettyStr (s : JStr) :
    paired false (prettyStr s) = paired false s.units ∧ Closed (prettyStr s) := by
  obtain ⟨hquote, hclosed⟩ := paired_chars [quote]
  have hall : ∀ t, paired false (prettyStr s ++ t) = (paired false s.units && paired false t) := by
    intro t
    show paired false ((quoteUnits ++ s.units.flatMap escapeControl ++ quoteUnits) ++ t) = _
    rw [List.append_assoc, List.append_assoc]
    show paired false ((JStr.ofChars [quote]).units ++ _) = _
    rw [hclosed, hquote, Bool.true_and]
    show paired false (s.units.flatMap escapeControl ++ ⟨0x22, by decide⟩ :: t) = _
    rw [paired_append_cons (by decide) (by decide), paired_escape]
  have hself : paired false (prettyStr s) = paired false s.units := by
    have h := hall []
    rw [List.append_nil] at h
    rw [h]
    exact Bool.and_true _
  exact ⟨hself, fun t => by rw [hall, hself]⟩

end

/-! ### Values whose text can be encoded -/

mutual

/-- Whether the strings of a value can be encoded. -/
def Json.paired : Json → Bool
  | .str s => RootSign.Python.paired false s.units
  | .arr items => pairedItems items
  | .obj fields => pairedFields fields
  | _ => true

/-- `Json.paired` of each item. -/
def Json.pairedItems : List Json → Bool
  | [] => true
  | v :: rest => Json.paired v && pairedItems rest

/-- `Json.paired` of each key and each value. -/
def Json.pairedFields : List (JStr × Json) → Bool
  | [] => true
  | (k, v) :: rest => RootSign.Python.paired false k.units && Json.paired v && pairedFields rest

end

/-- What is shown of a part of a text: it can be cut off, and whether it can be encoded. -/
def Says (text : List CodeUnit) (b : Bool) : Prop := Closed text ∧ paired false text = b

/-- Two parts say together what both say. -/
theorem Says.append {s t : List CodeUnit} {a b : Bool} (hs : Says s a) (ht : Says t b) :
    Says (s ++ t) (a && b) :=
  ⟨hs.1.append ht.1, by rw [hs.1, hs.2, ht.2]⟩

theorem says_lit (s : String) : Says (lit s) true := ⟨(paired_chars _).2, (paired_chars _).1⟩

theorem says_newline (level : ℕ) : Says (newline level) true :=
  ⟨(paired_chars _).2, (paired_chars _).1⟩

theorem says_chars (cs : List Char) : Says (JStr.ofChars cs).units true :=
  ⟨(paired_chars cs).2, (paired_chars cs).1⟩

/-- A string says whether it is paired. -/
theorem says_str (s : JStr) : Says (prettyStr s) (paired false s.units) :=
  ⟨(paired_prettyStr s).2, (paired_prettyStr s).1⟩

mutual

/-- **The text of a value** can be encoded exactly when each of its strings can. -/
theorem says_prettyDumps : ∀ (level : ℕ) (v : Json), Says (prettyDumps level v) v.paired
  | _, .null => says_lit _
  | _, .bool true => says_lit _
  | _, .bool false => says_lit _
  | _, .int n => says_chars _
  | _, .float x => says_chars _
  | _, .str s => says_str s
  | _, .arr [] => says_lit _
  | level, .arr (v :: rest) => by
    have h := (((((says_lit "[").append (says_newline (level + 1))).append
      (says_prettyDumps (level + 1) v)).append (says_prettyItems (level + 1) rest)).append
      (says_newline level)).append (says_lit "]")
    simpa [prettyDumps, Json.paired, Json.pairedItems] using h
  | _, .obj [] => says_lit _
  | level, .obj ((k, v) :: rest) => by
    have h := (((((says_lit "\x7b").append (says_newline (level + 1))).append
      (((says_str k).append (says_lit ": ")).append (says_prettyDumps (level + 1) v))).append
      (says_prettyFields (level + 1) rest)).append (says_newline level)).append (says_lit "\x7d")
    simpa [prettyDumps, Json.paired, Json.pairedFields] using h

/-- The items of a list say whether all of them are paired. -/
theorem says_prettyItems : ∀ (level : ℕ) (items : List Json),
    Says (prettyItems level items) (Json.pairedItems items)
  | _, [] => ⟨closed_nil, rfl⟩
  | level, v :: rest => by
    have h := (((says_lit ",").append (says_newline level)).append
      (says_prettyDumps level v)).append (says_prettyItems level rest)
    simpa [prettyItems, Json.pairedItems] using h

/-- The fields of a dict say whether all keys and values are paired. -/
theorem says_prettyFields : ∀ (level : ℕ) (fields : List (JStr × Json)),
    Says (prettyFields level fields) (Json.pairedFields fields)
  | _, [] => ⟨closed_nil, rfl⟩
  | level, (k, v) :: rest => by
    have h := (((says_lit ",").append (says_newline level)).append
      (((says_str k).append (says_lit ": ")).append (says_prettyDumps level v))).append
      (says_prettyFields level rest)
    simpa [prettyFields, Json.pairedFields] using h

end

end RootSign.Python
