import RootSign.Python.Runtime

namespace RootSign

open RootSign.Lib RootSign.Python

/-!
# The two hashes (`rootsign/hashing.py`, `rootsign/sdk/hashing.py`)

* `computeActionSelfHash` is the frozen canonical hash of an action: eight fields, ids by
  `str()`, `output_hash` and `prev_action_hash` coerced to `""` when falsy, serialized with
  sorted keys.
* `computePayloadHash` fingerprints a redacted payload.
* `Canonical.serialized_inj` — for string and integer fields the serialized text determines
  every canonical field.
-/

/-! ### The canonical hash -/

/-- The canonical fields, after the coercions. -/
@[ext] structure Canonical where
  action_id : JStr
  session_id : JStr
  tool_name : Json
  input_hash : Json
  output_hash : Json
  prev_action_hash : Json
  timestamp : Json
  sequence_number : Json

namespace Canonical

/-- The canonical dict, in the order the source writes it. -/
def toDict (c : Canonical) : Dict :=
  Dict.ofFields
    [("action_id", .str c.action_id),
     ("session_id", .str c.session_id),
     ("tool_name", c.tool_name),
     ("input_hash", c.input_hash),
     ("output_hash", c.output_hash),
     ("prev_action_hash", c.prev_action_hash),
     ("timestamp", c.timestamp),
     ("sequence_number", c.sequence_number)]

/-- `json.dumps(canonical, sort_keys=True, ensure_ascii=True)`. -/
def serialized (c : Canonical) : List Char := dumps (.obj c.toDict)

/-- The digest of the serialized canonical fields. -/
def selfHash (rt : Runtime) (c : Canonical) : JStr := rt.sha256 c.serialized

end Canonical

/-- The canonical fields of an action dict; the first missing one raises `KeyError`. -/
def canonicalOf (rt : Runtime) (action : Dict) : Except PyError Canonical := do
  let timestamp ← action.item "timestamp"
  let action_id ← action.item "action_id"
  let session_id ← action.item "session_id"
  let tool_name ← action.item "tool_name"
  let input_hash ← action.item "input_hash"
  let sequence_number ← action.item "sequence_number"
  return {
    action_id := rt.pyStr action_id
    session_id := rt.pyStr session_id
    tool_name := tool_name
    input_hash := input_hash
    output_hash := (action.get "output_hash").orEmpty
    prev_action_hash := (action.get "prev_action_hash").orEmpty
    timestamp := timestamp
    sequence_number := sequence_number }

/-- `compute_action_self_hash`. -/
def computeActionSelfHash (rt : Runtime) (action : Dict) : Except PyError JStr := do
  let canonical ← canonicalOf rt action
  return canonical.selfHash rt

/-- `compute_payload_hash`: the empty text for `None`, else the sorted JSON text. -/
def computePayloadHash (rt : Runtime) : Json → JStr
  | .null => rt.sha256 []
  | payload => rt.sha256 (dumps payload)

/-- The dict has every field the canonical hash indexes. -/
structure HasCanonicalFields (r : Dict) : Prop where
  timestamp : r.has "timestamp"
  action_id : r.has "action_id"
  session_id : r.has "session_id"
  tool_name : r.has "tool_name"
  input_hash : r.has "input_hash"
  sequence_number : r.has "sequence_number"

/-- The canonical fields as `get` reads them. -/
def Canonical.ofDict (rt : Runtime) (r : Dict) : Canonical where
  action_id := rt.pyStr (r.get "action_id")
  session_id := rt.pyStr (r.get "session_id")
  tool_name := r.get "tool_name"
  input_hash := r.get "input_hash"
  output_hash := (r.get "output_hash").orEmpty
  prev_action_hash := (r.get "prev_action_hash").orEmpty
  timestamp := r.get "timestamp"
  sequence_number := r.get "sequence_number"

/-- With every field there, the canonical hash is that of the fields read by `get`. -/
theorem computeActionSelfHash_eq (rt : Runtime) {r : Dict} (h : HasCanonicalFields r) :
    computeActionSelfHash rt r = .ok ((Canonical.ofDict rt r).selfHash rt) := by
  simp only [computeActionSelfHash, canonicalOf, Dict.item_of_has h.timestamp,
    Dict.item_of_has h.action_id, Dict.item_of_has h.session_id, Dict.item_of_has h.tool_name,
    Dict.item_of_has h.input_hash, Dict.item_of_has h.sequence_number]
  rfl

/-- The canonical hash returns only when every field is there. -/
theorem computeActionSelfHash_ok {rt : Runtime} {r : Dict} {digest : JStr}
    (h : computeActionSelfHash rt r = .ok digest) :
    HasCanonicalFields r ∧ digest = (Canonical.ofDict rt r).selfHash rt := by
  have hfields : HasCanonicalFields r := by
    obtain ⟨c, h, -⟩ := bind_eq_ok.mp h
    obtain ⟨_, h1, h⟩ := bind_eq_ok.mp h
    obtain ⟨_, h2, h⟩ := bind_eq_ok.mp h
    obtain ⟨_, h3, h⟩ := bind_eq_ok.mp h
    obtain ⟨_, h4, h⟩ := bind_eq_ok.mp h
    obtain ⟨_, h5, h⟩ := bind_eq_ok.mp h
    obtain ⟨_, h6, -⟩ := bind_eq_ok.mp h
    exact ⟨(Dict.has_of_item h1).1, (Dict.has_of_item h2).1, (Dict.has_of_item h3).1,
      (Dict.has_of_item h4).1, (Dict.has_of_item h5).1, (Dict.has_of_item h6).1⟩
  rw [computeActionSelfHash_eq rt hfields] at h
  exact ⟨hfields, (Except.ok.inj h).symm⟩

/-- The canonical hash fails only on a missing field. -/
theorem computeActionSelfHash_error {rt : Runtime} {action : Dict} {e : PyError}
    (h : computeActionSelfHash rt action = .error e) : ∃ key, e = .keyError key := by
  have hcanonical : canonicalOf rt action = .error e := by
    rcases bind_eq_error.mp h with h | ⟨c, -, h⟩
    · exact h
    · exact absurd h (by simp [pure, Except.pure])
  -- the six lookups of `canonicalOf`, one after the other
  unfold canonicalOf at hcanonical
  iterate 6
    rcases bind_eq_error.mp hcanonical with h | ⟨_, -, hrest⟩
    · exact ⟨_, Dict.item_eq_error h⟩
    clear hcanonical
    rename _ => hcanonical
  exact absurd hcanonical (by simp [pure, Except.pure])

/-! ### The serialized text -/

/-- The text before the value of a canonical field, with the separator in front of it. -/
def fieldPrefix (first : Bool) (key : String) : List Char :=
  (if first then ['{'] else [',', ' ']) ++ dumpsStr key ++ [':', ' ']

/-- The canonical keys with their positions in the dict the source writes. -/
def canonicalKeys : List (String × Fin 8) :=
  [("action_id", 0), ("session_id", 1), ("tool_name", 2), ("input_hash", 3), ("output_hash", 4),
   ("prev_action_hash", 5), ("timestamp", 6), ("sequence_number", 7)]

/-- The canonical keys in sorted order. -/
def sortedKeys : List (String × Fin 8) :=
  [("action_id", 0), ("input_hash", 3), ("output_hash", 4), ("prev_action_hash", 5),
   ("sequence_number", 7), ("session_id", 1), ("timestamp", 6), ("tool_name", 2)]

theorem canonicalKeys_sorted :
    ((canonicalKeys.map fun p => (JStr.ofString p.1, p.2)).insertionSort
      fun a b => JStr.lt b.1 a.1 = false) = sortedKeys.map fun p => (JStr.ofString p.1, p.2) := by
  decide +kernel

/-- The serialized value at each position. -/
def Canonical.texts (c : Canonical) : Fin 8 → List Char
  | 0 => dumpsStr c.action_id
  | 1 => dumpsStr c.session_id
  | 2 => dumps c.tool_name
  | 3 => dumps c.input_hash
  | 4 => dumps c.output_hash
  | 5 => dumps c.prev_action_hash
  | 6 => dumps c.timestamp
  | 7 => dumps c.sequence_number

theorem Canonical.dumpsFields_toDict (c : Canonical) :
    dumpsFields c.toDict =
      (canonicalKeys.map fun p => (JStr.ofString p.1, p.2)).map fun p => (p.1, c.texts p.2) := by
  simp only [Canonical.toDict, Dict.ofFields, List.map_cons, List.map_nil, dumpsFields, dumps,
    canonicalKeys, Canonical.texts]

/-- The serialized canonical fields, key by key in sorted order. -/
theorem Canonical.serialized_eq (c : Canonical) :
    c.serialized =
      fieldPrefix true "action_id" ++ (dumpsStr c.action_id ++
      (fieldPrefix false "input_hash" ++ (dumps c.input_hash ++
      (fieldPrefix false "output_hash" ++ (dumps c.output_hash ++
      (fieldPrefix false "prev_action_hash" ++ (dumps c.prev_action_hash ++
      (fieldPrefix false "sequence_number" ++ (dumps c.sequence_number ++
      (fieldPrefix false "session_id" ++ (dumpsStr c.session_id ++
      (fieldPrefix false "timestamp" ++ (dumps c.timestamp ++
      (fieldPrefix false "tool_name" ++ (dumps c.tool_name ++ ['}']))))))))))))))) := by
  rw [Canonical.serialized, dumps, Canonical.dumpsFields_toDict, sortKeys_map,
    canonicalKeys_sorted]
  simp only [sortedKeys, List.map_cons, List.map_nil, joinComma, dumpsField, fieldPrefix,
    Canonical.texts]
  simp only [if_true, Bool.false_eq_true, if_false, List.append_assoc, List.cons_append,
    List.nil_append]

/-- The text after a value starts with a separator or the closing brace. -/
theorem notDigitFirst_fieldPrefix (key : String) (rest : List Char) :
    NotDigitFirst (fieldPrefix false key ++ rest) := by
  intro c cs h
  simp only [fieldPrefix, Bool.false_eq_true, if_false, List.cons_append, List.cons.injEq] at h
  rw [← h.1]; rfl

/-- The fields a canonical record reads as they are: strings or integers. -/
structure Canonical.Scalar (c : Canonical) : Prop where
  tool_name : c.tool_name.IsScalar
  input_hash : c.input_hash.IsScalar
  output_hash : c.output_hash.IsScalar
  prev_action_hash : c.prev_action_hash.IsScalar
  timestamp : c.timestamp.IsScalar
  sequence_number : c.sequence_number.IsScalar

/-- **Injectivity of the canonical form.** With string and integer fields, the serialized
    text determines every canonical field: each value is read back off the front of the
    text, and the keys between the values are fixed. -/
theorem Canonical.serialized_inj {c d : Canonical} (hc : c.Scalar) (hd : d.Scalar)
    (heq : c.serialized = d.serialized) : c = d := by
  have hend : NotDigitFirst ['}'] := by
    intro x xs h
    rw [← (List.cons.inj h).1]; rfl
  rw [serialized_eq, serialized_eq] at heq
  obtain ⟨h1, heq⟩ := dumpsStr_prefixFree.split (List.append_cancel_left heq)
  obtain ⟨h2, heq⟩ := dumps_scalar_inj hc.input_hash hd.input_hash
    (notDigitFirst_fieldPrefix _ _) (notDigitFirst_fieldPrefix _ _) (List.append_cancel_left heq)
  obtain ⟨h3, heq⟩ := dumps_scalar_inj hc.output_hash hd.output_hash
    (notDigitFirst_fieldPrefix _ _) (notDigitFirst_fieldPrefix _ _) (List.append_cancel_left heq)
  obtain ⟨h4, heq⟩ := dumps_scalar_inj hc.prev_action_hash hd.prev_action_hash
    (notDigitFirst_fieldPrefix _ _) (notDigitFirst_fieldPrefix _ _) (List.append_cancel_left heq)
  obtain ⟨h5, heq⟩ := dumps_scalar_inj hc.sequence_number hd.sequence_number
    (notDigitFirst_fieldPrefix _ _) (notDigitFirst_fieldPrefix _ _) (List.append_cancel_left heq)
  obtain ⟨h6, heq⟩ := dumpsStr_prefixFree.split (List.append_cancel_left heq)
  obtain ⟨h7, heq⟩ := dumps_scalar_inj hc.timestamp hd.timestamp
    (notDigitFirst_fieldPrefix _ _) (notDigitFirst_fieldPrefix _ _) (List.append_cancel_left heq)
  obtain ⟨h8, -⟩ := dumps_scalar_inj hc.tool_name hd.tool_name hend hend
    (List.append_cancel_left heq)
  exact Canonical.ext h1 h6 h8 h2 h3 h4 h7 h5

end RootSign
