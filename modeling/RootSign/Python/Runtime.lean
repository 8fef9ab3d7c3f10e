import RootSign.Python.Datetime

namespace RootSign.Python

/-!
# What the model takes from the interpreter

The sealers and verifiers call a few built-ins whose results the properties do not depend
on beyond the documented facts stated here.  A `Runtime` supplies them; every theorem holds
for every `Runtime`.

* `sha256` is `hashlib.sha256(text.encode("utf-8")).hexdigest()`, of which only the shape of
  its result is used: 64 lowercase hexadecimal digits;
* `parseUuid` is `UUID(text)`, which reads every canonical UUID text back;
* `fromisoformat`, `parseInt`, `reprContainer` and `floatPred` are `datetime.fromisoformat`,
  `int` on a string, `str` on a list or dict, and `x - 1` on a float.
-/

/-! ### Hexadecimal texts and UUIDs -/

/-- A lowercase hexadecimal digit. -/
def isHexUnit (u : CodeUnit) : Bool :=
  (0x30 ≤ u.val && u.val ≤ 0x39) || (0x61 ≤ u.val && u.val ≤ 0x66)

/-- `re.match(r"^[0-9a-f]{64}$", s)`. -/
def isHex64 (s : JStr) : Bool := s.units.length == 64 && s.units.all isHexUnit

/-- The canonical text of a UUID: lowercase hexadecimal, grouped 8-4-4-4-12. -/
def isCanonicalUuid (s : JStr) : Bool :=
  s.units.length == 36 &&
    s.units.zipIdx.all fun p =>
      if p.2 = 8 ∨ p.2 = 13 ∨ p.2 = 18 ∨ p.2 = 23 then p.1.val == 0x2D else isHexUnit p.1

/-- A `uuid.UUID`, held as its canonical text. -/
@[ext] structure Uuid where
  text : JStr
  canonical : isCanonicalUuid text = true
deriving DecidableEq

/-! ### The built-ins -/

/-- The built-ins the model leaves open. -/
structure Runtime where
  sha256 : List Char → JStr
  sha256_hex : ∀ text, isHex64 (sha256 text) = true
  reprContainer : Json → JStr
  floatPred : PyFloat → ExtRat
  fromisoformat : JStr → Option PyDateTime
  parseInt : JStr → Option ℤ
  parseUuid : JStr → Option Uuid
  parseUuid_text : ∀ u : Uuid, parseUuid u.text = some u

namespace Runtime

variable (rt : Runtime)

/-- `str(v)`. -/
def pyStr : Json → JStr
  | .null => "None"
  | .bool b => if b then "True" else "False"
  | .int n => JStr.ofChars (intText n)
  | .float x => JStr.ofChars (floatRepr x)
  | .str s => s
  | .arr xs => rt.reprContainer (.arr xs)
  | .obj fields => rt.reprContainer (.obj fields)

@[simp] theorem pyStr_str (s : JStr) : rt.pyStr (.str s) = s := rfl

/-- `int(v)`. -/
def pyInt : Json → Except PyError ℤ
  | .bool b => .ok (if b then 1 else 0)
  | .int n => .ok n
  | .float x =>
    match x.value with
    | .ofRat q => .ok (if q < 0 then -(-q).floor else q.floor)
    | _ => .error .overflowError
  | .str s =>
    match rt.parseInt s with
    | some n => .ok n
    | none => .error (.valueError "invalid literal for int() with base 10")
  | _ => .error .typeError

/-- `v - 1`, or `none` where Python raises `TypeError`. -/
def minusOne : Json → Option ExtRat
  | .float x => some (rt.floatPred x)
  | v => v.asInt.map fun n => .ofRat ((n - 1 : ℤ) : ℚ)

/-- `UUID(str(v))`. -/
def toUuid (v : Json) : Except PyError Uuid :=
  match rt.parseUuid (rt.pyStr v) with
  | some u => .ok u
  | none => .error (.valueError "badly formed hexadecimal UUID string")

@[simp] theorem toUuid_text (u : Uuid) : rt.toUuid (.str u.text) = .ok u := by
  simp [toUuid, rt.parseUuid_text]

/-- A digest is a truthy string. -/
theorem sha256_units_ne_nil (text : List Char) : (rt.sha256 text).units ≠ [] := by
  have h := rt.sha256_hex text
  intro hnil
  simp [isHex64, hnil] at h

@[simp] theorem truthy_sha256 (text : List Char) :
    (Json.str (rt.sha256 text)).truthy = true := by
  simp [Json.truthy, rt.sha256_units_ne_nil text]

end Runtime

end RootSign.Python
