import RootSign.Python.Runtime

namespace RootSign.Python

/-!
# SHA-256 and a concrete interpreter

`sha256Hex` is `hashlib.sha256(text.encode("utf-8")).hexdigest()`, written out so that the
properties can be evaluated on concrete files.  `cpython` is the `Runtime` built on it: its
readers cover the canonical texts the library itself writes.
-/

namespace Sha256

/-- A 32-bit word. -/
abbrev Word := BitVec 32

/-- The round constants. -/
def roundConstants : List Word :=
  [0x428a2f98, 0x71374491, 0xb5c0fbcf, 0xe9b5dba5, 0x3956c25b, 0x59f111f1, 0x923f82a4,
   0xab1c5ed5, 0xd807aa98, 0x12835b01, 0x243185be, 0x550c7dc3, 0x72be5d74, 0x80deb1fe,
   0x9bdc06a7, 0xc19bf174, 0xe49b69c1, 0xefbe4786, 0x0fc19dc6, 0x240ca1cc, 0x2de92c6f,
   0x4a7484aa, 0x5cb0a9dc, 0x76f988da, 0x983e5152, 0xa831c66d, 0xb00327c8, 0xbf597fc7,
   0xc6e00bf3, 0xd5a79147, 0x06ca6351, 0x14292967, 0x27b70a85, 0x2e1b2138, 0x4d2c6dfc,
   0x53380d13, 0x650a7354, 0x766a0abb, 0x81c2c92e, 0x92722c85, 0xa2bfe8a1, 0xa81a664b,
   0xc24b8b70, 0xc76c51a3, 0xd192e819, 0xd6990624, 0xf40e3585, 0x106aa070, 0x19a4c116,
   0x1e376c08, 0x2748774c, 0x34b0bcb5, 0x391c0cb3, 0x4ed8aa4a, 0x5b9cca4f, 0x682e6ff3,
   0x748f82ee, 0x78a5636f, 0x84c87814, 0x8cc70208, 0x90befffa, 0xa4506ceb, 0xbef9a3f7,
   0xc67178f2]

/-- The eight chaining words. -/
structure State where
  (a b c d e f g h : Word)

/-- The initial chaining words. -/
def State.init : State :=
  ⟨0x6a09e667, 0xbb67ae85, 0x3c6ef372, 0xa54ff53a, 0x510e527f, 0x9b05688c, 0x1f83d9ab,
   0x5be0cd19⟩

/-- One round with its constant and schedule word. -/
def round (s : State) (kw : Word × Word) : State :=
  let s1 := s.e.rotateRight 6 ^^^ s.e.rotateRight 11 ^^^ s.e.rotateRight 25
  let ch := (s.e &&& s.f) ^^^ (~~~ s.e &&& s.g)
  let t1 := s.h + s1 + ch + kw.1 + kw.2
  let s0 := s.a.rotateRight 2 ^^^ s.a.rotateRight 13 ^^^ s.a.rotateRight 22
  let maj := (s.a &&& s.b) ^^^ (s.a &&& s.c) ^^^ (s.b &&& s.c)
  ⟨t1 + (s0 + maj), s.a, s.b, s.c, s.d + t1, s.e, s.f, s.g⟩

/-- The next schedule word; the schedule is kept newest first. -/
def nextWord (ws : List Word) : Word :=
  let w15 := ws.getD 14 0
  let w2 := ws.getD 1 0
  let s0 := w15.rotateRight 7 ^^^ w15.rotateRight 18 ^^^ (w15 >>> 3)
  let s1 := w2.rotateRight 17 ^^^ w2.rotateRight 19 ^^^ (w2 >>> 10)
  ws.getD 15 0 + s0 + ws.getD 6 0 + s1

/-- Extend a newest-first schedule by `n` words. -/
def extendSchedule : ℕ → List Word → List Word
  | 0, ws => ws
  | n + 1, ws => extendSchedule n (nextWord ws :: ws)

/-- Compress one block of sixteen words. -/
def compress (s : State) (block : List Word) : State :=
  let ws := (extendSchedule 48 block.reverse).reverse
  let r := (roundConstants.zip ws).foldl round s
  ⟨s.a + r.a, s.b + r.b, s.c + r.c, s.d + r.d, s.e + r.e, s.f + r.f, s.g + r.g, s.h + r.h⟩

/-- Big-endian words of a byte string whose length is a multiple of four. -/
def words : List ℕ → List Word
  | w :: x :: y :: z :: rest =>
    BitVec.ofNat 32 (w * 0x1000000 + x * 0x10000 + y * 0x100 + z) :: words rest
  | _ => []

/-- Padding: `0x80`, zeros, and the bit length in eight bytes. -/
def pad (bytes : List ℕ) : List ℕ :=
  let bits := 8 * bytes.length
  bytes ++ 0x80 :: List.replicate ((119 - bytes.length % 64) % 64) 0 ++
    (List.range 8).map fun i => bits / 256 ^ (7 - i) % 256

/-- Compress all blocks. -/
def compressAll : ℕ → State → List Word → State
  | 0, s, _ => s
  | n + 1, s, ws => compressAll n (compress s (ws.take 16)) (ws.drop 16)

/-- The eight hexadecimal digits of a word. -/
def wordHex (w : Word) : List Char :=
  (List.range 8).map fun i => hexDigit (w.toNat / 16 ^ (7 - i) % 16)

/-- The hexadecimal digest of a byte string. -/
def hexdigest (bytes : List ℕ) : List Char :=
  let ws := words (pad bytes)
  let s := compressAll (ws.length / 16) State.init ws
  [s.a, s.b, s.c, s.d, s.e, s.f, s.g, s.h].flatMap wordHex

end Sha256

/-- `hashlib.sha256(text.encode("utf-8")).hexdigest()`. -/
def sha256Hex (text : List Char) : JStr :=
  JStr.ofChars (Sha256.hexdigest
    ((text.flatMap String.utf8EncodeChar).map UInt8.toNat))

/-! ### Shape of a digest -/

/-- A hexadecimal digit is one code unit, and a hexadecimal one. -/
theorem encodeChar_hexDigit {n : ℕ} (h : n < 16) :
    ∃ u, JStr.encodeChar (hexDigit n) = [u] ∧ isHexUnit u = true := by
  have : ∀ m < 16, (JStr.encodeChar (hexDigit m)).length = 1 ∧
      (JStr.encodeChar (hexDigit m)).all isHexUnit = true := by decide
  obtain ⟨hlen, hall⟩ := this n h
  obtain ⟨u, hu⟩ := List.length_eq_one_iff.mp hlen
  exact ⟨u, hu, by simpa [hu] using hall⟩

/-- The units of a list of hexadecimal digits. -/
theorem units_hexDigits {ns : List ℕ} (h : ∀ n ∈ ns, n < 16) :
    ((ns.map hexDigit).flatMap JStr.encodeChar).length = ns.length ∧
      ((ns.map hexDigit).flatMap JStr.encodeChar).all isHexUnit = true := by
  induction ns with
  | nil => simp
  | cons n ns ih =>
    obtain ⟨u, hu, hhex⟩ := encodeChar_hexDigit (h n (by simp))
    obtain ⟨hlen, hall⟩ := ih fun m hm => h m (by simp [hm])
    simp [hu, hlen, hhex, hall]

theorem sha256Hex_hex (text : List Char) : isHex64 (sha256Hex text) = true := by
  let digits (w : Sha256.Word) : List ℕ := (List.range 8).map fun i => w.toNat / 16 ^ (7 - i) % 16
  have hword : ∀ w, Sha256.wordHex w = (digits w).map hexDigit := fun w => by
    simp [Sha256.wordHex, digits]
  have hhex : ∀ ws : List Sha256.Word, ws.flatMap Sha256.wordHex
      = (ws.flatMap digits).map hexDigit := fun ws => by
    rw [List.map_flatMap]; exact List.flatMap_congr fun w _ => hword w
  have hsmall : ∀ ws : List Sha256.Word, ∀ n ∈ ws.flatMap digits, n < 16 := by
    intro ws n hn
    simp only [List.mem_flatMap, digits, List.mem_map] at hn
    obtain ⟨_, _, _, _, rfl⟩ := hn
    exact Nat.mod_lt _ (by decide)
  unfold sha256Hex Sha256.hexdigest
  simp only [hhex]
  obtain ⟨hlen, hall⟩ := units_hexDigits (hsmall _)
  rw [isHex64, Bool.and_eq_true, JStr.ofChars]
  refine ⟨?_, hall⟩
  rw [beq_iff_eq, hlen]
  simp [digits]

/-! ### A concrete interpreter -/

/-- Canonical UUID texts are read back; other spellings are left out. -/
def readUuid (s : JStr) : Option Uuid :=
  if h : isCanonicalUuid s = true then some ⟨s, h⟩ else none

/-- A `Runtime` with the real SHA-256, reading timestamps by `fromisoformat`. -/
def cpython (fromisoformat : JStr → Option PyDateTime) : Runtime where
  sha256 := sha256Hex
  sha256_hex := sha256Hex_hex
  reprContainer := fun _ => ""
  floatPred := fun x =>
    match x.value with
    | .ofRat q => .ofRat (q - 1)
    | v => v
  fromisoformat := fromisoformat
  parseInt := fun _ => none
  parseUuid := readUuid
  parseUuid_text := by intro u; simp [readUuid, u.canonical]

/-- The interpreter of the examples. -/
def exampleRuntime : Runtime := cpython fun _ => none

/-- `2026-05-01T12:00:00+00:00`. -/
def mayNoon : UtcNow where
  time :=
    { ticks := 63913233600000000
      offset := some 0
      ticks_lt := by decide
      offset_lt := zeroOffset_lt }
  utc := rfl
  in_range := by decide

/-- An id for the examples. -/
def exampleUuid (n : Fin 10) : Uuid where
  text := JStr.ofChars ("00000000-0000-4000-8000-00000000000".toList ++ [hexDigit n])
  canonical := by decide +revert +kernel

/-- An event id for the examples. -/
def exampleEvent : Uuid := exampleUuid 1

/-- An agent id for the examples. -/
def exampleAgent : Uuid := exampleUuid 2

/-- Ids that the examples mint. -/
def freshUuid (n : ℕ) : Uuid := exampleUuid (Fin.ofNat 10 n)

/-- A record id for the examples. -/
def exampleRecord : Uuid := exampleUuid 4

/-- A session id for the examples. -/
def exampleSession : Uuid := exampleUuid 3

end RootSign.Python
