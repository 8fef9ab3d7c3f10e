import Mathlib.Data.List.Basic
import Mathlib.Algebra.Order.Ring.Nat
import RootSign.Lib.PrefixFree

namespace RootSign.Python

open RootSign.Lib

/-!
# Python strings as `json.loads` returns them

`json.loads` joins an escaped surrogate pair into one astral character and keeps an unpaired
surrogate as it is, so the strings it can return correspond one to one to sequences of
UTF-16 code units.  `JStr` is that representation: equality is Python's `==`, and
`codePoints` recovers the sequence Python compares by.

* `JStr.ofString` — the string a source literal denotes; `ofString_inj` makes comparisons of
  literals decidable by `simp`;
* `JStr.lt` — Python's `<` on strings.
-/

/-- One UTF-16 code unit. -/
abbrev CodeUnit := Fin 0x10000

/-- A Python string, as the UTF-16 code units `json.loads` read it from. -/
@[ext] structure JStr where
  units : List CodeUnit
deriving DecidableEq, Repr

namespace JStr

/-! ### Literals -/

/-- The code units of one scalar value: itself, or a surrogate pair. -/
def encodeChar (c : Char) : List CodeUnit :=
  if h : c.toNat < 0x10000 then [⟨c.toNat, h⟩]
  else
    [Fin.ofNat 0x10000 (0xD800 + (c.toNat - 0x10000) / 0x400),
     Fin.ofNat 0x10000 (0xDC00 + (c.toNat - 0x10000) % 0x400)]

/-- The string made of the given characters. -/
def ofChars (cs : List Char) : JStr := ⟨cs.flatMap encodeChar⟩

/-- The string a source literal denotes. -/
def ofString (s : String) : JStr := ofChars s.toList

instance : Coe String JStr := ⟨ofString⟩

instance : Append JStr := ⟨fun a b => ⟨a.units ++ b.units⟩⟩

@[simp] theorem units_append (a b : JStr) : (a ++ b).units = a.units ++ b.units := rfl

theorem encodeChar_ne_nil (c : Char) : encodeChar c ≠ [] := by
  unfold encodeChar; split <;> simp

/-- A scalar value is below `0x110000` and no surrogate. -/
theorem toNat_range (c : Char) : c.toNat < 0xD800 ∨ (0xDFFF < c.toNat ∧ c.toNat < 0x110000) := by
  have h := c.valid
  simpa [UInt32.isValidChar, Nat.isValidChar] using h

/-- The code units of a scalar value can be split off the front of a text: a high surrogate
    never starts a one-unit code. -/
theorem encodeChar_prefixFree : PrefixFree encodeChar := by
  intro a b s t _ _ heq
  have ha := toNat_range a
  have hb := toNat_range b
  have hchar : a.toNat = b.toNat → a = b := fun h => Char.toNat_inj.mp h
  unfold encodeChar at heq
  split at heq <;> split at heq
  case isTrue.isTrue h1 h2 =>
    simp only [List.cons_append, List.nil_append, List.cons.injEq, Fin.mk.injEq] at heq
    exact ⟨hchar heq.1, heq.2⟩
  case isTrue.isFalse h1 h2 =>
    simp only [List.cons_append, List.nil_append, List.cons.injEq, Fin.ext_iff, Fin.val_ofNat]
      at heq
    omega
  case isFalse.isTrue h1 h2 =>
    simp only [List.cons_append, List.nil_append, List.cons.injEq, Fin.ext_iff, Fin.val_ofNat]
      at heq
    omega
  case isFalse.isFalse h1 h2 =>
    simp only [List.cons_append, List.nil_append, List.cons.injEq, Fin.ext_iff, Fin.val_ofNat]
      at heq
    exact ⟨hchar (by omega), heq.2.2⟩

/-- Different characters make different strings. -/
@[simp] theorem ofChars_inj {a b : List Char} : ofChars a = ofChars b ↔ a = b := by
  refine ⟨fun h => ?_, fun h => by rw [h]⟩
  have hunits : a.flatMap encodeChar = b.flatMap encodeChar := congrArg units h
  exact encodeChar_prefixFree.flatMap_injective encodeChar_ne_nil hunits

/-- Different literals denote different strings. -/
@[simp] theorem ofString_inj {a b : String} : ofString a = ofString b ↔ a = b := by
  rw [ofString, ofString, ofChars_inj, String.toList_inj]

/-- `==` on literals is `==` on the source texts. -/
@[simp] theorem ofString_beq (a b : String) : (ofString a == ofString b) = (a == b) := by
  rw [Bool.eq_iff_iff, beq_iff_eq, beq_iff_eq, ofString_inj]

/-! ### Order -/

/-- The code points of a string: a high surrogate followed by a low one is one code point. -/
def codePointsOf : List CodeUnit → List ℕ
  | [] => []
  | [u] => [u.val]
  | u :: v :: rest =>
    if 0xD800 ≤ u.val ∧ u.val < 0xDC00 ∧ 0xDC00 ≤ v.val ∧ v.val < 0xE000 then
      (0x10000 + (u.val - 0xD800) * 0x400 + (v.val - 0xDC00)) :: codePointsOf rest
    else u.val :: codePointsOf (v :: rest)

/-- Whether a high surrogate is followed by a low one: the two are one code point. -/
def isPair (u v : CodeUnit) : Bool :=
  0xD800 ≤ u.val && u.val < 0xDC00 && 0xDC00 ≤ v.val && v.val < 0xE000

/-- The first code points of a string: `s[:n]`. -/
def firstChars : ℕ → List CodeUnit → List CodeUnit
  | 0, _ => []
  | _ + 1, [] => []
  | _ + 1, [u] => [u]
  | n + 1, u :: v :: rest =>
    if isPair u v then u :: v :: firstChars n rest else u :: firstChars n (v :: rest)

/-- A string without its first code point: `s[1:]`. -/
def withoutFirst : List CodeUnit → List CodeUnit
  | u :: v :: rest => if isPair u v then rest else v :: rest
  | _ => []

/-- Lexicographic `<` on code points. -/
def ltPoints : List ℕ → List ℕ → Bool
  | _, [] => false
  | [], _ :: _ => true
  | a :: as, b :: bs => a < b || (a == b && ltPoints as bs)

/-- Python's `<` on strings. -/
def lt (a b : JStr) : Bool := ltPoints (codePointsOf a.units) (codePointsOf b.units)

end JStr

end RootSign.Python
