import RootSign.Python.JsonText
import RootSign.Python.Sha256
import RootSign.Sdk.Receipt
import RootSign.Sdk.Redaction
import Mathlib.Order.Interval.Finset.Nat

namespace RootSign

open RootSign.Python

/-!
# Receipt files (`rootsign/sdk/receipt.py`)

`append_attempt` reads the session's receipt, adds an attempt to it and replaces it, or leaves what
it cannot read where it is and writes a sibling.  Files are bytes; the file system itself does not
fail, and a text is written with the line breaks it has.

* `loadReceipt`, `appendAttempt` — the functions;
* `Appended`, `AppendOnly` — what one call, and a sequence of calls, is to do;
* `Prior`, `Writable` — the files, and the values, with which they do it;
* `append_only_iff` — the calls keep what was there exactly from such files and for such attempts.
-/

/-! ### `json.loads` and `json.dumps` -/

/-- What reading and parsing a file comes to: a `ValueError` or an `OSError`, a `RecursionError`, or
    a value. -/
inductive ParsedFile where
  | refused
  | tooDeep
  | value (v : Json)

/-- The exceptions that leave `append_attempt`. -/
inductive ReceiptError where
  | attributeError
  | recursionError
  | valueError
  | unicodeEncodeError
deriving DecidableEq, Repr

/-- The limits of the interpreter: how deep `json.dumps` can nest, and how many digits it prints. -/
structure JsonLimits where
  depth : ℕ
  max_digits : ℕ

mutual

/-- The exception of `json.dumps(v, indent=2)` for a value inside a number of containers. -/
def dumpsError (w : JsonLimits) (level : ℕ) : Json → Option ReceiptError
  | .int n => if tooManyDigits w.max_digits n then some .valueError else none
  | .arr items =>
    if w.depth ≤ level then some .recursionError else dumpsErrorItems w (level + 1) items
  | .obj fields =>
    if w.depth ≤ level then some .recursionError else dumpsErrorFields w (level + 1) fields
  | _ => none

def dumpsErrorItems (w : JsonLimits) (level : ℕ) : List Json → Option ReceiptError
  | [] => none
  | v :: rest => (dumpsError w level v).or (dumpsErrorItems w level rest)

def dumpsErrorFields (w : JsonLimits) (level : ℕ) : List (JStr × Json) → Option ReceiptError
  | [] => none
  | (_, v) :: rest => (dumpsError w level v).or (dumpsErrorFields w level rest)

end

/-- `_dumps`. -/
def dumpsReceipt (w : JsonLimits) (document : Dict) : Except ReceiptError (List CodeUnit) :=
  match dumpsError w 0 (.obj document) with
  | some e => .error e
  | none => .ok (prettyDumps 0 (.obj document) ++ lit "\n")

/-- `text.encode("utf-8")`. -/
def encodeText (text : List CodeUnit) : Except ReceiptError (List UInt8) :=
  match utf8Encode text with
  | some bytes => .ok bytes
  | none => .error .unicodeEncodeError

/-- `hashlib.sha256(bytes).hexdigest()`. -/
def sha256Bytes (bytes : List UInt8) : JStr :=
  JStr.ofChars (Sha256.hexdigest (bytes.map UInt8.toNat))

/-- `sha256_text`. -/
def sha256Text (text : List CodeUnit) : Except ReceiptError JStr :=
  (encodeText text).map sha256Bytes

/-! ### The files of a session -/

/-- `<session_id>.sync.json`, and `<session_id>.sync.json.corrupt-<n>`. -/
inductive ReceiptPath where
  | receipt
  | corrupt (counter : ℕ)
deriving DecidableEq, Repr

/-- The files of a session in `receipts/`. -/
abbrev ReceiptFiles := List (ReceiptPath × List UInt8)

/-- A path that no file has stands at one of finitely many counters. -/
theorem exists_fresh (files : ReceiptFiles) :
    ∃ counter, 1 ≤ counter ∧ files.lookup (.corrupt counter) = none := by
  by_contra hnone
  push Not at hnone
  have hmem : ∀ counter ∈ Finset.Icc 1 (files.length + 1),
      ReceiptPath.corrupt counter ∈ (files.map Prod.fst).toFinset := by
    intro counter hcounter
    rw [List.mem_toFinset]
    by_contra hnot
    refine hnone counter (Finset.mem_Icc.mp hcounter).1 (List.lookup_eq_none_iff.mpr ?_)
    intro p hp
    rw [bne_iff_ne]
    intro heq
    exact hnot (heq ▸ List.mem_map_of_mem hp)
  have hcard := Finset.card_le_card_of_injOn ReceiptPath.corrupt hmem
    (fun a _ b _ h => by injection h)
  have hle := (files.map Prod.fst).toFinset_card_le
  rw [Nat.card_Icc] at hcard
  rw [List.length_map] at hle
  omega

/-- `_corrupt_sibling`: the first counter from 1 on whose path no file has. -/
def corruptSibling (files : ReceiptFiles) : ReceiptPath := .corrupt (Nat.find (exists_fresh files))

/-- `_write_atomic`. -/
def writeAtomic (files : ReceiptFiles) (path : ReceiptPath) (text : List CodeUnit) :
    Except ReceiptError ReceiptFiles :=
  (encodeText text).map fun bytes => (path, bytes) :: files

/-! ### Loading and appending -/

/-- The exceptions of `load_receipt` and what its caller does about them: `except (ValueError,
    OSError)` passes a `RecursionError` on. -/
inductive LoadError where
  | caught
  | recursionError

/-- `load_receipt`. -/
def loadReceipt (read : List UInt8 → ParsedFile) (bytes : List UInt8) : Except LoadError Dict :=
  match read bytes with
  | .refused => .error .caught
  | .tooDeep => .error .recursionError
  | .value (.obj document) =>
    if (document.lookup (JStr.ofString "attempts")).isSome then .ok document else .error .caught
  | .value _ => .error .caught

/-- The document of a session without a receipt. -/
def newReceipt (session_id : JStr) : Dict :=
  .ofFields [("session_id", .str session_id), ("attempts", .arr [])]

/-- The file that `append_attempt` is to write, and the document it extends. -/
def openReceipt (read : List UInt8 → ParsedFile) (session_id : JStr) (files : ReceiptFiles) :
    Except ReceiptError (ReceiptPath × Dict) :=
  match files.lookup .receipt with
  | none => .ok (.receipt, newReceipt session_id)
  | some bytes =>
    match loadReceipt read bytes with
    | .ok document => .ok (.receipt, document)
    | .error .caught => .ok (corruptSibling files, newReceipt session_id)
    | .error .recursionError => .error .recursionError

/-- `document["attempts"].append(attempt)`. -/
def extendDocument (document attempt : Dict) : Except ReceiptError Dict :=
  match document.get "attempts" with
  | .arr attempts => .ok (document.set "attempts" (.arr (attempts ++ [.obj attempt])))
  | _ => .error .attributeError

/-- `append_attempt`: the path, the digest and the files after it. -/
def appendAttempt (read : List UInt8 → ParsedFile) (w : JsonLimits) (session_id : JStr)
    (files : ReceiptFiles) (attempt : Dict) :
    Except ReceiptError (ReceiptPath × JStr × ReceiptFiles) := do
  let opened ← openReceipt read session_id files
  let document ← extendDocument opened.2 attempt
  let text ← dumpsReceipt w document
  let files ← writeAtomic files opened.1 text
  let sha ← sha256Text text
  .ok (opened.1, sha, files)

/-! ### What is kept -/

/-- The attempts a file is read as having. -/
def attemptsAt (read : List UInt8 → ParsedFile) (files : ReceiptFiles) (path : ReceiptPath) :
    Option (List Json) :=
  match (files.lookup path).map read with
  | some (.value (.obj document)) =>
    match document.lookup (JStr.ofString "attempts") with
    | some (.arr attempts) => some attempts
    | _ => none
  | _ => none

/-- What a call is to do: the digest is that of the file at the path, no other file changes, and the
    attempt comes last after those of the receipt, or is the only one of a fresh sibling. -/
structure Appended (read : List UInt8 → ParsedFile) (files : ReceiptFiles) (attempt : Dict)
    (path : ReceiptPath) (sha : JStr) (files' : ReceiptFiles) : Prop where
  digest : ∃ bytes, files'.lookup path = some bytes ∧ sha = sha256Bytes bytes
  others : ∀ other, other ≠ path → files'.lookup other = files.lookup other
  appended :
    (path = .receipt ∧ (files.lookup .receipt = none ∨ (attemptsAt read files .receipt).isSome) ∧
      attemptsAt read files' .receipt =
        some ((attemptsAt read files .receipt).getD [] ++ [.obj attempt])) ∨
    (path ≠ .receipt ∧ files.lookup path = none ∧ attemptsAt read files' path = some [.obj attempt])

/-- **Append-only**: each call of a sequence returns, having done so. -/
def AppendOnly (read : List UInt8 → ParsedFile) (w : JsonLimits) (session_id : JStr) :
    List Dict → ReceiptFiles → Prop
  | [], _ => True
  | attempt :: rest, files =>
    ∃ path sha files', appendAttempt read w session_id files attempt = .ok (path, sha, files') ∧
      Appended read files attempt path sha files' ∧ AppendOnly read w session_id rest files'

/-! ### The documents that can be written -/

/-- A value that can be written inside a number of containers: nothing in it is nested too deep or
    has too many digits, and none of its strings has an unpaired surrogate. -/
def Writable (w : JsonLimits) (level : ℕ) (v : Json) : Prop :=
  dumpsError w level v = none ∧ v.paired = true

/-- The bytes of a document. -/
def documentBytes (w : JsonLimits) (document : Dict) : Option (List UInt8) :=
  match dumpsReceipt w document with
  | .ok text => utf8Encode text
  | .error _ => none

/-- A document is read back from its bytes. -/
def ReadsBack (read : List UInt8 → ParsedFile) (w : JsonLimits) (document : Dict) : Prop :=
  ∀ bytes, documentBytes w document = some bytes → read bytes = .value (.obj document)

/-- The receipt file before a call, and the document the call is to extend: none, a receipt whose
    attempts are a list, or a file that `load_receipt` refuses. -/
inductive Prior (read : List UInt8 → ParsedFile) (session_id : JStr) :
    Option (List UInt8) → Dict → Prop
  | absent : Prior read session_id none (newReceipt session_id)
  | receipt {bytes : List UInt8} {document : Dict} {attempts : List Json}
      (hread : read bytes = .value (.obj document))
      (hattempts : document.lookup (JStr.ofString "attempts") = some (.arr attempts)) :
      Prior read session_id (some bytes) document
  | refused {bytes : List UInt8} (hrefused : read bytes = .refused) :
      Prior read session_id (some bytes) (newReceipt session_id)
  | other {bytes : List UInt8} {v : Json} (hread : read bytes = .value v)
      (hother : ∀ document : Dict, v = .obj document →
        document.lookup (JStr.ofString "attempts") = none) :
      Prior read session_id (some bytes) (newReceipt session_id)

/-- A document with attempts added. -/
def withAttempts (document : Dict) (attempts : List Dict) : Dict :=
  match document.get "attempts" with
  | .arr earlier => document.set "attempts" (.arr (earlier ++ attempts.map Json.obj))
  | _ => document

section

variable {read : List UInt8 → ParsedFile} {w : JsonLimits} {session_id : JStr}
  {files : ReceiptFiles}
variable {level : ℕ} {document : Dict} {earlier : List Json} {attempt : Dict}

/-- A list is dumped if each of its items is. -/
theorem dumpsErrorItems_eq_none {items : List Json} :
    dumpsErrorItems w level items = none ↔ ∀ v ∈ items, dumpsError w level v = none := by
  induction items with
  | nil => simp [dumpsErrorItems]
  | cons v rest ih => rw [dumpsErrorItems, Option.or_eq_none_iff, ih, List.forall_mem_cons]

/-- A dict is dumped if each of its values is. -/
theorem dumpsErrorFields_eq_none {fields : List (JStr × Json)} :
    dumpsErrorFields w level fields = none ↔ ∀ p ∈ fields, dumpsError w level p.2 = none := by
  induction fields with
  | nil => simp [dumpsErrorFields]
  | cons p rest ih => rw [dumpsErrorFields, Option.or_eq_none_iff, ih, List.forall_mem_cons]

/-- A list is paired if each of its items is. -/
theorem pairedItems_iff {items : List Json} :
    Json.pairedItems items = true ↔ ∀ v ∈ items, v.paired = true := by
  induction items with
  | nil => simp [Json.pairedItems]
  | cons v rest ih => rw [Json.pairedItems, Bool.and_eq_true, ih, List.forall_mem_cons]

/-- A dict is paired if each of its keys and values is. -/
theorem pairedFields_iff {fields : List (JStr × Json)} :
    Json.pairedFields fields = true ↔
      ∀ p ∈ fields, paired false p.1.units = true ∧ p.2.paired = true := by
  induction fields with
  | nil => simp [Json.pairedFields]
  | cons p rest ih =>
    rw [Json.pairedFields, Bool.and_eq_true, Bool.and_eq_true, ih, List.forall_mem_cons]

/-- A list can be written if there is room for it and each of its items can, one level below. -/
theorem writable_arr {items : List Json} :
    Writable w level (.arr items) ↔ level < w.depth ∧ ∀ v ∈ items, Writable w (level + 1) v := by
  unfold Writable
  rw [dumpsError, Json.paired, pairedItems_iff]
  by_cases hdepth : w.depth ≤ level
  · simp [hdepth, Nat.not_lt.mpr hdepth]
  · rw [if_neg hdepth, dumpsErrorItems_eq_none]
    simp [Nat.not_le.mp hdepth, forall_and]

/-- A dict can be written if there is room for it, its keys are paired and each of its values
    can, one level below. -/
theorem writable_obj {fields : List (JStr × Json)} :
    Writable w level (.obj fields) ↔ level < w.depth ∧
      ∀ p ∈ fields, paired false p.1.units = true ∧ Writable w (level + 1) p.2 := by
  unfold Writable
  rw [dumpsError, Json.paired, pairedFields_iff]
  by_cases hdepth : w.depth ≤ level
  · simp [hdepth, Nat.not_lt.mpr hdepth]
  · rw [if_neg hdepth, dumpsErrorFields_eq_none]
    simp [Nat.not_le.mp hdepth, forall_and, and_left_comm]

/-- Setting a key that is there changes what holds of each pair only at that key. -/
theorem forall_mem_set {Q : JStr → Json → Prop} {d : Dict} {key : String} {v v' : Json}
    (hlookup : d.lookup (JStr.ofString key) = some v)
    (hold : Q (JStr.ofString key) v' → Q (JStr.ofString key) v) :
    (∀ p ∈ d.set key v', Q p.1 p.2) ↔ (∀ p ∈ d, Q p.1 p.2) ∧ Q (JStr.ofString key) v' := by
  induction d with
  | nil => simp at hlookup
  | cons p rest ih =>
    obtain ⟨k, value⟩ := p
    rw [List.lookup_cons] at hlookup
    by_cases hk : k = JStr.ofString key
    · subst hk
      simp only [beq_self_eq_true, Option.some.injEq] at hlookup
      subst hlookup
      rw [Dict.set, if_pos rfl, List.forall_mem_cons, List.forall_mem_cons]
      tauto
    · have hne : (JStr.ofString key == k) = false := by
        rw [beq_eq_false_iff_ne]
        exact fun h => hk h.symm
      simp only [hne] at hlookup
      rw [Dict.set, if_neg hk, List.forall_mem_cons, List.forall_mem_cons, ih hlookup, and_assoc]

/-- **Adding an attempt** to a document: it can be written exactly when the document could be, and
    the attempt can be two levels down. -/
theorem writable_withAttempts
    (hlookup : document.lookup (JStr.ofString "attempts") = some (.arr earlier)) :
    Writable w 0 (.obj (withAttempts document [attempt])) ↔
      Writable w 0 (.obj document) ∧ Writable w 2 (.obj attempt) := by
  have hget := Dict.get_of_lookup hlookup
  have hset : withAttempts document [attempt] =
      document.set "attempts" (.arr (earlier ++ [.obj attempt])) := by
    rw [withAttempts, hget]
    rfl
  -- only the list under `attempts` grows, one level down
  have hmore : Writable w 1 (.arr (earlier ++ [.obj attempt])) ↔
      Writable w 1 (.arr earlier) ∧ Writable w 2 (.obj attempt) := by
    rw [writable_arr, writable_arr]
    simp only [List.mem_append, List.mem_singleton, or_imp, forall_and, forall_eq]
    tauto
  have hmem : (JStr.ofString "attempts", Json.arr earlier) ∈ document := by
    obtain ⟨before, after, hsplit, -⟩ := List.lookup_eq_some_iff.mp hlookup
    rw [hsplit]
    exact List.mem_append_right _ List.mem_cons_self
  -- `__setitem__` replaces the one value and leaves the rest
  rw [hset, writable_obj, writable_obj,
    @forall_mem_set (fun k v => paired false k.units = true ∧ Writable w (0 + 1) v) _ _ _ _ hlookup
      (fun h => ⟨h.1, (hmore.mp h.2).1⟩)]
  show _ ↔ (_ ∧ _) ∧ _
  rw [Nat.zero_add, hmore]
  constructor
  · intro h
    exact ⟨⟨h.1, h.2.1⟩, h.2.2.2.2⟩
  · intro h
    have hkey := h.1.2 _ hmem
    exact ⟨h.1.1, h.1.2, hkey.1, hkey.2, h.2⟩

/-- The attempts added stand behind the earlier ones. -/
theorem lookup_withAttempts {attempts : List Dict}
    (hlookup : document.lookup (JStr.ofString "attempts") = some (.arr earlier)) :
    (withAttempts document attempts).lookup (JStr.ofString "attempts") =
      some (.arr (earlier ++ attempts.map Json.obj)) := by
  rw [withAttempts, Dict.get, Dict.getD, hlookup]
  show (document.set "attempts" _).lookup _ = _
  rw [Dict.lookup_set, if_pos rfl]

/-- Setting a key twice. -/
theorem set_set (d : Dict) (key : String) (v v' : Json) :
    (d.set key v).set key v' = d.set key v' := by
  induction d with
  | nil => simp [Dict.set]
  | cons p rest ih =>
    obtain ⟨k, value⟩ := p
    by_cases hk : k = JStr.ofString key
    · simp [Dict.set, hk]
    · simp [Dict.set, hk, ih]

/-- Attempts are added one after the other. -/
theorem withAttempts_cons {attempts : List Dict}
    (hlookup : document.lookup (JStr.ofString "attempts") = some (.arr earlier)) :
    withAttempts (withAttempts document [attempt]) attempts =
      withAttempts document (attempt :: attempts) := by
  have hget := Dict.get_of_lookup hlookup
  have hget' : (withAttempts document [attempt]).get "attempts" =
      .arr (earlier ++ [.obj attempt]) := Dict.get_of_lookup (lookup_withAttempts hlookup)
  rw [withAttempts, hget', withAttempts, withAttempts, hget]
  dsimp only
  rw [set_set, List.append_assoc, List.map_cons]
  rfl

/-! ### One call -/

/-- A value whose text can be written is one whose text there is, and can be encoded. -/
theorem documentBytes_of_writable (h : Writable w 0 (.obj document)) :
    ∃ text bytes, dumpsReceipt w document = .ok text ∧ utf8Encode text = some bytes := by
  have htext : dumpsReceipt w document = .ok (prettyDumps 0 (.obj document) ++ lit "\n") := by
    rw [dumpsReceipt, h.1]
  have hpaired := ((says_prettyDumps 0 (.obj document)).append (says_lit "\n")).2
  rw [h.2, Bool.true_and] at hpaired
  have hchars := scalarValues_isSome (prettyDumps 0 (.obj document) ++ lit "\n")
  rw [hpaired, Option.isSome_iff_exists] at hchars
  obtain ⟨cs, hcs⟩ := hchars
  exact ⟨_, cs.flatMap String.utf8EncodeChar, htext, by rw [utf8Encode, hcs]; rfl⟩

/-- What was written could be written. -/
theorem writable_of_written {text : List CodeUnit} {bytes : List UInt8}
    (htext : dumpsReceipt w document = .ok text) (hbytes : utf8Encode text = some bytes) :
    Writable w 0 (.obj document) := by
  unfold dumpsReceipt at htext
  cases herror : dumpsError w 0 (.obj document) with
  | some e => simp [herror] at htext
  | none =>
    simp only [herror, Except.ok.injEq] at htext
    subst htext
    have hchars := scalarValues_isSome (prettyDumps 0 (.obj document) ++ lit "\n")
    have hpaired := ((says_prettyDumps 0 (.obj document)).append (says_lit "\n")).2
    rw [utf8Encode, Option.map_eq_some_iff] at hbytes
    obtain ⟨cs, hcs, -⟩ := hbytes
    rw [hpaired, hcs, Bool.and_true] at hchars
    exact ⟨herror, hchars.symm⟩

/-- The prior file decides which file is written, and what it extends. -/
theorem openReceipt_of_prior (h : Prior read session_id (files.lookup .receipt) document) :
    ∃ path earlier, openReceipt read session_id files = .ok (path, document) ∧
      document.lookup (JStr.ofString "attempts") = some (.arr earlier) := by
  have hnew : (newReceipt session_id).lookup (JStr.ofString "attempts") = some (.arr []) :=
    Dict.lookup_ofFields _ _
  generalize hmain : files.lookup .receipt = main at h
  cases h with
  | absent => exact ⟨.receipt, [], by simp only [openReceipt, hmain], hnew⟩
  | receipt hread hattempts =>
    exact ⟨.receipt, _, by simp [openReceipt, hmain, loadReceipt, hread, hattempts], hattempts⟩
  | refused hrefused =>
    exact ⟨corruptSibling files, [], by simp [openReceipt, hmain, loadReceipt, hrefused], hnew⟩
  | @other bytes v hread hother =>
    have hload : loadReceipt read bytes = .error .caught := by
      unfold loadReceipt
      rw [hread]
      cases v with
      | obj d => simp [hother d rfl]
      | _ => rfl
    exact ⟨corruptSibling files, [], by simp only [openReceipt, hmain, hload], hnew⟩

/-- A document with a list of attempts comes from such a file. -/
theorem prior_of_openReceipt {path : ReceiptPath}
    (hopen : openReceipt read session_id files = .ok (path, document))
    (hlookup : document.lookup (JStr.ofString "attempts") = some (.arr earlier)) :
    Prior read session_id (files.lookup .receipt) document := by
  -- by what `append_attempt` finds under the receipt's name and what reading it comes to
  unfold openReceipt at hopen
  cases hmain : files.lookup .receipt with
  | none =>
    simp only [hmain, Except.ok.injEq, Prod.mk.injEq] at hopen
    obtain ⟨-, rfl⟩ := hopen
    exact .absent
  | some bytes =>
    simp only [hmain, loadReceipt] at hopen
    cases hread : read bytes with
    | refused =>
      simp only [hread, Except.ok.injEq, Prod.mk.injEq] at hopen
      obtain ⟨-, rfl⟩ := hopen
      exact .refused hread
    | tooDeep => simp [hread] at hopen
    | value v =>
      simp only [hread] at hopen
      cases v with
      | obj d =>
        -- without the key `attempts` the object is no receipt: a sibling is written beside it
        by_cases hkey : (d.lookup (JStr.ofString "attempts")).isSome
        · simp only [hkey, if_true, Except.ok.injEq, Prod.mk.injEq] at hopen
          obtain ⟨-, rfl⟩ := hopen
          exact .receipt hread hlookup
        · simp only [hkey, Bool.false_eq_true, if_false, Except.ok.injEq, Prod.mk.injEq] at hopen
          obtain ⟨-, rfl⟩ := hopen
          refine .other hread fun d' hd' => ?_
          cases hd'
          exact Option.not_isSome_iff_eq_none.mp hkey
      | _ =>
        simp only [Except.ok.injEq, Prod.mk.injEq] at hopen
        obtain ⟨-, rfl⟩ := hopen
        exact .other hread (by simp)

/-- **A call that returns**: the file it writes, the document in it and the digest. -/
theorem appendAttempt_ok {result : ReceiptPath × JStr × ReceiptFiles} :
    appendAttempt read w session_id files attempt = .ok result ↔
      ∃ document earlier bytes, openReceipt read session_id files = .ok (result.1, document) ∧
        document.lookup (JStr.ofString "attempts") = some (.arr earlier) ∧
        documentBytes w (withAttempts document [attempt]) = some bytes ∧
        result.2 = (sha256Bytes bytes, (result.1, bytes) :: files) := by
  obtain ⟨path, sha, files'⟩ := result
  constructor
  -- the calls of the source in turn; the first that raises ends it
  · intro h
    obtain ⟨⟨path', document⟩, hopen, h⟩ := bind_eq_ok.mp h
    obtain ⟨extended, hextend, h⟩ := bind_eq_ok.mp h
    obtain ⟨text, htext, h⟩ := bind_eq_ok.mp h
    obtain ⟨written, hwrite, h⟩ := bind_eq_ok.mp h
    obtain ⟨digest, hdigest, h⟩ := bind_eq_ok.mp h
    simp only [Except.ok.injEq, Prod.mk.injEq] at h
    obtain ⟨rfl, rfl, rfl⟩ := h
    -- extending it asks for a list at `attempts`
    cases hget : document.get "attempts" with
    | arr earlier =>
      have hlookup : document.lookup (JStr.ofString "attempts") = some (.arr earlier) := by
        cases hkey : document.lookup (JStr.ofString "attempts") with
        | none => simp [Dict.get, Dict.getD, hkey] at hget
        | some v =>
          rw [Dict.get, Dict.getD, hkey] at hget
          exact congrArg some hget
      have hextended : extended = withAttempts document [attempt] := by
        simp only [extendDocument, hget, Except.ok.injEq] at hextend
        rw [withAttempts, hget, ← hextend]
        rfl
      subst hextended
      cases hbytes : utf8Encode text with
      | none => simp [writeAtomic, encodeText, hbytes, Except.map] at hwrite
      | some bytes =>
        simp only [writeAtomic, encodeText, hbytes, Except.map, Except.ok.injEq] at hwrite
        simp only [sha256Text, encodeText, hbytes, Except.map, Except.ok.injEq] at hdigest
        refine ⟨document, earlier, bytes, hopen, hlookup, ?_, ?_⟩
        · rw [documentBytes, htext]
          exact hbytes
        · rw [← hwrite, ← hdigest]
    | _ => simp [extendDocument, hget] at hextend
  -- each of the calls returns
  · rintro ⟨document, earlier, bytes, hopen, hlookup, hbytes, hresult⟩
    simp only [Prod.mk.injEq] at hresult
    obtain ⟨rfl, rfl⟩ := hresult
    have hget := Dict.get_of_lookup hlookup
    have hextend : extendDocument document attempt = .ok (withAttempts document [attempt]) := by
      rw [extendDocument, withAttempts, hget]
      rfl
    unfold documentBytes at hbytes
    cases htext : dumpsReceipt w (withAttempts document [attempt]) with
    | error e => simp [htext] at hbytes
    | ok text =>
      simp only [htext] at hbytes
      have hencode : encodeText text = .ok bytes := by rw [encodeText, hbytes]
      unfold appendAttempt
      rw [hopen]
      simp only [bind, Except.bind]
      rw [hextend]
      simp only [htext, writeAtomic, sha256Text, hencode, Except.map]

/-- A call returns exactly when the file is one it can extend and the document can be written. -/
theorem appendAttempt_returns_iff :
    (∃ result, appendAttempt read w session_id files attempt = .ok result) ↔
      ∃ document, Prior read session_id (files.lookup .receipt) document ∧
        Writable w 0 (.obj document) ∧ Writable w 2 (.obj attempt) := by
  constructor
  · intro ⟨result, h⟩
    obtain ⟨document, earlier, bytes, hopen, hlookup, hbytes, -⟩ := appendAttempt_ok.mp h
    refine ⟨document, prior_of_openReceipt hopen hlookup, ?_⟩
    rw [← writable_withAttempts hlookup]
    unfold documentBytes at hbytes
    cases htext : dumpsReceipt w (withAttempts document [attempt]) with
    | error e => simp [htext] at hbytes
    | ok text =>
      simp only [htext] at hbytes
      exact writable_of_written htext hbytes
  · intro ⟨document, hprior, hwritable⟩
    obtain ⟨path, earlier, hopen, hlookup⟩ := openReceipt_of_prior hprior
    rw [← writable_withAttempts hlookup] at hwritable
    obtain ⟨text, bytes, htext, hbytes⟩ := documentBytes_of_writable hwritable
    refine ⟨(path, sha256Bytes bytes, (path, bytes) :: files), appendAttempt_ok.mpr
      ⟨document, earlier, bytes, hopen, hlookup, ?_, rfl⟩⟩
    rw [documentBytes, htext]
    exact hbytes

/-! ### A sequence of calls -/

/-- The attempts of a file are those of the document that it holds. -/
theorem attemptsAt_of_read {path : ReceiptPath} {bytes : List UInt8}
    (hfile : files.lookup path = some bytes) (hread : read bytes = .value (.obj document))
    (hlookup : document.lookup (JStr.ofString "attempts") = some (.arr earlier)) :
    attemptsAt read files path = some earlier := by
  rw [attemptsAt, hfile, Option.map_some, hread]
  dsimp only
  rw [hlookup]

/-- The files after a call: the one it wrote, before the others. -/
theorem lookup_written (path other : ReceiptPath) (bytes : List UInt8) :
    List.lookup other ((path, bytes) :: files) =
      if other = path then some bytes else files.lookup other := by
  rw [List.lookup_cons]
  by_cases h : other = path
  · simp [h]
  · simp [h, beq_eq_false_iff_ne.mpr h]

/-- The receipt grows: each attempt is read back after those before it. -/
theorem appendOnly_receipt {attempts : List Dict}
    (hfile : (files.lookup .receipt = none ∧ document = newReceipt session_id) ∨
      ∃ bytes, files.lookup .receipt = some bytes ∧ read bytes = .value (.obj document))
    (hlookup : document.lookup (JStr.ofString "attempts") = some (.arr earlier))
    (hback : ∀ k < attempts.length,
      ReadsBack read w (withAttempts document (attempts.take (k + 1))))
    (hdocument : Writable w 0 (.obj document))
    (hattempts : ∀ attempt ∈ attempts, Writable w 2 (.obj attempt)) :
    AppendOnly read w session_id attempts files := by
  induction attempts generalizing files document earlier with
  | nil => trivial
  | cons attempt rest ih =>
    have hattempt := hattempts attempt List.mem_cons_self
    have hextended := (writable_withAttempts hlookup).mpr ⟨hdocument, hattempt⟩
    obtain ⟨text, bytes, htext, hbytes⟩ := documentBytes_of_writable hextended
    have hwritten : documentBytes w (withAttempts document [attempt]) = some bytes := by
      rw [documentBytes, htext]
      exact hbytes
    have hopen : openReceipt read session_id files = .ok (.receipt, document) := by
      obtain ⟨hnone, rfl⟩ | ⟨prior, hprior, hread⟩ := hfile
      · simp only [openReceipt, hnone]
      · simp [openReceipt, hprior, loadReceipt, hread, hlookup]
    have hread : read bytes = .value (.obj (withAttempts document [attempt])) :=
      hback 0 (Nat.succ_pos _) bytes hwritten
    have hnow : List.lookup .receipt ((ReceiptPath.receipt, bytes) :: files) = some bytes := by
      rw [lookup_written, if_pos rfl]
    -- what was recorded before: nothing in a new document, the list of the file otherwise
    have hearlier : (attemptsAt read files .receipt).getD [] = earlier ∧
        (files.lookup .receipt = none ∨ (attemptsAt read files .receipt).isSome) := by
      obtain ⟨hnone, rfl⟩ | ⟨prior, hprior, hread⟩ := hfile
      · have hnew : (newReceipt session_id).lookup (JStr.ofString "attempts") = some (.arr []) :=
          Dict.lookup_ofFields _ _
        rw [hnew, Option.some.injEq, Json.arr.injEq] at hlookup
        refine ⟨?_, Or.inl hnone⟩
        rw [attemptsAt, hnone]
        exact hlookup
      · rw [attemptsAt_of_read hprior hread hlookup]
        exact ⟨rfl, Or.inr rfl⟩
    refine ⟨.receipt, sha256Bytes bytes, (.receipt, bytes) :: files,
      appendAttempt_ok.mpr ⟨document, earlier, bytes, hopen, hlookup, hwritten, rfl⟩, ⟨?_, ?_, ?_⟩,
      ?_⟩
    · exact ⟨bytes, hnow, rfl⟩
    · intro other hother
      rw [lookup_written, if_neg hother]
    · refine Or.inl ⟨rfl, hearlier.2, ?_⟩
      rw [hearlier.1, attemptsAt_of_read hnow hread (lookup_withAttempts hlookup)]
      rfl
    · refine ih (Or.inr ⟨bytes, hnow, hread⟩) (lookup_withAttempts hlookup) ?_ hextended
        fun a ha => hattempts a (List.mem_cons_of_mem _ ha)
      -- the document the next attempt extends is the one just written
      intro k hk
      rw [withAttempts_cons hlookup]
      exact hback (k + 1) (Nat.succ_lt_succ hk)

/-- A file that cannot be read as a receipt stays: each attempt goes to a sibling of its own. -/
theorem appendOnly_sibling {attempts : List Dict} {prior : List UInt8}
    (hfile : files.lookup .receipt = some prior) (hload : loadReceipt read prior = .error .caught)
    (hback : ∀ attempt ∈ attempts,
      ReadsBack read w (withAttempts (newReceipt session_id) [attempt]))
    (hdocument : Writable w 0 (.obj (newReceipt session_id)))
    (hattempts : ∀ attempt ∈ attempts, Writable w 2 (.obj attempt)) :
    AppendOnly read w session_id attempts files := by
  induction attempts generalizing files with
  | nil => trivial
  | cons attempt rest ih =>
    have hnew : (newReceipt session_id).lookup (JStr.ofString "attempts") = some (.arr []) :=
      Dict.lookup_ofFields _ _
    have hextended := (writable_withAttempts hnew).mpr
      ⟨hdocument, hattempts attempt List.mem_cons_self⟩
    obtain ⟨text, bytes, htext, hbytes⟩ := documentBytes_of_writable hextended
    have hwritten : documentBytes w (withAttempts (newReceipt session_id) [attempt]) =
      some bytes := by
      rw [documentBytes, htext]
      exact hbytes
    have hopen : openReceipt read session_id files =
        .ok (corruptSibling files, newReceipt session_id) := by
      simp only [openReceipt, hfile, hload]
    have hread := hback attempt List.mem_cons_self bytes hwritten
    -- the smallest number that is free, so the name bound nothing before
    have hfresh : files.lookup (corruptSibling files) = none :=
      (Nat.find_spec (exists_fresh files)).2
    have hne : ReceiptPath.receipt ≠ corruptSibling files := by
      unfold corruptSibling
      exact ReceiptPath.noConfusion
    -- the receipt's own file is untouched, so the next call is refused by it again
    have hnow : List.lookup (corruptSibling files) ((corruptSibling files, bytes) :: files) =
        some bytes := by
      rw [lookup_written, if_pos rfl]
    refine ⟨corruptSibling files, sha256Bytes bytes, (corruptSibling files, bytes) :: files,
      appendAttempt_ok.mpr ⟨_, [], bytes, hopen, hnew, hwritten, rfl⟩, ⟨?_, ?_, ?_⟩, ?_⟩
    · exact ⟨bytes, hnow, rfl⟩
    · intro other hother
      rw [lookup_written, if_neg hother]
    · refine Or.inr ⟨hne.symm, hfresh, ?_⟩
      rw [attemptsAt_of_read hnow hread (lookup_withAttempts hnew)]
      rfl
    · refine ih ?_ (fun a ha => hback a (List.mem_cons_of_mem _ ha))
        fun a ha => hattempts a (List.mem_cons_of_mem _ ha)
      rw [lookup_written, if_neg hne, hfile]

/-- Attempts that were all appended could all be written. -/
theorem AppendOnly.writable {attempts : List Dict}
    (h : AppendOnly read w session_id attempts files) :
    ∀ attempt ∈ attempts, Writable w 2 (.obj attempt) := by
  induction attempts generalizing files with
  | nil => simp
  | cons attempt rest ih =>
    obtain ⟨path, sha, files', hcall, -, hrest⟩ := h
    obtain ⟨document, -, -, hattempt⟩ := appendAttempt_returns_iff.mp ⟨_, hcall⟩
    exact List.forall_mem_cons.mpr ⟨hattempt, ih hrest⟩

end

/-- **Receipts are append-only** exactly when there is nothing to append, or the file is absent, a
    receipt whose attempts are a list or one that `load_receipt` refuses, and the document it
    extends and each attempt can be written. -/
theorem append_only_iff (read : List UInt8 → ParsedFile) (w : JsonLimits) (session_id : JStr)
    (files : ReceiptFiles) (attempts : List Dict)
    (hsingle : ∀ attempt ∈ attempts,
      ReadsBack read w (withAttempts (newReceipt session_id) [attempt]))
    (hgrown : ∀ document, Prior read session_id (files.lookup .receipt) document →
      ∀ k < attempts.length, ReadsBack read w (withAttempts document (attempts.take (k + 1)))) :
    AppendOnly read w session_id attempts files ↔
      attempts = [] ∨ ∃ document, Prior read session_id (files.lookup .receipt) document ∧
        Writable w 0 (.obj document) ∧ ∀ attempt ∈ attempts, Writable w 2 (.obj attempt) := by
  have hnew : (newReceipt session_id).lookup (JStr.ofString "attempts") = some (.arr []) :=
    Dict.lookup_ofFields _ _
  constructor
  · intro h
    cases attempts with
    | nil => exact Or.inl rfl
    | cons attempt rest =>
      have hwritable := h.writable
      obtain ⟨path, sha, files', hcall, -, -⟩ := h
      obtain ⟨document, hprior, hdocument, -⟩ := appendAttempt_returns_iff.mp ⟨_, hcall⟩
      exact Or.inr ⟨document, hprior, hdocument, hwritable⟩
  · intro h
    -- by the first call, which is the only one that can meet the file as it was before
    obtain rfl | ⟨document, hprior, hdocument, hattempts⟩ := h
    · trivial
    · have hback := hgrown document hprior
      generalize hmain : files.lookup .receipt = main at hprior
      cases hprior with
      | absent => exact appendOnly_receipt (Or.inl ⟨hmain, rfl⟩) hnew hback hdocument hattempts
      | receipt hread hlist =>
        exact appendOnly_receipt (Or.inr ⟨_, hmain, hread⟩) hlist hback hdocument hattempts
      | refused hrefused =>
        refine appendOnly_sibling hmain ?_ hsingle hdocument hattempts
        rw [loadReceipt, hrefused]
      | @other bytes v hread hother =>
        refine appendOnly_sibling hmain ?_ hsingle hdocument hattempts
        rw [loadReceipt, hread]
        cases v with
        | obj d => simp [hother d rfl]
        | _ => rfl

/-! ### A receipt, and a file that is none -/

/-- A parser that reads the listed files and refuses any other. -/
def readFrom (table : List (List UInt8 × Json)) (bytes : List UInt8) : ParsedFile :=
  match table.lookup bytes with
  | some v => .value v
  | none => .refused

/-- The default limits of an interpreter. -/
def defaultLimits : JsonLimits := ⟨900, 4300⟩

/-- An attempt, as far as it matters here. -/
def partialAttempt : Dict := .ofFields [("disposition", .str "partial"), ("record_count", .int 2)]

/-- The receipt of a session with a number of such attempts, and its bytes. -/
def partialReceipt (attempts : ℕ) : Dict :=
  withAttempts (newReceipt "s") (List.replicate attempts partialAttempt)

def partialBytes (attempts : ℕ) : List UInt8 :=
  (documentBytes defaultLimits (partialReceipt attempts)).getD []

/-- The first attempt makes the receipt. -/
theorem partialReceipt_one :
    partialReceipt 1 = withAttempts (newReceipt "s") [partialAttempt] := rfl

/-- The second attempt is added to the first. -/
theorem partialReceipt_two :
    partialReceipt 2 = withAttempts (newReceipt "s") [partialAttempt, partialAttempt] := rfl

theorem partialBytes_ne : partialBytes 2 ≠ partialBytes 1 := by decide +kernel

/-- The files of the example are read back as they were written. -/
theorem partialReceipt_readsBack {attempts : ℕ} (h : attempts = 1 ∨ attempts = 2) :
    ReadsBack (readFrom [(partialBytes 1, .obj (partialReceipt 1)),
      (partialBytes 2, .obj (partialReceipt 2))]) defaultLimits (partialReceipt attempts) := by
  intro bytes hbytes
  have hself : bytes = partialBytes attempts := by rw [partialBytes, hbytes]; rfl
  subst hself
  obtain rfl | rfl := h
  · simp [readFrom]
  · simp [readFrom, List.lookup_cons, beq_eq_false_iff_ne.mpr partialBytes_ne]

/-- Two attempts in a session without a receipt. -/
theorem append_only_two :
    AppendOnly (readFrom [(partialBytes 1, .obj (partialReceipt 1)),
        (partialBytes 2, .obj (partialReceipt 2))]) defaultLimits "s"
      [partialAttempt, partialAttempt] [] := by
  refine (append_only_iff _ _ _ _ _ ?_ ?_).mpr (Or.inr ⟨newReceipt "s", .absent, ⟨by decide +kernel,
    by decide +kernel⟩, ?_⟩)
  · intro attempt hattempt
    obtain rfl : attempt = partialAttempt := by simpa using hattempt
    rw [← partialReceipt_one]
    exact partialReceipt_readsBack (Or.inl rfl)
  · intro document hprior k hk
    cases hprior
    have hk' : k = 0 ∨ k = 1 := by
      change k < 2 at hk
      omega
    obtain rfl | rfl := hk'
    · rw [List.take_succ_cons, List.take_zero, ← partialReceipt_one]
      exact partialReceipt_readsBack (Or.inl rfl)
    · rw [List.take_succ_cons, List.take_succ_cons, List.take_zero, ← partialReceipt_two]
      exact partialReceipt_readsBack (Or.inr rfl)
  · intro attempt hattempt
    obtain rfl : attempt = partialAttempt := by simpa using hattempt
    exact ⟨by decide +kernel, by decide +kernel⟩

/-- An object whose attempts are `null`, and the bytes of it. -/
def nullDocument : Dict := .ofFields [("attempts", .null)]

def nullAttempts : List UInt8 := "\x7b\"attempts\": null\x7d".toUTF8.toList

/-- Such a file is no receipt, and yet it is not refused: `append` fails on what is no list. -/
theorem not_append_only_null :
    ¬ AppendOnly (readFrom [(nullAttempts, .obj nullDocument)]) defaultLimits
      "s" [partialAttempt] [(.receipt, nullAttempts)] := by
  rintro ⟨path, sha, files', hcall, -⟩
  obtain ⟨document, hprior, -⟩ := appendAttempt_returns_iff.mp ⟨_, hcall⟩
  have hread : readFrom [(nullAttempts, .obj nullDocument)] nullAttempts =
      .value (.obj nullDocument) := by simp [readFrom]
  have hkey : nullDocument.lookup (JStr.ofString "attempts") = some .null :=
    Dict.lookup_ofFields _ _
  change Prior _ _ (some nullAttempts) document at hprior
  cases hprior with
  | receipt hread' hlist =>
    rw [hread, ParsedFile.value.injEq, Json.obj.injEq] at hread'
    subst hread'
    rw [hkey] at hlist
    cases hlist
  | refused hrefused =>
    rw [hread] at hrefused
    cases hrefused
  | other hread' hother =>
    rw [hread, ParsedFile.value.injEq] at hread'
    have hnone := hother _ hread'.symm
    rw [hkey] at hnone
    cases hnone

end RootSign
