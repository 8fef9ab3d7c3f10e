import RootSign.ReceiptFiles
import RootSign.Sdk.JsonlClient

namespace RootSign

open RootSign.Python

/-!
# The JSONL backend, byte by byte (`rootsign/sdk/jsonl_client.py`)

`_append_line` hands the text of one line to a single `os.write`, which may write any part of it,
and does not look at the number it returns.

* `compactDumps` — `json.dumps(record, ensure_ascii=True, separators=(",", ":"))`;
* `recordText`, `printable_recordText` — a record is one line of printable ASCII;
* `ByteState.handle` — `handle` on files of bytes;
* `ByteState.handle_refines` — when no append is cut short, it is `JsonlState.handle` on the lines
  of the files.
-/

/-! ### The text of a line -/

/-- `",".join(parts)`. -/
def joinBare : List (List Char) → List Char
  | [] => []
  | [part] => part
  | part :: rest => part ++ ',' :: joinBare rest

mutual

/-- `json.dumps(v, ensure_ascii=True, separators=(",", ":"))`. -/
def compactDumps : Json → List Char
  | .null => "null".toList
  | .bool true => "true".toList
  | .bool false => "false".toList
  | .int n => intText n
  | .float x => dumpsFloat x
  | .str s => dumpsStr s
  | .arr xs => '[' :: (joinBare (compactItems xs) ++ [']'])
  | .obj fields => '{' :: (joinBare (compactFields fields) ++ ['}'])

/-- The serialized items of a list. -/
def compactItems : List Json → List (List Char)
  | [] => []
  | x :: xs => compactDumps x :: compactItems xs

/-- The fields of an object, in their order. -/
def compactFields : List (JStr × Json) → List (List Char)
  | [] => []
  | (k, v) :: rest => (dumpsStr k ++ ':' :: compactDumps v) :: compactFields rest

end

/-- From the space to the tilde. -/
def printable (c : Char) : Bool := decide (0x20 ≤ c.toNat ∧ c.toNat ≤ 0x7E)

/-- A text of such characters. -/
def Printable (text : List Char) : Prop := ∀ c ∈ text, printable c = true

/-- Two printable texts, one behind the other. -/
theorem Printable.append {s t : List Char} (hs : Printable s) (ht : Printable t) :
    Printable (s ++ t) := fun c hc => (List.mem_append.mp hc).elim (hs c) (ht c)

/-- One printable character before the others. -/
theorem Printable.cons {c : Char} {t : List Char} (hc : printable c = true) (ht : Printable t) :
    Printable (c :: t) := by
  intro x hx
  rcases List.mem_cons.mp hx with rfl | hx
  · exact hc
  · exact ht x hx

theorem Printable.nil : Printable [] := fun _ hc => absurd hc List.not_mem_nil

/-- Some characters of a printable text. -/
theorem Printable.sub {s t : List Char} (ht : Printable t) (hsub : s ⊆ t) : Printable s :=
  fun c hc => ht c (hsub hc)

/-- A hexadecimal digit is printable. -/
theorem printable_hexDigit {n : ℕ} (h : n < 16) : printable (hexDigit n) = true := by
  have : ∀ m < 16, printable (hexDigit m) = true := by decide
  exact this n h

/-- The digits of a number are printable. -/
theorem printable_digits (n : ℕ) : Printable (Nat.toDigits 10 n) := by
  intro c hc
  have hdigit := isDigit_of_mem_toDigits c hc
  rw [Char.isDigit, Bool.and_eq_true, decide_eq_true_eq, decide_eq_true_eq] at hdigit
  have hlow : (48 : ℕ) ≤ c.toNat := hdigit.1
  have hhigh : c.toNat ≤ 57 := hdigit.2
  rw [printable, decide_eq_true_eq]
  omega

/-- Every code unit is escaped to printable characters. -/
theorem printable_escapeUnit (u : CodeUnit) : Printable (escapeUnit u) := by
  unfold escapeUnit
  cases hshort : shortEscape u with
  | some c =>
    refine .cons (by decide) (.cons ?_ .nil)
    unfold shortEscape at hshort
    split_ifs at hshort <;> (cases hshort; decide)
  | none =>
    dsimp only
    split_ifs with hplain
    · refine .cons ?_ .nil
      rw [printable, decide_eq_true_eq, toNat_ofNat_ascii hplain.2]
      exact hplain
    · have hu : u.val < 0x10000 := u.isLt
      exact .cons (by decide) (.cons (by decide) (.cons (printable_hexDigit (by omega))
        (.cons (printable_hexDigit (by omega)) (.cons (printable_hexDigit (by omega))
          (.cons (printable_hexDigit (by omega)) .nil)))))

/-- A string is written in printable characters. -/
theorem printable_dumpsStr (s : JStr) : Printable (dumpsStr s) := by
  refine .cons (by decide) (.append (fun c hc => ?_) (.cons (by decide) .nil))
  obtain ⟨u, -, hc⟩ := List.mem_flatMap.mp hc
  exact printable_escapeUnit u c hc

/-- An integer is written in printable characters. -/
theorem printable_intText (n : ℤ) : Printable (intText n) := by
  unfold intText
  split_ifs
  · exact .cons (by decide) (printable_digits _)
  · exact printable_digits _

/-- The signs, the points and the words of a number. -/
theorem printable_word (text : List Char) (h : text.all printable = true := by decide) :
    Printable text := List.all_eq_true.mp h

/-- The shortest form of a float is printable. -/
theorem printable_floatRepr (x : PyFloat) : Printable (floatRepr x) := by
  have hsign : Printable (if x.negative then ['-'] else []) := by
    split_ifs
    · exact printable_word _
    · exact .nil
  have hdigits := printable_digits x.digits
  have htake : ∀ n, Printable ((Nat.toDigits 10 x.digits).take n) :=
    fun n => hdigits.sub (List.take_subset _ _)
  have hdrop : ∀ n, Printable ((Nat.toDigits 10 x.digits).drop n) :=
    fun n => hdigits.sub (List.drop_subset _ _)
  have hzeros : ∀ n, Printable (List.replicate n '0') := fun n c hc => by
    rw [List.eq_of_mem_replicate hc]
    decide
  -- by the form of the number: an infinity, with an exponent, or with the point among zeros or
  -- digits
  unfold floatRepr
  cases x.value with
  | negInf => exact hsign.append (printable_word _)
  | posInf => exact hsign.append (printable_word _)
  | ofRat q =>
    dsimp only
    split
    · -- mantissa and exponent
      refine (hsign.append ?_).append (.cons (by decide) (.cons ?_ ?_))
      · split
        · exact hdigits
        · exact (htake 1).append (.cons (by decide) (hdrop 1))
      · split <;> decide
      · split
        · exact .cons (by decide) (printable_digits _)
        · exact printable_digits _
    split
    · exact ((hsign.append (printable_word _)).append (hzeros _)).append hdigits
    split
    · exact ((hsign.append hdigits).append (hzeros _)).append (printable_word _)
    · exact (hsign.append (htake _)).append (.cons (by decide) (hdrop _))

/-- A float is written in printable characters, an infinity too. -/
theorem printable_dumpsFloat (x : PyFloat) : Printable (dumpsFloat x) := by
  unfold dumpsFloat
  split
  · exact printable_word "-Infinity".toList
  · exact printable_word "Infinity".toList
  · exact printable_floatRepr x

/-- Printable parts stay printable around the separator. -/
theorem printable_joinBare {parts : List (List Char)} (h : ∀ part ∈ parts, Printable part) :
    Printable (joinBare parts) := by
  induction parts with
  | nil => exact .nil
  | cons part rest ih =>
    have hpart := h part List.mem_cons_self
    have hrest := ih fun p hp => h p (List.mem_cons_of_mem _ hp)
    cases rest with
    | nil => exact hpart
    | cons next rest => exact hpart.append (.cons (by decide) hrest)

mutual

/-- **A record is one line**: it is written in printable characters, so without a line break. -/
theorem printable_compactDumps : ∀ v : Json, Printable (compactDumps v)
  | .null => printable_word _
  | .bool true => printable_word _
  | .bool false => printable_word _
  | .int n => printable_intText n
  | .float x => printable_dumpsFloat x
  | .str s => printable_dumpsStr s
  | .arr xs => .cons (by decide) ((printable_joinBare (printable_compactItems xs)).append
      (.cons (by decide) .nil))
  | .obj fields => .cons (by decide) ((printable_joinBare (printable_compactFields fields)).append
      (.cons (by decide) .nil))

theorem printable_compactItems : ∀ xs : List Json, ∀ part ∈ compactItems xs, Printable part
  | [], _, h => absurd h List.not_mem_nil
  | x :: xs, part, h => by
    rw [compactItems] at h
    rcases List.mem_cons.mp h with rfl | h
    · exact printable_compactDumps x
    · exact printable_compactItems xs part h

theorem printable_compactFields :
    ∀ fields : List (JStr × Json), ∀ part ∈ compactFields fields, Printable part
  | [], _, h => absurd h List.not_mem_nil
  | (k, v) :: rest, part, h => by
    rw [compactFields] at h
    rcases List.mem_cons.mp h with rfl | h
    · exact (printable_dumpsStr k).append (.cons (by decide) (printable_compactDumps v))
    · exact printable_compactFields rest part h

end

/-- The bytes of a record, without the line break: one byte for each character. -/
def recordText (record : Dict) : List UInt8 :=
  (compactDumps (.obj record)).map fun c => UInt8.ofNat c.toNat

/-- The line break. -/
def lineBreak : UInt8 := 0x0A

/-- A byte from the space to the tilde: none of the breaks at which a text is split into lines. -/
def printableByte (b : UInt8) : Bool := decide (0x20 ≤ b.toNat ∧ b.toNat ≤ 0x7E)

/-- **A record is one line** of printable ASCII. -/
theorem printable_recordText (record : Dict) : ∀ b ∈ recordText record, printableByte b = true := by
  intro b hb
  obtain ⟨c, hc, rfl⟩ := List.mem_map.mp hb
  have h := printable_compactDumps (.obj record) c hc
  rw [printable, decide_eq_true_eq] at h
  rw [printableByte, decide_eq_true_eq, UInt8.toNat_ofNat']
  omega

/-! ### Files of bytes -/

/-- What the interpreter and the file system supply to one call: how many of the bytes handed to
    `os.write` it writes, or that it raises, and whether `os.fsync` and `os.close` return. -/
structure ByteIO where
  fresh : Uuid
  now_parse : UtcNow
  now_get : UtcNow
  now_evict : UtcNow
  now_set : UtcNow
  write : ℕ → Option ℕ
  write_le : ∀ length written, write length = some written → written ≤ length
  fsync_ok : Bool
  close_ok : Bool

/-- `os.write` writes everything or raises. -/
def ByteIO.Whole (io : ByteIO) : Prop :=
  ∀ length written, io.write length = some written → written = length

/-- What `handle` raises: `json.dumps` has exceptions of its own. -/
inductive JsonlError where
  | python (e : PyError)
  | dumps (e : ReceiptError)

/-- The client: the chains, the cache, and the bytes of each session's file. -/
structure ByteState where
  fsync : FsyncMode
  idempotency : IdempotencyStore
  chains : ChainRegistry
  files : JStr → List UInt8

namespace ByteState

/-- A client on an empty directory. -/
def init : ByteState where
  fsync := .chain
  idempotency := []
  chains := fun _ => {}
  files := fun _ => []

/-- `_build_action` or `_build_non_action`, by event type. -/
def buildRecord (rt : Runtime) (io : ByteIO) (chains : ChainRegistry) (envelope : Dict)
    (head : JsonlState.Head) : Except PyError (IngestResponse × Dict) × ChainRegistry :=
  if head.event_type.pyEq (.str "ACTION_RECORD") then
    buildAction rt io.fresh chains envelope head.event_id head.session_id
  else (.ok (buildNonAction io.fresh envelope head.event_id head.event_type), chains)

/-- `_append_line`: the number that `os.write` returns is not looked at. -/
def appendLine (w : JsonLimits) (io : ByteIO) (s : ByteState) (session_id : JStr) (record : Dict)
    (do_fsync : Bool) : Except JsonlError Unit × ByteState :=
  match dumpsError w 0 (.obj record) with
  | some e => (.error (.dumps e), s)
  | none =>
    let line := recordText record ++ [lineBreak]
    match io.write line.length with
    | none => (.error (.python .osError), s)
    | some written =>
      let s := { s with
        files := Function.update s.files session_id (s.files session_id ++ line.take written) }
      -- the file is closed in any case
      if (do_fsync && !io.fsync_ok) || !io.close_ok then (.error (.python .osError), s)
      else (.ok (), s)

/-- Append the built line and cache the response. -/
def record (w : JsonLimits) (io : ByteIO) (s : ByteState) (head : JsonlState.Head)
    (response : IngestResponse) (line : Dict) : Except JsonlError IngestResponse × ByteState :=
  match shouldFsync s.fsync head.event_type with
  | .error e => (.error (.python e), s)
  | .ok do_fsync =>
    match appendLine w io s head.session_id line do_fsync with
    | (.error e, s) => (.error e, s)
    | (.ok (), s) =>
      match s.idempotency.put io.now_evict io.now_set head.event_id response head.emitted_at with
      | (.error e, store) => (.error (.python e), { s with idempotency := store })
      | (.ok (), store) => (.ok response, { s with idempotency := store })

/-- What the first reads of a call need of the interpreter. -/
def ioOf (io : ByteIO) (append : Append) : CallIO :=
  ⟨io.fresh, io.now_parse, io.now_get, io.now_evict, io.now_set, append⟩

/-- `handle`. -/
def handle (rt : Runtime) (w : JsonLimits) (io : ByteIO) (s : ByteState) (envelope : Dict) :
    Except JsonlError IngestResponse × ByteState :=
  match JsonlState.readHead rt (ioOf io .written) envelope with
  | .error e => (.error (.python e), s)
  | .ok head =>
    match s.idempotency.get io.now_get head.event_id with
    | .error e => (.error (.python e), s)
    | .ok (some _, store) =>
      (.ok (JsonlState.duplicate head.event_id), { s with idempotency := store })
    | .ok (none, store) =>
      match buildRecord rt io s.chains envelope head with
      | (.error e, chains) =>
        (.error (.python e), { s with idempotency := store, chains := chains })
      | (.ok (response, line), chains) =>
        record w io { s with idempotency := store, chains := chains } head response line

/-- The file and the record of a call: what it would write in this state. -/
def recordOf (rt : Runtime) (io : ByteIO) (s : ByteState) (envelope : Dict) :
    Option (JStr × Dict) :=
  match JsonlState.readHead rt (ioOf io .written) envelope with
  | .error _ => none
  | .ok head =>
    match (buildRecord rt io s.chains envelope head).1 with
    | .error _ => none
    | .ok (_, line) => some (head.session_id, line)

/-! ### Lines again -/

/-- The bytes of some lines. -/
def textOf (lines : List Dict) : List UInt8 := lines.flatMap fun r => recordText r ++ [lineBreak]

/-- A record more is its text more, and a line break. -/
theorem textOf_append (lines : List Dict) (record : Dict) :
    textOf (lines ++ [record]) = textOf lines ++ (recordText record ++ [lineBreak]) := by
  rw [textOf, textOf, List.flatMap_append, List.flatMap_singleton]

/-- The files hold the lines of the other client, and all else is the same. -/
structure Represents (b : ByteState) (s : JsonlState) : Prop where
  fsync : b.fsync = s.fsync
  idempotency : b.idempotency = s.idempotency
  chains : b.chains = s.chains
  files : ∀ session, b.files session = textOf (s.files session)

variable {rt : Runtime} {w : JsonLimits} {io : ByteIO} {b : ByteState} {s : JsonlState}

/-- An append of the whole line. -/
theorem Represents.push (h : Represents b s) (session_id : JStr) (record : Dict) :
    Represents
      { b with
        files := Function.update b.files session_id
          (b.files session_id ++ (recordText record ++ [lineBreak])) }
      { s with
        files := Function.update s.files session_id (s.files session_id ++ [record]) } := by
  refine ⟨h.fsync, h.idempotency, h.chains, fun session => ?_⟩
  dsimp only
  by_cases hsession : session = session_id
  · subst hsession
    rw [Function.update_self, Function.update_self, h.files, textOf_append]
  · rw [Function.update_of_ne hsession, Function.update_of_ne hsession]
    exact h.files session

/-- An append in one piece leaves the line or nothing, whatever is raised after it. -/
theorem appendLine_refines (h : Represents b s) (hwhole : io.Whole) {record : Dict}
    (hdumps : dumpsError w 0 (.obj record) = none) (session_id : JStr) (do_fsync : Bool) :
    ∃ append, (appendLine w io b session_id record do_fsync).1 =
        (s.appendLine (ioOf io append) session_id record).1.mapError JsonlError.python ∧
      Represents (appendLine w io b session_id record do_fsync).2
        (s.appendLine (ioOf io append) session_id record).2 := by
  unfold appendLine JsonlState.appendLine
  simp only [hdumps]
  cases hwrite : io.write (recordText record ++ [lineBreak]).length with
  | none => exact ⟨.unwritten, rfl, h⟩
  | some written =>
    have hall := hwhole _ _ hwrite
    subst hall
    dsimp only
    rw [List.take_length]
    by_cases hraises : ((do_fsync && !io.fsync_ok) || !io.close_ok) = true
    · rw [if_pos hraises]
      exact ⟨.unsynced, rfl, h.push session_id record⟩
    · rw [if_neg hraises]
      exact ⟨.written, rfl, h.push session_id record⟩

/-- The tail of a call: what the append came to on bytes, it can come to on lines. -/
theorem record_refines (h : Represents b s) (hwhole : io.Whole)
    {line : Dict} (hdumps : dumpsError w 0 (.obj line) = none) (head : JsonlState.Head)
    (response : IngestResponse) :
    ∃ append, (record w io b head response line).1 =
        (s.record (ioOf io append) head response line).1.mapError JsonlError.python ∧
      Represents (record w io b head response line).2
        (s.record (ioOf io append) head response line).2 := by
  unfold record JsonlState.record
  rw [h.fsync]
  cases shouldFsync s.fsync head.event_type with
  | error e => exact ⟨.written, rfl, h⟩
  | ok do_fsync =>
    -- the outcome of the append on lines is the one the bytes are left in
    obtain ⟨append, hanswer, hleft⟩ :=
      appendLine_refines h hwhole hdumps head.session_id do_fsync
    refine ⟨append, ?_⟩
    dsimp only
    cases hbytes : appendLine w io b head.session_id line do_fsync with
    | mk answer b' =>
      cases hlines : s.appendLine (ioOf io append) head.session_id line with
      | mk answer' s' =>
        rw [hbytes, hlines] at hanswer hleft
        dsimp only at hanswer hleft
        subst hanswer
        cases answer' with
        | error e => exact ⟨rfl, hleft⟩
        | ok _ =>
          dsimp only [Except.mapError]
          rw [hleft.idempotency]
          show _ ∧ _
          cases hput : s'.idempotency.put io.now_evict io.now_set head.event_id response
              head.emitted_at with
          | mk result store =>
            have hsame : s'.idempotency.put (ioOf io append).now_evict (ioOf io append).now_set
                head.event_id response head.emitted_at = (result, store) := hput
            rw [hsame]
            -- either way the cache alone differs, and it is the same on both sides
            cases result with
            | error e => exact ⟨rfl, hleft.fsync, rfl, hleft.chains, hleft.files⟩
            | ok _ => exact ⟨rfl, hleft.fsync, rfl, hleft.chains, hleft.files⟩

/-- What is built does not depend on the files. -/
theorem build_eq_buildRecord (append : Append) (s : JsonlState) (envelope : Dict)
    (head : JsonlState.Head) :
    JsonlState.build rt (ioOf io append) s envelope head =
      ((buildRecord rt io s.chains envelope head).1,
        { s with chains := (buildRecord rt io s.chains envelope head).2 }) := by
  unfold JsonlState.build buildRecord
  split <;> rfl

/-- **Bytes and lines.** A call whose append is in one piece, on a record that can be written, is
    a call of the client on lines. -/
theorem handle_refines (h : Represents b s) (hwhole : io.Whole) (envelope : Dict)
    (hdumps : ∀ session record,
      recordOf rt io b envelope = some (session, record) → dumpsError w 0 (.obj record) = none) :
    ∃ append, (handle rt w io b envelope).1 =
        (s.handle rt (ioOf io append) envelope).1.mapError JsonlError.python ∧
      Represents (handle rt w io b envelope).2 (s.handle rt (ioOf io append) envelope).2 := by
  have hread : ∀ append, JsonlState.readHead rt (ioOf io append) envelope =
      JsonlState.readHead rt (ioOf io .written) envelope := fun _ => rfl
  unfold handle JsonlState.handle
  simp only [hread]
  unfold recordOf at hdumps
  -- by the steps of `handle`; before the append neither side has touched a file
  cases hhead : JsonlState.readHead rt (ioOf io .written) envelope with
  | error e => exact ⟨.written, rfl, h⟩
  | ok head =>
    simp only [hhead] at hdumps
    dsimp only [ioOf]
    rw [h.idempotency]
    cases hget : s.idempotency.get io.now_get head.event_id with
    | error e => exact ⟨.written, rfl, h⟩
    | ok found =>
      obtain ⟨found, store⟩ := found
      cases found with
      -- an answer of the cache is returned as it stands
      | some response => exact ⟨.written, rfl, h.fsync, rfl, h.chains, h.files⟩
      | none =>
        dsimp only
        have hbuild : ∀ append, JsonlState.build rt (ioOf io append)
            { s with idempotency := store } envelope head =
              ((buildRecord rt io b.chains envelope head).1,
                { s with
                  idempotency := store
                  chains := (buildRecord rt io b.chains envelope head).2 }) := by
          intro append
          rw [build_eq_buildRecord, h.chains]
        have hbuild' := fun append => hbuild append
        unfold ioOf at hbuild'
        simp only [hbuild']
        cases hbuilt : buildRecord rt io b.chains envelope head with
        | mk built chains =>
          rw [hbuilt] at hdumps
          cases built with
          | error e => exact ⟨.written, rfl, h.fsync, rfl, rfl, h.files⟩
          | ok result =>
            obtain ⟨response, line⟩ := result
            have hstart : Represents { b with idempotency := store, chains := chains }
                { s with idempotency := store, chains := chains } :=
              ⟨h.fsync, rfl, rfl, h.files⟩
            exact record_refines hstart hwhole (hdumps _ _ rfl) head response

end ByteState

end RootSign
