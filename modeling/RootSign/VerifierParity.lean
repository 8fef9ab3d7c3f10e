import RootSign.Crud.Action
import RootSign.VerdictExact

namespace RootSign

open RootSign.Lib RootSign.Python

/-!
# The two verifiers side by side

`verify_session_local` on a session file and `verify_chain` on the rows the file renders.

* `Renders` — the action records of a file are the rows of a session, in the same order among
  records of one number;
* `Reports`, `ReportsRows` — a result read off the gaps and off the number the verifier
  stopped at, if any;
* `verifyRecords_distinct`, `verifyChain_distinct` and `verifyRecords_repeated`,
  `verifyChain_repeated` — where each verifier stops, without and with a repeated number;
* `agree_iff` — the verifiers agree exactly when the file has a line and no bad record is
  numbered below every repeated number.
-/

/-! ### Rendering -/

/-- An action record that carries what a row carries. -/
structure RendersRow (r : Dict) (row : ActionRow) : Prop where
  fields : HasCanonicalFields r
  action_id : r.get "action_id" = .str row.action_id.text
  session_id : r.get "session_id" = .str row.session_id.text
  tool_name : r.get "tool_name" = .str row.tool_name
  input_hash : r.get "input_hash" = .str row.input_hash
  output_hash : r.get "output_hash" = optStr row.output_hash
  prev_action_hash : r.get "prev_action_hash" = optStr row.prev_action_hash
  timestamp : r.get "timestamp" = .str (JStr.ofChars row.timestamp.isoformat)
  sequence_number : r.get "sequence_number" = .int row.sequence_number
  self_hash : r.get "self_hash" = .str row.self_hash
  input_redacted : r.get "input_redacted" = row.input_redacted
  output_redacted : r.get "output_redacted" = row.output_redacted

/-- The action records of the lines are the rows, in the same order among the records of one
    number. -/
def Renders (lines : List Dict) (rows : List ActionRow) : Prop :=
  ∀ n : ℤ, List.Forall₂ RendersRow ((lines.filter isActionLine).filter fun r => sequenceOf r = n)
    (rows.filter fun row => row.sequence_number = n)

section

variable {rt : Runtime} {r : Dict} {row : ActionRow}

/-- A rendered row keeps its number. -/
theorem RendersRow.sequenceOf_eq (h : RendersRow r row) : sequenceOf r = row.sequence_number := by
  rw [sequenceOf, h.sequence_number]

/-- The number is rendered as an integer. -/
theorem RendersRow.number (h : RendersRow r row) :
    r.get "sequence_number" = .int (sequenceOf r) := by
  rw [h.sequence_number, h.sequenceOf_eq]

/-- Both verifiers hash the same canonical fields. -/
theorem RendersRow.canonical (h : RendersRow r row) : Canonical.ofDict rt r = row.canonical := by
  simp [Canonical.ofDict, ActionRow.canonical, h.action_id, h.session_id, h.tool_name,
    h.input_hash, h.output_hash, h.prev_action_hash, h.timestamp, h.sequence_number]

/-- The record's digest is computed as the row's is. -/
theorem RendersRow.selfHash (h : RendersRow r row) :
    computeActionSelfHash rt r = .ok (row.canonical.selfHash rt) := by
  rw [computeActionSelfHash_eq rt h.fields, h.canonical]

/-- Both sides read the empty text as `None`. -/
theorem optStr_strOrNone (s : Option JStr) : (optStr s).orNone = optStr (strOrNone s) := by
  cases s with
  | none => rfl
  | some s =>
    by_cases hempty : s.units.isEmpty = true <;>
      simp [optStr, strOrNone, Json.orNone, Json.truthy, hempty]

/-- Optional texts compare as their renderings do. -/
theorem optStr_pyEq {s t : Option JStr} : (optStr s).pyEq (optStr t) = true ↔ s = t := by
  cases s <;> cases t <;> simp [optStr, Json.pyEq_str, Json.pyEq_null]

/-- The links are compared alike. -/
theorem RendersRow.link (h : RendersRow r row) {expected_prev : Option JStr} :
    (r.get "prev_action_hash").orNone.pyEq (optStr expected_prev) = true ↔
      strOrNone row.prev_action_hash = expected_prev := by
  rw [h.prev_action_hash, optStr_strOrNone, optStr_pyEq]

/-- The payloads are bound alike. -/
theorem RendersRow.bindingFailure_eq_none (h : RendersRow r row) :
    bindingFailure rt r = none ↔ payloadBindingError rt row = none := by
  have hnone : ∀ v : Json, Json.isNone v = false ↔ v ≠ .null := by
    intro v
    cases v <;> simp [Json.isNone]
  have hout : ∀ s : JStr, optStr row.output_hash = .str s ↔ some s = row.output_hash := by
    intro s
    cases row.output_hash with
    | none => simp [optStr]
    | some t => simp [optStr, eq_comm]
  rw [RootSign.bindingFailure_eq_none, bindingHolds_iff, bindingHolds_iff,
    payloadBindingError_eq_none, h.input_redacted, h.output_redacted, h.input_hash,
    h.output_hash, hnone, hnone, hout, Json.str.injEq]
  simp only [eq_comm]

end

/-! ### The walks -/

section

variable {rt : Runtime} {gaps : List SeqRange} {explained : Dict → Bool}

/-- One turn of each walk: the row's turn stops at a number seen before, and otherwise exactly
    where the record's turn finds a fault. -/
theorem RendersRow.checkRow {r : Dict} {row : ActionRow} (h : RendersRow r row)
    (hexplains : explainsBreak rt (r.get "sequence_number") gaps = .ok (explained r))
    (seen : List ℤ) (expected_prev : Option JStr) :
    ∃ found, RootSign.checkRow rt gaps seen expected_prev row = .ok found ∧
      (found = none ↔ row.sequence_number ∉ seen ∧
        recordFault rt explained (optStr expected_prev) r = none) := by
  rw [h.sequence_number] at hexplains
  have hself : (r.get "self_hash").pyEq (.str (row.canonical.selfHash rt)) = true ↔
      row.canonical.selfHash rt = row.self_hash := by
    rw [h.self_hash, Json.pyEq_str, Json.str.injEq, eq_comm]
  have hlink := @RendersRow.link r row h expected_prev
  have hbound := @RendersRow.bindingFailure_eq_none rt r row h
  unfold RootSign.checkRow recordFault
  rw [computeActionSelfHash_row, h.selfHash, hexplains]
  -- a number seen before stops the row's turn alone; the record's is sorted out earlier
  by_cases hseen : row.sequence_number ∈ seen
  · rw [if_pos hseen]
    exact ⟨_, rfl, by simp [hseen]⟩
  rw [if_neg hseen]
  by_cases h1 : row.canonical.selfHash rt = row.self_hash
  · -- the hash recomputes: the link decides, then the payloads
    have h1' := hself.mpr h1
    by_cases h2 : strOrNone row.prev_action_hash = expected_prev
    · have h2' := hlink.mpr h2
      refine ⟨(payloadBindingError rt row).map fun error => (.PAYLOAD_BINDING, error), ?_, ?_⟩
      · simp [bind, Except.bind, pure, Except.pure, h1, h2]
      · simp [hseen, h1', h2', hbound]
    · have h2' : (r.get "prev_action_hash").orNone.pyEq (optStr expected_prev) = false := by
        rw [← Bool.not_eq_true, hlink]
        exact h2
      -- a broken link is passed over where a gap explains it
      cases h3 : explained r with
      | true =>
        refine ⟨(payloadBindingError rt row).map fun error => (.PAYLOAD_BINDING, error), ?_, ?_⟩
        · simp [bind, Except.bind, pure, Except.pure, h1, h2]
        · simp [hseen, h1', h2', hbound]
      | false =>
        refine ⟨_, by simp [bind, Except.bind, pure, Except.pure, h1, h2]; rfl, ?_⟩
        simp [h1', h2']
  · have h1' : (r.get "self_hash").pyEq (.str (row.canonical.selfHash rt)) = false := by
      rw [← Bool.not_eq_true, hself]
      exact h1
    refine ⟨_, by simp [bind, Except.bind, pure, Except.pure, h1]; rfl, ?_⟩
    simp [h1']

/-- The rows after a prefix are walked with the numbers and the last hash of the prefix. -/
theorem walkRows_append {seen : List ℤ} {expected_prev : Option JStr} (a b : List ActionRow) :
    walkRows rt gaps seen expected_prev (a ++ b) =
      (walkRows rt gaps seen expected_prev a).bind fun found =>
        match found with
        | some stop => .ok (some stop)
        | none => walkRows rt gaps ((a.map ActionRow.sequence_number).reverse ++ seen)
            (lastSelf (fun row => some row.self_hash) expected_prev a) b := by
  induction a generalizing seen expected_prev with
  | nil => rfl
  | cons row a ih =>
    rw [List.cons_append, walkRows, walkRows]
    cases RootSign.checkRow rt gaps seen expected_prev row with
    | error e => rfl
    | ok found =>
      cases found with
      | some failure => rfl
      | none =>
        show walkRows rt gaps (row.sequence_number :: seen) (some row.self_hash) (a ++ b) = _
        rw [ih]
        simp [lastSelf, bind, Except.bind]

/-- Where the walk over records stops, as a sequence number. -/
def stopOf (rt : Runtime) (explained : Dict → Bool) (expected_prev : Json) (records : List Dict) :
    Option Json :=
  (firstFault (reportedFault rt explained) (fun r => r.get "self_hash") expected_prev
    records).map fun fault => fault.2.1

variable {records : List Dict} {rows : List ActionRow}

/-- **Over distinct numbers the walks stop together.** -/
theorem walkRows_distinct (h : List.Forall₂ RendersRow records rows)
    (hexplains : ∀ r ∈ records,
      explainsBreak rt (r.get "sequence_number") gaps = .ok (explained r))
    (hdistinct : records.Pairwise fun r s => sequenceOf r < sequenceOf s) (seen : List ℤ)
    (hseen : ∀ r ∈ records, sequenceOf r ∉ seen) (expected_prev : Option JStr) :
    ∃ found, walkRows rt gaps seen expected_prev rows = .ok found ∧
      found.map (fun stop => Json.int stop.2.1) =
        stopOf rt explained (optStr expected_prev) records := by
  -- by induction on the rows, with the numbers seen so far all below the rest
  induction h generalizing seen expected_prev with
  | nil => exact ⟨none, rfl, rfl⟩
  | @cons r row records rows hrow _ ih =>
    rw [List.pairwise_cons] at hdistinct
    obtain ⟨found, hcheck, hiff⟩ := hrow.checkRow (hexplains r (by simp)) seen expected_prev
    rw [walkRows, hcheck]
    have hnew : row.sequence_number ∉ seen := by
      rw [← hrow.sequenceOf_eq]
      exact hseen r (by simp)
    cases hfault : recordFault rt explained (optStr expected_prev) r with
    | none =>
      rw [hiff.mpr ⟨hnew, hfault⟩]
      obtain ⟨found', hwalk, hstop⟩ := ih (fun s hs => hexplains s (by simp [hs])) hdistinct.2
        (row.sequence_number :: seen) (fun s hs => by
          rw [List.mem_cons, not_or, ← hrow.sequenceOf_eq]
          exact ⟨(hdistinct.1 s hs).ne', hseen s (by simp [hs])⟩) (some row.self_hash)
      refine ⟨found', hwalk, ?_⟩
      rw [hstop, stopOf, stopOf, firstFault, reportedFault, hfault, hrow.self_hash]
      rfl
    | some fault =>
      cases found with
      | none =>
        have := (hiff.mp rfl).2
        rw [hfault] at this
        exact absurd this (by simp)
      | some failure =>
        refine ⟨some (failure.1, row.sequence_number, failure.2), rfl, ?_⟩
        simp [stopOf, firstFault, reportedFault, hfault, hrow.sequence_number]

/-- **At a repeated number** the walk over the rows has stopped before it, or stops there. -/
theorem walkRows_repeated {p q : Dict} {b : List Dict}
    (h : List.Forall₂ RendersRow (records ++ p :: q :: b) rows)
    (hexplains : ∀ r ∈ records ++ [p],
      explainsBreak rt (r.get "sequence_number") gaps = .ok (explained r))
    (hdistinct : (records ++ [p]).Pairwise fun r s => sequenceOf r < sequenceOf s)
    (hpq : sequenceOf p = sequenceOf q) :
    ∃ found, walkRows rt gaps [] none rows = .ok (some found) ∧
      Json.int found.2.1 =
        (stopOf rt explained .null (records ++ [p])).getD (.int (sequenceOf q)) := by
  rw [← List.singleton_append, ← List.append_assoc] at h
  obtain ⟨front, back, rfl, hfront, hback⟩ := exists_of_forall₂_append h
  obtain ⟨rowq, rowsb, hrowq, -, rfl⟩ := List.forall₂_cons_left_iff.mp hback
  obtain ⟨found, hwalk, hstop⟩ := walkRows_distinct hfront hexplains hdistinct [] (by simp) none
  rw [walkRows_append, hwalk]
  cases found with
  | some stop =>
    refine ⟨stop, rfl, ?_⟩
    rw [show Json.null = optStr none from rfl, ← hstop]
    rfl
  | none =>
    -- the number of `p` is among the numbers seen
    have hmem : rowq.sequence_number ∈ (front.map ActionRow.sequence_number).reverse ++ [] := by
      obtain ⟨before, last, rfl, -, hlast⟩ := exists_of_forall₂_append hfront
      obtain ⟨rowp, _, hp, -, rfl⟩ := List.forall₂_cons_left_iff.mp hlast
      rw [← hrowq.sequenceOf_eq, ← hpq, hp.sequenceOf_eq]
      simp
    have hcheck : ∀ e, ∃ error, RootSign.checkRow rt gaps
        ((front.map ActionRow.sequence_number).reverse ++ []) e rowq =
          .ok (some (.DUPLICATE_SEQUENCE, error)) := by
      intro e
      unfold RootSign.checkRow
      rw [if_pos hmem]
      exact ⟨_, rfl⟩
    obtain ⟨error, hcheck⟩ := hcheck (lastSelf (fun row => some row.self_hash) none front)
    refine ⟨(.DUPLICATE_SEQUENCE, rowq.sequence_number, error), ?_, ?_⟩
    · simp only [Except.bind]
      rw [walkRows, hcheck]
      rfl
    · rw [show Json.null = optStr none from rfl, ← hstop, hrowq.sequenceOf_eq]
      rfl

end

/-! ### The results -/

/-- `int | None` as a value. -/
def optInt : Option ℤ → Json
  | some n => .int n
  | none => .null

/-- The two results agree on the verdict and the fields beside it. -/
structure Agree (loc : VerifyResult) (res : ChainResult) : Prop where
  verdict : res.verdict = loc.verdict
  valid : res.valid = loc.valid
  record_count : res.record_count = loc.record_count
  missing_ranges : res.missing_ranges = loc.missing_ranges
  first_invalid_sequence : optInt res.first_invalid_sequence = loc.first_invalid_sequence

/-- The verdict, given where the verifier stopped. -/
def verdictAt (gaps : List SeqRange) (stop : Option Json) : Verdict :=
  if stop.isSome then .TAMPERED else decideVerdict gaps none

/-- The first invalid number: where the verifier stopped, else the first gap. -/
def firstInvalid (gaps : List SeqRange) (stop : Option Json) : Json :=
  stop.getD ((gaps.head?.map fun r => Json.int r.1).getD .null)

/-- A result of the file verifier, read off the gaps and where it stopped. -/
structure Reports (gaps : List SeqRange) (count : ℕ) (stop : Option Json) (res : VerifyResult) :
    Prop where
  verdict : res.verdict = verdictAt gaps stop
  record_count : res.record_count = count
  missing_ranges : res.missing_ranges = gaps
  first_invalid_sequence : res.first_invalid_sequence = firstInvalid gaps stop

/-- A result of the database verifier, read off the gaps and where it stopped. -/
structure ReportsRows (gaps : List SeqRange) (count : ℕ) (stop : Option Json)
    (res : ChainResult) : Prop where
  verdict : res.verdict = verdictAt gaps stop
  valid : res.valid = (res.verdict == .VALID)
  record_count : res.record_count = count
  missing_ranges : res.missing_ranges = gaps
  first_invalid_sequence : optInt res.first_invalid_sequence = firstInvalid gaps stop

/-- No verdict without a stop is one with a stop. -/
theorem verdictAt_none_ne (gaps : List SeqRange) (n : Json) :
    verdictAt gaps none ≠ verdictAt gaps (some n) := by
  cases gaps <;> simp [verdictAt, decideVerdict]

/-- Results over the same gaps agree exactly when both verifiers stopped at the same place. -/
theorem agree_iff_stop {gaps : List SeqRange} {count : ℕ} {stop stop' : Option Json}
    {loc : VerifyResult} {res : ChainResult} (hloc : Reports gaps count stop loc)
    (hres : ReportsRows gaps count stop' res) : Agree loc res ↔ stop' = stop := by
  constructor
  · intro hagree
    have hverdict : verdictAt gaps stop' = verdictAt gaps stop := by
      rw [← hres.verdict, ← hloc.verdict, hagree.verdict]
    have hfirst : firstInvalid gaps stop' = firstInvalid gaps stop := by
      rw [← hres.first_invalid_sequence, ← hloc.first_invalid_sequence,
        hagree.first_invalid_sequence]
    cases stop with
    | none =>
      cases stop' with
      | none => rfl
      | some n => exact absurd hverdict.symm (verdictAt_none_ne gaps n)
    | some m =>
      cases stop' with
      | none => exact absurd hverdict (verdictAt_none_ne gaps m)
      | some n => exact congrArg some hfirst
  · rintro rfl
    have hverdict : res.verdict = loc.verdict := by rw [hres.verdict, hloc.verdict]
    exact ⟨hverdict, by rw [hres.valid, hverdict]; rfl,
      by rw [hres.record_count, hloc.record_count],
      by rw [hres.missing_ranges, hloc.missing_ranges],
      by rw [hres.first_invalid_sequence, hloc.first_invalid_sequence]⟩

section

variable {rt : Runtime} {records : List Dict}

/-- The action records in the order the verifier walks them. -/
def byNumber (records : List Dict) : List Dict :=
  records.insertionSort fun r s => sequenceOf r ≤ sequenceOf s

/-- The file verifier stops at the first repeated number, or where its walk does. -/
theorem verifyRecords_reports (rt : Runtime) (session_id : Json)
    (hnumber : ∀ r ∈ records, r.get "sequence_number" = .int (sequenceOf r)) :
    ∃ res, verifyRecords rt session_id records = .ok res ∧
      Reports (missingRanges (sequencesOf (byNumber records))) records.length
        ((firstDuplicate (sequencesOf (byNumber records))).or
          (stopOf rt (excused (byNumber records)) .null (byNumber records))) res := by
  have hperm : (byNumber records).Perm records := List.perm_insertionSort _ _
  have hfst : ((byNumber records).map fun r => (Json.int (sequenceOf r), r)).map Prod.fst =
      sequencesOf (byNumber records) := by simp [sequencesOf]
  have hsnd : ((byNumber records).map fun r => (Json.int (sequenceOf r), r)).map Prod.snd =
      byNumber records := by simp [Function.comp_def]
  have hwalk : walk rt (missingRanges (sequencesOf (byNumber records))) .null
      (byNumber records) = _ :=
    walk_eq fun r hr => explainsBreak_eq_excused hr (hnumber r (hperm.mem_iff.mp hr))
  unfold verifyRecords
  rw [← bind_assoc, sortByKey_records hnumber]
  show ∃ res, Except.bind (.ok ((byNumber records).map fun r => (Json.int (sequenceOf r), r))) _ =
    .ok res ∧ _
  simp only [Except.bind, hfst, hsnd]
  -- a repeated number is reported before the walk starts
  cases hdup : firstDuplicate (sequencesOf (byNumber records)) with
  | some b => exact ⟨_, rfl, rfl, hperm.length_eq, rfl, rfl⟩
  | none =>
    rw [hwalk, Option.none_or, stopOf]
    cases firstFault (reportedFault rt (excused (byNumber records))) (fun r => r.get "self_hash")
        .null (byNumber records) with
    | some fault => exact ⟨_, rfl, rfl, hperm.length_eq, rfl, rfl⟩
    | none => exact ⟨_, rfl, rfl, hperm.length_eq, rfl, rfl⟩

/-- The database verifier stops where its walk does. -/
theorem verifyChain_reports {db : Database} {session_id : Uuid}
    {found : Option (FailureKind × ℤ × JStr)} {gaps : List SeqRange}
    (hgaps : missingRanges ((getSessionChain db session_id).map fun a =>
      .int a.sequence_number) = gaps)
    (hwalk : walkRows rt gaps [] none (getSessionChain db session_id) = .ok found) :
    ∃ res, verifyChain rt db session_id = .ok res ∧
      ReportsRows gaps (getSessionChain db session_id).length
        (found.map fun stop => Json.int stop.2.1) res := by
  unfold verifyChain
  cases hrows : getSessionChain db session_id with
  | nil =>
    rw [hrows] at hgaps hwalk
    obtain rfl := Except.ok.inj hwalk
    subst hgaps
    exact ⟨_, rfl, rfl, rfl, rfl, rfl, rfl⟩
  | cons row rows =>
    rw [← hrows]
    have hnonempty : (getSessionChain db session_id).isEmpty = false := by rw [hrows]; rfl
    simp only [hnonempty, Bool.false_eq_true, if_false, hgaps, hwalk]
    cases found with
    | some stop => exact ⟨_, rfl, rfl, rfl, rfl, rfl, rfl⟩
    | none =>
      cases gaps with
      | nil => exact ⟨_, rfl, rfl, rfl, rfl, rfl, rfl⟩
      | cons first rest => exact ⟨_, rfl, rfl, rfl, rfl, rfl, rfl⟩

/-! ### Repeated numbers -/

/-- Two records carry the number. -/
def Repeated (records : List Dict) (n : ℤ) : Prop :=
  2 ≤ (records.filter fun r => sequenceOf r = n).length

/-- When some number is repeated, no bad record is numbered below every repeated number. -/
def CleanBelowRepeated (rt : Runtime) (records : List Dict) : Prop :=
  (∃ n, Repeated records n) →
    ∀ r ∈ records, (∀ n, Repeated records n → sequenceOf r < n) → ¬ Bad rt records r

/-- Sorting the records leaves what is clean below a repeated number. -/
theorem cleanBelowRepeated_perm {sorted : List Dict} (h : sorted.Perm records) :
    CleanBelowRepeated rt sorted ↔ CleanBelowRepeated rt records := by
  have hrepeated : ∀ n, Repeated sorted n ↔ Repeated records n := fun n => by
    rw [Repeated, Repeated, (h.filter _).length_eq]
  simp only [CleanBelowRepeated, hrepeated, h.mem_iff, bad_perm h]

/-- Strictly ascending numbers repeat none. -/
theorem not_repeated {n : ℤ} (h : records.Pairwise fun r s => sequenceOf r < sequenceOf s) :
    ¬ Repeated records n := by
  intro hrepeated
  obtain ⟨x, y, rest, hsplit⟩ : ∃ x y rest,
      records.filter (fun r => sequenceOf r = n) = x :: y :: rest := by
    unfold Repeated at hrepeated
    match hlist : records.filter fun r => sequenceOf r = n with
    | [] | [_] => rw [hlist] at hrepeated; simp at hrepeated
    | x :: y :: rest => exact ⟨x, y, rest, rfl⟩
  have hpair := h.filter fun r => decide (sequenceOf r = n)
  rw [hsplit, List.pairwise_cons] at hpair
  have hx : x ∈ records.filter fun r => sequenceOf r = n := by rw [hsplit]; simp
  have hy : y ∈ records.filter fun r => sequenceOf r = n := by rw [hsplit]; simp
  have hlt := hpair.1 y (by simp)
  rw [of_decide_eq_true (List.mem_filter.mp hx).2, of_decide_eq_true (List.mem_filter.mp hy).2]
    at hlt
  exact absurd hlt (lt_irrefl n)

/-- Ascending records up to the first repeated number: `front` below it, then `p` and `q`. -/
structure FirstRepeat (records front : List Dict) (p q : Dict) (back : List Dict) : Prop where
  split : records = front ++ p :: q :: back
  ascending : records.Pairwise fun r s => sequenceOf r ≤ sequenceOf s
  equal : sequenceOf p = sequenceOf q
  strict : (front ++ [p]).Pairwise fun r s => sequenceOf r < sequenceOf s

namespace FirstRepeat

variable {front back : List Dict} {p q : Dict}

/-- Records before the repeated number are numbered below it. -/
theorem lt_of_mem (h : FirstRepeat records front p q back) {r : Dict} (hr : r ∈ front) :
    sequenceOf r < sequenceOf p := by
  have hstrict := h.strict
  rw [List.pairwise_append] at hstrict
  exact hstrict.2.2 r hr p (by simp)

/-- The records from the second one of the pair on are numbered from the repeated number on. -/
theorem le_of_mem_back (h : FirstRepeat records front p q back) {r : Dict}
    (hr : r ∈ q :: back) : sequenceOf p ≤ sequenceOf r := by
  have hascending := h.ascending
  rw [h.split, List.pairwise_append, List.pairwise_cons] at hascending
  exact hascending.2.1.1 r hr

/-- The records are those up to the first of the pair and those from the second on. -/
theorem mem_iff (h : FirstRepeat records front p q back) {r : Dict} :
    r ∈ records ↔ r ∈ front ++ [p] ∨ r ∈ q :: back := by
  rw [h.split, ← List.mem_append, List.append_assoc, List.singleton_append]

/-- In front of the pair are the records below its number. -/
theorem mem_front_iff (h : FirstRepeat records front p q back) {r : Dict} :
    r ∈ front ↔ r ∈ records ∧ sequenceOf r < sequenceOf p := by
  refine ⟨fun hr => ⟨h.mem_iff.mpr (by simp [hr]), h.lt_of_mem hr⟩, fun ⟨hr, hlt⟩ => ?_⟩
  rw [h.mem_iff, List.mem_append, List.mem_singleton] at hr
  rcases hr with (hr | rfl) | hr
  · exact hr
  · exact absurd hlt (lt_irrefl _)
  · have := h.le_of_mem_back hr
    omega

/-- The number of the pair is the least repeated one. -/
theorem repeated (h : FirstRepeat records front p q back) : Repeated records (sequenceOf p) := by
  unfold Repeated
  rw [h.split, List.filter_append, List.filter_cons_of_pos (by simp),
    List.filter_cons_of_pos (by simp [h.equal])]
  simp only [List.length_append, List.length_cons]
  omega

/-- No smaller number is repeated. -/
theorem le_of_repeated (h : FirstRepeat records front p q back) {n : ℤ}
    (hn : Repeated records n) : sequenceOf p ≤ n := by
  by_contra hlt
  -- every record of number `n` lies in the strictly ascending front
  have hback : (p :: q :: back).filter (fun r => sequenceOf r = n) = [] := by
    rw [List.filter_eq_nil_iff]
    intro r hr
    have hle : sequenceOf p ≤ sequenceOf r := by
      rcases List.mem_cons.mp hr with rfl | hr
      · exact le_rfl
      · exact h.le_of_mem_back hr
    simp only [decide_eq_true_eq]
    omega
  have hfront : Repeated front n := by
    unfold Repeated at hn ⊢
    rwa [h.split, List.filter_append, hback, List.append_nil] at hn
  exact not_repeated (List.pairwise_append.mp h.strict).1 hfront

/-- The records before the pair are those numbered below every repeated number. -/
theorem cleanBelowRepeated_iff (h : FirstRepeat records front p q back) :
    CleanBelowRepeated rt records ↔ ∀ r ∈ front, ¬ Bad rt records r := by
  constructor
  · intro hclean r hr
    exact hclean ⟨_, h.repeated⟩ r (h.mem_front_iff.mp hr).1
      fun n hn => lt_of_lt_of_le (h.lt_of_mem hr) (h.le_of_repeated hn)
  · intro hgood _ r hr hbelow
    exact hgood r (h.mem_front_iff.mpr ⟨hr, hbelow _ h.repeated⟩)

/-- The predecessor of a record up to the pair lies before the pair. -/
theorem mem_of_pred (h : FirstRepeat records front p q back) {r s : Dict}
    (hr : r ∈ front ++ [p]) (hpred : sequenceOf s = sequenceOf r - 1) :
    s ∈ records ↔ s ∈ front ++ [p] := by
  rw [h.mem_iff, or_iff_left_iff_imp]
  intro hs
  have hle := h.le_of_mem_back hs
  have hrp : sequenceOf r ≤ sequenceOf p := by
    rw [List.mem_append, List.mem_singleton] at hr
    rcases hr with hr | rfl
    · exact le_of_lt (h.lt_of_mem hr)
    · exact le_rfl
  omega

/-- Up to the pair a record is bad among all the records exactly if it is so among those. -/
theorem bad_iff (h : FirstRepeat records front p q back) {r : Dict} (hr : r ∈ front ++ [p]) :
    Bad rt (front ++ [p]) r ↔ Bad rt records r := by
  have hlink : (∃ s ∈ front ++ [p], sequenceOf s = sequenceOf r - 1 ∧
      r.get "prev_action_hash" ≠ s.get "self_hash") ↔
      ∃ s ∈ records, sequenceOf s = sequenceOf r - 1 ∧
        r.get "prev_action_hash" ≠ s.get "self_hash" := by
    apply exists_congr
    intro s
    rw [and_congr_left_iff]
    exact fun hs => (h.mem_of_pred hr hs.1).symm
  unfold Bad LinkBroken
  rw [hlink]

/-- Up to the pair the same breaks are excused. -/
theorem excused_eq (h : FirstRepeat records front p q back) {r : Dict} (hr : r ∈ front ++ [p]) :
    excused records r = excused (front ++ [p]) r := by
  rw [Bool.eq_iff_iff, excused_iff, excused_iff]
  refine and_congr_right fun _ => ⟨fun hnone s hs heq => ?_, fun hnone s hs heq => ?_⟩
  · exact hnone s ((h.mem_of_pred hr heq).mpr hs) heq
  · exact hnone s ((h.mem_of_pred hr heq).mp hs) heq

/-- The file verifier stops at the repeated number. -/
theorem firstDuplicate_eq (h : FirstRepeat records front p q back) :
    firstDuplicate (sequencesOf records) = some (.int (sequenceOf q)) := by
  obtain ⟨hsplit, -, hequal, hstrict⟩ := h
  rw [hsplit]
  clear hsplit
  induction front with
  | nil => simp [sequencesOf, firstDuplicate, hequal]
  | cons r front ih =>
    rw [List.cons_append, List.pairwise_cons] at hstrict
    have hrest := ih hstrict.2
    obtain ⟨s, rest, hcons, hs⟩ : ∃ s rest, front ++ p :: q :: back = s :: rest ∧
        s ∈ front ++ [p] := by
      cases front with
      | nil => exact ⟨p, _, rfl, by simp⟩
      | cons s front => exact ⟨s, _, rfl, by simp⟩
    rw [hcons] at hrest
    rw [List.cons_append, hcons]
    have hlt := hstrict.1 s hs
    simp only [sequencesOf, List.map_cons, firstDuplicate, Json.pyEq_int] at hrest ⊢
    rw [if_neg (by simp; omega)]
    exact hrest

/-- **Before a repeated number** the walk stops elsewhere exactly at a bad record below it. -/
theorem stopOf_eq_iff (h : FirstRepeat records front p q back)
    (hnumber : ∀ r ∈ records, r.get "sequence_number" = .int (sequenceOf r))
    (hpos : ∀ r ∈ records, 1 ≤ sequenceOf r) :
    (stopOf rt (excused (front ++ [p])) .null (front ++ [p])).getD (.int (sequenceOf q)) =
        .int (sequenceOf q) ↔
      -- the records up to the repeated number are strictly ascending, so the walk finds the least
      -- bad one
      CleanBelowRepeated rt records := by
  have hmem : ∀ r ∈ front ++ [p], r ∈ records := fun r hr => h.mem_iff.mpr (Or.inl hr)
  have hsorted : AscendingRecords (front ++ [p]) :=
    { number := fun r hr => hnumber r (hmem r hr)
      pos := fun r hr => hpos r (hmem r hr)
      ascending := h.strict }
  rw [h.cleanBelowRepeated_iff, ← h.equal, stopOf]
  -- either nothing is found before the second of the pair, or a bad record is
  cases hfault : firstFault (reportedFault rt (excused (front ++ [p])))
      (fun r => r.get "self_hash") .null (front ++ [p]) with
  | none =>
    have hgood := (firstFault_eq_none_iff_not_bad hsorted).mp hfault
    refine ⟨fun _ r hr => ?_, fun _ => rfl⟩
    have hr' : r ∈ front ++ [p] := by simp [hr]
    rw [← h.bad_iff hr']
    exact hgood r hr'
  | some fault =>
    obtain ⟨r, hr, hbad, hfirst, hmin⟩ := exists_bad_of_firstFault_eq_some hsorted hfault
    show fault.2.1 = _ ↔ _
    rw [hfirst, Json.int.injEq]
    constructor
    · intro heq s hs hsbad
      have hs' : s ∈ front ++ [p] := by simp [hs]
      have hle := hmin s hs' ((h.bad_iff hs').mpr hsbad)
      have hlt := h.lt_of_mem hs
      omega
    · intro hgood
      rw [List.mem_append, List.mem_singleton] at hr
      rcases hr with hr | rfl
      · have hr' : r ∈ front ++ [p] := by simp [hr]
        exact absurd ((h.bad_iff hr').mp hbad) (hgood r hr)
      · rfl

end FirstRepeat

end

/-! ### Files of the lines of rows -/

/-- The line of a row: the canonical fields, its hash and its payloads. -/
def ActionRow.line (row : ActionRow) : Dict :=
  Dict.ofFields
    [("event_type", .str "ACTION_RECORD"),
     ("action_id", .str row.action_id.text),
     ("session_id", .str row.session_id.text),
     ("tool_name", .str row.tool_name),
     ("input_hash", .str row.input_hash),
     ("output_hash", optStr row.output_hash),
     ("input_redacted", row.input_redacted),
     ("output_redacted", row.output_redacted),
     ("timestamp", .str (JStr.ofChars row.timestamp.isoformat)),
     ("sequence_number", .int row.sequence_number),
     ("prev_action_hash", optStr row.prev_action_hash),
     ("self_hash", .str row.self_hash)]

/-- The line that the exporter writes of a row renders it. -/
theorem rendersRow_line (row : ActionRow) : RendersRow row.line row := by
  constructor
  case fields => constructor <;> simp [ActionRow.line, Dict.has_ofFields, List.lookup_cons]
  all_goals simp [ActionRow.line, Dict.get_ofFields, List.lookup_cons]

theorem line_isActionLine (row : ActionRow) : isActionLine row.line = true := by
  simp [isActionLine, ActionRow.line, Dict.getD_ofFields, Json.pyEq]

/-- The lines of rows are all action records. -/
theorem filter_isActionLine_lines (rows : List ActionRow) :
    (rows.map ActionRow.line).filter isActionLine = rows.map ActionRow.line := by
  rw [List.filter_eq_self]
  intro d hd
  obtain ⟨row, -, rfl⟩ := List.mem_map.mp hd
  exact line_isActionLine row

/-- The line carries the row's number. -/
theorem sequenceOf_line (row : ActionRow) : sequenceOf row.line = row.sequence_number :=
  (rendersRow_line row).sequenceOf_eq

/-- A file of the lines of rows renders the rows. -/
theorem renders_lines (rows : List ActionRow) : Renders (rows.map ActionRow.line) rows := by
  intro n
  rw [filter_isActionLine_lines, List.filter_map, List.forall₂_map_left_iff]
  have hsame : (fun r => decide (sequenceOf r = n)) ∘ ActionRow.line =
      fun row => decide (row.sequence_number = n) := by
    funext row
    simp [sequenceOf_line]
  rw [hsame, List.forall₂_same]
  exact fun row _ => rendersRow_line row

/-- A row under the hash of its own fields, its previews withheld. -/
def storedRow (action_id : Uuid) (n : ℤ) (prev : Option JStr) : ActionRow :=
  let row : ActionRow :=
    { action_id := action_id
      timestamp := mayNoon.time
      session_id := exampleSession
      decision_id := none
      policy_id := none
      tool_name := "send_email"
      input_hash := computePayloadHash exampleRuntime (.obj [])
      output_hash := none
      input_redacted := .null
      output_redacted := .null
      prev_action_hash := prev
      self_hash := ""
      duration_ms := none
      authorization_status := .AUTO_AUTHORIZED
      sequence_number := n }
  { row with self_hash := row.canonical.selfHash exampleRuntime }

/-- A row whose digest is computed from its own fields is intact. -/
theorem storedRow_intact (action_id : Uuid) (n : ℤ) (prev : Option JStr) :
    RecordIntact exampleRuntime (storedRow action_id n prev).line where
  self_hash := by
    refine ⟨_, (rendersRow_line _).selfHash, ?_⟩
    rw [(rendersRow_line _).self_hash]
    rfl
  input_bound hstored := absurd (rendersRow_line _).input_redacted hstored
  output_bound hstored := absurd (rendersRow_line _).output_redacted hstored

/-- Tables with the rows of one session. -/
def rowsDatabase (rows : List ActionRow) : Database where
  sessions := fun id =>
    if id = exampleSession then
      some
        { status := .RUNNING
          chain_head_hash := rows.head?.map ActionRow.self_hash
          chain_tail_hash := rows.getLast?.map ActionRow.self_hash
          action_count := rows.length }
    else none
  actions := rows
  policies := fun _ => false

/-! ### Agreement -/

section

variable {rt : Runtime} {lines : List Dict} {db : Database} {session_id : Uuid}

/-- Sorted by number, the action records render the rows one by one. -/
theorem Renders.forall₂ (h : Renders lines (rowsOf db session_id)) :
    List.Forall₂ RendersRow (byNumber (lines.filter isActionLine))
      (getSessionChain db session_id) :=
  forall₂_insertionSort h

/-- Every action record of a rendering renders some row. -/
theorem Renders.exists_row (h : Renders lines (rowsOf db session_id)) {r : Dict}
    (hr : r ∈ byNumber (lines.filter isActionLine)) :
    ∃ row ∈ rowsOf db session_id, RendersRow r row := by
  obtain ⟨a, b, hsplit⟩ := List.append_of_mem hr
  have hall := h.forall₂
  rw [hsplit] at hall
  obtain ⟨front, back, hrows, -, hback⟩ := exists_of_forall₂_append hall
  obtain ⟨row, _, hrow, -, rfl⟩ := List.forall₂_cons_left_iff.mp hback
  refine ⟨row, ?_, hrow⟩
  rw [← (List.perm_insertionSort (fun a b : ActionRow => a.sequence_number ≤ b.sequence_number)
    (rowsOf db session_id)).mem_iff]
  show row ∈ getSessionChain db session_id
  rw [hrows]
  simp

/-- Both verifiers collect the same gaps. -/
theorem sequencesOf_eq {records : List Dict} {rows : List ActionRow}
    (h : List.Forall₂ RendersRow records rows) :
    rows.map (fun row => Json.int row.sequence_number) = sequencesOf records := by
  induction h with
  | nil => rfl
  | cons hrow _ ih => rw [List.map_cons, ih, ← hrow.sequenceOf_eq]; rfl

/-- What a rendering says of the sorted action records. -/
structure RenderedRecords (records : List Dict) : Prop where
  number : ∀ r ∈ records, r.get "sequence_number" = .int (sequenceOf r)
  pos : ∀ r ∈ records, 1 ≤ sequenceOf r

/-- The action records of a rendering, sorted, are records of rows numbered from one. -/
theorem Renders.rendered (h : Renders lines (rowsOf db session_id))
    (hpos : ∀ row ∈ rowsOf db session_id, 1 ≤ row.sequence_number) :
    RenderedRecords (byNumber (lines.filter isActionLine)) := by
  refine ⟨fun r hr => ?_, fun r hr => ?_⟩
  all_goals obtain ⟨row, hmem, hrow⟩ := h.exists_row hr
  · exact hrow.number
  · rw [hrow.sequenceOf_eq]
    exact hpos row hmem

/-- Both verifiers on a rendering with an action record: the file verifier stops at a repeated
    number or where its walk does, the database verifier where its own walk does. -/
theorem verifiers_report (rt : Runtime) (h : Renders lines (rowsOf db session_id))
    (hrendered : RenderedRecords (byNumber (lines.filter isActionLine)))
    (hne : lines.filter isActionLine ≠ []) {found : Option (FailureKind × ℤ × JStr)}
    (hwalk : walkRows rt (missingRanges (sequencesOf (byNumber (lines.filter isActionLine))))
      [] none (getSessionChain db session_id) = .ok found) :
    ∃ loc res, verifySessionLocal rt (objectLines lines) = .ok loc ∧
      verifyChain rt db session_id = .ok res ∧
      (Agree loc res ↔ (found.map fun stop => Json.int stop.2.1) =
        (firstDuplicate (sequencesOf (byNumber (lines.filter isActionLine)))).or
          (stopOf rt (excused (byNumber (lines.filter isActionLine))) .null
            (byNumber (lines.filter isActionLine)))) := by
  have hperm : (byNumber (lines.filter isActionLine)).Perm (lines.filter isActionLine) :=
    List.perm_insertionSort _ _
  obtain ⟨d, rest, rfl⟩ := List.exists_cons_of_ne_nil (l := lines) (by rintro rfl; simp at hne)
  obtain ⟨loc, hloc, hreports⟩ := verifyRecords_reports rt (d.get "session_id")
    (fun r hr => hrendered.number r (hperm.mem_iff.mpr hr))
  obtain ⟨res, hres, hreportsRows⟩ := verifyChain_reports
    (congrArg missingRanges (sequencesOf_eq h.forall₂)) hwalk
  rw [← h.forall₂.length_eq, hperm.length_eq] at hreportsRows
  refine ⟨loc, res, ?_, hres, agree_iff_stop hreports hreportsRows⟩
  rw [verifySessionLocal_cons, if_neg hne, hloc]

/-- Without a repeated number the verifiers agree. -/
theorem verifiers_distinct (rt : Runtime) (h : Renders lines (rowsOf db session_id))
    (hrendered : RenderedRecords (byNumber (lines.filter isActionLine)))
    (hne : lines.filter isActionLine ≠ [])
    (hstrict : (byNumber (lines.filter isActionLine)).Pairwise
      fun r s => sequenceOf r < sequenceOf s) :
    ∃ loc res, verifySessionLocal rt (objectLines lines) = .ok loc ∧
      verifyChain rt db session_id = .ok res ∧ Agree loc res := by
  obtain ⟨found, hwalk, hstop⟩ := walkRows_distinct h.forall₂
    (fun r hr => explainsBreak_eq_excused hr (hrendered.number r hr)) hstrict [] (by simp) none
  obtain ⟨loc, res, hloc, hres, hagree⟩ := verifiers_report rt h hrendered hne hwalk
  refine ⟨loc, res, hloc, hres, hagree.mpr ?_⟩
  rw [firstDuplicate_ascending hstrict, Option.none_or, hstop]
  rfl

/-- With a repeated number they agree exactly when no record below it is bad. -/
theorem verifiers_repeated (rt : Runtime) (h : Renders lines (rowsOf db session_id))
    (hrendered : RenderedRecords (byNumber (lines.filter isActionLine)))
    (hne : lines.filter isActionLine ≠ []) {front back : List Dict} {p q : Dict}
    (hrepeat : FirstRepeat (byNumber (lines.filter isActionLine)) front p q back) :
    ∃ loc res, verifySessionLocal rt (objectLines lines) = .ok loc ∧
      verifyChain rt db session_id = .ok res ∧
      (Agree loc res ↔ CleanBelowRepeated rt (byNumber (lines.filter isActionLine))) := by
  have hall := h.forall₂
  rw [hrepeat.split] at hall
  have hexplains : ∀ r ∈ front ++ [p], explainsBreak rt (r.get "sequence_number")
      (missingRanges (sequencesOf (byNumber (lines.filter isActionLine)))) =
        .ok (excused (front ++ [p]) r) := by
    intro r hr
    have hmem := hrepeat.mem_iff.mpr (Or.inl hr)
    rw [← hrepeat.excused_eq hr]
    exact explainsBreak_eq_excused hmem (hrendered.number r hmem)
  obtain ⟨found, hwalk, hstop⟩ :=
    walkRows_repeated hall hexplains hrepeat.strict hrepeat.equal
  obtain ⟨loc, res, hloc, hres, hagree⟩ := verifiers_report rt h hrendered hne hwalk
  refine ⟨loc, res, hloc, hres, ?_⟩
  rw [hagree, hrepeat.firstDuplicate_eq, Option.some_or, Option.map_some, Option.some.injEq,
    hstop, hrepeat.stopOf_eq_iff hrendered.number hrendered.pos]

/-- **The verifiers side by side.**  On a file that renders the rows of a session, numbered
    from 1 on, both return, and they agree exactly when the file has a line and, if some number
    is repeated, no bad record is numbered below every repeated number. -/
theorem verifiers_agree_iff (rt : Runtime) (lines : List Dict) (db : Database)
    (session_id : Uuid) (h : Renders lines (rowsOf db session_id))
    (hpos : ∀ row ∈ rowsOf db session_id, 1 ≤ row.sequence_number) :
    ∃ loc res, verifySessionLocal rt (objectLines lines) = .ok loc ∧
      verifyChain rt db session_id = .ok res ∧
      (Agree loc res ↔ lines ≠ [] ∧ CleanBelowRepeated rt (lines.filter isActionLine)) := by
  have hperm : (byNumber (lines.filter isActionLine)).Perm (lines.filter isActionLine) :=
    List.perm_insertionSort _ _
  by_cases hnil : lines.filter isActionLine = []
  · -- no action record and no row: the verdicts differ on the empty file only
    have hrows : getSessionChain db session_id = [] := by
      have hall := h.forall₂
      rw [hnil] at hall
      exact List.forall₂_nil_left_iff.mp hall
    have hclean : CleanBelowRepeated rt (lines.filter isActionLine) := by
      rw [hnil]
      exact fun _ r hr => absurd hr (by simp)
    obtain ⟨res, hres, hreports⟩ := @verifyChain_reports rt db session_id none []
      (by rw [hrows]; rfl) (by rw [hrows]; rfl)
    rw [hrows] at hreports
    cases lines with
    | nil =>
      refine ⟨_, res, rfl, hres, fun hagree => ?_, fun hne => absurd rfl hne.1⟩
      have hverdict := hagree.verdict
      rw [hreports.verdict] at hverdict
      exact absurd hverdict (by decide)
    | cons d rest =>
      refine ⟨_, res, by rw [verifySessionLocal_cons, if_pos hnil], hres,
        fun _ => ⟨by simp, hclean⟩, fun _ => ?_⟩
      exact (agree_iff_stop ⟨rfl, rfl, rfl, rfl⟩ hreports).mpr rfl
  · have hne : lines ≠ [] := by
      rintro rfl
      exact hnil rfl
    have hrendered := h.rendered hpos
    rw [← cleanBelowRepeated_perm hperm, and_iff_right hne]
    -- up to the first repeated number the records are strictly ascending
    rcases ascending_cases (pairwise_insertionSort_key sequenceOf (lines.filter isActionLine)) with
      hstrict | ⟨front, p, q, back, hsplit, hequal, hstrict⟩
    · obtain ⟨loc, res, hloc, hres, hagree⟩ := verifiers_distinct rt h hrendered hnil hstrict
      refine ⟨loc, res, hloc, hres, fun _ => ?_, fun _ => hagree⟩
      exact fun ⟨n, hn⟩ => absurd hn (not_repeated hstrict)
    · exact verifiers_repeated rt h hrendered hnil
        ⟨hsplit, pairwise_insertionSort_key sequenceOf _, hequal, hstrict⟩

end

/-! ### Two writers of one number -/

/-- The first row of the session. -/
def firstRow : ActionRow := storedRow exampleEvent 1 none

/-- Behind `first`, two rows numbered 2 that both continue the row stored there. -/
def replayedRows (first : ActionRow) : List ActionRow :=
  [first, storedRow exampleAgent 2 (some firstRow.self_hash),
    storedRow exampleRecord 2 (some firstRow.self_hash)]

section

variable {first : ActionRow}

/-- The rows of the example are of one session. -/
theorem rowsOf_replayedRows (hsession : first.session_id = exampleSession) :
    rowsOf (rowsDatabase (replayedRows first)) exampleSession = replayedRows first := by
  simp [rowsOf, rowsDatabase, replayedRows, storedRow, hsession]

/-- The rows of the example are numbered from one. -/
theorem pos_of_mem_replayedRows (hnumber : first.sequence_number = 1) :
    ∀ row ∈ replayedRows first, 1 ≤ row.sequence_number := by
  simp [replayedRows, storedRow, hnumber]

/-- The first number that is repeated is 2. -/
theorem firstRepeat_replayedRows (hnumber : first.sequence_number = 1) :
    FirstRepeat ((replayedRows first).map ActionRow.line) [first.line]
      (storedRow exampleAgent 2 (some firstRow.self_hash)).line
      (storedRow exampleRecord 2 (some firstRow.self_hash)).line [] := by
  constructor <;> simp [replayedRows, sequenceOf_line, storedRow, hnumber]

end

/-- Two rows of one number behind a sound one: both verifiers return, and agree on the number. -/
theorem verifiers_agree_iff_replayedRows :
    ∃ loc res, verifySessionLocal exampleRuntime
        (objectLines ((replayedRows firstRow).map ActionRow.line)) = .ok loc ∧
      verifyChain exampleRuntime (rowsDatabase (replayedRows firstRow)) exampleSession =
        .ok res ∧ Agree loc res := by
  have hrows := @rowsOf_replayedRows firstRow rfl
  obtain ⟨loc, res, hloc, hres, hagree⟩ := verifiers_agree_iff exampleRuntime
    ((replayedRows firstRow).map ActionRow.line) (rowsDatabase (replayedRows firstRow))
    exampleSession (by rw [hrows]; exact renders_lines _)
    (by rw [hrows]; exact pos_of_mem_replayedRows rfl)
  refine ⟨loc, res, hloc, hres, hagree.mpr ⟨by simp [replayedRows], ?_⟩⟩
  rw [filter_isActionLine_lines, (firstRepeat_replayedRows rfl).cleanBelowRepeated_iff]
  intro r hr
  obtain rfl := List.mem_singleton.mp hr
  rintro (hbad | ⟨-, hlink⟩ | ⟨p, hp, hnumber, -⟩)
  · exact hbad (storedRow_intact _ _ _)
  · rw [(rendersRow_line _).prev_action_hash] at hlink
    exact absurd hlink (by decide)
  · obtain ⟨row, hrow, rfl⟩ := List.mem_map.mp hp
    have hpos := @pos_of_mem_replayedRows firstRow rfl row hrow
    rw [sequenceOf_line, sequenceOf_line, show firstRow.sequence_number = 1 from rfl] at hnumber
    omega

/-- The first row, its tool renamed behind the back of its hash. -/
def alteredRow : ActionRow := { firstRow with tool_name := "delete_email" }

/-- A bad first row before a repeated number: the file verifier reports the repeated number,
    the database verifier the first row. -/
theorem not_agree_alteredRow :
    ∃ loc res, verifySessionLocal exampleRuntime
        (objectLines ((replayedRows alteredRow).map ActionRow.line)) = .ok loc ∧
      verifyChain exampleRuntime (rowsDatabase (replayedRows alteredRow)) exampleSession =
        .ok res ∧ ¬ Agree loc res := by
  have hrows := @rowsOf_replayedRows alteredRow rfl
  have hrenders : Renders ((replayedRows alteredRow).map ActionRow.line)
      (rowsOf (rowsDatabase (replayedRows alteredRow)) exampleSession) := by
    rw [hrows]
    exact renders_lines _
  have hrepeat := @firstRepeat_replayedRows alteredRow rfl
  have hrecords : byNumber (((replayedRows alteredRow).map ActionRow.line).filter isActionLine) =
      (replayedRows alteredRow).map ActionRow.line := by
    rw [filter_isActionLine_lines]
    exact hrepeat.ascending.insertionSort_eq
  rw [← hrecords] at hrepeat
  have hrendered := hrenders.rendered (by rw [hrows]; exact pos_of_mem_replayedRows rfl)
  obtain ⟨loc, res, hloc, hres, hagree⟩ := verifiers_repeated exampleRuntime hrenders hrendered
    (by rw [filter_isActionLine_lines]; simp [replayedRows]) hrepeat
  refine ⟨loc, res, hloc, hres, ?_⟩
  rw [hagree, hrepeat.cleanBelowRepeated_iff]
  intro hgood
  apply hgood _ (List.mem_singleton_self _)
  -- the hash of the row was made for the other name
  refine Or.inl fun hintact => ?_
  obtain ⟨digest, hcomputed, hself⟩ := hintact.self_hash
  rw [(rendersRow_line _).selfHash, Except.ok.injEq] at hcomputed
  rw [(rendersRow_line _).self_hash, Json.str.injEq, ← hcomputed] at hself
  exact absurd hself (by decide +kernel)

end RootSign
