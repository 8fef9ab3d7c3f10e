import RootSign.ReportTexts
import RootSign.Sdk.ExportRun

namespace RootSign

open RootSign.Python

/-!
# The documents of an export

A document can be written exactly if the values put into it can, each at the depth where it stands.

* `Roomy` — limits that leave room for what the documents add to the values;
* `Writable.mono`, `writable_ofFields` — values at other depths, and objects with literal keys;
* `writable_verification`, `writable_timeline`, `writable_redaction` — when the documents can be
  written.
-/

/-- Limits that leave room for the documents' own nesting, and for counts up to a bound. -/
structure Roomy (w : JsonLimits) (bound : ℕ) : Prop where
  depth : 3 < w.depth
  digits : ∀ n : ℕ, n ≤ bound → tooManyDigits w.max_digits n = false

section

variable {w : JsonLimits} {level : ℕ}

/-! ### Values -/

@[simp] theorem writable_null : Writable w level .null := ⟨rfl, rfl⟩

@[simp] theorem writable_bool (b : Bool) : Writable w level (.bool b) := ⟨rfl, rfl⟩

@[simp] theorem writable_str {s : JStr} : Writable w level (.str s) ↔ PairedText s :=
  ⟨fun h => h.2, fun h => ⟨rfl, h⟩⟩

@[simp] theorem writable_int {n : ℤ} :
    Writable w level (.int n) ↔ tooManyDigits w.max_digits n = false := by
  unfold Writable
  rw [dumpsError]
  cases tooManyDigits w.max_digits n <;> simp [Json.paired]

@[simp] theorem paired_key (key : String) : paired false (JStr.ofString key).units = true :=
  pairedText_ofString key

mutual

/-- Fewer containers around a value leave more room for it. -/
theorem dumpsError_mono : ∀ {level level' : ℕ} (v : Json), level' ≤ level →
    dumpsError w level v = none → dumpsError w level' v = none
  | _, _, .null, _, h => h
  | _, _, .bool _, _, h => h
  | _, _, .int _, _, h => h
  | _, _, .float _, _, h => h
  | _, _, .str _, _, h => h
  | level, level', .arr items, hle, h => by
    rw [dumpsError] at h ⊢
    split at h
    · cases h
    -- The test is on the containers around; with fewer of them it stays false.
    · rw [if_neg (by omega)]
      exact dumpsErrorItems_mono items (by omega) h
  | level, level', .obj fields, hle, h => by
    rw [dumpsError] at h ⊢
    split at h
    · cases h
    · rw [if_neg (by omega)]
      exact dumpsErrorFields_mono fields (by omega) h

theorem dumpsErrorItems_mono : ∀ {level level' : ℕ} (items : List Json), level' ≤ level →
    dumpsErrorItems w level items = none → dumpsErrorItems w level' items = none
  | _, _, [], _, h => h
  | level, level', v :: rest, hle, h => by
    rw [dumpsErrorItems, Option.or_eq_none_iff] at h ⊢
    exact ⟨dumpsError_mono v hle h.1, dumpsErrorItems_mono rest hle h.2⟩

theorem dumpsErrorFields_mono : ∀ {level level' : ℕ} (fields : List (JStr × Json)), level' ≤ level →
    dumpsErrorFields w level fields = none → dumpsErrorFields w level' fields = none
  | _, _, [], _, h => h
  | level, level', (_, v) :: rest, hle, h => by
    rw [dumpsErrorFields, Option.or_eq_none_iff] at h ⊢
    exact ⟨dumpsError_mono v hle h.1, dumpsErrorFields_mono rest hle h.2⟩

end

/-- What can be written inside some containers can be written inside fewer. -/
theorem Writable.mono {v : Json} {level' : ℕ} (h : Writable w level v) (hle : level' ≤ level) :
    Writable w level' v :=
  ⟨dumpsError_mono v hle h.1, h.2⟩

/-- A value that counts as false has no content. -/
theorem writable_of_falsy {v : Json} {bound : ℕ} (hroom : Roomy w bound) (hlevel : level ≤ 3)
    (hv : v.truthy = false) : Writable w level v := by
  -- The deepest place a document gives to a value is inside three containers.
  have hdepth : level < w.depth := lt_of_le_of_lt hlevel hroom.depth
  cases v with
  | null => exact writable_null
  | bool b => exact writable_bool b
  | int n =>
    obtain rfl : n = 0 := by simpa [Json.truthy] using hv
    exact writable_int.mpr (hroom.digits 0 (Nat.zero_le _))
  | float x => exact ⟨rfl, rfl⟩
  | str s =>
    have hunits : s.units = [] := by simpa [Json.truthy] using hv
    rw [writable_str, PairedText, hunits]
    rfl
  | arr xs =>
    obtain rfl : xs = [] := by simpa [Json.truthy] using hv
    exact writable_arr.mpr ⟨hdepth, by simp⟩
  | obj fields =>
    obtain rfl : fields = [] := by simpa [Json.truthy] using hv
    exact writable_obj.mpr ⟨hdepth, by simp⟩

/-- `d.get(key)` of a dict that can be written can be written one container deeper. -/
theorem writable_get {d : Dict} {key : String} (h : Writable w level (.obj d)) :
    Writable w (level + 1) (d.get key) := by
  unfold Dict.get Dict.getD
  cases hlookup : d.lookup (JStr.ofString key) with
  | none => exact writable_null
  | some v =>
    obtain ⟨before, after, rfl, -⟩ := List.lookup_eq_some_iff.mp hlookup
    exact ((writable_obj.mp h).2 _ (List.mem_append_right _ List.mem_cons_self)).2

/-- An object with literal keys. -/
theorem writable_ofFields {fields : List (String × Json)} :
    Writable w level (.obj (Dict.ofFields fields)) ↔
      level < w.depth ∧ ∀ p ∈ fields, Writable w (level + 1) p.2 := by
  rw [writable_obj, Dict.ofFields, List.forall_mem_map]
  simp

/-! ### The verification -/

/-- What a result of the verifier puts into the document can be written. -/
structure WritableResult (w : JsonLimits) (res : VerifyResult) : Prop where
  first_invalid : Writable w 1 res.first_invalid_sequence
  error : ∀ error, res.error = some error → PairedText error
  count : tooManyDigits w.max_digits res.record_count = false
  missing : ∀ r ∈ res.missing_ranges,
    tooManyDigits w.max_digits r.1 = false ∧ tooManyDigits w.max_digits r.2 = false

/-- The summary of a result that can be written is paired. -/
theorem pairedText_summary {rt : Runtime} {res : VerifyResult} (hrepr : ReprPaired rt)
    (hres : WritableResult w res) : PairedText (res.summary rt) := by
  have hfirst := pairedText_pyStr hrepr hres.first_invalid.2
  unfold VerifyResult.summary
  dsimp only
  have hmissing : PairedText (if res.missing_ranges.isEmpty then ("" : JStr)
      else "; also missing sequence " ++ JStr.ofChars (describeMissing res.missing_ranges)) := by
    split_ifs <;> simp
  -- The summary depends on the verdict, and on whether there is an error to report.
  cases res.verdict with
  | VALID => simp [text_append_assoc]
  | INCOMPLETE =>
    cases herror : res.error with
    | none => simp [text_append_assoc]
    | some error =>
      have hpaired := hres.error error herror
      dsimp only
      split_ifs <;> simp [text_append_assoc, hpaired]
  | TAMPERED =>
    cases herror : res.error with
    | none => simpa [text_append_assoc, hfirst] using hmissing
    | some error =>
      have hpaired := hres.error error herror
      dsimp only
      split_ifs <;> simp [text_append_assoc, hfirst, hpaired]

/-- **The verification** can be written exactly if the result and the fields of the actions can. -/
theorem writable_verification {bound : ℕ} {v : Verification} (hroom : Roomy w bound) :
    Writable w 0 (.obj v.asDict) ↔
      PairedText v.summary ∧ tooManyDigits w.max_digits v.record_count = false ∧
        Writable w 1 v.first_invalid_sequence ∧
        (∀ r ∈ v.missing_ranges,
          tooManyDigits w.max_digits r.1 = false ∧ tooManyDigits w.max_digits r.2 = false) ∧
        (∀ error, v.error = some error → PairedText error) ∧
        (∀ r ∈ v.records, Writable w 2 (.obj r.asDict)) ∧
        ∀ replay, v.replay = some replay → Writable w 1 (.obj replay) := by
  have hdepth := hroom.depth
  -- The records stand two containers deep; the limits have room for three.
  have hlevels : 0 < w.depth ∧ 1 < w.depth ∧ 2 < w.depth := by omega
  have herror : Writable w 1 (Attempt.orNull .str v.error) ↔
      ∀ error, v.error = some error → PairedText error := by
    cases v.error <;> simp [Attempt.orNull]
  have hranges : Writable w 1 (.arr (v.missing_ranges.map fun r => .arr [.int r.1, .int r.2])) ↔
      ∀ r ∈ v.missing_ranges,
        tooManyDigits w.max_digits r.1 = false ∧ tooManyDigits w.max_digits r.2 = false := by
    rw [writable_arr, List.forall_mem_map]
    simp [hlevels, writable_arr]
  have hrecords : Writable w 1 (.arr (v.records.map fun r => .obj r.asDict)) ↔
      ∀ r ∈ v.records, Writable w 2 (.obj r.asDict) := by
    rw [writable_arr, List.forall_mem_map]
    simp [hlevels]
  have hnote : PairedText hashNote := pairedText_ofString _
  -- The document's own texts are constants, so only what comes from the verifier is left.
  rw [Verification.asDict, writable_ofFields, List.forall_mem_append, Nat.zero_add]
  cases hreplay : v.replay with
  | none => simp [hlevels, herror, hranges, hrecords, writable_ofFields, hnote]
  | some replay =>
    simp [hlevels, herror, hranges, hrecords, writable_ofFields, hnote, and_assoc]

/-! ### The timeline -/

/-- An event as it is exported, with or without its content. -/
def keptEvent (included : Bool) (event : Dict) : Dict :=
  if included then event else stripContent event

/-- An event whose content stands at the end. -/
theorem writable_keptEvent {included : Bool} {fields : List (String × Json)} {bound : ℕ} (n : ℕ)
    (hroom : Roomy w bound)
    (hplain : ((fields.take n).all fun p => !contentFields.contains p.1) = true)
    (hcontent : ((fields.drop n).all fun p => contentFields.contains p.1) = true) :
    Writable w 2 (.obj (keptEvent included (Dict.ofFields fields))) ↔
      (∀ p ∈ fields.take n, Writable w 3 p.2) ∧
        (included = true → ∀ p ∈ fields.drop n, Writable w 3 p.2) := by
  have hdepth : 2 < w.depth := by
    have := hroom.depth
    omega
  have hall : (∀ p ∈ fields, Writable w 3 p.2) ↔
      (∀ p ∈ fields.take n, Writable w 3 p.2) ∧ ∀ p ∈ fields.drop n, Writable w 3 p.2 := by
    rw [← List.forall_mem_append, List.take_append_drop]
  unfold keptEvent
  split_ifs with hincluded
  · rw [writable_ofFields, hall]
    simp [hdepth, hincluded]
  -- Without its content an event keeps the fields before position `n`, and all of them.
  · have hkept : fields.filter (fun p => !contentFields.contains p.1) = fields.take n := by
      have hnone : (fields.drop n).filter (fun p => !contentFields.contains p.1) = [] := by
        rw [List.filter_eq_nil_iff]
        intro p hp
        simpa using List.all_eq_true.mp hcontent p hp
      conv_lhs => rw [← List.take_append_drop n fields]
      rw [List.filter_append, hnone, List.append_nil, List.filter_eq_self]
      exact List.all_eq_true.mp hplain
    rw [stripContent_ofFields, hkept, writable_ofFields]
    simp [hdepth, hincluded]

/-- **The timeline** can be written exactly if its session and its events can. -/
theorem writable_timeline {t : Timeline} {bound : ℕ} (hroom : Roomy w bound) :
    Writable w 0 (.obj t.asDict) ↔
      Writable w 1 (.obj t.session) ∧ (∀ note, t.previews.note = some note → PairedText note) ∧
        tooManyDigits w.max_digits t.previews.withheld_from_events = false ∧
        ∀ event ∈ t.events, Writable w 2 (.obj event) := by
  have hdepth := hroom.depth
  have hlevels : 0 < w.depth ∧ 1 < w.depth ∧ 2 < w.depth := by omega
  have hnote : Writable w 2 (Attempt.orNull .str t.previews.note) ↔
      ∀ note, t.previews.note = some note → PairedText note := by
    cases t.previews.note <;> simp [Attempt.orNull]
  -- The names of the withheld fields are the renderer's own.
  have hfields : Writable w 2 (textsJson (t.previews.withheld_fields.map JStr.ofString)) := by
    rw [textsJson, writable_arr, List.forall_mem_map, List.forall_mem_map]
    simp [hlevels]
  have hevents : Writable w 1 (.arr (t.events.map .obj)) ↔
      ∀ event ∈ t.events, Writable w 2 (.obj event) := by
    rw [writable_arr, List.forall_mem_map]
    simp [hlevels]
  rw [Timeline.asDict, writable_ofFields]
  simp [hlevels, hnote, hfields, hevents, writable_ofFields, and_assoc]

/-! ### The redaction inventory -/

/-- **The inventory** can be written exactly if its records can. -/
theorem writable_redaction {d : RedactionDocument} {bound : ℕ} (hroom : Roomy w bound) :
    Writable w 0 (.obj d.asDict) ↔
      tooManyDigits w.max_digits d.actions_with_redactions = false ∧
        tooManyDigits w.max_digits d.redacted_fields = false ∧
        ∀ r ∈ d.records, Writable w 2 (.obj r.asDict) := by
  have hdepth := hroom.depth
  have hlevels : 0 < w.depth ∧ 1 < w.depth ∧ 2 < w.depth := by omega
  have hrecords : Writable w 1 (.arr (d.records.map fun r => .obj r.asDict)) ↔
      ∀ r ∈ d.records, Writable w 2 (.obj r.asDict) := by
    rw [writable_arr, List.forall_mem_map]
    simp [hlevels]
  have hsentinel : PairedText sentinel := pairedText_ofString _
  have hprovenance : PairedText redactionProvenance := pairedText_ofString _
  rw [RedactionDocument.asDict, writable_ofFields]
  simp [hlevels, hrecords, hsentinel, hprovenance, writable_ofFields, and_assoc]

/-- An entry of the inventory can be written exactly if its values and its paths can. -/
theorem writable_redactionEntry {r : RedactionEntry} {bound : ℕ} (hroom : Roomy w bound) :
    Writable w 2 (.obj r.asDict) ↔
      Writable w 3 r.sequence_number ∧ Writable w 3 r.action_id ∧
        (∀ path ∈ r.input_paths, PairedText path) ∧ ∀ path ∈ r.output_paths, PairedText path := by
  have hdepth := hroom.depth
  have hlevels : 2 < w.depth ∧ 3 < w.depth := by omega
  have htexts : ∀ texts : List JStr, Writable w 3 (textsJson texts) ↔
    ∀ t ∈ texts, PairedText t := by
    intro texts
    rw [textsJson, writable_arr, List.forall_mem_map]
    simp [hlevels]
  rw [RedactionEntry.asDict, writable_ofFields]
  simp [hlevels, htexts]

end

end RootSign
