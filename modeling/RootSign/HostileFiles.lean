import RootSign.Commitment
import RootSign.VerifiedRecords

namespace RootSign

open RootSign.Lib RootSign.Python

/-!
# Verdicts on arbitrary files

`verify_session_local` on lines that hold any JSON values.

* `Readable` — the files on which the verifier returns, and `verifier_total_iff`: on these, and on
  no others, it gives a result that is not `VALID` when a line or a field is missing;
* `FirstLineNames` — the first line names the session of every action, and `session_named_iff`: of
  the valid files these are the ones whose result names the session of their records.
-/

/-- The action records on the lines. -/
def actionRecords (lines : List Line) : List Dict :=
  (lines.filterMap Line.dict?).filter isActionLine

variable {rt : Runtime} {lines : List Line} {records : List Dict} {res : VerifyResult}

/-! ### Files the verifier returns on -/

/-- The sequence numbers of the records are there and can be sorted. -/
structure Sortable (records : List Dict) : Prop where
  has_number : ∀ r ∈ records, r.has "sequence_number"
  comparable : 1 < records.length → ∀ r ∈ records, ∀ s ∈ records,
    ((r.get "sequence_number").pyLt (s.get "sequence_number")).isSome = true

/-- Before the first line that is no JSON, `json.loads` raises nothing else on a line; the first
    line, if it parses, is an object; and if every line parses, every line is an object and the
    numbers of the action records sort. -/
structure Readable (lines : List Line) : Prop where
  parsed : NoneRaises (lines.takeWhile fun l => !l.isMalformed)
  head : ∀ v rest, lines = .value v :: rest → ∃ d, v = .obj d
  body : lines.any Line.isMalformed = false →
    (∀ l ∈ lines, ∃ d, l.dict? = some d) ∧ Sortable (actionRecords lines)

/-- What compares with an integer is a number, and one can be taken from it. -/
theorem minusOne_isSome {v w : Json} (hlt : (v.pyLt w).isSome = true) (hw : w.asInt ≠ none) :
    (rt.minusOne v).isSome = true := by
  cases v <;> cases w <;> simp_all [Json.pyLt, Json.asInt, Json.asNumber, Runtime.minusOne]

/-- Keying the records raises on a record without a number, and nowhere else. -/
theorem keyed_ok_iff :
    (∃ keyed, (records.mapM fun r => (r.item "sequence_number").map fun k => (k, r)) = .ok keyed) ↔
      ∀ r ∈ records, r.has "sequence_number" := by
  induction records with
  | nil => exact ⟨fun _ r hr => absurd hr (by simp), fun _ => ⟨[], rfl⟩⟩
  | cons r rest ih =>
    rw [List.forall_mem_cons, ← ih]
    constructor
    · rintro ⟨keyed, h⟩
      rw [List.mapM_cons] at h
      obtain ⟨p, hp, h⟩ := bind_eq_ok.mp h
      obtain ⟨keyed', hrest, -⟩ := bind_eq_ok.mp h
      cases hitem : r.item "sequence_number" with
      | error e => rw [hitem] at hp; exact absurd hp (by simp [Except.map])
      | ok k => exact ⟨(Dict.has_of_item hitem).1, keyed', hrest⟩
    · rintro ⟨hhas, keyed', hrest⟩
      refine ⟨(r.get "sequence_number", r) :: keyed', ?_⟩
      rw [List.mapM_cons, Dict.item_of_has hhas, hrest]
      rfl

/-- The numbers sort when each is there and, of two or more, each compares with each. -/
theorem sortRecords_ok_iff :
    (∃ sorted, sortRecords records = .ok sorted) ↔ Sortable records := by
  constructor
  · rintro ⟨sorted, h⟩
    obtain ⟨keyed, hkeyed, hsort⟩ := bind_eq_ok.mp h
    refine ⟨keyed_ok_iff.mp ⟨keyed, hkeyed⟩, fun hlength r hr s hs => ?_⟩
    obtain rfl := mapM_item_ok hkeyed
    have hcompare := sortByKey_comparable hsort (List.mem_map_of_mem hr) (List.mem_map_of_mem hs)
    rw [List.length_map] at hcompare
    exact hcompare.resolve_left (by omega)
  · intro h
    obtain ⟨keyed, hkeyed⟩ := keyed_ok_iff.mpr h.has_number
    have hall : keyed.all (fun a => keyed.all fun b =>
        keyed.length ≤ 1 || (a.1.pyLt b.1).isSome) = true := by
      obtain rfl := mapM_item_ok hkeyed
      simp only [List.all_eq_true, List.mem_map, List.length_map, Bool.or_eq_true,
        decide_eq_true_eq]
      rintro _ ⟨r, hr, rfl⟩ _ ⟨s, hs, rfl⟩
      rcases Nat.lt_or_ge 1 records.length with hlength | hlength
      · exact Or.inr (h.comparable hlength r hr s hs)
      · exact Or.inl hlength
    refine ⟨keyed.insertionSort fun a b => b.1.pyLt a.1 ≠ some true, ?_⟩
    show _ >>= sortByKey = _
    rw [hkeyed]
    exact if_pos hall

/-- Asking for an explanation of a break raises nothing once the numbers are sorted: where there
    is a gap, some number is an integer, and the others compare with it. -/
theorem Sortable.explains (h : Sortable records) {sorted : List (Json × Dict)}
    (hsort : sortRecords records = .ok sorted) :
    ∃ explained : Dict → Bool, ∀ r ∈ sorted.map Prod.snd,
      explainsBreak rt (r.get "sequence_number") (missingRanges (sorted.map Prod.fst)) =
        .ok (explained r) := by
  have hreturns : ∀ r ∈ sorted.map Prod.snd, ∃ b,
      explainsBreak rt (r.get "sequence_number") (missingRanges (sorted.map Prod.fst)) =
        .ok b := by
    intro r hr
    have hr' : r ∈ records := (sortRecords_snd hsort).mem_iff.mp hr
    -- Without a gap nothing is asked; with one, an integer is among the numbers to compare with.
    unfold explainsBreak
    split
    case isTrue => exact ⟨false, rfl⟩
    case isFalse hgaps =>
      obtain ⟨s, hs, hint⟩ : ∃ s ∈ records, (s.get "sequence_number").asInt ≠ none := by
        by_contra hnone
        push Not at hnone
        have hnil : (sorted.map Prod.fst).filterMap Json.asInt = [] := by
          rw [List.filterMap_eq_nil_iff]
          intro k hk
          obtain ⟨p, hp, rfl⟩ := List.mem_map.mp hk
          rw [sortRecords_fst hsort p hp]
          exact hnone _ ((sortRecords_snd hsort).mem_iff.mp (List.mem_map_of_mem hp))
        exact hgaps (by rw [missingRanges_of_none (by rw [hnil]; rfl)]; rfl)
      have hsome : (rt.minusOne (r.get "sequence_number")).isSome = true := by
        rcases Nat.lt_or_ge 1 records.length with hlength | hlength
        · exact minusOne_isSome (h.comparable hlength r hr' s hs) hint
        · -- of one record the integer is its own number
          have hsame : r = s := by
            obtain ⟨only, rfl⟩ := List.length_eq_one_iff.mp
              (le_antisymm hlength (List.length_pos_of_mem hr'))
            rw [List.mem_singleton.mp hr', List.mem_singleton.mp hs]
          subst hsame
          cases hv : r.get "sequence_number" <;> simp_all [Runtime.minusOne, Json.asInt]
      obtain ⟨x, hx⟩ := Option.isSome_iff_exists.mp hsome
      exact ⟨_, by rw [hx]⟩
  choose! explained hexplained using hreturns
  exact ⟨explained, hexplained⟩

/-- On records the verifier returns exactly when their numbers sort. -/
theorem verifyRecords_ok_iff (rt : Runtime) (session_id : Json) (records : List Dict) :
    (∃ res, verifyRecords rt session_id records = .ok res) ↔ Sortable records := by
  rw [← sortRecords_ok_iff]
  unfold verifyRecords
  rw [← bind_assoc]
  change (∃ res, (sortRecords records >>= _) = _) ↔ _
  constructor
  · rintro ⟨res, hres⟩
    obtain ⟨sorted, hsort, -⟩ := bind_eq_ok.mp hres
    exact ⟨sorted, hsort⟩
  · rintro ⟨sorted, hsort⟩
    obtain ⟨explained, hexplained⟩ := (sortRecords_ok_iff.mp ⟨sorted, hsort⟩).explains hsort
    have hwalk := @walk_eq rt (missingRanges (sorted.map Prod.fst)) explained .null
      (sorted.map Prod.snd) hexplained
    rw [hsort]
    simp only [bind, Except.bind]
    cases hdup : firstDuplicate (sorted.map Prod.fst) with
    | some b => exact ⟨_, rfl⟩
    | none =>
      simp only [hwalk]
      split
      · exact ⟨_, rfl⟩
      · exact ⟨_, rfl⟩

/-! ### Every file -/

theorem actionRecords_objectLines (dicts : List Dict) :
    actionRecords (objectLines dicts) = dicts.filter isActionLine := by
  rw [actionRecords, objectLines, List.filterMap_map]
  congr 1
  exact List.filterMap_some

theorem Line.dict?_eq_some {l : Line} {d : Dict} : l.dict? = some d ↔ l = .value (.obj d) := by
  cases l with
  | value v => cases v <;> simp [Line.dict?]
  | _ => simp [Line.dict?]

/-- The lines are read exactly when `json.loads` raises nothing else before the first line that is
    no JSON. -/
theorem parseLines_ok_iff {raw_lines : List Line} : (∃ p, parseLines raw_lines = .ok p) ↔
    NoneRaises (raw_lines.takeWhile fun l => !l.isMalformed) := by
  induction raw_lines with
  | nil => exact ⟨fun _ l hl => absurd hl (by simp), fun _ => ⟨_, rfl⟩⟩
  | cons l rest ih =>
    cases l with
    | malformed => exact ⟨fun _ l hl => absurd hl (by simp [Line.isMalformed]), fun _ => ⟨_, rfl⟩⟩
    | raises e =>
      constructor
      · rintro ⟨p, hp⟩
        exact absurd hp (by simp [parseLines])
      · intro h
        exact absurd rfl (h (.raises e) (by simp [Line.isMalformed]) e)
    | value v =>
      rw [List.takeWhile_cons_of_pos (by simp [Line.isMalformed]), NoneRaises,
        List.forall_mem_cons, ← NoneRaises, ← ih]
      constructor
      · rintro ⟨p, hp⟩
        obtain ⟨q, hq, -⟩ := parseLines_value.mp hp
        exact ⟨by simp, q, hq⟩
      · rintro ⟨-, q, hq⟩
        exact ⟨_, parseLines_value.mpr ⟨q, hq, rfl⟩⟩

/-- Where a line that is no JSON is reached, the session of the first line is read, and the result
    is an alteration. -/
theorem verifySessionLocal_stopped (rt : Runtime) {p : List Json × Bool}
    (hp : parseLines lines = .ok p) (hparse : lines.any Line.isMalformed = true) :
    ∃ result : Json → VerifyResult, verifySessionLocal rt lines =
        (firstSessionId p.1 >>= fun session_id => .ok (result session_id)) ∧
      ∀ session_id, (result session_id).verdict = .TAMPERED := by
  have hne : lines.isEmpty = false := by
    cases lines with
    | nil => exact absurd hparse (by simp)
    | cons l rest => rfl
  obtain ⟨values, stopped⟩ := p
  obtain rfl : stopped = true := (parseLines_snd hp).trans hparse
  unfold verifySessionLocal
  rw [hne, hp]
  exact ⟨_, rfl, fun _ => rfl⟩

/-- With a line that is no JSON, the verifier reads up to it and the session of the first line, and
    reports an alteration. -/
theorem verifySessionLocal_malformed (rt : Runtime) (hparse : lines.any Line.isMalformed = true) :
    ((∃ res, verifySessionLocal rt lines = .ok res) ↔
        NoneRaises (lines.takeWhile fun l => !l.isMalformed) ∧
          ∀ v rest, lines = .value v :: rest → ∃ d, v = .obj d) ∧
      ∀ res, verifySessionLocal rt lines = .ok res → res.verdict = .TAMPERED := by
  cases lines with
  | nil => exact absurd hparse (by simp)
  | cons l rest =>
    have hreads : ∀ res, verifySessionLocal rt (l :: rest) = .ok res → ∃ p,
        parseLines (l :: rest) = .ok p := by
      intro res hres
      unfold verifySessionLocal at hres
      obtain ⟨p, hp, -⟩ := bind_eq_ok.mp hres
      exact ⟨p, hp⟩
    -- The lines are read up to the malformed one, and then only the session of the first is looked
    -- up.
    rw [← parseLines_ok_iff]
    constructor
    · constructor
      · rintro ⟨res, hres⟩
        obtain ⟨p, hp⟩ := hreads res hres
        refine ⟨⟨p, hp⟩, fun v rest' heq => ?_⟩
        obtain ⟨rfl, rfl⟩ := List.cons.inj heq
        obtain ⟨result, hrun, -⟩ := verifySessionLocal_stopped rt hp hparse
        obtain ⟨q, -, rfl⟩ := parseLines_value.mp hp
        rw [hrun] at hres
        obtain ⟨session_id, hfirst, -⟩ := bind_eq_ok.mp hres
        cases v with
        | obj d => exact ⟨d, rfl⟩
        | _ => exact absurd hfirst (by simp [firstSessionId, asDict, Except.map])
      · rintro ⟨⟨p, hp⟩, hhead⟩
        obtain ⟨result, hrun, -⟩ := verifySessionLocal_stopped rt hp hparse
        rw [hrun]
        cases l with
        | malformed =>
          rw [← Except.ok.inj hp]
          exact ⟨_, rfl⟩
        | raises e => exact absurd hp (by simp [parseLines])
        | value v =>
          obtain ⟨q, -, rfl⟩ := parseLines_value.mp hp
          obtain ⟨d, rfl⟩ := hhead v rest rfl
          exact ⟨_, rfl⟩
    · intro res hres
      obtain ⟨p, hp⟩ := hreads res hres
      obtain ⟨result, hrun, hverdict⟩ := verifySessionLocal_stopped rt hp hparse
      rw [hrun] at hres
      obtain ⟨session_id, -, hres⟩ := bind_eq_ok.mp hres
      rw [← Except.ok.inj hres]
      exact hverdict session_id

/-- Where every line is an object, the numbers of the action records decide. -/
theorem verifySessionLocal_objects (rt : Runtime) (dicts : List Dict) :
    (∃ res, verifySessionLocal rt (objectLines dicts) = .ok res) ↔
      Sortable (dicts.filter isActionLine) := by
  have hnil : Sortable [] := ⟨fun r hr => absurd hr (by simp), fun h => absurd h (by simp)⟩
  cases dicts with
  | nil => exact ⟨fun _ => hnil, fun _ => ⟨_, rfl⟩⟩
  | cons d rest =>
    rw [verifySessionLocal_cons]
    by_cases hactions : (d :: rest).filter isActionLine = []
    · rw [if_pos hactions, hactions]
      exact ⟨fun _ => hnil, fun _ => ⟨_, rfl⟩⟩
    · rw [if_neg hactions]
      exact verifyRecords_ok_iff rt _ _

/-- **When there is a result.** The verifier returns on the readable files, and on no others. -/
theorem verifySessionLocal_ok_iff (rt : Runtime) (lines : List Line) :
    (∃ res, verifySessionLocal rt lines = .ok res) ↔ Readable lines := by
  cases hparse : lines.any Line.isMalformed with
  | true =>
    -- the walk stops at the first line that is no JSON; only what stands before it was read
    rw [(verifySessionLocal_malformed rt hparse).1]
    exact ⟨fun h => ⟨h.1, h.2, fun hno => absurd (hparse.symm.trans hno) (by simp)⟩,
      fun h => ⟨h.parsed, h.head⟩⟩
  | false =>
    constructor
    -- it returned, so each line was an object and the numbers could be sorted
    · rintro ⟨res, h⟩
      obtain ⟨dicts, rfl⟩ := objectLines_of_ok h hparse
      refine ⟨fun l hl e he => ?_, fun v rest hv => ?_, fun _ => ⟨fun l hl => ?_, ?_⟩⟩
      · obtain ⟨d, -, hd⟩ := List.mem_map.mp ((List.takeWhile_subset _) hl)
        exact absurd (hd.trans he) (by simp)
      · obtain ⟨d, -, hd⟩ := List.mem_map.mp (hv.symm ▸ List.mem_cons_self :
          Line.value v ∈ objectLines dicts)
        exact ⟨d, (Line.value.inj hd).symm⟩
      · obtain ⟨d, -, rfl⟩ := List.mem_map.mp hl
        exact ⟨d, rfl⟩
      · rw [actionRecords_objectLines]
        exact (verifySessionLocal_objects rt dicts).mp ⟨res, h⟩
    -- the lines are those of dicts, for which the walk is known to return
    · intro h
      obtain ⟨hobjects, hsortable⟩ := h.body hparse
      choose! dict hdict using hobjects
      have hlines : lines = objectLines (lines.map dict) := by
        rw [objectLines, List.map_map]
        conv_lhs => rw [← List.map_id lines]
        apply List.map_congr_left
        intro l hl
        exact Line.dict?_eq_some.mp (hdict l hl)
      rw [hlines, actionRecords_objectLines] at hsortable
      rw [hlines]
      exact (verifySessionLocal_objects rt _).mpr hsortable

/-- The result names the session it was given. -/
theorem verifyRecords_session_id {session_id : Json}
    (h : verifyRecords rt session_id records = .ok res) : res.session_id = session_id := by
  unfold verifyRecords at h
  rw [← bind_assoc] at h
  obtain ⟨sorted, -, h⟩ := bind_eq_ok.mp h
  cases hdup : firstDuplicate (sorted.map Prod.fst) with
  | some b =>
    simp only [hdup] at h
    rw [← Except.ok.inj h]
  | none =>
    simp only [hdup] at h
    obtain ⟨failure, -, h⟩ := bind_eq_ok.mp h
    cases failure with
    | some f => rw [← Except.ok.inj h]
    | none => rw [← Except.ok.inj h]

/-- **A valid result.** Every line is an object, and the action records pass every check. -/
theorem valid_inversion (h : verifySessionLocal rt lines = .ok res)
    (hvalid : res.verdict = .VALID) :
    ∃ d rest, lines = objectLines (d :: rest) ∧ res.session_id = d.get "session_id" ∧
      ∀ r ∈ actionRecords lines, RecordIntact rt r := by
  have hparse : lines.any Line.isMalformed = false := by
    rw [← Bool.not_eq_true]
    intro hmalformed
    have := (verifySessionLocal_malformed rt hmalformed).2 res h
    rw [hvalid] at this
    exact absurd this (by simp)
  obtain ⟨dicts, rfl⟩ := objectLines_of_ok h hparse
  cases dicts with
  | nil =>
    rw [← Except.ok.inj h] at hvalid
    exact absurd hvalid (by simp)
  | cons d rest =>
    rw [verifySessionLocal_cons] at h
    rw [actionRecords_objectLines]
    by_cases hactions : (d :: rest).filter isActionLine = []
    · rw [if_pos hactions] at h
      rw [hactions]
      exact ⟨d, rest, rfl, by rw [← Except.ok.inj h], by simp⟩
    · rw [if_neg hactions] at h
      obtain ⟨sorted, hsorted⟩ := (verifyRecords_valid_iff rt _ _).mp ⟨res, h, hvalid⟩
      refine ⟨d, rest, rfl, verifyRecords_session_id h, fun r hr => ?_⟩
      exact hsorted.intact r ((sortRecords_snd hsorted.sort).mem_iff.mpr hr)

/-- A line holds no object, or an action lacks a canonical field. -/
def Defective (lines : List Line) : Prop :=
  (∃ l ∈ lines, l.dict? = none) ∨ ∃ r ∈ actionRecords lines, ¬ HasCanonicalFields r

/-- The verifier returns, and calls no defective file valid. -/
def VerifierTotal (rt : Runtime) (lines : List Line) : Prop :=
  ∃ res, verifySessionLocal rt lines = .ok res ∧ (Defective lines → res.verdict ≠ .VALID)

/-- The first line of the file, of whatever type, names the session of every action record. -/
def FirstLineNames (rt : Runtime) (lines : List Line) : Prop :=
  ∀ d rest, lines = .value (.obj d) :: rest →
    ∀ r ∈ actionRecords lines, rt.pyStr (Dict.get d "session_id") = rt.pyStr (r.get "session_id")

/-- A valid result names the session of every action record of the file. -/
def SessionNamed (rt : Runtime) (lines : List Line) : Prop :=
  ∀ res, verifySessionLocal rt lines = .ok res → res.verdict = .VALID →
    ∀ r ∈ actionRecords lines, rt.pyStr res.session_id = rt.pyStr (r.get "session_id")

/-- **What a valid result is about.** Of a file that is reported valid, it names the session of
    every action record exactly when the first line does. -/
theorem session_named_iff (rt : Runtime) (lines : List Line)
    (h : ∃ res, verifySessionLocal rt lines = .ok res ∧ res.verdict = .VALID) :
    SessionNamed rt lines ↔ FirstLineNames rt lines := by
  obtain ⟨res, hres, hvalid⟩ := h
  obtain ⟨d, rest, hlines, hsession, -⟩ := valid_inversion hres hvalid
  constructor
  · intro hnames first rest' hfirst r hr
    have hsame : d = first := by
      rw [hlines] at hfirst
      exact Json.obj.inj (Line.value.inj (List.cons.inj hfirst).1)
    rw [← hsame, ← hsession]
    exact hnames res hres hvalid r hr
  · intro hfirst res' hres' _ r hr
    obtain rfl := Except.ok.inj (hres.symm.trans hres')
    rw [hsession]
    exact hfirst d (objectLines rest) hlines r hr

/-- The opening of a session. -/
def opening (session_id : JStr) : Dict :=
  Dict.ofFields [("event_type", .str "SESSION_OPEN"), ("session_id", .str session_id)]

/-- The records of session `s` under an opening. -/
def openedLines (session_id : JStr) : List Dict :=
  opening session_id :: chainedRecords exampleRuntime .null

section

variable (session_id : JStr)

theorem openedLines_actions :
    (openedLines session_id).filter isActionLine = chainedRecords exampleRuntime .null := by
  rw [openedLines, List.filter_cons_of_neg, chainedRecords_isActionLine]
  simp [isActionLine, opening, Dict.getD_ofFields, Json.pyEq]

/-- Whatever session is opened, the same records verify. -/
theorem openedLines_valid :
    ∃ res, verifySessionLocal exampleRuntime (objectLines (openedLines session_id)) = .ok res ∧
      res.verdict = .VALID := by
  obtain ⟨res, hres, hvalid⟩ := (verifyRecords_valid_iff exampleRuntime
    ((opening session_id).get "session_id") (chainedRecords exampleRuntime .null)).mpr
      ⟨_, chainedRecords_intact .null⟩
  refine ⟨res, ?_, hvalid⟩
  show verifySessionLocal _ (objectLines (opening session_id :: _)) = _
  rw [verifySessionLocal_cons]
  show (if (openedLines session_id).filter isActionLine = [] then _ else
    verifyRecords _ _ ((openedLines session_id).filter isActionLine)) = _
  rw [openedLines_actions, if_neg (by simp [chainedRecords])]
  exact hres

end

/-- A file that starts with the opening of its own session. -/
theorem session_named_opened :
    SessionNamed exampleRuntime (objectLines (openedLines "s")) := by
  apply (session_named_iff exampleRuntime _ (openedLines_valid "s")).mpr
  intro d rest hfirst r hr
  obtain rfl := Json.obj.inj (Line.value.inj (List.cons.inj hfirst).1)
  rw [actionRecords_objectLines, openedLines_actions] at hr
  simp only [chainedRecords, List.mem_cons, List.not_mem_nil, or_false] at hr
  rcases hr with rfl | rfl <;>
    simp [opening, chainedRecord, Dict.get_ofFields, List.lookup_cons]

/-- A valid log of one session under the opening of another. -/
theorem not_session_named_anotherOpening :
    ¬ SessionNamed exampleRuntime (objectLines (openedLines "another")) := by
  intro hnamed
  obtain ⟨res, hres, hvalid⟩ := openedLines_valid "another"
  obtain ⟨d, rest, hlines, hsession, -⟩ := valid_inversion hres hvalid
  obtain rfl : opening "another" = d := Json.obj.inj (Line.value.inj (List.cons.inj hlines).1)
  have hname := hnamed res hres hvalid (chainedRecord exampleRuntime 1 .null .null)
    (by
      rw [actionRecords_objectLines, openedLines_actions]
      exact List.mem_cons_self)
  rw [hsession] at hname
  simp [opening, chainedRecord, Dict.get_ofFields, List.lookup_cons] at hname

end RootSign
