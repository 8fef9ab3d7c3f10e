import RootSign.Sdk.Report

namespace RootSign

open RootSign.Python

/-!
# The reports can be encoded

A report is put together from literals, numbers and texts of the documents.  Where the documents
have no unpaired surrogate, neither has a report.

* `PairedText` — a text without unpaired surrogates, and how such texts are put together;
* `PairedDocuments` — documents all of whose texts are;
* `pairedText_renderMarkdown`, `pairedText_renderHtml` — their reports are.
-/

/-- A text without unpaired surrogates. -/
def PairedText (t : JStr) : Prop := paired false t.units = true

/-- `str` of a list or dict: `repr` escapes what cannot be printed, a surrogate included. -/
def ReprPaired (rt : Runtime) : Prop := ∀ v, PairedText (rt.reprContainer v)

section

variable {s t : List CodeUnit} {a b : JStr} {open_ : Bool}

/-! ### Texts put together -/

/-- What follows a text without unpaired surrogates is read from its start. -/
theorem paired_append (hs : paired open_ s = true) : paired open_ (s ++ t) = paired false t := by
  induction s generalizing open_ with
  | nil =>
    cases open_ with
    | false => rfl
    | true => cases hs
  | cons u rest ih =>
    rw [List.cons_append]
    cases open_ with
    | false =>
      rw [paired] at hs ⊢
      split_ifs at hs ⊢ with hhigh
      · exact ih hs
      · rw [Bool.and_eq_true] at hs
        rw [hs.1, Bool.true_and]
        exact ih hs.2
    | true =>
      rw [paired, Bool.and_eq_true] at hs
      rw [paired, hs.1, Bool.true_and]
      exact ih hs.2

/-- Two paired texts, one behind the other, are paired. -/
theorem PairedText.append (ha : PairedText a) (hb : PairedText b) : PairedText (a ++ b) :=
  (paired_append ha).trans hb

/-- What follows a text that is paired decides. -/
@[simp] theorem pairedText_append (ha : PairedText a) : PairedText (a ++ b) ↔ PairedText b := by
  unfold PairedText
  rw [JStr.units_append, paired_append ha]

/-- Texts are joined from either side alike. -/
theorem text_append_assoc (a b c : JStr) : a ++ b ++ c = a ++ (b ++ c) :=
  JStr.ext (List.append_assoc _ _ _)

@[simp] theorem pairedText_ofChars (cs : List Char) : PairedText (JStr.ofChars cs) :=
  (paired_chars cs).1

@[simp] theorem pairedText_ofString (s : String) : PairedText (JStr.ofString s) :=
  pairedText_ofChars _

@[simp] theorem pairedText_decimal (n : ℤ) : PairedText (decimal n) := pairedText_ofChars _

@[simp] theorem pairedText_blank : PairedText blank := pairedText_ofString _

/-- A text between two literals. -/
theorem PairedText.between (before after : String) (ha : PairedText a) :
    PairedText (before ++ a ++ after) :=
  ((pairedText_ofString _).append ha).append (pairedText_ofString _)

/-- Parts that are paired by themselves stay so around a separator. -/
theorem paired_joinUnits {sep : List CodeUnit} {parts : List (List CodeUnit)}
    (hsep : paired false sep = true) (hparts : ∀ part ∈ parts, paired false part = true) :
    paired false (joinUnits sep parts) = true := by
  fun_induction joinUnits sep parts with
  | case1 => rfl
  | case2 part => exact hparts part List.mem_cons_self
  | case3 part rest hne ih =>
    rw [List.append_assoc, paired_append (hparts part List.mem_cons_self), paired_append hsep]
    exact ih fun other hmem => hparts other (List.mem_cons_of_mem _ hmem)

/-- A text joined of paired texts is paired. -/
theorem pairedText_join {sep : JStr} {parts : List JStr} (hsep : PairedText sep)
    (hparts : ∀ part ∈ parts, PairedText part) : PairedText (joinText sep parts) := by
  apply paired_joinUnits hsep
  intro units hunits
  obtain ⟨part, hpart, rfl⟩ := List.mem_map.mp hunits
  exact hparts part hpart

/-- An escape that replaces only units that are no surrogates. -/
theorem paired_flatMap {escape : CodeUnit → List CodeUnit}
    (hescape : ∀ u, escape u = [u] ∨
      isHigh u = false ∧ isLow u = false ∧ paired false (escape u) = true)
    (hs : paired open_ s = true) : paired open_ (s.flatMap escape) = true := by
  induction s generalizing open_ with
  | nil => exact hs
  | cons u rest ih =>
    rw [List.flatMap_cons]
    rcases hescape u with hself | ⟨hhigh, hlow, hpaired⟩
    -- the unit stays, whichever it is
    · rw [hself, List.singleton_append]
      cases open_ with
      | false =>
        rw [paired] at hs ⊢
        split_ifs at hs ⊢ with hhigh
        · exact ih hs
        · rw [Bool.and_eq_true] at hs ⊢
          exact ⟨hs.1, ih hs.2⟩
      | true =>
        rw [paired, Bool.and_eq_true] at hs ⊢
        exact ⟨hs.1, ih hs.2⟩
    · -- a unit that is no surrogate stands where no pair is open
      cases open_ with
      | false =>
        rw [paired, hhigh, hlow] at hs
        rw [paired_append hpaired]
        exact ih hs
      | true =>
        rw [paired, hlow] at hs
        cases hs

/-- A unit known by its number is no surrogate below `0xD800`. -/
theorem not_surrogate_of_eq {u : CodeUnit} {n : ℕ} (hu : u.val = n) (hn : n < 0xD800) :
    isHigh u = false ∧ isLow u = false := not_surrogate_of_val (hu ▸ hn)

/-- `html.escape` replaces five ASCII characters. -/
theorem paired_escapeHtml (hs : paired false s = true) :
    paired false (s.flatMap escapeHtml) = true := by
  apply paired_flatMap _ hs
  intro u
  unfold escapeHtml
  split_ifs with hamp hlt hgt hquot hapos
  · exact Or.inr ⟨(not_surrogate_of_eq hamp (by omega)).1, (not_surrogate_of_eq hamp (by omega)).2,
      pairedText_ofString _⟩
  · exact Or.inr ⟨(not_surrogate_of_eq hlt (by omega)).1, (not_surrogate_of_eq hlt (by omega)).2,
      pairedText_ofString _⟩
  · exact Or.inr ⟨(not_surrogate_of_eq hgt (by omega)).1, (not_surrogate_of_eq hgt (by omega)).2,
      pairedText_ofString _⟩
  · exact Or.inr ⟨(not_surrogate_of_eq hquot (by omega)).1,
      (not_surrogate_of_eq hquot (by omega)).2, pairedText_ofString _⟩
  · exact Or.inr ⟨(not_surrogate_of_eq hapos (by omega)).1,
      (not_surrogate_of_eq hapos (by omega)).2, pairedText_ofString _⟩
  · exact Or.inl rfl

/-- Escaping the pipes puts a backslash before one unit and parts no pair. -/
theorem pairedText_escapePipes (ha : PairedText a) : PairedText (escapePipes a) := by
  apply paired_flatMap _ ha
  intro u
  split_ifs with hpipe
  · exact Or.inr ⟨(not_surrogate_of_eq hpipe (by omega)).1,
      (not_surrogate_of_eq hpipe (by omega)).2, pairedText_ofString _⟩
  · exact Or.inl rfl

/-! ### Values -/

/-- What `str` makes of a paired value is paired: strings are themselves, and `repr` is assumed
    to keep pairs together. -/
theorem pairedText_pyStr {rt : Runtime} (hrepr : ReprPaired rt) {v : Json} (hv : v.paired = true) :
    PairedText (rt.pyStr v) := by
  cases v with
  | str s => exact hv
  | bool b => cases b <;> exact pairedText_ofString _
  | null => exact pairedText_ofString _
  | int n => exact pairedText_ofChars _
  | float x => exact pairedText_ofChars _
  | arr xs => exact hrepr _
  | obj fields => exact hrepr _

/-- `d.get(key, default)` is paired in a paired dict. -/
theorem paired_getD {d : Dict} {key : String} {default : Json} (hd : (Json.obj d).paired = true)
    (hdefault : default.paired = true) : (d.getD key default).paired = true := by
  rw [Json.paired, pairedFields_iff] at hd
  unfold Dict.getD
  cases hlookup : d.lookup (JStr.ofString key) with
  | none => exact hdefault
  -- A value found is one of the dict's own, so its pairing is part of the dict's.
  | some v =>
    obtain ⟨before, after, rfl, -⟩ := List.lookup_eq_some_iff.mp hlookup
    exact (hd _ (List.mem_append_right _ List.mem_cons_self)).2

/-- A field of a paired dict is paired, or `None`. -/
theorem paired_get {d : Dict} {key : String} (hd : (Json.obj d).paired = true) :
    (d.get key).paired = true := paired_getD hd rfl

/-- A default that is paired takes the place of a value that is falsy. -/
theorem paired_orValue {v default : Json} (hv : v.paired = true)
    (hdefault : default.paired = true) :
    (orValue v default).paired = true := by
  unfold orValue
  split
  · exact hv
  · exact hdefault

mutual

/-- `json.dumps(v, sort_keys=True)` of a paired value is paired. -/
theorem paired_sortedDumps : ∀ (v : Json), v.paired = true → paired false (sortedDumps v) = true
  | .null, _ => pairedText_ofString _
  | .bool true, _ => pairedText_ofString _
  | .bool false, _ => pairedText_ofString _
  | .int _, _ => pairedText_ofChars _
  | .float _, _ => pairedText_ofChars _
  | .str s, hv => by
    rw [sortedDumps, (paired_prettyStr s).1]
    exact hv
  | .arr items, hv => by
    -- The brackets and the separators are ASCII, so no pair straddles a seam.
    rw [sortedDumps, List.append_assoc]
    have hopen : paired false (lit "[") = true := pairedText_ofString _
    have hcomma : paired false (lit ", ") = true := pairedText_ofString _
    have hitems := paired_joinUnits hcomma (paired_sortedItems items hv)
    rw [paired_append hopen, paired_append hitems]
    exact pairedText_ofString _
  | .obj fields, hv => by
    rw [sortedDumps, List.append_assoc]
    have hopen : paired false (lit "\x7b") = true := pairedText_ofString _
    have hfields : ∀ part ∈ (sortUnits (sortedFields fields)).map fun p =>
        prettyStr p.1 ++ lit ": " ++ p.2, paired false part = true := by
      intro part hpart
      obtain ⟨p, hp, rfl⟩ := List.mem_map.mp hpart
      -- Sorting the keys permutes the fields, and pairing is asked of each of them.
      have hmem := (List.perm_insertionSort _ _).mem_iff.mp hp
      obtain ⟨hkey, hvalue⟩ := paired_sortedFields fields hv p hmem
      have hquoted : paired false (prettyStr p.1) = true := by rw [(paired_prettyStr p.1).1, hkey]
      have hcolon : paired false (lit ": ") = true := pairedText_ofString _
      rw [List.append_assoc, paired_append hquoted, paired_append hcolon]
      exact hvalue
    have hcomma : paired false (lit ", ") = true := pairedText_ofString _
    have hjoined := paired_joinUnits hcomma hfields
    rw [paired_append hopen, paired_append hjoined]
    exact pairedText_ofString _

theorem paired_sortedItems : ∀ (items : List Json), Json.pairedItems items = true →
    ∀ part ∈ sortedItems items, paired false part = true
  | [], _ => by simp [sortedItems]
  | v :: rest, hv => by
    rw [Json.pairedItems, Bool.and_eq_true] at hv
    rw [sortedItems, List.forall_mem_cons]
    exact ⟨paired_sortedDumps v hv.1, paired_sortedItems rest hv.2⟩

theorem paired_sortedFields : ∀ (fields : List (JStr × Json)), Json.pairedFields fields = true →
    ∀ p ∈ sortedFields fields, paired false p.1.units = true ∧ paired false p.2 = true
  | [], _ => by simp [sortedFields]
  | (k, v) :: rest, hv => by
    rw [Json.pairedFields, Bool.and_eq_true, Bool.and_eq_true] at hv
    rw [sortedFields, List.forall_mem_cons]
    exact ⟨⟨hv.1.1, paired_sortedDumps v hv.1.2⟩, paired_sortedFields rest hv.2⟩

end

end

/-! ### The facts of both reports -/

/-- Documents without unpaired surrogates, as far as the reports read them. -/
structure PairedDocuments (d : Documents) : Prop where
  summary : PairedText d.verification.summary
  records : ∀ r ∈ d.verification.records, (Json.obj r.asDict).paired = true
  session : (Json.obj d.timeline.session).paired = true
  note : ∀ note, d.timeline.previews.note = some note → PairedText note
  events : ∀ event ∈ d.timeline.events, (Json.obj event).paired = true
  redaction : ∀ r ∈ d.redaction.records, (Json.obj r.asDict).paired = true
  session_id : PairedText d.manifest.session_id
  agent : (Json.obj d.manifest.agent).paired = true
  location : PairedText d.manifest.location
  generated_at : PairedText d.manifest.generated_at
  generator : PairedText d.manifest.generator
  hashes : ∀ p ∈ d.manifest.files, PairedText p.2

section

variable {rt : Runtime} {d : Documents} {event : Dict}

/-- A value or a dash is paired. -/
theorem pairedText_orDash (hrepr : ReprPaired rt) {v : Json} (hv : v.paired = true) :
    PairedText (orDash rt v) := by
  unfold orDash
  split
  · exact pairedText_ofString _
  · exact pairedText_pyStr hrepr hv

/-- The agent's label is paired. -/
theorem pairedText_agentLabel (hrepr : ReprPaired rt) {agent : Dict}
    (hagent : (Json.obj agent).paired = true) : PairedText (agentLabel rt agent) := by
  have hget : ∀ key, PairedText (rt.pyStr (agent.get key)) := fun key =>
    pairedText_pyStr hrepr (paired_get hagent)
  have hid : PairedText (rt.pyStr (agent.getD "agent_id" (.str ""))) :=
    pairedText_pyStr hrepr (paired_getD hagent rfl)
  unfold agentLabel
  split_ifs <;> simp [text_append_assoc, hget, hid]

/-- The rows that identify the session are paired. -/
theorem pairedText_identityRows (hrepr : ReprPaired rt) (hd : PairedDocuments d) :
    ∀ row ∈ identityRows rt d.manifest d.timeline, PairedText row.2 := by
  have hsession : ∀ key, PairedText (orDash rt (d.timeline.session.get key)) := fun key =>
    pairedText_orDash hrepr (paired_get hd.session)
  have hagent := pairedText_agentLabel hrepr hd.agent
  have hsource :
    PairedText (JStr.ofString d.manifest.backend ++ " (" ++ d.manifest.location ++ ")") := by
    simp [text_append_assoc, hd.location]
  have hgenerated : PairedText (d.manifest.generated_at ++ " by " ++ d.manifest.generator) :=
    (hd.generated_at.append (pairedText_ofString _)).append hd.generator
  simp [identityRows, hd.session_id, hsession, hagent, hsource, hgenerated]

/-- The label of a range of sequence numbers is paired. -/
theorem pairedText_rangeLabel (hrepr : ReprPaired rt) {first last : Json}
    (hfirst : first.paired = true) (hlast : last.paired = true) :
    PairedText (rangeLabel rt first last) := by
  have hfrom := pairedText_pyStr hrepr hfirst
  have hto := pairedText_pyStr hrepr hlast
  unfold rangeLabel
  split_ifs <;> simp [text_append_assoc, hfrom, hto]

/-- The one-line summary of a paired event is paired, whatever its type. -/
theorem pairedText_eventSummary (hrepr : ReprPaired rt) (hevent : (Json.obj event).paired = true) :
    PairedText (eventSummary rt event) := by
  -- Every summary is put together from these pieces: texts read with a default, values read without
  -- one, values or a dash.
  have htext : ∀ key, PairedText (rt.pyStr (event.getD key (.str "?"))) := fun key =>
    pairedText_pyStr hrepr (paired_getD hevent rfl)
  have hempty : PairedText (rt.pyStr (event.getD "authorization_status" (.str ""))) :=
    pairedText_pyStr hrepr (paired_getD hevent rfl)
  have hget : ∀ key, PairedText (rt.pyStr (event.get key)) := fun key =>
    pairedText_pyStr hrepr (paired_get hevent)
  have hdash : ∀ key, PairedText (orDash rt (event.get key)) := fun key =>
    pairedText_orDash hrepr (paired_get hevent)
  have hrange := pairedText_rangeLabel hrepr (@paired_get _ "first_sequence" hevent)
    (@paired_get _ "last_sequence" hevent)
  have hselected := (pairedText_ofString "selected ").append (htext "selected_action")
  have hconfidence := (pairedText_ofString "confidence ").append (hget "confidence")
  have htool : PairedText (rt.pyStr (event.getD "tool_name" (.str "?")) ++ " (#" ++
      rt.pyStr (event.getD "sequence_number" (.str "?")) ++ ")") := by
    simp [text_append_assoc, htext]
  have hduration := (hget "duration_ms").append (pairedText_ofString "ms")
  have hwho : PairedText (rt.pyStr (event.getD "decision" (.str "?")) ++ " by " ++
      rt.pyStr (event.getD "approver_id" (.str "?")) ++ " (" ++
      rt.pyStr (event.getD "approver_type" (.str "?")) ++ ")") := by
    simp [text_append_assoc, htext]
  unfold eventSummary
  dsimp only
  -- One branch of `event_summary` after the other, in the order of its tests.
  split
  · exact hdash _
  split
  · exact (pairedText_ofString _).append (hdash _)
  split
  · apply pairedText_join (pairedText_ofString _)
    split_ifs <;> simp [hselected, hconfidence, hget]
  split
  · apply pairedText_join (pairedText_ofString _)
    intro part hpart
    -- The parts of an action that are empty are filtered out before the join.
    have hmem := (List.mem_filter.mp hpart).1
    revert part
    split_ifs <;> simp +contextual [htool, hempty, hduration]
  split
  · apply pairedText_join (pairedText_ofString _)
    split_ifs <;> simp [hwho, hget]
  split
  · exact ((htext _).append (pairedText_ofString _)).append hrange
  · exact pairedText_ofString _

/-- The text of a field's value is paired; containers are dumped with sorted keys. -/
theorem pairedText_fieldText (hrepr : ReprPaired rt) {v : Json} (hv : v.paired = true) :
    PairedText (fieldText rt v) := by
  cases v with
  | null => exact pairedText_ofString _
  | arr items => exact paired_sortedDumps _ hv
  | obj fields => exact paired_sortedDumps _ hv
  | str s => exact pairedText_pyStr hrepr hv
  | bool b => exact pairedText_pyStr hrepr hv
  | int n => exact pairedText_pyStr hrepr hv
  | float x => exact pairedText_pyStr hrepr hv

/-- The names and the texts of an event's remaining fields are paired. -/
theorem pairedText_eventFields (hrepr : ReprPaired rt) (hevent : (Json.obj event).paired = true) :
    ∀ field ∈ eventFields rt event, PairedText field.1 ∧ PairedText field.2 := by
  intro field hfield
  obtain ⟨p, hp, rfl⟩ := List.mem_map.mp hfield
  rw [Json.paired, pairedFields_iff] at hevent
  obtain ⟨hkey, hvalue⟩ := hevent p (List.mem_filter.mp hp).1
  exact ⟨hkey, pairedText_fieldText hrepr hvalue⟩

/-- The digests the report lists are digests of the manifest, hence paired. -/
theorem pairedText_documentHashes (hd : PairedDocuments d) :
    ∀ p ∈ documentHashes d.manifest, PairedText p.2 := by
  intro p hp
  obtain ⟨name, -, hname⟩ := List.mem_filterMap.mp hp
  obtain ⟨digest, hlookup, rfl⟩ := Option.map_eq_some_iff.mp hname
  obtain ⟨before, after, hfiles, -⟩ := List.lookup_eq_some_iff.mp hlookup
  apply hd.hashes (name, digest)
  rw [hfiles]
  exact List.mem_append_right _ List.mem_cons_self

/-- The note on withheld previews is paired. -/
theorem pairedText_withheldNote (previews : Previews) : PairedText (withheldNote previews) := by
  unfold withheldNote
  split
  · exact pairedText_ofString _
  · have hfields : PairedText (joinText ", " (previews.withheld_fields.map JStr.ofString)) := by
      apply pairedText_join (pairedText_ofString _)
      intro part hpart
      obtain ⟨name, -, rfl⟩ := List.mem_map.mp hpart
      exact pairedText_ofString _
    simp [text_append_assoc, hfields]

/-- The label of the missing sequence numbers is ASCII throughout. -/
theorem pairedText_missingLabel (verification : Verification) :
    PairedText (missingLabel verification) := by
  apply pairedText_join (pairedText_ofString _)
  intro part hpart
  obtain ⟨r, -, rfl⟩ := List.mem_map.mp hpart
  split_ifs <;> simp [text_append_assoc]

/-- The notes on the previews are paired. -/
theorem pairedText_previewNotes (hd : PairedDocuments d) :
    ∀ note ∈ previewNotes d.timeline.previews, PairedText note := by
  have hwithheld := pairedText_withheldNote d.timeline.previews
  unfold previewNotes
  split
  · rename_i note _ hnote
    have := hd.note note hnote
    split_ifs <;> simp [this, hwithheld]
  · simp

/-- The sequence number and the redacted paths of a record are paired. -/
theorem pairedText_redactionPaths (hd : PairedDocuments d) :
    ∀ r ∈ d.redaction.records, r.sequence_number.paired = true ∧ PairedText (redactionPaths r) := by
  intro r hr
  have hpaired := hd.redaction r hr
  -- The entry's own dict lists the two path lists among its fields.
  rw [Json.paired, pairedFields_iff] at hpaired
  simp only [RedactionEntry.asDict, Dict.ofFields, List.map_cons, List.map_nil,
    List.forall_mem_cons, textsJson, Json.paired, pairedItems_iff] at hpaired
  obtain ⟨hsequence, -, hinput, houtput, -⟩ := hpaired
  refine ⟨hsequence.2, pairedText_join (pairedText_ofString _) fun path hpath => ?_⟩
  rcases List.mem_append.mp hpath with hpath | hpath
  · exact hinput.2 _ (List.mem_map_of_mem hpath)
  · exact houtput.2 _ (List.mem_map_of_mem hpath)

/-! ### Markdown -/

/-- The four cells of a record's row are paired. -/
theorem pairedText_recordCells (hrepr : ReprPaired rt) (hd : PairedDocuments d) :
    ∀ r ∈ d.verification.records, PairedText (rt.pyStr r.sequence_number) ∧
      PairedText (rt.pyStr r.tool_name) ∧ PairedText (rt.pyStr r.self_hash) ∧
        PairedText (rt.pyStr (orValue r.prev_action_hash (.str "—"))) := by
  intro r hr
  -- The cells are fields of the entry's dict, so their pairing is read off `hd.records`.
  have hpaired := hd.records r hr
  rw [Json.paired, pairedFields_iff] at hpaired
  simp only [RecordEntry.asDict, Dict.ofFields, List.map_cons, List.map_nil,
    List.forall_mem_cons] at hpaired
  obtain ⟨hsequence, -, -, htool, hprev, hself, -, -⟩ := hpaired
  exact ⟨pairedText_pyStr hrepr hsequence.2, pairedText_pyStr hrepr htool.2,
    pairedText_pyStr hrepr hself.2,
    pairedText_pyStr hrepr (paired_orValue hprev.2 (pairedText_ofString _))⟩

/-- The lines of one event are paired. -/
theorem pairedText_eventBlock (hrepr : ReprPaired rt) (hevent : (Json.obj event).paired = true)
    (position : ℕ) : ∀ line ∈ eventBlock rt position event, PairedText line := by
  have hsummary := pairedText_eventSummary hrepr hevent
  have hkind : PairedText (rt.pyStr (event.getD "type" (.str "?"))) :=
    pairedText_pyStr hrepr (paired_getD hevent rfl)
  have htime : PairedText (orDash rt (event.get "timestamp")) :=
    pairedText_orDash hrepr (paired_get hevent)
  have hheading : PairedText ("### " ++ decimal position ++ ". " ++
      rt.pyStr (event.getD "type" (.str "?")) ++
      (if nonEmpty (eventSummary rt event) then " — " ++ eventSummary rt event else "")) := by
    split_ifs <;> simp [text_append_assoc, hkind, hsummary]
  have hline : PairedText ("_" ++ orDash rt (event.get "timestamp") ++ "_") := by
    simp [text_append_assoc, htime]
  -- A field's row escapes the pipes of its value, which leaves pairs alone.
  have hrows : ∀ field ∈ eventFields rt event, PairedText (fieldRow field) := by
    intro field hfield
    obtain ⟨hkey, hvalue⟩ := pairedText_eventFields hrepr hevent field hfield
    have hescaped := pairedText_escapePipes hvalue
    unfold fieldRow
    simp [text_append_assoc, hkey, hescaped]
  have htable : ∀ line ∈ (if (eventFields rt event).isEmpty then
      (["_no further fields recorded_", blank] : List JStr)
      else (["| Field | Value |", "| --- | --- |"] : List JStr) ++
        (eventFields rt event).map fieldRow ++ [blank]), PairedText line := by
    split_ifs
    · simp
    · simp only [List.forall_mem_append, List.forall_mem_map]
      exact ⟨⟨by simp, hrows⟩, by simp⟩
  exact List.forall_mem_append.mpr ⟨by simpa using ⟨hheading, hline⟩, htable⟩

/-- The lines of all events are paired, from any position on. -/
theorem pairedText_eventBlocks (hrepr : ReprPaired rt) {events : List Dict}
    (hevents : ∀ event ∈ events, (Json.obj event).paired = true) (position : ℕ) :
    ∀ line ∈ eventBlocks rt position events, PairedText line := by
  induction events generalizing position with
  | nil => simp [eventBlocks]
  | cons event rest ih =>
    rw [List.forall_mem_cons] at hevents
    rw [eventBlocks, List.forall_mem_append]
    exact ⟨pairedText_eventBlock hrepr hevents.1 position, ih hevents.2 (position + 1)⟩

/-- The meaning of a verdict is one of three literals. -/
theorem pairedText_verdictMeaning (verdict : Verdict) : PairedText (verdictMeaning verdict) := by
  cases verdict <;> exact pairedText_ofString _

/-- The head of the Markdown report is paired. -/
theorem pairedText_markdownHead (hrepr : ReprPaired rt) (hd : PairedDocuments d) :
    ∀ line ∈ markdownHead rt d, PairedText line := by
  have hmissing := pairedText_missingLabel d.verification
  have hverdict : PairedText ("# " ++ JStr.ofString d.verification.verdict.text ++
      " — RootSign evidence bundle") := (pairedText_ofString _).between _ _
  have hmeaning : PairedText ("**" ++ verdictMeaning d.verification.verdict ++ "**") :=
    (pairedText_verdictMeaning _).between _ _
  have hsummary : PairedText ("> " ++ d.verification.summary) :=
    (pairedText_ofString "> ").append hd.summary
  have hgap : PairedText ("Missing sequence numbers: **" ++ missingLabel d.verification ++ "**") :=
    hmissing.between _ _
  unfold markdownHead
  simp only [List.forall_mem_append, List.forall_mem_map]
  -- The parts of the head in order: verdict, summary, gaps, the caption, the rows, a blank.
  refine ⟨⟨⟨⟨⟨?_, ?_⟩, ?_⟩, ?_⟩, fun row hrow => ?_⟩, ?_⟩
  · simp [hverdict, hmeaning]
  · split_ifs <;> simp [hsummary]
  · split_ifs <;> simp [hgap]
  · simp
  · have hlabel := (pairedText_ofString row.1).between "- **" ":** "
    exact hlabel.append (pairedText_identityRows hrepr hd row hrow)
  · simp

/-- The chain section of the Markdown report is paired. -/
theorem pairedText_markdownChain (hrepr : ReprPaired rt) (hd : PairedDocuments d) :
    ∀ line ∈ markdownChain rt d, PairedText line := by
  have hcount : PairedText (decimal d.verification.record_count ++
      " action record(s) checked against the frozen canonical hash (ADR-001, sha256).") :=
    (pairedText_decimal _).append (pairedText_ofString _)
  unfold markdownChain
  simp only [List.forall_mem_append, List.forall_mem_map]
  refine ⟨⟨?_, fun r hr => ?_⟩, ?_⟩
  · simp [hcount]
  · obtain ⟨hsequence, htool, hself, hprev⟩ := pairedText_recordCells hrepr hd r hr
    unfold recordRow
    simp [text_append_assoc, hsequence, htool, hself, hprev]
  · simp

/-- The timeline section of the Markdown report is paired. -/
theorem pairedText_markdownEvents (hrepr : ReprPaired rt) (hd : PairedDocuments d) :
    ∀ line ∈ markdownEvents rt d, PairedText line := by
  have hnotes := pairedText_previewNotes hd
  unfold markdownEvents
  simp only [List.forall_mem_append]
  refine ⟨⟨⟨?_, fun line hline => ?_⟩, ?_⟩, pairedText_eventBlocks hrepr hd.events 1⟩
  · simp
  · obtain ⟨p, hp, hmem⟩ := List.mem_flatMap.mp hline
    -- The first note gets its full stop, the later ones have one; either way the note is wrapped.
    have hnote := hnotes p.1 ((List.mem_zipIdx' hp).2 ▸ List.getElem_mem _)
    split_ifs at hmem
    · rcases List.mem_pair.mp hmem with rfl | rfl
      · exact hnote.between _ _
      · exact pairedText_blank
    · rcases List.mem_pair.mp hmem with rfl | rfl
      · exact hnote.between _ _
      · exact pairedText_blank
  · simp

/-- The redaction section of the Markdown report is paired. -/
theorem pairedText_markdownRedaction (hrepr : ReprPaired rt) (hd : PairedDocuments d) :
    ∀ line ∈ markdownRedaction rt d, PairedText line := by
  have htotals : PairedText (decimal d.redaction.redacted_fields ++ " field(s) across " ++
      decimal d.redaction.actions_with_redactions ++ " action(s) were replaced with `" ++
        sentinel ++
      "` before storage.") := by
    have hfields := (pairedText_decimal d.redaction.redacted_fields).append
      (pairedText_ofString " field(s) across ")
    have hactions :=
      (hfields.append (pairedText_decimal d.redaction.actions_with_redactions)).append
      (pairedText_ofString " action(s) were replaced with `")
    exact (hactions.append (pairedText_ofString _)).append (pairedText_ofString _)
  have hprovenance : PairedText redactionProvenance := pairedText_ofString _
  have hline : PairedText ("_" ++ redactionProvenance ++ "_") :=
    hprovenance.between _ _
  unfold markdownRedaction
  simp only [List.forall_mem_append, List.forall_mem_map]
  refine ⟨⟨⟨?_, fun r hr => ?_⟩, ?_⟩, ?_⟩
  · simp [htotals]
  · obtain ⟨hsequence, hpaths⟩ := pairedText_redactionPaths hd r hr
    exact ((pairedText_pyStr hrepr hsequence).between "- #" ": ").append hpaths
  · split_ifs <;> simp
  · simp [hline]

/-- The section on the bundle's documents is paired. -/
theorem pairedText_markdownContents (hd : PairedDocuments d) :
    ∀ line ∈ markdownContents d, PairedText line := by
  have hhow : PairedText howToVerify := pairedText_ofString _
  unfold markdownContents
  simp only [List.forall_mem_append, List.forall_mem_map]
  refine ⟨⟨?_, fun p hp => ?_⟩, ?_⟩
  · simp
  · have hname := (pairedText_ofString p.1).between "| `" "` | `"
    exact (hname.append (pairedText_documentHashes hd p hp)).append (pairedText_ofString _)
  · simp [hhow]

/-- **The Markdown report** of documents without unpaired surrogates has none. -/
theorem pairedText_renderMarkdown (hrepr : ReprPaired rt) (hd : PairedDocuments d) :
    -- The report is its lines joined by newlines, so each section is done line by line.
    PairedText (renderMarkdown rt d) := by
  apply pairedText_join (pairedText_ofString _)
  unfold markdownReport
  simp only [List.forall_mem_append]
  exact ⟨⟨⟨⟨pairedText_markdownHead hrepr hd, pairedText_markdownChain hrepr hd⟩,
    pairedText_markdownEvents hrepr hd⟩, pairedText_markdownRedaction hrepr hd⟩,
    pairedText_markdownContents hd⟩

/-! ### HTML -/

/-- A part of a report whose text is paired. -/
def HtmlPiece.Paired : HtmlPiece → Prop
  | .value text => PairedText text
  | .attribute text => PairedText text
  | _ => True

/-- A line of such parts. -/
def PairedLine (line : List HtmlPiece) : Prop := ∀ piece ∈ line, piece.Paired

/-- A piece renders to paired units: markup and numbers are ASCII, values are escaped. -/
theorem paired_units {piece : HtmlPiece} (h : piece.Paired) : paired false piece.units = true := by
  match piece, h with
  | .markup text, _ => exact pairedText_ofString text
  | .number n, _ => exact pairedText_decimal n
  | .value _, h => exact paired_escapeHtml h
  | .attribute _, h => exact paired_escapeHtml h

/-- Units put in place of single ones stay paired if each of them is. -/
theorem paired_flatMap_of_forall {α : Type} {f : α → List CodeUnit} {l : List α}
    (h : ∀ a ∈ l, paired false (f a) = true) : paired false (l.flatMap f) = true := by
  induction l with
  | nil => rfl
  | cons a rest ih =>
    rw [List.forall_mem_cons] at h
    rw [List.flatMap_cons, paired_append h.1]
    exact ih h.2

/-- The head of the HTML report is paired. -/
theorem pairedLine_htmlHead (hrepr : ReprPaired rt) (hd : PairedDocuments d) :
    ∀ line ∈ htmlHead rt d, PairedLine line := by
  have hmissing := pairedText_missingLabel d.verification
  have hmeaning := pairedText_verdictMeaning d.verification.verdict
  unfold htmlHead
  simp only [List.forall_mem_append, List.forall_mem_map]
  refine ⟨⟨⟨⟨⟨?_, ?_⟩, ?_⟩, ?_⟩, fun row hrow => ?_⟩, ?_⟩
  · simp [PairedLine, HtmlPiece.Paired, hd.session_id, hmeaning]
  · split_ifs <;> simp [PairedLine, HtmlPiece.Paired, hd.summary]
  · split_ifs <;> simp [PairedLine, HtmlPiece.Paired, hmissing]
  · simp [PairedLine, HtmlPiece.Paired]
  · simp [PairedLine, HtmlPiece.Paired, pairedText_identityRows hrepr hd row hrow]
  · simp [PairedLine, HtmlPiece.Paired]

/-- The chain section of the HTML report is paired. -/
theorem pairedLine_htmlChain (hrepr : ReprPaired rt) (hd : PairedDocuments d) :
    ∀ line ∈ htmlChain rt d, PairedLine line := by
  unfold htmlChain
  simp only [List.forall_mem_append, List.forall_mem_map]
  refine ⟨⟨?_, fun r hr => ?_⟩, ?_⟩
  · simp [PairedLine, HtmlPiece.Paired]
  · obtain ⟨hsequence, htool, hself, hprev⟩ := pairedText_recordCells hrepr hd r hr
    simp [PairedLine, htmlRecord, HtmlPiece.Paired, hsequence, htool, hself, hprev]
  · simp [PairedLine, HtmlPiece.Paired]

/-- The card of one event is paired. -/
theorem pairedLine_htmlEvent (hrepr : ReprPaired rt) (hevent : (Json.obj event).paired = true)
    (position : ℕ) : ∀ line ∈ htmlEvent rt position event, PairedLine line := by
  have hsummary := pairedText_eventSummary hrepr hevent
  have hkind : PairedText (rt.pyStr (event.getD "type" (.str "?"))) :=
    pairedText_pyStr hrepr (paired_getD hevent rfl)
  have htime : PairedText (orDash rt (event.get "timestamp")) :=
    pairedText_orDash hrepr (paired_get hevent)
  unfold htmlEvent
  dsimp only
  simp only [List.forall_mem_append]
  refine ⟨⟨⟨?_, ?_⟩, ?_⟩, ?_⟩
  · simp [PairedLine, HtmlPiece.Paired, hkind, htime]
  · split_ifs <;> simp [PairedLine, HtmlPiece.Paired, hsummary]
  · split_ifs
    · simp [PairedLine, HtmlPiece.Paired]
    · simp only [List.forall_mem_append, List.forall_mem_map]
      refine ⟨⟨?_, fun field hfield => ?_⟩, ?_⟩
      · simp [PairedLine, HtmlPiece.Paired]
      · simp [PairedLine, HtmlPiece.Paired, pairedText_eventFields hrepr hevent field hfield]
      · simp [PairedLine, HtmlPiece.Paired]
  · simp [PairedLine, HtmlPiece.Paired]

/-- The cards of all events are paired, from any position on. -/
theorem pairedLine_htmlEventList (hrepr : ReprPaired rt) {events : List Dict}
    (hevents : ∀ event ∈ events, (Json.obj event).paired = true) (position : ℕ) :
    ∀ line ∈ htmlEventList rt position events, PairedLine line := by
  induction events generalizing position with
  | nil => simp [htmlEventList]
  | cons event rest ih =>
    rw [List.forall_mem_cons] at hevents
    rw [htmlEventList, List.forall_mem_append]
    exact ⟨pairedLine_htmlEvent hrepr hevents.1 position, ih hevents.2 (position + 1)⟩

/-- The timeline section of the HTML report is paired. -/
theorem pairedLine_htmlEvents (hrepr : ReprPaired rt) (hd : PairedDocuments d) :
    ∀ line ∈ htmlEvents rt d, PairedLine line := by
  unfold htmlEvents
  simp only [List.forall_mem_append, List.forall_mem_map]
  refine ⟨⟨⟨⟨?_, fun note hnote => ?_⟩, ?_⟩, pairedLine_htmlEventList hrepr hd.events 1⟩, ?_⟩
  · simp [PairedLine, HtmlPiece.Paired]
  · simp [PairedLine, HtmlPiece.Paired, pairedText_previewNotes hd note hnote]
  · simp [PairedLine, HtmlPiece.Paired]
  · simp [PairedLine, HtmlPiece.Paired]

/-- The redaction section of the HTML report is paired. -/
theorem pairedLine_htmlRedaction (hrepr : ReprPaired rt) (hd : PairedDocuments d) :
    ∀ line ∈ htmlRedaction rt d, PairedLine line := by
  have hsentinel : PairedText sentinel := pairedText_ofString _
  have hprovenance : PairedText redactionProvenance := pairedText_ofString _
  unfold htmlRedaction
  simp only [List.forall_mem_append]
  refine ⟨⟨?_, ?_⟩, ?_⟩
  · simp [PairedLine, HtmlPiece.Paired, hsentinel]
  · split_ifs
    · simp
    · simp only [List.forall_mem_append, List.forall_mem_map]
      refine ⟨⟨?_, fun r hr => ?_⟩, ?_⟩
      · simp [PairedLine, HtmlPiece.Paired]
      · obtain ⟨hsequence, hpaths⟩ := pairedText_redactionPaths hd r hr
        simp [PairedLine, HtmlPiece.Paired, pairedText_pyStr hrepr hsequence, hpaths]
      · simp [PairedLine, HtmlPiece.Paired]
  · simp [PairedLine, HtmlPiece.Paired, hprovenance]

/-- The section on the bundle's documents is paired. -/
theorem pairedLine_htmlContents (hd : PairedDocuments d) :
    ∀ line ∈ htmlContents d, PairedLine line := by
  have hhow : PairedText howToVerify := pairedText_ofString _
  unfold htmlContents
  simp only [List.forall_mem_append, List.forall_mem_map]
  refine ⟨⟨?_, fun p hp => ?_⟩, ?_⟩
  · simp [PairedLine, HtmlPiece.Paired]
  · simp [PairedLine, HtmlPiece.Paired, pairedText_documentHashes hd p hp]
  · simp [PairedLine, HtmlPiece.Paired, hhow]

/-- **The HTML report** of documents without unpaired surrogates has none. -/
theorem pairedText_renderHtml (hrepr : ReprPaired rt) (hd : PairedDocuments d) :
    PairedText (renderHtml rt d) := by
  have hlines : ∀ line ∈ htmlReport rt d, PairedLine line := by
    unfold htmlReport
    simp only [List.forall_mem_append]
    exact ⟨⟨⟨⟨pairedLine_htmlHead hrepr hd, pairedLine_htmlChain hrepr hd⟩,
      pairedLine_htmlEvents hrepr hd⟩, pairedLine_htmlRedaction hrepr hd⟩,
      pairedLine_htmlContents hd⟩
  -- A line renders piece by piece, and the newline behind it is no surrogate.
  apply paired_flatMap_of_forall
  intro line hline
  have hunits :=
    paired_flatMap_of_forall fun piece hpiece => paired_units (hlines line hline piece hpiece)
  rw [paired_append hunits]
  exact pairedText_ofString _

end

end RootSign
