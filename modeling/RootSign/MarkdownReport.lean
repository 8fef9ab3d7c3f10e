import RootSign.Markdown

namespace RootSign

open RootSign.Python RootSign.Lib

/-!
# The Markdown report and its evidence

`report.md` read as Markdown: its lines, its headings, the tables in its sections, and where HTML
begins.

* `MarkdownSound` — the lines and the headings are those of the renderer, each record has a row of
  five cells and each field of an event one of two, and no line opens an HTML tag;
* `PlainEvidence` — no text that goes into the report breaks a line, a cell or the renderer's own
  code, none is read as a heading and none opens a tag;
* `markdown_sound_iff` — the report is sound exactly if its evidence is plain.
-/

/-! ### What is read -/

/-- The heading with the verdict. -/
def verdictHeading (verdict : Verdict) : JStr :=
  "# " ++ JStr.ofString verdict.text ++ " — RootSign evidence bundle"

/-- The rows of the table below a heading. -/
def sectionRows (title : String) (lines : List JStr) : List JStr :=
  bodyRows (((sectionsOf readsHeading lines).lookup (JStr.ofString title)).getD [])

/-- The rows of the tables below the headings of the third level. -/
def eventRows (lines : List JStr) : List (List JStr) :=
  ((sectionsOf readsHeading lines).filter fun s => hasMark "### " s.1).map fun s => bodyRows s.2

/-- The number of the cells of each row. -/
def cellCounts (rows : List JStr) : List ℕ := rows.map fun row => (cells row).length

section

variable (rt : Runtime)

/-- What the heading of an event says: its type, and the line about it. -/
def eventTitle (event : Dict) : JStr :=
  rt.pyStr (event.getD "type" (.str "?")) ++
    if nonEmpty (eventSummary rt event) then " — " ++ eventSummary rt event else ""

/-- The heading of an event, at its position. -/
def eventHeading (position : ℕ) (event : Dict) : JStr :=
  "### " ++ decimal position ++ ". " ++ eventTitle rt event

/-- The headings of the report: the verdict, the sections, and one for each event. -/
def headings (d : Documents) : List JStr :=
  [verdictHeading d.verification.verdict, "## Session", "## Chain verification",
    "## What happened"] ++
  ((d.timeline.events.zipIdx 1).map fun p => withoutReturn (eventHeading rt p.2 p.1)) ++
  (["## Redaction", "## Bundle contents", "## Verifying this bundle"] : List JStr)

/-- The lines of the report as they are read. -/
def reportLines (d : Documents) : List JStr := markdownLines (renderMarkdown rt d)

/-- **The report is sound**: read as Markdown, it has the lines, the headings and the rows of the
    renderer, and no HTML. -/
structure MarkdownSound (d : Documents) : Prop where
  lines : reportLines rt d = (markdownReport rt d).map withoutReturn
  headings : (reportLines rt d).filter readsHeading = headings rt d
  records : cellCounts (sectionRows "## Chain verification" (reportLines rt d)) =
    List.replicate d.verification.records.length 5
  events : (eventRows (reportLines rt d)).map cellCounts =
    d.timeline.events.map fun event => List.replicate (eventFields rt event).length 2
  contents : cellCounts (sectionRows "## Bundle contents" (reportLines rt d)) =
    List.replicate (documentHashes d.manifest).length 2
  html : ∀ line ∈ reportLines rt d, LineFree line

/-! ### Plain evidence -/

/-- A text for the end of a line. -/
structure PlainEnd (text : JStr) : Prop where
  endsLine : EndsLine text
  tagFree : TagFree text

/-- A text for the inside of a line. -/
structure PlainInside (text : JStr) : Prop where
  oneLine : OneLine text
  tagFree : TagFree text

/-- A text for the cell of a row. -/
structure PlainCell (text : JStr) : Prop extends PlainInside text where
  noBarePipe : NoBarePipe text

/-- The texts of the cells of a record; its hashes are set as code. -/
def recordTexts (record : RecordEntry) : List JStr :=
  [rt.pyStr record.sequence_number, rt.pyStr record.tool_name, record.chain_status.text,
   code (rt.pyStr record.self_hash), code (rt.pyStr (orValue record.prev_action_hash (.str "—")))]

/-- The texts of the cells of a field; its name is set as code. -/
def fieldTexts (field : JStr × JStr) : List JStr := [code field.1, escapePipes field.2]

/-- The texts of the cells of a document's hash. -/
def hashTexts (p : String × JStr) : List JStr := [code p.1, code p.2]

/-- The sequence number and the paths of a redacted record. -/
def redactionText (record : RedactionEntry) : JStr :=
  rt.pyStr record.sequence_number ++ ": " ++ redactionPaths record

/-- **The evidence is plain**: each text fits its place in the report, the summary is no heading in
    its quote, and no sequence number completes the number sign before it to the mark of one. -/
structure PlainEvidence (d : Documents) : Prop where
  summary : PlainEnd d.verification.summary
  quoted : readsHeading ("> " ++ withoutReturn d.verification.summary) = false
  identity : ∀ row ∈ identityRows rt d.manifest d.timeline, PlainEnd row.2
  records : ∀ record ∈ d.verification.records, ∀ t ∈ recordTexts rt record, PlainCell t
  notes : ∀ note ∈ previewNotes d.timeline.previews, PlainInside note
  titles : ∀ event ∈ d.timeline.events, PlainEnd (eventTitle rt event)
  times : ∀ event ∈ d.timeline.events, PlainInside (orDash rt (event.get "timestamp"))
  fields : ∀ event ∈ d.timeline.events, ∀ field ∈ eventFields rt event,
    PlainCell (code field.1) ∧ PlainInside (escapePipes field.2)
  redaction : ∀ record ∈ d.redaction.records, PlainEnd (redactionText rt record)
  numbered : ∀ record ∈ d.redaction.records,
    readsHeading ("- #" ++ rt.pyStr record.sequence_number ++ ":") = false
  hashes : ∀ p ∈ documentHashes d.manifest, ∀ t ∈ hashTexts p, PlainCell t

end

/-! ### Lines around a text -/

/-- The line is read as it is written, and opens no tag. -/
structure PlainLine (line : JStr) : Prop where
  endsLine : EndsLine line
  free : LineFree (withoutReturn line)

/-- So are all lines of a list. -/
def PlainLines (lines : List JStr) : Prop := ∀ line ∈ lines, PlainLine line

/-- What can start a line before a text. -/
structure Front (front : JStr) : Prop extends Silent front where
  starts : front.units.head?.any (fun u => decide (u ≠ pipe)) = true

/-- What can end a line behind a text. -/
structure Back (back : JStr) : Prop extends Silent back where
  starts : back.units.head?.any (fun u => !startsTag u) = true

section

variable {a b line value front back : JStr} {parts : List JStr} {lines others : List JStr}

@[simp] theorem plainLines_nil : PlainLines [] := List.forall_mem_nil _

@[simp] theorem plainLines_cons : PlainLines (line :: lines) ↔ PlainLine line ∧ PlainLines lines :=
  List.forall_mem_cons

@[simp] theorem plainLines_append :
    PlainLines (lines ++ others) ↔ PlainLines lines ∧ PlainLines others := List.forall_mem_append

@[simp] theorem plainLines_map {α : Type} {f : α → JStr} {xs : List α} :
    PlainLines (xs.map f) ↔ ∀ x ∈ xs, PlainLine (f x) := List.forall_mem_map

/-- A front may be extended by what says nothing. -/
theorem Front.append (ha : Front a) (hb : Silent b) : Front (a ++ b) where
  toSilent := ha.toSilent.append hb
  starts := by
    have hstarts := ha.starts
    rw [JStr.units_append]
    cases hunits : a.units with
    | nil => simp [hunits] at hstarts
    | cons u rest => simpa [hunits] using hstarts

/-- A line that does not start with a pipe is no row. -/
theorem Front.notRow (hf : Front front) (value : JStr) : hasMark "|" (front ++ value) = false := by
  have hpipe : lit "|" = [pipe] := rfl
  have hstarts := hf.starts
  unfold hasMark
  rw [hpipe, JStr.units_append]
  cases hunits : front.units with
  | nil => simp [hunits] at hstarts
  | cons u rest =>
    rw [hunits] at hstarts
    have hu : u ≠ pipe := by simpa using hstarts
    simp [List.isPrefixOf, hu.symm]

/-- It is read as a whole. -/
theorem Front.inlineTexts (hf : Front front) (value : JStr) :
    inlineTexts (front ++ value) = [front ++ value] := by
  rw [RootSign.inlineTexts, hf.notRow, if_neg Bool.false_ne_true]

/-- What fits inside a line fits at its end. -/
theorem plainEnd_of_plainInside (h : PlainInside value) : PlainEnd value :=
  ⟨endsLine_of_oneLine h.oneLine, h.tagFree⟩

/-- **A line that ends in a text** is plain exactly if the text is. -/
theorem plainLine_end (hf : Front front) : PlainLine (front ++ value) ↔ PlainEnd value := by
  have hfree : LineFree (withoutReturn (front ++ value)) ↔ TagFree value := by
    rw [withoutReturn_append hf.oneLine, LineFree, hf.inlineTexts, List.forall_mem_singleton,
      tagFree_quiet_append hf.quiet, tagFree_withoutReturn]
  constructor
  · rintro ⟨hline, hhtml⟩
    -- The front is on one line and says nothing, so both halves are about the value alone.
    exact ⟨(endsLine_append hf.oneLine).mp hline, hfree.mp hhtml⟩
  · rintro ⟨hline, hhtml⟩
    exact ⟨(endsLine_append hf.oneLine).mpr hline, hfree.mpr hhtml⟩

/-- A text before one that says nothing and ends the line. -/
theorem plainEnd_append (hb : Back back) : PlainEnd (value ++ back) ↔ PlainInside value := by
  have hstarts := hb.starts
  -- A back is not empty: it starts with a unit, and that unit starts no tag.
  have hne : back.units ≠ [] := fun h => by simp [h] at hstarts
  have hhead : back.units.head?.any startsTag = false := by
    cases hunits : back.units with
    | nil => rfl
    | cons u rest => simpa [hunits] using hstarts
  constructor
  · rintro ⟨hline, hhtml⟩
    exact ⟨(endsLine_append_of_ne hb.oneLine hne).mp hline,
      (tagFree_append_of_quiet hb.quiet hhead).mp hhtml⟩
  · rintro ⟨hline, hhtml⟩
    exact ⟨(endsLine_append_of_ne hb.oneLine hne).mpr hline,
      (tagFree_append_of_quiet hb.quiet hhead).mpr hhtml⟩

/-- **A line around a text** is plain exactly if the text is. -/
theorem plainLine_between (hf : Front front) (hb : Back back) :
    PlainLine (front ++ value ++ back) ↔ PlainInside value := by
  rw [text_append_assoc, plainLine_end hf, plainEnd_append hb]

/-- A row ends with a pipe. -/
theorem withoutReturn_rowOf (parts : List JStr) : withoutReturn (rowOf parts) = rowOf parts := by
  apply JStr.ext
  rcases List.eq_nil_or_concat parts with rfl | ⟨front, last, rfl⟩
  · rfl
  · rw [List.concat_eq_append]
    -- Seen as units, the row is everything up to its last pipe and that pipe, which is no return.
    have hunits : (rowOf (front ++ [last])).units =
        (pipe :: (front.flatMap (fun t => space :: (t.units ++ [space, pipe])) ++
          space :: (last.units ++ [space]))) ++ [pipe] := by
      simp [rowOf]
    show dropFinal carriageReturn _ = _
    rw [hunits, dropFinal_append_of_ne (List.cons_ne_nil _ _)]
    rfl

/-- **A row** is plain exactly if its texts are, where none of them has a bare pipe. -/
theorem plainLine_row (hbare : ∀ t ∈ parts, NoBarePipe t) :
    PlainLine (rowOf parts) ↔ ∀ t ∈ parts, PlainInside t := by
  have hspace : Quiet ⟨[space]⟩ := by
    intro u hu
    obtain rfl := List.mem_singleton.mp hu
    decide
  have hfree : LineFree (rowOf parts) ↔ ∀ t ∈ parts, TagFree t := by
    have hmark : hasMark "|" (rowOf parts) = true := rfl
    -- HTML is looked for cell by cell; the blanks around a text neither open nor finish a tag.
    rw [LineFree, inlineTexts, if_pos hmark, cells_rowOf hbare, List.forall_mem_map]
    refine forall₂_congr fun t _ => ?_
    rw [tagFree_append_of_quiet hspace rfl, tagFree_quiet_append hspace]
  have hline : EndsLine (rowOf parts) ↔ ∀ t ∈ parts, OneLine t := by
    rw [EndsLine, withoutReturn_rowOf, oneLine_rowOf]
  constructor
  · rintro ⟨hends, hhtml⟩ t ht
    rw [withoutReturn_rowOf] at hhtml
    exact ⟨hline.mp hends t ht, hfree.mp hhtml t ht⟩
  · intro h
    refine ⟨hline.mpr fun t ht => (h t ht).oneLine, ?_⟩
    rw [withoutReturn_rowOf]
    exact hfree.mpr fun t ht => (h t ht).tagFree

end

/-! ### Lines of the renderer -/

section

variable {line value : JStr}

instance (text : JStr) : Decidable (PlainInside text) :=
  decidable_of_iff (OneLine text ∧ TagFree text) ⟨fun h => ⟨h.1, h.2⟩, fun h => ⟨h.1, h.2⟩⟩

/-- A line of the renderer is plain by itself. -/
theorem plainLine_fixed (h : OneLine line ∧ LineFree line) : PlainLine line :=
  ⟨endsLine_of_oneLine h.1, by rw [withoutReturn_of_oneLine h.1]; exact h.2⟩

/-- A silent text fits inside a line. -/
theorem Silent.plainInside (h : Silent value) : PlainInside value :=
  ⟨h.oneLine, tagFree_of_quiet h.quiet⟩

/-- So is a line that says nothing. -/
theorem Silent.plainLine (h : Silent line) : PlainLine line :=
  plainLine_fixed ⟨h.oneLine, lineFree_of_quiet h.quiet⟩

/-- So is a literal of characters that say nothing. -/
theorem Spells.plainLine {s : String} {cs : List Char} (h : Spells s cs)
    (hcs : cs.all silentChar = true) : PlainLine (JStr.ofString s) := (h.silent hcs).plainLine

@[simp] theorem plainLine_blank : PlainLine blank := Spells.literal.plainLine (by decide)

/-- A number starts a line. -/
theorem front_decimal (n : ℕ) : Front (decimal n) where
  toSilent := silent_decimal n
  starts := by
    cases hunits : (decimal n).units with
    | nil => exact absurd hunits (decimal_ne_nil n)
    -- A digit is no pipe.
    | cons u rest =>
      have hdigit := isDigitUnit_decimal n u (hunits ▸ List.mem_cons_self)
      refine decide_eq_true ?_
      rintro rfl
      exact absurd hdigit (by decide)

/-- The label of the gaps has digits, dashes and commas only. -/
theorem silent_missingLabel (verification : Verification) :
    Silent (missingLabel verification) := by
  have hdash : Silent "-" := Spells.literal.silent (by decide)
  apply silent_joinText (Spells.literal.silent (by decide))
  rw [List.forall_mem_map]
  intro r _
  split_ifs
  · exact silent_decimal _
  · exact ((silent_decimal _).append hdash).append (silent_decimal _)

/-- What the renderer sets before the texts of a line. -/
theorem front_marks : Front "_" ∧ Front "**" ∧ Front "> " ∧ Front "- #" ∧ Front "# " :=
  ⟨⟨Spells.literal.silent (by decide), rfl⟩, ⟨Spells.literal.silent (by decide), rfl⟩,
    ⟨Spells.literal.silent (by decide), rfl⟩, ⟨Spells.literal.silent (by decide), rfl⟩,
    ⟨Spells.literal.silent (by decide), rfl⟩⟩

/-- What it sets behind them. -/
theorem back_marks : Back "_" ∧ Back "._" ∧ Back "**" :=
  ⟨⟨Spells.literal.silent (by decide), rfl⟩, ⟨Spells.literal.silent (by decide), rfl⟩,
    ⟨Spells.literal.silent (by decide), rfl⟩⟩

/-- The paragraph on how to verify is the renderer's own. -/
theorem plainLine_howToVerify : PlainLine howToVerify :=
  Spells.decided (.append (.append (.append (.append (.append .literal .literal) .literal) .literal)
    .literal) .literal) (plainLine_fixed (by decide +kernel))

/-- The line about the redaction's provenance is plain. -/
theorem plainLine_redactionProvenance : PlainLine ("_" ++ redactionProvenance ++ "_") := by
  rw [plainLine_between front_marks.1 back_marks.1]
  exact ((((Spells.literal.append .literal).append .literal).append .literal).silent
    (by decide +kernel)).plainInside

/-- The meaning of each verdict is plain. -/
theorem plainLine_verdictMeaning (verdict : Verdict) :
    PlainLine ("**" ++ verdictMeaning verdict ++ "**") := by
  rw [plainLine_between front_marks.2.1 back_marks.2.2]
  cases verdict with
  | VALID => exact (Spells.literal.silent (by decide)).plainInside
  | TAMPERED => exact (Spells.literal.silent (by decide)).plainInside
  | INCOMPLETE => exact ((Spells.literal.append .literal).silent (by decide)).plainInside

end

/-! ### Sections -/

section

variable {rt : Runtime} {d : Documents}

/-- The lines below the verdict. -/
def verdictLines (d : Documents) : List JStr :=
  [blank, "**" ++ verdictMeaning d.verification.verdict ++ "**", blank] ++
  (if nonEmpty d.verification.summary then ["> " ++ d.verification.summary, blank] else []) ++
  (if nonEmpty (missingLabel d.verification) then
    ["Missing sequence numbers: **" ++ missingLabel d.verification ++ "**", blank] else [])

/-- The rows of the session. -/
def sessionLines (rt : Runtime) (d : Documents) : List JStr :=
  (identityRows rt d.manifest d.timeline).map fun row =>
    "- **" ++ JStr.ofString row.1 ++ ":** " ++ row.2

/-- The lines before the first event. -/
def noteLines (d : Documents) : List JStr :=
  ([""] : List JStr) ++ ((previewNotes d.timeline.previews).zipIdx.flatMap fun p =>
    if p.2 = 0 then [("_" : JStr) ++ p.1 ++ "._", blank]
    else [("_" : JStr) ++ p.1 ++ "_", blank]) ++
  ([JStr.ofString ("Every field recorded for each event, as stored. Field names match " ++
    "`timeline.json` so the two can be read side by side."), ""] : List JStr)

/-- The lines below the heading of an event. -/
def eventLines (rt : Runtime) (event : Dict) : List JStr :=
  [blank, "_" ++ orDash rt (event.get "timestamp") ++ "_", blank] ++
  if (eventFields rt event).isEmpty then (["_no further fields recorded_", blank] : List JStr)
  else (["| Field | Value |", "| --- | --- |"] : List JStr) ++
    (eventFields rt event).map fieldRow ++ [blank]

/-- The events, each with the lines below its heading. -/
def eventSections (rt : Runtime) (position : ℕ) (events : List Dict) : List (JStr × List JStr) :=
  (events.zipIdx position).map fun p => (eventHeading rt p.2 p.1, eventLines rt p.1)

/-- The rows of the hashes, and what stands around them. -/
def hashLines (d : Documents) : List JStr :=
  (["", "SHA-256 of each machine-readable document in this bundle, copied from `manifest.json`.",
    "", "| File | SHA-256 |", "| --- | --- |"] : List JStr) ++
  (documentHashes d.manifest).map (fun p =>
    "| `" ++ JStr.ofString p.1 ++ "` | `" ++ p.2 ++ "` |") ++
  ([blank, JStr.ofString
    ("_This report and `manifest.json` are hashed too, but a document cannot " ++
    "quote its own digest — those values are in `manifest.json`._"), ""] : List JStr)

/-- The sections of the report, each with the lines below its heading. -/
def reportSections (rt : Runtime) (d : Documents) : List (JStr × List JStr) :=
  [(verdictHeading d.verification.verdict, verdictLines d),
   ("## Session", blank :: (sessionLines rt d ++ [blank])),
   ("## Chain verification", (markdownChain rt d).tail),
   ("## What happened", noteLines d)] ++
  eventSections rt 1 d.timeline.events ++
  ([("## Redaction", (markdownRedaction rt d).tail),
    ("## Bundle contents", hashLines d),
    ("## Verifying this bundle", ["", howToVerify, ""])] : List (JStr × List JStr))

/-- The blocks of the events are their sections, each under its heading. -/
theorem eventBlocks_eq (position : ℕ) (events : List Dict) : eventBlocks rt position events =
    (eventSections rt position events).flatMap fun s => s.1 :: s.2 := by
  have hblock : ∀ position event, eventBlock rt position event =
      eventHeading rt position event :: eventLines rt event := by
    intro position event
    have htitle : "### " ++ decimal position ++ ". " ++ rt.pyStr (event.getD "type" (.str "?")) ++
        (if nonEmpty (eventSummary rt event) then " — " ++ eventSummary rt event else "") =
        eventHeading rt position event := text_append_assoc _ _ _
    unfold eventBlock
    dsimp only
    rw [htitle]
    rfl
  induction events generalizing position with
  | nil => rfl
  | cons event rest ih =>
    rw [eventBlocks, hblock, ih]
    rfl

/-- **The report is its sections.** -/
theorem markdownReport_eq :
    markdownReport rt d = (reportSections rt d).flatMap fun s => s.1 :: s.2 := by
  -- Section by section, the lines of the renderer start with the heading.
  have hhead : markdownHead rt d = verdictHeading d.verification.verdict :: verdictLines d ++
      ("## Session" : JStr) :: blank :: (sessionLines rt d ++ [blank]) := by
    simp only [markdownHead, verdictHeading, verdictLines, sessionLines, List.append_assoc,
      List.cons_append, List.nil_append]
    rfl
  have hevents : markdownEvents rt d = ("## What happened" : JStr) :: noteLines d ++
      (eventSections rt 1 d.timeline.events).flatMap fun s => s.1 :: s.2 := by
    rw [← eventBlocks_eq]
    rfl
  have hcontents : markdownContents d = ("## Bundle contents" : JStr) :: hashLines d ++
      (["## Verifying this bundle", "", howToVerify, ""] : List JStr) := by
    simp only [markdownContents, hashLines, List.append_assoc, List.cons_append,
      List.nil_append]
  have hchain :
    markdownChain rt d = ("## Chain verification" : JStr) :: (markdownChain rt d).tail :=
    rfl
  have hredaction : markdownRedaction rt d =
      ("## Redaction" : JStr) :: (markdownRedaction rt d).tail := rfl
  unfold markdownReport
  rw [hhead, hcontents, hchain, hevents, hredaction]
  simp only [reportSections, List.flatMap_append, List.flatMap_cons, List.flatMap_nil,
    List.append_assoc, List.cons_append, List.append_nil, List.nil_append]

/-! ### Plain sections -/

/-- The heading of the verdict can start a line. -/
theorem front_verdictHeading (verdict : Verdict) : Front (verdictHeading verdict) := by
  have htext : Silent (JStr.ofString verdict.text) := by
    cases verdict <;> exact Spells.literal.silent (by decide)
  have hrest : Silent " — RootSign evidence bundle" := Spells.literal.silent (by decide)
  exact (front_marks.2.2.2.2.append htext).append hrest

/-- An empty text is plain. -/
theorem plainEnd_of_not_nonEmpty {text : JStr} (h : ¬ nonEmpty text = true) : PlainEnd text := by
  have hunits : text.units = [] := by simpa [nonEmpty] using h
  have hempty : text = blank := JStr.ext (hunits.trans rfl)
  rw [hempty]
  exact plainEnd_of_plainInside (Spells.literal.silent (by decide)).plainInside

/-- The lines below the verdict are plain exactly if the summary is. -/
theorem plainLines_verdict : PlainLines (verdictLines d) ↔ PlainEnd d.verification.summary := by
  have hsummary : PlainLines (if nonEmpty d.verification.summary then
      ["> " ++ d.verification.summary, blank] else []) ↔ PlainEnd d.verification.summary := by
    -- An empty summary has no line; being empty it is plain all the same.
    split_ifs with hempty
    · simp [plainLine_end front_marks.2.2.1]
    · simp [plainEnd_of_not_nonEmpty hempty]
  have hmissing : PlainLines (if nonEmpty (missingLabel d.verification) then
      ["Missing sequence numbers: **" ++ missingLabel d.verification ++ "**", blank] else []) := by
    have hfront : Front "Missing sequence numbers: **" :=
      ⟨Spells.literal.silent (by decide), rfl⟩
    split_ifs
    · simp [plainLine_between hfront back_marks.2.2, (silent_missingLabel _).plainInside]
    · exact plainLines_nil
  unfold verdictLines
  rw [plainLines_append, plainLines_append, hsummary]
  simp [hmissing, plainLine_verdictMeaning]

/-- The labels of the session's rows. -/
def identityLabels : List String :=
  ["Session", "Objective", "Status", "Started", "Ended", "Agent", "Source", "Generated",
    "Bundle format"]

/-- The rows of the session are plain exactly if their values are. -/
theorem plainLines_session : PlainLines (sessionLines rt d) ↔
    ∀ row ∈ identityRows rt d.manifest d.timeline, PlainEnd row.2 := by
  have hmarks : Front "- **" ∧ Silent ":** " :=
    ⟨⟨Spells.literal.silent (by decide), rfl⟩, Spells.literal.silent (by decide)⟩
  -- The labels are the renderer's own nine words.
  have hlabels : ∀ label ∈ identityLabels, Silent (JStr.ofString label) := by
    simp only [identityLabels, List.forall_mem_cons]
    refine ⟨?_, ?_, ?_, ?_, ?_, ?_, ?_, ?_, ?_, List.forall_mem_nil _⟩
    all_goals exact Spells.literal.silent (by decide)
  have hrows : ∀ row ∈ identityRows rt d.manifest d.timeline, row.1 ∈ identityLabels := by
    have hall : (identityRows rt d.manifest d.timeline).map Prod.fst = identityLabels := rfl
    exact fun row hrow => hall ▸ List.mem_map_of_mem hrow
  rw [sessionLines, plainLines_map]
  refine forall₂_congr fun row hrow => ?_
  exact plainLine_end ((hmarks.1.append (hlabels row.1 (hrows row hrow))).append hmarks.2)

/-- The row of a record, cell by cell. -/
theorem recordRow_eq (record : RecordEntry) :
    recordRow rt record = rowOf (recordTexts rt record) := by
  apply JStr.ext
  simp only [recordRow, recordTexts, code, rowOf, JStr.units_append, List.flatMap_cons,
    List.flatMap_nil, List.append_assoc, List.cons_append, List.append_nil]
  rfl

/-- The row of a field, cell by cell. -/
theorem fieldRow_eq (field : JStr × JStr) : fieldRow field = rowOf (fieldTexts field) := by
  apply JStr.ext
  simp only [fieldRow, fieldTexts, code, rowOf, JStr.units_append, List.flatMap_cons,
    List.flatMap_nil, List.append_assoc, List.cons_append, List.append_nil]
  rfl

/-- The row of a hash, cell by cell. -/
theorem hashRow_eq (p : String × JStr) :
    "| `" ++ JStr.ofString p.1 ++ "` | `" ++ p.2 ++ "` |" = rowOf (hashTexts p) := by
  apply JStr.ext
  simp only [hashTexts, code, rowOf, JStr.units_append, List.flatMap_cons, List.flatMap_nil,
    List.append_assoc, List.cons_append, List.append_nil]
  rfl

/-- The chain section is plain exactly if the rows of its records are. -/
theorem plainLines_chain : PlainLines (markdownChain rt d).tail ↔
    ∀ record ∈ d.verification.records, PlainLine (rowOf (recordTexts rt record)) := by
  have hcount : PlainLine (decimal d.verification.record_count ++
      " action record(s) checked against the frozen canonical hash (ADR-001, sha256).") := by
    rw [plainLine_end (front_decimal _)]
    exact plainEnd_of_plainInside (Spells.literal.silent (by decide)).plainInside
  have hheader : PlainLine "| # | Tool | Status | self_hash | prev_action_hash |" ∧
      PlainLine "| ---: | --- | --- | --- | --- |" :=
    ⟨Spells.literal.plainLine (by decide), Spells.literal.plainLine (by decide)⟩
  have hlines : (markdownChain rt d).tail = ([blank, decimal d.verification.record_count ++
      " action record(s) checked against the frozen canonical hash (ADR-001, sha256).", blank,
      "| # | Tool | Status | self_hash | prev_action_hash |",
      "| ---: | --- | --- | --- | --- |"] : List JStr) ++
      d.verification.records.map (recordRow rt) ++ [blank] := rfl
  rw [hlines]
  simp only [plainLines_cons, plainLines_append, plainLines_map, plainLine_blank, plainLines_nil,
    hcount, hheader, recordRow_eq, true_and, and_true]

/-- The lines before the events are plain exactly if the notes are. -/
theorem plainLines_notes :
    PlainLines (noteLines d) ↔ ∀ note ∈ previewNotes d.timeline.previews, PlainInside note := by
  have hnotes : ∀ (notes : List JStr) (n : ℕ), PlainLines ((notes.zipIdx n).flatMap fun p =>
      if p.2 = 0 then [("_" : JStr) ++ p.1 ++ "._", blank]
      else [("_" : JStr) ++ p.1 ++ "_", blank]) ↔ ∀ note ∈ notes, PlainInside note := by
    -- The full stop goes by the position, so the induction is for any position to start from.
    intro notes
    induction notes with
    | nil => exact fun _ => iff_of_true plainLines_nil (List.forall_mem_nil _)
    | cons note rest ih =>
      intro n
      rw [List.zipIdx_cons, List.flatMap_cons, plainLines_append, ih, List.forall_mem_cons]
      refine and_congr_left fun _ => ?_
      split_ifs
      · simp [plainLine_between front_marks.1 back_marks.2.1]
      · simp [plainLine_between front_marks.1 back_marks.1]
  have hlegend : PlainLine (JStr.ofString ("Every field recorded for each event, as stored. " ++
      "Field names match `timeline.json` so the two can be read side by side.")) :=
    Spells.decided (.append .literal .literal) (plainLine_fixed (by decide +kernel))
  unfold noteLines
  rw [plainLines_append, plainLines_append, hnotes]
  have hempty : PlainLine "" := plainLine_blank
  simpa [hempty] using fun _ => hlegend

/-- The heading of an event is plain exactly if its title is. -/
theorem plainLine_eventHeading {position : ℕ} {event : Dict} :
    PlainLine (eventHeading rt position event) ↔ PlainEnd (eventTitle rt event) := by
  have hmarks : Front "### " ∧ Silent ". " :=
    ⟨⟨Spells.literal.silent (by decide), rfl⟩, Spells.literal.silent (by decide)⟩
  exact plainLine_end ((hmarks.1.append (silent_decimal _)).append hmarks.2)

/-- The lines below an event's heading are plain exactly if its time and its rows are. -/
theorem plainLines_eventLines {event : Dict} : PlainLines (eventLines rt event) ↔
    PlainInside (orDash rt (event.get "timestamp")) ∧
      ∀ field ∈ eventFields rt event, PlainLine (rowOf (fieldTexts field)) := by
  have hnone : PlainLine "_no further fields recorded_" := Spells.literal.plainLine (by decide)
  have hheader : PlainLine "| Field | Value |" ∧ PlainLine "| --- | --- |" :=
    ⟨Spells.literal.plainLine (by decide), Spells.literal.plainLine (by decide)⟩
  have htable : PlainLines (if (eventFields rt event).isEmpty then
      (["_no further fields recorded_", blank] : List JStr)
      else (["| Field | Value |", "| --- | --- |"] : List JStr) ++
        (eventFields rt event).map fieldRow ++ [blank]) ↔
      ∀ field ∈ eventFields rt event, PlainLine (rowOf (fieldTexts field)) := by
    split_ifs with hempty
    · rw [List.isEmpty_iff.mp hempty]
      simp [hnone]
    · simp [hheader, fieldRow_eq]
  unfold eventLines
  rw [plainLines_append, htable]
  simp [plainLine_between front_marks.1 back_marks.1]

/-- The redaction section is plain exactly if the texts of its records are. -/
theorem plainLines_redaction : PlainLines (markdownRedaction rt d).tail ↔
    ∀ record ∈ d.redaction.records, PlainEnd (redactionText rt record) := by
  have hlast : PlainLines (if d.redaction.records.isEmpty then [] else [blank]) := by
    split_ifs <;> simp
  have hcount : PlainLine (decimal d.redaction.redacted_fields ++ " field(s) across " ++
      decimal d.redaction.actions_with_redactions ++ " action(s) were replaced with `" ++
        sentinel ++
      "` before storage.") := by
    have hacross : Silent " field(s) across " := Spells.literal.silent (by decide)
    have hfront : Front (decimal d.redaction.redacted_fields ++ " field(s) across " ++
        decimal d.redaction.actions_with_redactions) :=
      ((front_decimal _).append hacross).append (silent_decimal _)
    -- Behind the second count the line is a constant, sentinel included.
    have hrest : JStr.ofString " action(s) were replaced with `" ++ (sentinel ++
        JStr.ofString "` before storage.") = JStr.ofString (" action(s) were replaced with `" ++
          ("[REDACTED]" ++ "` before storage.")) := by
      rw [ofString_append, ofString_append]
      rfl
    rw [text_append_assoc, text_append_assoc, plainLine_end hfront, hrest]
    exact plainEnd_of_plainInside
      (Spells.decided (.append .literal (.append .literal .literal)) (by decide +kernel))
  have hrecord : ∀ record, PlainLine ("- #" ++ rt.pyStr record.sequence_number ++ ": " ++
      redactionPaths record) ↔ PlainEnd (redactionText rt record) := by
    intro record
    rw [text_append_assoc, text_append_assoc, plainLine_end front_marks.2.2.2.1, redactionText,
      text_append_assoc]
  have hlines : (markdownRedaction rt d).tail = ([blank,
      decimal d.redaction.redacted_fields ++ " field(s) across " ++
        decimal d.redaction.actions_with_redactions ++ " action(s) were replaced with `" ++
        sentinel ++ "` before storage.", blank] : List JStr) ++
      d.redaction.records.map (fun record =>
        "- #" ++ rt.pyStr record.sequence_number ++ ": " ++ redactionPaths record) ++
      (if d.redaction.records.isEmpty then [] else [blank]) ++
      ["_" ++ redactionProvenance ++ "_", blank] := rfl
  rw [hlines]
  simp only [plainLines_cons, plainLines_append, plainLines_map, plainLine_blank, plainLines_nil,
    hcount, hlast, hrecord, plainLine_redactionProvenance, true_and, and_true]

/-- The hashes are plain exactly if their rows are. -/
theorem plainLines_hashes : PlainLines (hashLines d) ↔
    ∀ p ∈ documentHashes d.manifest, PlainLine (rowOf (hashTexts p)) := by
  have hempty : PlainLine "" := plainLine_blank
  have hfirst : PlainLine
      "SHA-256 of each machine-readable document in this bundle, copied from `manifest.json`." :=
    Spells.literal.decided (plainLine_fixed (by decide +kernel))
  have hheader : PlainLine "| File | SHA-256 |" ∧ PlainLine "| --- | --- |" :=
    ⟨Spells.literal.plainLine (by decide), Spells.literal.plainLine (by decide)⟩
  have hlast : PlainLine
    (JStr.ofString ("_This report and `manifest.json` are hashed too, but a " ++
      "document cannot quote its own digest — those values are in `manifest.json`._")) :=
    Spells.decided (.append .literal .literal) (plainLine_fixed (by decide +kernel))
  unfold hashLines
  simp only [plainLines_append, plainLines_cons, plainLines_map, plainLines_nil, plainLine_blank,
    hempty, hheader, hashRow_eq, true_and, and_true]
  exact ⟨fun h => h.1.2, fun h => ⟨⟨hfirst, h⟩, hlast⟩⟩

/-- **The lines of the report** are plain exactly if what goes into them is. -/
theorem plainLines_report : PlainLines (markdownReport rt d) ↔
    PlainEnd d.verification.summary ∧
      (∀ row ∈ identityRows rt d.manifest d.timeline, PlainEnd row.2) ∧
      (∀ record ∈ d.verification.records, PlainLine (rowOf (recordTexts rt record))) ∧
      (∀ note ∈ previewNotes d.timeline.previews, PlainInside note) ∧
      (∀ event ∈ d.timeline.events, PlainEnd (eventTitle rt event) ∧
        PlainInside (orDash rt (event.get "timestamp")) ∧
        ∀ field ∈ eventFields rt event, PlainLine (rowOf (fieldTexts field))) ∧
      (∀ record ∈ d.redaction.records, PlainEnd (redactionText rt record)) ∧
      ∀ p ∈ documentHashes d.manifest, PlainLine (rowOf (hashTexts p)) := by
  -- The headings of the sections are constants.
  have htitles : PlainLine "## Session" ∧ PlainLine "## Chain verification" ∧
      PlainLine "## What happened" ∧ PlainLine "## Redaction" ∧ PlainLine "## Bundle contents" ∧
      PlainLine "## Verifying this bundle" ∧ PlainLine "" :=
    ⟨Spells.literal.plainLine (by decide), Spells.literal.plainLine (by decide),
      Spells.literal.plainLine (by decide), Spells.literal.plainLine (by decide),
      Spells.literal.plainLine (by decide), Spells.literal.plainLine (by decide),
      plainLine_blank⟩
  have hevents : ∀ (events : List Dict) (position : ℕ),
      PlainLines ((eventSections rt position events).flatMap fun s => s.1 :: s.2) ↔
        ∀ event ∈ events, PlainEnd (eventTitle rt event) ∧
          PlainInside (orDash rt (event.get "timestamp")) ∧
          ∀ field ∈ eventFields rt event, PlainLine (rowOf (fieldTexts field)) := by
    -- Only the number in an event's heading depends on its position.
    intro events
    induction events with
    | nil => exact fun _ => iff_of_true plainLines_nil (List.forall_mem_nil _)
    | cons event rest ih =>
      intro position
      have hsplit : eventSections rt position (event :: rest) =
          (eventHeading rt position event, eventLines rt event) ::
            eventSections rt (position + 1) rest := rfl
      rw [hsplit, List.flatMap_cons, plainLines_append, plainLines_cons, plainLine_eventHeading,
        plainLines_eventLines, ih, List.forall_mem_cons]
  rw [markdownReport_eq]
  simp only [reportSections, List.flatMap_append, List.flatMap_cons, List.flatMap_nil,
    plainLines_append, plainLines_cons, plainLines_nil, (front_verdictHeading _).toSilent.plainLine,
    plainLines_verdict, plainLine_blank, plainLines_session, htitles, plainLines_chain,
    plainLines_notes, hevents, plainLines_redaction, plainLines_hashes, plainLine_howToVerify,
    and_true, true_and, and_assoc]

/-! ### Headings -/

/-- No line of a list is read as a heading. -/
def HeadingFree (lines : List JStr) : Prop :=
  ∀ line ∈ lines, readsHeading (withoutReturn line) = false

/-- Lines one after the other are free of headings exactly if both parts are. -/
theorem headingFree_append {lines others : List JStr} :
    HeadingFree (lines ++ others) ↔ HeadingFree lines ∧ HeadingFree others :=
  List.forall_mem_append

/-- One line before the others. -/
theorem headingFree_cons {line : JStr} {lines : List JStr} :
    HeadingFree (line :: lines) ↔ readsHeading (withoutReturn line) = false ∧ HeadingFree lines :=
  List.forall_mem_cons

theorem headingFree_nil : HeadingFree [] := List.forall_mem_nil _

theorem notHeading_blank : readsHeading (withoutReturn blank) = false := rfl

/-- Lines that start as texts do. -/
theorem headingFree_of_startsText {lines : List JStr}
    (h : ∀ line ∈ lines, line = blank ∨ StartsText line) : HeadingFree lines := by
  intro line hline
  rcases h line hline with rfl | hstart
  · exact notHeading_blank
  · exact hstart.notHeading

/-- Below the verdict only the quoted summary can be read as a heading. -/
theorem headingFree_verdict : HeadingFree (verdictLines d) ↔
    readsHeading ("> " ++ withoutReturn d.verification.summary) = false := by
  have hquote : OneLine "> " := front_marks.2.2.1.oneLine
  have hsummary : HeadingFree (if nonEmpty d.verification.summary then
      ["> " ++ d.verification.summary, blank] else []) ↔
      readsHeading ("> " ++ withoutReturn d.verification.summary) = false := by
    split_ifs with hempty
    · rw [headingFree_cons, headingFree_cons, withoutReturn_append hquote]
      exact and_iff_left ⟨notHeading_blank, headingFree_nil⟩
    -- No line is written for an empty summary, and the empty quote is no heading either.
    · have hunits : d.verification.summary.units = [] := by simpa [nonEmpty] using hempty
      have hblank : d.verification.summary = blank := JStr.ext (hunits.trans rfl)
      rw [hblank]
      exact iff_of_true headingFree_nil rfl
  have hmissing : HeadingFree (if nonEmpty (missingLabel d.verification) then
      ["Missing sequence numbers: **" ++ missingLabel d.verification ++ "**", blank] else []) := by
    apply headingFree_of_startsText
    intro line hline
    split_ifs at hline
    · rcases List.mem_pair.mp hline with rfl | rfl
      · exact Or.inr rfl
      · exact Or.inl rfl
    · cases hline
  -- two stars are no bullet
  have hmeaning : readsHeading (withoutReturn
      ("**" ++ verdictMeaning d.verification.verdict ++ "**")) = false := by
    rw [text_append_assoc, withoutReturn_append front_marks.2.1.oneLine]
    generalize withoutReturn (verdictMeaning d.verification.verdict ++ "**") = rest
    rfl
  unfold verdictLines
  rw [headingFree_append, headingFree_append, hsummary, and_iff_left hmissing,
    and_iff_right]
  simp only [headingFree_cons]
  exact ⟨notHeading_blank, hmeaning, notHeading_blank, headingFree_nil⟩

/-- No row of the session is read as a heading. -/
theorem headingFree_session : HeadingFree (blank :: (sessionLines rt d ++ [blank])) := by
  have hdash : OneLine "- **" := (Spells.literal.silent (by decide)).oneLine
  have hrows : HeadingFree (sessionLines rt d) := by
    refine List.forall_mem_map.mpr fun row _ => ?_
    rw [text_append_assoc, text_append_assoc, withoutReturn_append hdash]
    -- behind the bullet, two stars are text
    rfl
  rw [headingFree_cons, headingFree_append, headingFree_cons]
  exact ⟨notHeading_blank, hrows, notHeading_blank, headingFree_nil⟩

/-- A line about counts is on one line. -/
theorem notHeading_count (n : ℕ) {rest : JStr} (hrest : rest.units.head? = some space)
    (hline : OneLine rest) : readsHeading (withoutReturn (decimal n ++ rest)) = false := by
  rw [withoutReturn_of_oneLine (oneLine_append.mpr ⟨oneLine_decimal _, hline⟩)]
  exact readsHeading_decimal n hrest

/-- No line of the chain section is read as a heading: its rows start with a pipe. -/
theorem headingFree_chain : HeadingFree (markdownChain rt d).tail := by
  have hlines : (markdownChain rt d).tail = ([blank, decimal d.verification.record_count ++
      " action record(s) checked against the frozen canonical hash (ADR-001, sha256).", blank,
      "| # | Tool | Status | self_hash | prev_action_hash |",
      "| ---: | --- | --- | --- | --- |"] : List JStr) ++
      d.verification.records.map (recordRow rt) ++ [blank] := rfl
  have hrows : HeadingFree (d.verification.records.map (recordRow rt)) :=
    List.forall_mem_map.mpr fun record _ => StartsText.notHeading rfl
  rw [hlines]
  simp only [headingFree_append, headingFree_cons]
  exact ⟨⟨⟨notHeading_blank, notHeading_count _ rfl (Spells.literal.silent (by decide)).oneLine,
    notHeading_blank,
    StartsText.notHeading rfl, StartsText.notHeading rfl, headingFree_nil⟩, hrows⟩,
    notHeading_blank, headingFree_nil⟩

/-- No note is read as a heading: each starts with an underscore. -/
theorem headingFree_notes : HeadingFree (noteLines d) := by
  have hnotes : HeadingFree ((previewNotes d.timeline.previews).zipIdx.flatMap fun p =>
      if p.2 = 0 then [("_" : JStr) ++ p.1 ++ "._", blank]
      else [("_" : JStr) ++ p.1 ++ "_", blank]) := by
    apply headingFree_of_startsText
    intro line hline
    obtain ⟨p, -, hline⟩ := List.mem_flatMap.mp hline
    split_ifs at hline
    all_goals
      rcases List.mem_pair.mp hline with rfl | rfl
      · exact Or.inr rfl
      · exact Or.inl rfl
  unfold noteLines
  simp only [headingFree_append, headingFree_cons]
  exact ⟨⟨⟨notHeading_blank, headingFree_nil⟩, hnotes⟩,
    StartsText.notHeading ((Spells.literal.append .literal).decided (by decide)),
    notHeading_blank, headingFree_nil⟩

/-- No line below an event's heading is read as one. -/
theorem headingFree_eventLines {event : Dict} : HeadingFree (eventLines rt event) := by
  have htable : HeadingFree (if (eventFields rt event).isEmpty then
      (["_no further fields recorded_", blank] : List JStr)
      else (["| Field | Value |", "| --- | --- |"] : List JStr) ++
        (eventFields rt event).map fieldRow ++ [blank]) := by
    have hrows : HeadingFree ((eventFields rt event).map fieldRow) :=
      List.forall_mem_map.mpr fun field _ => StartsText.notHeading rfl
    split_ifs
    · simp only [headingFree_cons]
      exact ⟨StartsText.notHeading rfl, notHeading_blank, headingFree_nil⟩
    · simp only [headingFree_append, headingFree_cons]
      exact ⟨⟨⟨StartsText.notHeading rfl, StartsText.notHeading rfl, headingFree_nil⟩, hrows⟩,
        notHeading_blank, headingFree_nil⟩
  unfold eventLines
  simp only [headingFree_append, headingFree_cons]
  exact ⟨⟨notHeading_blank, StartsText.notHeading rfl, notHeading_blank, headingFree_nil⟩, htable⟩

/-- In the redaction section only a sequence number can complete the mark of a heading. -/
theorem headingFree_redaction : HeadingFree (markdownRedaction rt d).tail ↔
    ∀ record ∈ d.redaction.records,
      readsHeading ("- #" ++ rt.pyStr record.sequence_number ++ ":") = false := by
  have hlines : (markdownRedaction rt d).tail = ([blank,
      decimal d.redaction.redacted_fields ++ " field(s) across " ++
        decimal d.redaction.actions_with_redactions ++ " action(s) were replaced with `" ++
        sentinel ++ "` before storage.", blank] : List JStr) ++
      d.redaction.records.map (fun record =>
        "- #" ++ rt.pyStr record.sequence_number ++ ": " ++ redactionPaths record) ++
      (if d.redaction.records.isEmpty then [] else [blank]) ++
      ["_" ++ redactionProvenance ++ "_", blank] := rfl
  have hcount : readsHeading (withoutReturn (decimal d.redaction.redacted_fields ++
      " field(s) across " ++ decimal d.redaction.actions_with_redactions ++
      " action(s) were replaced with `" ++ sentinel ++ "` before storage.")) = false := by
    simp only [text_append_assoc]
    apply notHeading_count _ rfl
    simp only [oneLine_append]
    exact ⟨(Spells.literal.silent (by decide)).oneLine, oneLine_decimal _,
      Spells.literal.decided (oneLine_ofChars (by decide)),
      (Spells.literal.silent (by decide)).oneLine,
      Spells.literal.decided (oneLine_ofChars (by decide))⟩
  have hlast : HeadingFree (if d.redaction.records.isEmpty then [] else [blank]) := by
    split_ifs
    · exact headingFree_nil
    · exact headingFree_cons.mpr ⟨notHeading_blank, headingFree_nil⟩
  have hrows : HeadingFree (d.redaction.records.map (fun record =>
      "- #" ++ rt.pyStr record.sequence_number ++ ": " ++ redactionPaths record)) ↔
      ∀ record ∈ d.redaction.records,
        readsHeading ("- #" ++ rt.pyStr record.sequence_number ++ ":") = false := by
    unfold HeadingFree
    rw [List.forall_mem_map]
    refine forall₂_congr fun record _ => ?_
    -- The line is `- #`, the number, a colon and some rest; a final return is part of that rest.
    obtain ⟨rest, hrest⟩ : ∃ rest, withoutReturn ("- #" ++ rt.pyStr record.sequence_number ++
        ": " ++ redactionPaths record) =
        "- #" ++ rt.pyStr record.sequence_number ++ (⟨colon :: rest⟩ : JStr) := by
      refine ⟨dropFinal carriageReturn (space :: (redactionPaths record).units), JStr.ext ?_⟩
      have hcolon : colon ≠ carriageReturn := by decide
      show dropFinal carriageReturn (_ ++ _ ++ (colon :: space :: []) ++ _) = _ ++ _ ++ _
      rw [List.append_assoc, dropFinal_append_of_ne (by simp), List.cons_append,
        dropFinal_cons hcolon]
      rfl
    rw [hrest]
    -- the line is read up to the colon
    show headingMark 1 ((rt.pyStr record.sequence_number).units ++ colon :: rest) = false ↔
      headingMark 1 ((rt.pyStr record.sequence_number).units ++ [colon]) = false
    rw [headingMark_colon]
  rw [hlines, headingFree_append, headingFree_append, headingFree_append, hrows,
    and_iff_left hlast, and_iff_left, and_iff_right]
  · simp only [headingFree_cons]
    exact ⟨notHeading_blank, hcount, notHeading_blank, headingFree_nil⟩
  · simp only [headingFree_cons]
    exact ⟨StartsText.notHeading rfl, notHeading_blank, headingFree_nil⟩

/-- No line about the hashes is read as a heading. -/
theorem headingFree_hashes : HeadingFree (hashLines d) := by
  have hrows : HeadingFree ((documentHashes d.manifest).map fun p =>
      "| `" ++ JStr.ofString p.1 ++ "` | `" ++ p.2 ++ "` |") :=
    List.forall_mem_map.mpr fun p _ => StartsText.notHeading rfl
  unfold hashLines
  simp only [headingFree_append, headingFree_cons]
  exact ⟨⟨⟨notHeading_blank, StartsText.notHeading (Spells.literal.decided (by decide)),
    notHeading_blank, StartsText.notHeading rfl, StartsText.notHeading rfl, headingFree_nil⟩,
    hrows⟩, notHeading_blank,
    StartsText.notHeading ((Spells.literal.append .literal).decided (by decide)),
    notHeading_blank, headingFree_nil⟩

/-- Nor is the last section's text. -/
theorem headingFree_verify : HeadingFree (["", howToVerify, ""] : List JStr) := by
  simp only [headingFree_cons]
  have hstart : StartsText howToVerify := Spells.decided (.append (.append (.append (.append
    (.append .literal .literal) .literal) .literal) .literal) .literal) (by decide)
  exact ⟨notHeading_blank, hstart.notHeading, notHeading_blank, headingFree_nil⟩

/-! ### The report as it is read -/

/-- Parts joined with an empty one behind them each end with the separator. -/
theorem joinUnits_concat (sep : List CodeUnit) (parts : List (List CodeUnit)) :
    joinUnits sep (parts ++ [[]]) = parts.flatMap (· ++ sep) := by
  induction parts with
  | nil => rfl
  | cons part rest ih =>
    have hne : rest ++ [[]] ≠ [] := List.append_ne_nil_of_right_ne_nil _ (List.cons_ne_nil _ _)
    rw [List.cons_append, joinUnits, ih, List.flatMap_cons]
    exact hne

/-- **The lines** are read as the renderer wrote them, but for carriage returns at their ends,
    exactly if each of them can end where it ends. -/
theorem lines_iff : reportLines rt d = (markdownReport rt d).map withoutReturn ↔
    ∀ line ∈ markdownReport rt d, EndsLine line := by
  -- The report ends with an empty line, so every line before it is closed by a line feed.
  obtain ⟨init, hinit⟩ : ∃ init, markdownReport rt d = init ++ [blank] := by
    obtain ⟨lines, hlines⟩ : ∃ lines, markdownContents d = lines ++ [blank] :=
      ⟨_, (List.append_assoc _ [_, _, _, _, _, _] _).symm⟩
    refine ⟨markdownHead rt d ++ markdownChain rt d ++ markdownEvents rt d ++
      markdownRedaction rt d ++ lines, ?_⟩
    unfold markdownReport
    rw [hlines, List.append_assoc _ lines]
  have hunits : (renderMarkdown rt d).units =
      (init.map JStr.units).flatMap (· ++ [lineFeed]) := by
    unfold renderMarkdown
    rw [hinit]
    show joinUnits _ ((init ++ [blank]).map JStr.units) = _
    rw [List.map_append]
    exact joinUnits_concat _ _
  have hread : reportLines rt d = (splitLines lineFeed carriageReturn false
      ((init.map JStr.units).flatMap (· ++ [lineFeed]))).map JStr.mk := by
    rw [reportLines, markdownLines, hunits]
  have hwritten : (init ++ [blank]).map withoutReturn =
      ((init.map JStr.units).map (dropFinal carriageReturn) ++ [[]]).map JStr.mk := by
    rw [List.map_append, List.map_append, List.map_map, List.map_map]
    rfl
  -- Texts with the same units are the same, so the lines may be compared unit by unit.
  have hinj : Function.Injective (List.map JStr.mk) :=
    List.map_injective_iff.mpr fun _ _ h => congrArg JStr.units h
  rw [hread, hinit, hwritten, hinj.eq_iff, splitLines_eq_iff (by decide), List.forall_mem_map,
    List.forall_mem_append]
  exact (and_iff_left (List.forall_mem_singleton.mpr plainLine_blank.endsLine)).symm

/-- The sections as they are read. -/
def readSections (rt : Runtime) (d : Documents) : List (JStr × List JStr) :=
  (reportSections rt d).map fun s => (withoutReturn s.1, s.2.map withoutReturn)

/-- The lines of the report, without their returns, are those of its sections. -/
theorem report_read : (markdownReport rt d).map withoutReturn =
    (readSections rt d).flatMap fun s => s.1 :: s.2 := by
  rw [markdownReport_eq, List.map_flatMap, readSections, List.flatMap_map]
  rfl

/-- A silent literal has no carriage return at its end. -/
theorem withoutReturn_literal {s : String} {cs : List Char} (h : Spells s cs)
    (hcs : cs.all silentChar = true) : withoutReturn (JStr.ofString s) = JStr.ofString s :=
  withoutReturn_of_oneLine (h.silent hcs).oneLine

/-- The heading of the verdict has no carriage return at its end. -/
theorem withoutReturn_verdict (verdict : Verdict) :
    withoutReturn (verdictHeading verdict) = verdictHeading verdict :=
  withoutReturn_of_oneLine (front_verdictHeading verdict).oneLine

/-- A return at the end of an event's heading is one at the end of its title. -/
theorem withoutReturn_eventHeading (position : ℕ) (event : Dict) :
    withoutReturn (eventHeading rt position event) =
      "### " ++ (decimal position ++ (". " ++ withoutReturn (eventTitle rt event))) := by
  have hmarks : Silent "### " ∧ Silent ". " :=
    ⟨Spells.literal.silent (by decide), Spells.literal.silent (by decide)⟩
  rw [eventHeading, text_append_assoc, text_append_assoc, withoutReturn_append hmarks.1.oneLine,
    withoutReturn_append (oneLine_decimal _), withoutReturn_append hmarks.2.oneLine]

/-- The sections before the first event, the events and the sections behind them. -/
theorem readSections_eq : readSections rt d =
    ([(verdictHeading d.verification.verdict, (verdictLines d).map withoutReturn),
      ("## Session", (blank :: (sessionLines rt d ++ [blank])).map withoutReturn),
      ("## Chain verification", (markdownChain rt d).tail.map withoutReturn),
      ("## What happened", (noteLines d).map withoutReturn)] : List (JStr × List JStr)) ++
    (eventSections rt 1 d.timeline.events).map (fun s =>
      (withoutReturn s.1, s.2.map withoutReturn)) ++
    ([("## Redaction", (markdownRedaction rt d).tail.map withoutReturn),
      ("## Bundle contents", (hashLines d).map withoutReturn),
      ("## Verifying this bundle", (["", howToVerify, ""] : List JStr).map withoutReturn)] :
      List (JStr × List JStr)) := by
  unfold readSections reportSections
  rw [List.map_append, List.map_append]
  simp only [List.map_cons, List.map_nil, withoutReturn_verdict]
  rw [withoutReturn_literal .literal (by decide), withoutReturn_literal .literal (by decide),
    withoutReturn_literal .literal (by decide), withoutReturn_literal .literal (by decide),
    withoutReturn_literal .literal (by decide), withoutReturn_literal .literal (by decide)]

/-- The titles of the sections are the headings of the renderer. -/
theorem titles_read : (readSections rt d).map Prod.fst = headings rt d := by
  rw [readSections_eq, List.map_append, List.map_append, eventSections, List.map_map,
    List.map_map]
  rfl

/-- Each title is read as a heading. -/
theorem marked_read : ∀ s ∈ readSections rt d, readsHeading s.1 = true := by
  rw [readSections_eq, List.forall_mem_append, List.forall_mem_append, List.forall_mem_map]
  simp only [List.forall_mem_cons]
  refine ⟨⟨⟨rfl, rfl, rfl, rfl, List.forall_mem_nil _⟩, fun s hs => ?_⟩, rfl, rfl, rfl,
    List.forall_mem_nil _⟩
  obtain ⟨p, -, rfl⟩ := List.mem_map.mp hs
  rw [withoutReturn_eventHeading]
  rfl

/-- Only the summary and the sequence numbers of redacted records can make a heading more. -/
theorem unmarked_iff : (∀ s ∈ readSections rt d, ∀ line ∈ s.2, readsHeading line = false) ↔
    readsHeading ("> " ++ withoutReturn d.verification.summary) = false ∧
      ∀ record ∈ d.redaction.records,
        readsHeading ("- #" ++ rt.pyStr record.sequence_number ++ ":") = false := by
  -- Whether a line is a heading is asked section by section, of the lines below each title.
  have hbodies : (∀ s ∈ readSections rt d, ∀ line ∈ s.2, readsHeading line = false) ↔
      ∀ s ∈ reportSections rt d, HeadingFree s.2 := by
    unfold readSections
    rw [List.forall_mem_map]
    exact forall₂_congr fun s _ => List.forall_mem_map
  rw [hbodies, reportSections, List.forall_mem_append, List.forall_mem_append]
  simp only [List.forall_mem_cons, headingFree_verdict, headingFree_redaction]
  have hevents : ∀ s ∈ eventSections rt 1 d.timeline.events, HeadingFree s.2 :=
    List.forall_mem_map.mpr fun p _ => headingFree_eventLines
  constructor
  · rintro ⟨⟨⟨hquoted, -⟩, -⟩, hnumbered, -⟩
    exact ⟨hquoted, hnumbered⟩
  · rintro ⟨hquoted, hnumbered⟩
    exact ⟨⟨⟨hquoted, headingFree_session, headingFree_chain, headingFree_notes,
      List.forall_mem_nil _⟩, hevents⟩, hnumbered, headingFree_hashes, headingFree_verify,
      List.forall_mem_nil _⟩

/-- **The headings** are the renderer's exactly if no other line is read as one. -/
theorem headings_iff (hlines : reportLines rt d = (markdownReport rt d).map withoutReturn) :
    (reportLines rt d).filter readsHeading = headings rt d ↔
      ∀ s ∈ readSections rt d, ∀ line ∈ s.2, readsHeading line = false := by
  rw [hlines, report_read, ← titles_read, filter_flatMap_iff marked_read]

/-! ### Tables -/

/-- A line is a row with or without a return at its end. -/
theorem hasMark_withoutReturn (line : JStr) :
    hasMark "|" (withoutReturn line) = hasMark "|" line := by
  have hreturn : ∀ x : JStr, hasMark "|" (x ++ (⟨[carriageReturn]⟩ : JStr)) = hasMark "|" x := by
    rintro ⟨units⟩
    cases units <;> rfl
  -- Only a final return is dropped, and it is not the first unit of a row.
  rcases dropFinal_cases carriageReturn line.units with hself | hcr
  · rw [show withoutReturn line = line from JStr.ext hself]
  · have hline : line = withoutReturn line ++ (⟨[carriageReturn]⟩ : JStr) := JStr.ext hcr
    conv_rhs => rw [hline]
    exact (hreturn _).symm

/-- The rows of a table are found with or without returns. -/
theorem bodyRows_map (lines : List JStr) :
    bodyRows (lines.map withoutReturn) = (bodyRows lines).map withoutReturn := by
  have hmark : hasMark "|" ∘ withoutReturn = hasMark "|" := funext hasMark_withoutReturn
  rw [bodyRows, bodyRows, List.filter_map, hmark, List.map_drop]

/-- A table's rows are those after its first two lines. -/
theorem bodyRows_eq {before header rows after : List JStr}
    (hbefore : ∀ line ∈ before, hasMark "|" line = false)
    (hheader : ∀ line ∈ header ++ rows, hasMark "|" line = true) (htwo : header.length = 2)
    (hafter : ∀ line ∈ after, hasMark "|" line = false) :
    bodyRows (before ++ (header ++ rows ++ after)) = rows := by
  have hnone : ∀ xs : List JStr, (∀ line ∈ xs, hasMark "|" line = false) →
      xs.filter (hasMark "|") = [] := fun xs h =>
    List.filter_eq_nil_iff.mpr fun line hline => by simp [h line hline]
  rw [bodyRows, List.filter_append, List.filter_append, hnone _ hbefore, hnone _ hafter,
    List.filter_eq_self.mpr hheader, List.append_nil, List.nil_append, ← htwo, List.drop_left]

/-- Rows are read as they are written. -/
theorem bodyRows_read {before header after : List JStr} {rows : List (List JStr)}
    (hbefore : ∀ line ∈ before, hasMark "|" line = false)
    (hheader : ∀ line ∈ header, hasMark "|" line = true) (htwo : header.length = 2)
    (hafter : ∀ line ∈ after, hasMark "|" line = false) :
    bodyRows ((before ++ (header ++ rows.map rowOf ++ after)).map withoutReturn) =
      rows.map rowOf := by
  have hrows : ∀ line ∈ rows.map rowOf, hasMark "|" line = true :=
    List.forall_mem_map.mpr fun _ _ => rfl
  -- Rows keep their text: each ends with a pipe.
  rw [bodyRows_map, bodyRows_eq hbefore (List.forall_mem_append.mpr ⟨hheader, hrows⟩) htwo hafter,
    List.map_map]
  exact List.map_congr_left fun parts _ => withoutReturn_rowOf parts

/-- Rows of as many texts have as many cells exactly if none of the texts has a bare pipe. -/
theorem cellCounts_iff {rows : List (List JStr)} {k : ℕ}
    (hlength : ∀ parts ∈ rows, parts.length = k) :
    cellCounts (rows.map rowOf) = List.replicate rows.length k ↔
      ∀ parts ∈ rows, ∀ t ∈ parts, NoBarePipe t := by
  rw [cellCounts, List.map_map, List.eq_replicate_iff, List.length_map, and_iff_right rfl,
    List.forall_mem_map]
  refine forall₂_congr fun parts hparts => ?_
  -- A row has a cell for each text and one more for each bare pipe in a text.
  rw [Function.comp_apply, cellCount_rowOf, hlength parts hparts, Nat.add_eq_left,
    List.sum_eq_zero_iff_forall_eq_nat, List.forall_mem_map]
  rfl

/-- The first section with a title is found under it. -/
theorem lookup_section {before after : List (JStr × List JStr)} {title : JStr} {body : List JStr}
    (h : ∀ s ∈ before, s.1 ≠ title) :
    (before ++ (title, body) :: after).lookup title = some body := by
  have hnone : before.lookup title = none := by
    rw [List.lookup_eq_none_iff]
    intro s hs
    rw [bne_iff_ne]
    exact (h s hs).symm
  rw [List.lookup_append, hnone, List.lookup_cons_self]
  rfl

/-- A title of the second level is none without its mark. -/
theorem ne_of_mark {a b : JStr} (ha : hasMark "## " a = false) (hb : hasMark "## " b = true) :
    a ≠ b := by
  rintro rfl
  rw [ha] at hb
  cases hb

/-- The chain section is found under its title. -/
theorem lookup_chain : (readSections rt d).lookup (JStr.ofString "## Chain verification") =
    some ((markdownChain rt d).tail.map withoutReturn) := by
  rw [readSections_eq, List.append_assoc]
  refine @lookup_section [_, _] (_ :: (_ ++ _)) _ _ ?_
  simp only [List.forall_mem_cons]
  exact ⟨ne_of_mark rfl rfl, by simp, List.forall_mem_nil _⟩

/-- The section on the bundle's documents is found under its title. -/
theorem lookup_contents : (readSections rt d).lookup (JStr.ofString "## Bundle contents") =
    some ((hashLines d).map withoutReturn) := by
  have hevents : ∀ s ∈ (eventSections rt 1 d.timeline.events).map (fun s =>
      (withoutReturn s.1, s.2.map withoutReturn)), s.1 ≠ "## Bundle contents" := by
    rw [List.forall_mem_map]
    intro s hs
    obtain ⟨p, -, rfl⟩ := List.mem_map.mp hs
    rw [withoutReturn_eventHeading]
    exact ne_of_mark rfl rfl
  rw [readSections_eq, List.append_cons]
  refine lookup_section ?_
  rw [List.forall_mem_append, List.forall_mem_append]
  simp only [List.forall_mem_cons]
  exact ⟨⟨⟨ne_of_mark rfl rfl, by simp, by simp, by simp, List.forall_mem_nil _⟩, hevents⟩,
    by simp, List.forall_mem_nil _⟩

/-- The rows of the chain section are those of the records; the line of the count is no row. -/
theorem bodyRows_chain : bodyRows ((markdownChain rt d).tail.map withoutReturn) =
    (d.verification.records.map (recordTexts rt)).map rowOf := by
  have hcount := (front_decimal d.verification.record_count).notRow
    " action record(s) checked against the frozen canonical hash (ADR-001, sha256)."
  have hlines : (markdownChain rt d).tail = [blank, decimal d.verification.record_count ++
      " action record(s) checked against the frozen canonical hash (ADR-001, sha256).", blank] ++
      ((["| # | Tool | Status | self_hash | prev_action_hash |",
      "| ---: | --- | --- | --- | --- |"] : List JStr) ++
      (d.verification.records.map (recordTexts rt)).map rowOf ++ [blank]) := by
    rw [List.map_map, show rowOf ∘ recordTexts rt = recordRow rt from
      funext fun record => (recordRow_eq record).symm]
    rfl
  rw [hlines]
  apply bodyRows_read
  · simp only [List.forall_mem_cons]
    exact ⟨rfl, hcount, rfl, List.forall_mem_nil _⟩
  · simp only [List.forall_mem_cons]
    exact ⟨rfl, rfl, List.forall_mem_nil _⟩
  · rfl
  · exact List.forall_mem_singleton.mpr rfl

/-- The rows of the hashes are read as they are written. -/
theorem bodyRows_hashes : bodyRows ((hashLines d).map withoutReturn) =
    ((documentHashes d.manifest).map hashTexts).map rowOf := by
  -- the table between the renderer's own paragraphs
  have hlines : hashLines d = (["",
      "SHA-256 of each machine-readable document in this bundle, copied from `manifest.json`.",
      ""] : List JStr) ++ ((["| File | SHA-256 |", "| --- | --- |"] : List JStr) ++
      ((documentHashes d.manifest).map hashTexts).map rowOf ++
      ([blank, JStr.ofString
        ("_This report and `manifest.json` are hashed too, but a document cannot " ++
        "quote its own digest — those values are in `manifest.json`._"), ""] : List JStr)) := by
    rw [List.map_map, show rowOf ∘ hashTexts = fun p : String × JStr =>
      "| `" ++ JStr.ofString p.1 ++ "` | `" ++ p.2 ++ "` |" from
        funext fun p => (hashRow_eq p).symm]
    simp only [hashLines, List.cons_append, List.nil_append]
  -- the last paragraph is no row of a table
  have hlast : hasMark "|" (JStr.ofString
      ("_This report and `manifest.json` are hashed too, but a document cannot quote its own " ++
        "digest — those values are in `manifest.json`._")) = false := by
    rw [ofString_append]
    rfl
  rw [hlines]
  apply bodyRows_read
  · simp only [List.forall_mem_cons]
    exact ⟨rfl, rfl, rfl, List.forall_mem_nil _⟩
  · simp only [List.forall_mem_cons]
    exact ⟨rfl, rfl, List.forall_mem_nil _⟩
  · rfl
  · simp only [List.forall_mem_cons]
    exact ⟨rfl, hlast, rfl, List.forall_mem_nil _⟩

/-- The rows of an event are those of its fields. -/
theorem bodyRows_event {event : Dict} : bodyRows ((eventLines rt event).map withoutReturn) =
    ((eventFields rt event).map fieldTexts).map rowOf := by
  have hfront : ∀ line ∈ [blank, "_" ++ orDash rt (event.get "timestamp") ++ "_", blank],
      hasMark "|" line = false := by
    simp only [List.forall_mem_cons]
    exact ⟨rfl, rfl, rfl, List.forall_mem_nil _⟩
  have hrows : ((eventFields rt event).map fieldTexts).map rowOf =
      (eventFields rt event).map fieldRow := by
    rw [List.map_map]
    exact List.map_congr_left fun field _ => (fieldRow_eq field).symm
  unfold eventLines
  -- Without fields there is no table, hence no row to read.
  split_ifs with hempty
  · rw [List.isEmpty_iff.mp hempty, bodyRows_map]
    have hnone : ∀ line ∈ ([blank, "_" ++ orDash rt (event.get "timestamp") ++ "_", blank] ++
        (["_no further fields recorded_", blank] : List JStr)), hasMark "|" line = false := by
      rw [List.forall_mem_append]
      simp only [List.forall_mem_cons]
      exact ⟨⟨rfl, rfl, rfl, List.forall_mem_nil _⟩, rfl, rfl, List.forall_mem_nil _⟩
    rw [bodyRows, List.filter_eq_nil_iff.mpr fun line hline => by simp [hnone line hline]]
    rfl
  · rw [← hrows]
    apply bodyRows_read hfront
    · simp only [List.forall_mem_cons]
      exact ⟨rfl, rfl, List.forall_mem_nil _⟩
    · rfl
    · exact List.forall_mem_singleton.mpr rfl

/-- The events are read as their sections. -/
theorem sections_events : (readSections rt d).filter (fun s => hasMark "### " s.1) =
    (eventSections rt 1 d.timeline.events).map fun s =>
      (withoutReturn s.1, s.2.map withoutReturn) := by
  have hevents : ∀ s ∈ (eventSections rt 1 d.timeline.events).map (fun s =>
      (withoutReturn s.1, s.2.map withoutReturn)), hasMark "### " s.1 = true := by
    rw [List.forall_mem_map]
    intro s hs
    obtain ⟨p, -, rfl⟩ := List.mem_map.mp hs
    rw [withoutReturn_eventHeading]
    rfl
  rw [readSections_eq, List.filter_append, List.filter_append, List.filter_eq_self.mpr hevents]
  exact List.append_nil _

/-! ### The report -/

/-- The rows of the report, where its headings are the renderer's. -/
theorem tables_read (hlines : reportLines rt d = (markdownReport rt d).map withoutReturn)
    (hheadings : (reportLines rt d).filter readsHeading = headings rt d) :
    sectionRows "## Chain verification" (reportLines rt d) =
        (d.verification.records.map (recordTexts rt)).map rowOf ∧
      eventRows (reportLines rt d) =
        d.timeline.events.map (fun event => ((eventFields rt event).map fieldTexts).map rowOf) ∧
      sectionRows "## Bundle contents" (reportLines rt d) =
        ((documentHashes d.manifest).map hashTexts).map rowOf := by
  -- With the headings as they are, the lines divide into the sections they were written in.
  have hsections : sectionsOf readsHeading (reportLines rt d) = readSections rt d := by
    rw [hlines, report_read]
    have hunmarked := (headings_iff hlines).mp hheadings
    exact @sectionsOf_flatMap _ _ [] _ (List.forall_mem_nil _) fun s hs =>
      ⟨marked_read s hs, hunmarked s hs⟩
  refine ⟨?_, ?_, ?_⟩
  · rw [sectionRows, hsections, lookup_chain, Option.getD_some, bodyRows_chain]
  · have hfst : (d.timeline.events.zipIdx 1).map Prod.fst = d.timeline.events :=
      List.zipIdx_map_fst 1 _
    rw [eventRows, hsections, sections_events, List.map_map, eventSections, List.map_map]
    conv_rhs => rw [← hfst, List.map_map]
    exact List.map_congr_left fun p _ => bodyRows_event
  · rw [sectionRows, hsections, lookup_contents, Option.getD_some, bodyRows_hashes]

/-- The rows of a sound report have as many cells as texts exactly if no text has a bare pipe. -/
theorem cells_iff :
    (cellCounts ((d.verification.records.map (recordTexts rt)).map rowOf) =
        List.replicate d.verification.records.length 5 ↔
      ∀ record ∈ d.verification.records, ∀ t ∈ recordTexts rt record, NoBarePipe t) ∧
    ((d.timeline.events.map fun event => ((eventFields rt event).map fieldTexts).map rowOf).map
        cellCounts = d.timeline.events.map (fun event =>
          List.replicate (eventFields rt event).length 2) ↔
      ∀ event ∈ d.timeline.events, ∀ field ∈ eventFields rt event, ∀ t ∈ fieldTexts field,
        NoBarePipe t) ∧
    (cellCounts (((documentHashes d.manifest).map hashTexts).map rowOf) =
        List.replicate (documentHashes d.manifest).length 2 ↔
      ∀ p ∈ documentHashes d.manifest, ∀ t ∈ hashTexts p, NoBarePipe t) := by
  have hrows : ∀ {α : Type} (xs : List α) (f : α → List JStr) (k : ℕ), (∀ x, (f x).length = k) →
      (cellCounts ((xs.map f).map rowOf) = List.replicate xs.length k ↔
        ∀ x ∈ xs, ∀ t ∈ f x, NoBarePipe t) := by
    intro α xs f k hk
    have h := @cellCounts_iff (xs.map f) k (List.forall_mem_map.mpr fun x _ => hk x)
    rwa [List.length_map, List.forall_mem_map] at h
  refine ⟨hrows _ _ 5 fun _ => rfl, ?_, hrows _ _ 2 fun _ => rfl⟩
  rw [List.map_map, List.map_inj_left]
  exact forall₂_congr fun event _ => hrows (eventFields rt event) fieldTexts 2 fun _ => rfl

/-- The evidence of a sound report is plain. -/
theorem plainEvidence_of_sound (h : MarkdownSound rt d) : PlainEvidence rt d := by
  obtain ⟨hrecords, hevents, hcontents⟩ := tables_read h.lines h.headings
  have hbareRecords := h.records
  rw [hrecords, cells_iff.1] at hbareRecords
  have hbareEvents := h.events
  rw [hevents, cells_iff.2.1] at hbareEvents
  have hbareHashes := h.contents
  rw [hcontents, (@cells_iff rt d).2.2] at hbareHashes
  obtain ⟨hquoted, hnumbered⟩ := unmarked_iff.mp ((headings_iff h.lines).mp h.headings)
  have hplain : PlainLines (markdownReport rt d) := by
    intro line hline
    refine ⟨lines_iff.mp h.lines line hline, h.html _ ?_⟩
    rw [h.lines]
    exact List.mem_map_of_mem hline
  obtain ⟨hsummary, hidentity, hrows, hnotes, hblocks, hredaction, hhashes⟩ :=
    plainLines_report.mp hplain
  -- with no bare pipe in them, the texts of a plain row are plain
  have hcells : ∀ {parts : List JStr}, PlainLine (rowOf parts) → (∀ t ∈ parts, NoBarePipe t) →
      ∀ t ∈ parts, PlainCell t :=
    fun hrow hbare t ht => ⟨(plainLine_row hbare).mp hrow t ht, hbare t ht⟩
  have hfields : ∀ field, (∀ t ∈ fieldTexts field, PlainCell t) →
      PlainCell (code field.1) ∧ PlainInside (escapePipes field.2) := fun field h =>
    ⟨h _ List.mem_cons_self, (h _ (List.mem_cons_of_mem _ List.mem_cons_self)).toPlainInside⟩
  exact ⟨hsummary, hquoted, hidentity,
    fun record hr => hcells (hrows record hr) (hbareRecords record hr), hnotes,
    fun event he => (hblocks event he).1, fun event he => (hblocks event he).2.1,
    fun event he field hf => hfields field (hcells ((hblocks event he).2.2 field hf)
      (hbareEvents event he field hf)), hredaction, hnumbered,
    fun p hp => hcells (hhashes p hp) (hbareHashes p hp)⟩

end

/-! ### A tool name with a pipe -/

/-- An action of a tool with a pipe in its name. -/
def pipedRecord : RecordEntry where
  sequence_number := .int 1
  action_id := .null
  timestamp := .null
  tool_name := .str "a|b"
  prev_action_hash := .null
  self_hash := .str "h"
  chain_status := .verified

/-- Documents with that record. -/
def pipedDocuments : Documents where
  manifest := ⟨"2026-05-01T12:00:00+00:00", "rootsign 0.3.0", "s", [], "jsonl",
    "s.jsonl", .VALID, []⟩
  verification :=
    { verdict := .VALID
      valid := true
      summary := ""
      record_count := 1
      first_invalid_sequence := .null
      missing_ranges := []
      error := none
      records := [pipedRecord]
      replay := none }
  timeline := ⟨[], ⟨true, none, [], 0⟩, []⟩
  redaction := ⟨0, 0, []⟩

end RootSign
