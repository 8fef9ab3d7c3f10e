import RootSign.Lib.Markup
import RootSign.MarkdownReport

namespace RootSign

open RootSign.Python RootSign.Lib

/-!
# The HTML report and its evidence

`report.html` read as a browser's tokenizer reads it: the content of elements, tags, and quoted
attributes.

* `Escaped` — a text without angle brackets and quotes, whose ampersands each start an escape;
* `Contained` — what comes from the documents stands escaped in the content of an element or in a
  double-quoted attribute;
* `SameStructure` — two sets of documents have the same parts, verdict and statuses;
* `html_independent` — the evidence is contained, and does not reach the markup.
-/

/-! ### Reading HTML -/

def quotationMark : CodeUnit := ⟨0x22, by decide⟩

def apostrophe : CodeUnit := ⟨0x27, by decide⟩

def ampersand : CodeUnit := ⟨0x26, by decide⟩

def htmlMarks : Marks CodeUnit := ⟨lessThan, greaterThan, quotationMark, apostrophe⟩

/-- The tags of a page, with their attributes, in order. -/
def htmlTags (page : JStr) : List (List CodeUnit) := (Scan.start.run htmlMarks page.units).tags

/-- The escapes of `html.escape`. -/
def entities : List String := ["&amp;", "&lt;", "&gt;", "&quot;", "&#x27;"]

/-- Every ampersand starts an escape. -/
def AmpersandsEscaped : List CodeUnit → Prop
  | [] => True
  | u :: rest => (u = ampersand → ∃ e ∈ entities, lit e <+: u :: rest) ∧ AmpersandsEscaped rest

/-- The text has no angle bracket and no quote, and its ampersands each start an escape. -/
structure Escaped (text : List CodeUnit) : Prop where
  marks : ∀ mark ∈ [lessThan, greaterThan, quotationMark, apostrophe], mark ∉ text
  ampersands : AmpersandsEscaped text

/-- The part comes from the documents. -/
def HtmlPiece.ofEvidence : HtmlPiece → Bool
  | .markup _ => false
  | _ => true

/-- The part, as the library sees it. -/
def HtmlPiece.part (piece : HtmlPiece) : Lib.Part CodeUnit where
  filling := match piece with
    | .markup _ => .fixed
    | .number _ => .content
    | .value _ => .content
    | .attribute _ => .quoted
  text := piece.units

/-- The parts of a page. -/
def htmlPieces (rt : Runtime) (d : Documents) : List HtmlPiece :=
  (htmlReport rt d).flatMap fun line => line ++ [.markup "\n"]

/-- What comes from the documents is escaped, and stands in the content of an element or in a
    double-quoted attribute. -/
structure Contained (rt : Runtime) (d : Documents) : Prop where
  page : (renderHtml rt d).units = (htmlPieces rt d).flatMap HtmlPiece.units
  place : ∀ before piece after, htmlPieces rt d = before ++ piece :: after →
    piece.ofEvidence = true →
      Escaped piece.units ∧
        (Scan.start.run htmlMarks (before.flatMap HtmlPiece.units)).place ∈
          [Place.content, Place.quoted]

/-- Whether an event has a headline, and how many fields. -/
def eventShape (rt : Runtime) (event : Dict) : Bool × ℕ :=
  (nonEmpty (eventSummary rt event), (eventFields rt event).length)

/-- The documents have the same parts, the same verdict and the same statuses. -/
structure SameStructure (rt : Runtime) (d d' : Documents) : Prop where
  verdict : d.verification.verdict = d'.verification.verdict
  summary : nonEmpty d.verification.summary = nonEmpty d'.verification.summary
  missing : nonEmpty (missingLabel d.verification) = nonEmpty (missingLabel d'.verification)
  statuses : d.verification.records.map (·.chain_status) =
    d'.verification.records.map (·.chain_status)
  notes : (previewNotes d.timeline.previews).length = (previewNotes d'.timeline.previews).length
  events : d.timeline.events.map (eventShape rt) = d'.timeline.events.map (eventShape rt)
  redactions : d.redaction.records.length = d'.redaction.records.length
  hashes : (documentHashes d.manifest).length = (documentHashes d'.manifest).length

/-! ### Escaping -/

section

variable {text rest : List CodeUnit} {u : CodeUnit}

/-- The units of the escapes, after the ampersand. -/
def entityTails : List (List CodeUnit) := ["amp;", "lt;", "gt;", "quot;", "#x27;"].map lit

/-- Every entity is an ampersand and its tail. -/
theorem entities_units : entities.map lit = entityTails.map (ampersand :: ·) := by decide

/-- An escape is an ampersand and a tail without marks. -/
theorem entity_cases {e : String} (he : e ∈ entities) : ∃ tail ∈ entityTails,
    lit e = ampersand :: tail := by
  have hmem : lit e ∈ entityTails.map (ampersand :: ·) := by
    rw [← entities_units]
    exact List.mem_map_of_mem he
  obtain ⟨tail, htail, heq⟩ := List.mem_map.mp hmem
  exact ⟨tail, htail, heq.symm⟩

/-- No mark stands in the tail of an escape. -/
theorem mark_not_mem_tail : ∀ tail ∈ entityTails,
    ∀ mark ∈ [lessThan, greaterThan, quotationMark, apostrophe, ampersand], mark ∉ tail := by
  have hmarks : ∀ tail ∈ entityTails, (tail.all fun u =>
      u ∉ [lessThan, greaterThan, quotationMark, apostrophe, ampersand]) = true := by
    decide
  intro tail htail mark hmark hmem
  exact of_decide_eq_true (List.all_eq_true.mp (hmarks tail htail) mark hmem) hmark

/-- The escape of a unit is the unit itself, or one of the escapes. -/
theorem escapeHtml_cases (u : CodeUnit) : (∃ e ∈ entities, escapeHtml u = lit e) ∨
    escapeHtml u = [u] ∧ u ∉ [lessThan, greaterThan, quotationMark, apostrophe, ampersand] := by
  unfold escapeHtml
  split_ifs with hamp hlt hgt hquote hapos
  · exact .inl ⟨_, by decide, rfl⟩
  · exact .inl ⟨_, by decide, rfl⟩
  · exact .inl ⟨_, by decide, rfl⟩
  · exact .inl ⟨_, by decide, rfl⟩
  · exact .inl ⟨_, by decide, rfl⟩
  -- None of the five tests held, so the unit is none of the five marks.
  · refine .inr ⟨rfl, fun hmem => ?_⟩
    simp only [List.mem_cons, List.not_mem_nil, or_false] at hmem
    rcases hmem with rfl | rfl | rfl | rfl | rfl
    · exact hlt rfl
    · exact hgt rfl
    · exact hquote rfl
    · exact hapos rfl
    · exact hamp rfl

/-- A text without ampersands may stand before an escaped one. -/
theorem ampersandsEscaped_append (hnone : ampersand ∉ text) (h : AmpersandsEscaped rest) :
    AmpersandsEscaped (text ++ rest) := by
  induction text with
  | nil => exact h
  | cons u text ih =>
    rw [List.mem_cons, not_or] at hnone
    exact ⟨fun hu => absurd hu.symm hnone.1, ih hnone.2⟩

/-- Escaped texts may follow each other. -/
theorem ampersandsEscaped_escapeHtml (h : AmpersandsEscaped rest) :
    AmpersandsEscaped (escapeHtml u ++ rest) := by
  rcases escapeHtml_cases u with ⟨e, he, hescape⟩ | ⟨hescape, hu⟩
  · obtain ⟨tail, htail, hunits⟩ := entity_cases he
    rw [hescape, hunits]
    refine ⟨fun _ => ⟨e, he, ?_⟩, ?_⟩
    · rw [hunits]
      exact List.prefix_append _ _
    · exact ampersandsEscaped_append (mark_not_mem_tail tail htail _ (by decide)) h
  · rw [hescape]
    refine ampersandsEscaped_append ?_ h
    rw [List.mem_singleton]
    rintro rfl
    exact hu (by decide)

/-- **Escaping leaves no mark**, and no ampersand but those of the escapes. -/
theorem escaped_escapeHtml (text : List CodeUnit) : Escaped (text.flatMap escapeHtml) := by
  constructor
  · intro mark hmark hmem
    obtain ⟨u, -, hu⟩ := List.mem_flatMap.mp hmem
    have hmarks : mark ∈ [lessThan, greaterThan, quotationMark, apostrophe, ampersand] :=
      List.mem_append_left [ampersand] hmark
    rcases escapeHtml_cases u with ⟨e, he, hescape⟩ | ⟨hescape, hplain⟩
    · obtain ⟨tail, htail, hunits⟩ := entity_cases he
      rw [hescape, hunits] at hu
      rcases List.mem_cons.mp hu with rfl | hu
      -- The ampersand itself is none of the four marks; the rest is the tail.
      · exact absurd hmark (by decide)
      · exact mark_not_mem_tail tail htail mark hmarks hu
    · rw [hescape, List.mem_singleton] at hu
      subst hu
      exact hplain hmarks
  · induction text with
    | nil => exact trivial
    | cons u rest ih =>
      rw [List.flatMap_cons]
      exact ampersandsEscaped_escapeHtml ih

/-- The characters of a number are digits and a sign. -/
theorem decimal_range (n : ℤ) :
    ∀ u ∈ (decimal n).units, u.val = 0x2D ∨ 48 ≤ u.val ∧ u.val ≤ 57 := by
  intro u hu
  obtain ⟨c, hc, hu⟩ := List.mem_flatMap.mp hu
  have hchar : c = '-' ∨ c.isDigit = true := by
    unfold intText at hc
    split_ifs at hc
    · rcases List.mem_cons.mp hc with hc | hc
      · exact .inl hc
      · exact .inr (isDigit_of_mem_toDigits c hc)
    · exact .inr (isDigit_of_mem_toDigits c hc)
  have hrange : c.toNat = 0x2D ∨ 48 ≤ c.toNat ∧ c.toNat ≤ 57 := by
    rcases hchar with rfl | hdigit
    · exact .inl rfl
    · rw [Char.isDigit, Bool.and_eq_true, decide_eq_true_eq, decide_eq_true_eq] at hdigit
      exact .inr hdigit
  unfold JStr.encodeChar at hu
  split at hu
  · obtain rfl := List.mem_singleton.mp hu
    exact hrange
  · omega

/-- A number is escaped as it stands. -/
theorem escaped_decimal (n : ℤ) : Escaped (decimal n).units := by
  constructor
  · intro mark hmark hmem
    have hrange := decimal_range n mark hmem
    simp only [List.mem_cons, List.not_mem_nil, or_false] at hmark
    rcases hmark with rfl | rfl | rfl | rfl
    all_goals exact absurd hrange (by decide)
  · have hrange := decimal_range n
    -- The statement is about any list of digits and signs, so the number is forgotten here.
    generalize (decimal n).units = units at hrange ⊢
    induction units with
    | nil => exact trivial
    | cons u rest ih =>
      rw [List.forall_mem_cons] at hrange
      refine ⟨fun hu => ?_, ih hrange.2⟩
      rw [hu] at hrange
      exact absurd hrange.1 (by decide)

/-- What comes from the documents is escaped. -/
theorem escaped_piece {piece : HtmlPiece} (h : piece.ofEvidence = true) : Escaped piece.units := by
  rcases piece with text | n | text | text
  · cases h
  · exact escaped_decimal n
  · exact escaped_escapeHtml text.units
  · exact escaped_escapeHtml text.units

end

/-! ### Places -/

section

variable {p q : Place} {line rest : List HtmlPiece} {lines others : List (List HtmlPiece)}
  {text : JStr} {n : ℤ}

/-- The marks, as characters. -/
def charMarks : Marks Char := ⟨'<', '>', '"', '\''⟩

/-- Reading the encoding of a character moves as reading the character does. -/
theorem next_encodeChar (c : Char) :
    p.after htmlMarks (JStr.encodeChar c) = p.next charMarks c := by
  have hmark : ∀ (mark : CodeUnit) (d : Char), mark.val = d.toNat →
      ∀ h : c.toNat < 0x10000, (⟨c.toNat, h⟩ : CodeUnit) = mark ↔ c = d := by
    intro mark d hval h
    rw [Fin.ext_iff, hval]
    exact Char.toNat_inj
  have hrange := JStr.toNat_range c
  unfold JStr.encodeChar
  split_ifs with hc
  -- Below 0x10000 the character is its own unit, and a mark exactly when it is one of the four.
  · show p.next htmlMarks _ = _
    have hlt := hmark lessThan '<' rfl hc
    have hgt := hmark greaterThan '>' rfl hc
    have hquote := hmark quotationMark '"' rfl hc
    have hapos := hmark apostrophe '\'' rfl hc
    cases p
    · exact if_congr hlt rfl rfl
    · exact if_congr hgt rfl (if_congr hquote rfl (if_congr hapos rfl rfl))
    · exact if_congr hquote rfl rfl
    · exact if_congr hapos rfl rfl
  · -- a pair of surrogates has no mark
    have hsurrogate : ∀ v : ℕ, 0xD800 ≤ v ∧ v < 0xE000 → ∀ p : Place,
        p.next htmlMarks (Fin.ofNat 0x10000 v) = p := by
      intro v hv p
      have hne : ∀ mark : CodeUnit, mark.val < 0xD800 → Fin.ofNat 0x10000 v ≠ mark := by
        rintro mark hmark rfl
        rw [Fin.val_ofNat] at hmark
        omega
      cases p <;>
        simp only [Place.next, htmlMarks, hne lessThan (by decide), hne greaterThan (by decide),
          hne quotationMark (by decide), hne apostrophe (by decide), if_false]
    have hplain : ∀ d : Char, d.toNat < 0x10000 → c ≠ d := by
      rintro d hd rfl
      exact hc hd
    show Place.next htmlMarks (Place.next htmlMarks p _) _ = _
    rw [hsurrogate _ (by omega), hsurrogate _ (by omega)]
    cases p <;>
      simp only [Place.next, charMarks, hplain '<' (by decide), hplain '>' (by decide),
        hplain '"' (by decide), hplain '\'' (by decide), if_false]

/-- A literal is read character by character. -/
theorem after_lit {s : String} : p.after htmlMarks (lit s) = p.after charMarks s.toList := by
  rw [lit, JStr.ofString]
  unfold JStr.ofChars
  induction s.toList generalizing p with
  | nil => rfl
  | cons c cs ih =>
    rw [List.flatMap_cons, after_append, next_encodeChar, ih]
    rfl

/-- A literal that leads from a place to a place. -/
def Leads (p : Place) (s : String) (q : Place) : Prop := p.after charMarks s.toList = q

/-- Where a literal leads is computed on its characters. -/
theorem leads {cs : List Char} (h : p.after charMarks cs = q) : Leads p (String.ofList cs) q := by
  rw [Leads, String.toList_ofList]
  exact h

/-- Two literals in turn, the first of which comes back to the content. -/
theorem leads_append {s t : String} (hs : Leads .content s .content) (ht : Leads .content t q) :
    Leads .content (s ++ t) q := by
  rw [Leads, String.toList_append, after_append, hs]
  exact ht

/-- A literal between two parts of the content. -/
@[simp] theorem after_content_lit {s : String} (h : Leads .content s .content) :
    Place.content.after htmlMarks (lit s) = .content := after_lit.trans h

/-- A literal that ends within an attribute. -/
theorem after_quoted_lit {s : String} (h : Leads .content s .quoted) :
    Place.content.after htmlMarks (lit s) = .quoted := after_lit.trans h

/-- A literal that leaves an attribute. -/
theorem after_quoted_content {s : String} (h : Leads .quoted s .content) :
    Place.quoted.after htmlMarks (lit s) = .content := after_lit.trans h

/-- An escaped text opens no tag. -/
theorem opens_not_mem {text : List CodeUnit} (h : Escaped text) : htmlMarks.opens ∉ text :=
  h.marks lessThan (by decide)

/-- An escaped text closes no attribute. -/
theorem quote_not_mem {text : List CodeUnit} (h : Escaped text) : htmlMarks.quote ∉ text :=
  h.marks quotationMark (by decide)

/-- The line leads from a place to the content of an element, and its parts stand where they may. -/
def LinePlaced (p : Place) (line : List HtmlPiece) : Prop :=
  Placed htmlMarks p (line.map HtmlPiece.part) .content

@[simp] theorem linePlaced_nil : LinePlaced p [] ↔ p = .content := Iff.rfl

@[simp] theorem linePlaced_markup {t : String} :
    LinePlaced p (.markup t :: line) ↔ LinePlaced (p.after htmlMarks (lit t)) line :=
  and_iff_right ⟨nofun, nofun⟩

/-- A piece with no bracket in it stands in the content of an element. -/
theorem linePlaced_content {piece : HtmlPiece} (hfilling : piece.part.filling = .content)
    (hopens : htmlMarks.opens ∉ piece.units) :
    LinePlaced p (piece :: line) ↔ p = .content ∧ LinePlaced .content line := by
  have hafter : Place.content.after htmlMarks piece.part.text = .content := after_content hopens
  constructor
  · rintro ⟨hfits, hline⟩
    obtain ⟨rfl, -⟩ := hfits.1 hfilling
    rw [hafter] at hline
    exact ⟨rfl, hline⟩
  · rintro ⟨rfl, hline⟩
    refine ⟨⟨fun _ => ⟨rfl, hopens⟩, fun hquoted => ?_⟩, ?_⟩
    · rw [hfilling] at hquoted
      cases hquoted
    · rw [hafter]
      exact hline

@[simp] theorem linePlaced_value :
    LinePlaced p (.value text :: line) ↔ p = .content ∧ LinePlaced .content line :=
  linePlaced_content rfl (opens_not_mem (escaped_escapeHtml text.units))

@[simp] theorem linePlaced_number :
    LinePlaced p (.number n :: line) ↔ p = .content ∧ LinePlaced .content line :=
  linePlaced_content rfl (opens_not_mem (escaped_decimal n))

@[simp] theorem linePlaced_attribute :
    LinePlaced p (.attribute text :: line) ↔ p = .quoted ∧ LinePlaced .quoted line := by
  have hquote := quote_not_mem (escaped_escapeHtml text.units)
  constructor
  · rintro ⟨hfits, hline⟩
    obtain ⟨rfl, -⟩ := Part.fits_quoted.mp hfits
    rw [HtmlPiece.part, HtmlPiece.units, after_quoted hquote] at hline
    exact ⟨rfl, hline⟩
  · rintro ⟨rfl, hline⟩
    refine ⟨Part.fits_quoted.mpr ⟨rfl, hquote⟩, ?_⟩
    rw [HtmlPiece.part, HtmlPiece.units, after_quoted hquote]
    exact hline

/-- The units of two literals, one behind the other. -/
theorem lit_append (s t : String) : lit (s ++ t) = lit s ++ lit t := by
  rw [lit, ofString_append, JStr.units_append]
  rfl

variable {rt : Runtime} {d : Documents}

/-- Every line of a page is placed. -/
def LinesPlaced (lines : List (List HtmlPiece)) : Prop := ∀ line ∈ lines, LinePlaced .content line

@[simp] theorem linesPlaced_nil : LinesPlaced [] := List.forall_mem_nil _

@[simp] theorem linesPlaced_cons :
    LinesPlaced (line :: lines) ↔ LinePlaced .content line ∧ LinesPlaced lines :=
  List.forall_mem_cons

@[simp] theorem linesPlaced_append :
    LinesPlaced (lines ++ others) ↔ LinesPlaced lines ∧ LinesPlaced others := List.forall_mem_append

@[simp] theorem linesPlaced_map {β : Type} {f : β → List HtmlPiece} {xs : List β} :
    LinesPlaced (xs.map f) ↔ ∀ x ∈ xs, LinePlaced .content (f x) := List.forall_mem_map

/-- The status of a record is the only evidence in an attribute. -/
theorem linePlaced_record (record : RecordEntry) : LinePlaced .content (htmlRecord rt record) := by
  have hstatus : Leads .content "</td><td class=\"status-" .quoted := leads (by decide)
  have hclose : Leads .quoted "\">" .content := leads (by decide)
  simp (disch := (apply leads; decide)) [htmlRecord, after_quoted_lit hstatus,
    after_quoted_content hclose]

/-- The section on the chain puts its values between tags. -/
theorem linesPlaced_chain : LinesPlaced (htmlChain rt d) := by
  simp (disch := (apply leads; decide)) [htmlChain, linePlaced_record]

/-- The block of one event puts its values between tags. -/
theorem linesPlaced_event {position : ℕ} {event : Dict} :
    LinesPlaced (htmlEvent rt position event) := by
  unfold htmlEvent
  dsimp only
  split_ifs <;> simp (disch := (apply leads; decide))

/-- The events one after the other, each in its block. -/
theorem linesPlaced_eventList {position : ℕ} {events : List Dict} :
    LinesPlaced (htmlEventList rt position events) := by
  induction events generalizing position with
  | nil => exact linesPlaced_nil
  | cons event rest ih => exact linesPlaced_append.mpr ⟨linesPlaced_event, ih⟩

/-- The section on the events puts its notes and its blocks between tags. -/
theorem linesPlaced_events : LinesPlaced (htmlEvents rt d) := by
  unfold htmlEvents
  simp (disch := (apply leads; decide)) only [linesPlaced_append, linesPlaced_cons, linesPlaced_nil,
    linesPlaced_map, linesPlaced_eventList, linePlaced_markup, linePlaced_value, linePlaced_nil,
    lit_append, after_append, after_content_lit, implies_true, and_true]

/-- The section on redaction puts its paths between tags. -/
theorem linesPlaced_redaction : LinesPlaced (htmlRedaction rt d) := by
  unfold htmlRedaction
  split_ifs <;> simp (disch := (apply leads; decide))

/-- The section on the bundle's documents is placed. -/
theorem linesPlaced_contents : LinesPlaced (htmlContents d) := by
  unfold htmlContents
  simp (disch := (apply leads; decide)) only [linesPlaced_append, linesPlaced_cons, linesPlaced_nil,
    linesPlaced_map, linePlaced_markup, linePlaced_value, linePlaced_nil,
    lit_append, after_append, after_content_lit, implies_true, and_true]

/-- The style sheet opens no tag. -/
theorem leads_reportStyle : Leads .content reportStyle .content := by
  -- The sheet is put together from pieces, each of which stays within the content.
  unfold reportStyle
  repeat refine leads_append ?_ (leads (by decide))
  exact leads (by decide)

/-- The head is placed; its verdict stands within an attribute. -/
theorem linesPlaced_head : LinesPlaced (htmlHead rt d) := by
  have hopen : Leads .content "<div class=\"verdict " .quoted := leads (by decide)
  have hclose : Leads .quoted "\">" .content := leads (by decide)
  -- The class of the verdict is one of three words of the renderer, none with a quote.
  have hlower : Place.quoted.after htmlMarks (lit d.verification.verdict.lower) = .quoted := by
    refine after_quoted ?_
    cases d.verification.verdict <;> exact by decide
  have hclass : ((Place.content.after htmlMarks (lit "<div class=\"verdict ")).after htmlMarks
      (lit d.verification.verdict.lower)).after htmlMarks (lit "\">") = .content := by
    rw [after_quoted_lit hopen, hlower, after_quoted_content hclose]
  have hstyle : Place.content.after htmlMarks (lit reportStyle) = .content :=
    after_content_lit leads_reportStyle
  unfold htmlHead
  simp (disch := (apply leads; decide)) only [linesPlaced_append, linesPlaced_cons, linesPlaced_nil,
    linesPlaced_map, linePlaced_markup, linePlaced_value, linePlaced_nil, after_content_lit, hclass,
    hstyle, implies_true, and_true, true_and]
  split_ifs <;> simp (disch := (apply leads; decide))

/-- **Every value of the report** stands between tags or inside a quoted attribute. -/
theorem linesPlaced_report : LinesPlaced (htmlReport rt d) := by
  simp only [htmlReport, linesPlaced_append, linesPlaced_head, linesPlaced_chain,
    linesPlaced_events, linesPlaced_redaction, linesPlaced_contents, and_self]

/-- Every part of a page stands where it may. -/
theorem placed_page :
    Placed htmlMarks .content ((htmlPieces rt d).map HtmlPiece.part) .content := by
  unfold htmlPieces
  rw [List.map_flatMap]
  refine placed_flatMap fun line hline => ?_
  rw [List.map_append]
  refine placed_append (linesPlaced_report line hline) ?_
  show LinePlaced .content [.markup "\n"]
  simp (disch := (apply leads; decide))

/-- The units of a page are those of its parts. -/
theorem renderHtml_units : (renderHtml rt d).units = (htmlPieces rt d).flatMap HtmlPiece.units := by
  rw [htmlPieces, List.flatMap_assoc]
  refine List.flatMap_congr fun line _ => ?_
  rw [List.flatMap_append]
  rfl

/-- **The evidence is contained.** -/
theorem contained (rt : Runtime) (d : Documents) : Contained rt d := by
  refine ⟨renderHtml_units, fun before piece after hsplit hpiece => ⟨escaped_piece hpiece, ?_⟩⟩
  have hplaced : Placed htmlMarks .content ((htmlPieces rt d).map HtmlPiece.part) .content :=
    placed_page
  -- The parts before `piece` lead to a place where it fits; which place that is depends on what it
  -- fills.
  rw [hsplit, List.map_append, List.map_cons] at hplaced
  obtain ⟨hcontent, hquoted⟩ := hplaced.fits
  rw [run_place]
  have hunits :
    (before.map HtmlPiece.part).flatMap Lib.Part.text = before.flatMap HtmlPiece.units :=
    List.flatMap_map HtmlPiece.part Lib.Part.text before
  rw [hunits] at hcontent hquoted
  rcases piece with text | n | text | text
  · cases hpiece
  · rw [Scan.start, (hcontent rfl).1]
    decide
  · rw [Scan.start, (hcontent rfl).1]
    decide
  · rw [Scan.start, (hquoted rfl).1]
    decide

end

/-! ### The frame of a page -/

/-- The part is not filled into the content of an element. -/
def HtmlPiece.framing : HtmlPiece → Bool
  | .markup _ => true
  | .attribute _ => true
  | _ => false

/-- The lines without what is filled into the content of elements. -/
def frame (lines : List (List HtmlPiece)) : List (List HtmlPiece) :=
  lines.map (·.filter HtmlPiece.framing)

section

variable {rt : Runtime} {d d' : Documents} {line : List HtmlPiece}
  {lines others : List (List HtmlPiece)} {text : JStr} {n : ℤ} {t : String}

@[simp] theorem frame_nil : frame [] = [] := rfl

@[simp] theorem frame_cons :
    frame (line :: lines) = line.filter HtmlPiece.framing :: frame lines := rfl

@[simp] theorem frame_append : frame (lines ++ others) = frame lines ++ frame others :=
  List.map_append

@[simp] theorem frame_map {β : Type} {f : β → List HtmlPiece} {xs : List β} :
    frame (xs.map f) = xs.map fun x => (f x).filter HtmlPiece.framing := List.map_map

@[simp] theorem filter_markup : (HtmlPiece.markup t :: line).filter HtmlPiece.framing =
    .markup t :: line.filter HtmlPiece.framing := rfl

@[simp] theorem filter_attribute : (HtmlPiece.attribute text :: line).filter HtmlPiece.framing =
    .attribute text :: line.filter HtmlPiece.framing := rfl

@[simp] theorem filter_value : (HtmlPiece.value text :: line).filter HtmlPiece.framing =
    line.filter HtmlPiece.framing := rfl

@[simp] theorem filter_number : (HtmlPiece.number n :: line).filter HtmlPiece.framing =
    line.filter HtmlPiece.framing := rfl

@[simp] theorem frame_ite {c : Prop} [Decidable c] :
    frame (if c then lines else others) = if c then frame lines else frame others :=
  apply_ite frame c lines others

/-- Rows with one frame. -/
theorem map_const_congr {β γ : Type} {xs ys : List β} {c : γ} (h : xs.length = ys.length) :
    xs.map (fun _ => c) = ys.map fun _ => c := by
  rw [List.map_const', List.map_const', h]

/-- The frame of the head is the verdict's, with the lines for a summary and for missing records if
    there are any. -/
theorem frame_head (h : SameStructure rt d d') :
    frame (htmlHead rt d) = frame (htmlHead rt d') := by
  unfold htmlHead
  simp only [frame_append, frame_cons, frame_nil, frame_map, frame_ite, filter_markup, filter_value,
    List.filter_nil, h.verdict, h.summary, h.missing]
  rfl

/-- The chain section has one row for each status. -/
theorem frame_chain (h : SameStructure rt d d') :
    frame (htmlChain rt d) = frame (htmlChain rt d') := by
  have hrows : (d.verification.records.map fun record =>
        (htmlRecord rt record).filter HtmlPiece.framing) =
      d'.verification.records.map fun record =>
        (htmlRecord rt record).filter HtmlPiece.framing := by
    -- the frame of a row is that of its status
    have hrow : (fun record => (htmlRecord rt record).filter HtmlPiece.framing) =
        (fun status : RecordStatus => [HtmlPiece.markup "<tr><td>", .markup "</td><td>",
          .markup "</td><td class=\"status-", .attribute status.text, .markup "\">",
          .markup "</td><td class=\"hash\">", .markup "</td><td class=\"hash\">",
          .markup "</td></tr>"]) ∘ (·.chain_status) := rfl
    rw [hrow, ← List.map_map, h.statuses, List.map_map]
  unfold htmlChain
  simp only [frame_append, frame_cons, frame_nil, frame_map, filter_markup, filter_value,
    filter_number, List.filter_nil, hrows]

/-- Events of one shape have one frame, at any position. -/
theorem frame_event {position position' : ℕ} {event event' : Dict}
    (h : eventShape rt event = eventShape rt event') :
    frame (htmlEvent rt position event) = frame (htmlEvent rt position' event') := by
  have hheadline : nonEmpty (eventSummary rt event) = nonEmpty (eventSummary rt event') :=
    -- The shape says whether there is a headline and how many rows the table has; the frame of a
    -- row is always the same.
    congrArg Prod.fst h
  have hlength : (eventFields rt event).length = (eventFields rt event').length :=
    congrArg Prod.snd h
  have hempty : (eventFields rt event).isEmpty = (eventFields rt event').isEmpty := by
    rw [Bool.eq_iff_iff, List.isEmpty_iff_length_eq_zero, List.isEmpty_iff_length_eq_zero, hlength]
  unfold htmlEvent
  simp only [frame_append, frame_cons, frame_nil, frame_map, frame_ite, filter_markup, filter_value,
    filter_number, List.filter_nil, hheadline, hempty, map_const_congr hlength]

/-- Event lists of one shape have one frame. -/
theorem frame_eventList {position position' : ℕ} {events events' : List Dict}
    (h : events.map (eventShape rt) = events'.map (eventShape rt)) :
    frame (htmlEventList rt position events) = frame (htmlEventList rt position' events') := by
  induction events generalizing position position' events' with
  | nil =>
    -- The positions are numbers in the content, so they may differ as the induction goes on.
    obtain rfl := List.map_eq_nil_iff.mp h.symm
    rfl
  | cons event rest ih =>
    cases events' with
    | nil => cases h
    | cons event' rest' =>
      obtain ⟨hevent, hrest⟩ := List.cons.inj h
      rw [htmlEventList, htmlEventList, frame_append, frame_append, frame_event hevent, ih hrest]

/-- The section on the events has one frame for both bundles. -/
theorem frame_events (h : SameStructure rt d d') :
    frame (htmlEvents rt d) = frame (htmlEvents rt d') := by
  have hlist : frame (htmlEventList rt 1 d.timeline.events) =
      frame (htmlEventList rt 1 d'.timeline.events) := frame_eventList h.events
  unfold htmlEvents
  simp only [frame_append, frame_cons, frame_nil, frame_map, filter_markup, filter_value,
    List.filter_nil, hlist, map_const_congr h.notes]

/-- The section on redaction has one frame for both bundles. -/
theorem frame_redaction (h : SameStructure rt d d') :
    frame (htmlRedaction rt d) = frame (htmlRedaction rt d') := by
  have hempty : d.redaction.records.isEmpty = d'.redaction.records.isEmpty := by
    rw [Bool.eq_iff_iff, List.isEmpty_iff_length_eq_zero, List.isEmpty_iff_length_eq_zero,
      h.redactions]
  unfold htmlRedaction
  simp only [frame_append, frame_cons, frame_nil, frame_map, frame_ite, filter_markup, filter_value,
    filter_number, List.filter_nil, hempty, map_const_congr h.redactions]

/-- The section on the documents has one frame for both bundles. -/
theorem frame_contents (h : SameStructure rt d d') :
    frame (htmlContents d) = frame (htmlContents d') := by
  unfold htmlContents
  simp only [frame_append, frame_cons, frame_nil, frame_map, filter_markup, filter_value,
    List.filter_nil, map_const_congr h.hashes]

/-- Documents of one structure have one frame. -/
theorem frame_report (h : SameStructure rt d d') :
    frame (htmlReport rt d) = frame (htmlReport rt d') := by
  unfold htmlReport
  rw [frame_append, frame_append, frame_append, frame_append, frame_head h, frame_chain h,
    frame_events h, frame_redaction h, frame_contents h]
  simp only [frame_append]

/-- The parts that frame the evidence. -/
theorem filter_pieces (rt : Runtime) (d : Documents) : (htmlPieces rt d).filter HtmlPiece.framing =
    (frame (htmlReport rt d)).flatMap (· ++ [.markup "\n"]) := by
  rw [htmlPieces, frame, List.flatMap_map, List.filter_flatMap]
  refine List.flatMap_congr fun line _ => ?_
  rw [List.filter_append]
  rfl

/-- The skeleton of the parts keeps those that frame the evidence. -/
theorem skeleton_pieces (pieces : List HtmlPiece) : skeleton (pieces.map HtmlPiece.part) =
    (pieces.filter HtmlPiece.framing).map HtmlPiece.part := by
  rw [skeleton, List.filter_map]
  refine congrArg _ (List.filter_congr fun piece _ => ?_)
  rcases piece with text | n | text | text <;> rfl

/-- The tags of a page are those of its frame. -/
theorem htmlTags_eq (rt : Runtime) (d : Documents) : htmlTags (renderHtml rt d) =
    (Scan.start.run htmlMarks
      (((htmlPieces rt d).filter HtmlPiece.framing).flatMap HtmlPiece.units)).tags := by
  have hplaced : Placed htmlMarks .content ((htmlPieces rt d).map HtmlPiece.part) .content :=
    placed_page
  have hread := run_parts (s := Scan.start) hplaced
  -- Content that opens no tag may be dropped from the parts without a change of the tags read.
  rw [skeleton_pieces, List.flatMap_map, List.flatMap_map] at hread
  rw [htmlTags, renderHtml_units]
  exact congrArg Scan.tags hread

end

/-- **The markup is independent of the evidence.**  What a report takes from its documents stands
    escaped in the content of an element or in a double-quoted attribute, and reports of one
    structure have the same tags and attributes. -/
theorem html_independent (rt : Runtime) (d d' : Documents) : Contained rt d ∧
    (SameStructure rt d d' → htmlTags (renderHtml rt d) = htmlTags (renderHtml rt d')) := by
  refine ⟨contained rt d, fun h => ?_⟩
  -- Tags are read off the frame alone, and the frames of the two pages agree.
  rw [htmlTags_eq, htmlTags_eq, filter_pieces, filter_pieces, frame_report h]

/-- A record, an event and a redacted path, all with the given text in them. -/
def documentsWith (text : JStr) : Documents :=
  { pipedDocuments with
    verification := { pipedDocuments.verification with
      verdict := .TAMPERED
      summary := text
      error := some text
      records := [{ pipedRecord with tool_name := .str text, chain_status := .failed }] }
    timeline := { pipedDocuments.timeline with
      events := [Dict.ofFields
        [("type", .str "ACTION_RECORD"), ("timestamp", .str text), ("tool_name", .str text),
         ("authorization_status", .str text)]] }
    redaction := ⟨1, 1, [⟨.int 1, .str text, [text], []⟩]⟩ }

/-- A text that would open a tag, close an attribute and start an entity. -/
theorem html_independent_script :
    htmlTags (renderHtml exampleRuntime (documentsWith "send_email")) =
      htmlTags (renderHtml exampleRuntime (documentsWith "<script x='\"'>&lt;</script>")) :=
  (html_independent exampleRuntime (documentsWith "send_email")
    (documentsWith "<script x='\"'>&lt;</script>")).2
    { verdict := rfl
      summary := by decide
      missing := by decide
      statuses := rfl
      notes := by decide
      events := by decide +kernel
      redactions := rfl
      hashes := rfl }

end RootSign
