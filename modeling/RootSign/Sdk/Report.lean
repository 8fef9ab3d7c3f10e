import RootSign.Sdk.Bundle

namespace RootSign

open RootSign.Python

/-!
# The reports (`rootsign/sdk/report.py`)

Markdown and HTML renderings of a bundle's documents.  A Markdown report is a list of lines.  An
HTML report is a list of lines of pieces, which say of every text whether it goes in as it is or
escaped.

* `eventSummary`, `eventFields`, … — the facts both renderers show;
* `markdownReport`, `renderMarkdown` — `report.md`;
* `htmlReport`, `renderHtml` — `report.html`;
* `attachReports` — the bundle with both.
-/

/-! ### Shared shaping -/

/-- `sep.join(parts)`. -/
def joinText (sep : JStr) (parts : List JStr) : JStr := ⟨joinUnits sep.units (parts.map JStr.units)⟩

/-- The digits of a number in a text. -/
def decimal (n : ℤ) : JStr := JStr.ofChars (intText n)

/-- The text is not empty. -/
def nonEmpty (t : JStr) : Bool := !t.units.isEmpty

/-- The documents a renderer is given. -/
structure Documents where
  manifest : Manifest
  verification : Verification
  timeline : Timeline
  redaction : RedactionDocument

/-- `_VERDICT_MEANING`. -/
def verdictMeaning : Verdict → JStr
  | .VALID => "Every record verifies. The chain is intact and complete."
  | .TAMPERED => "A record was altered after it was written. Treat this log as compromised."
  | .INCOMPLETE =>
    JStr.ofString ("Records are missing. The records present verify cleanly — the gap is proven " ++
      "by the chain itself, not inferred.")

/-- `_HOW_TO_VERIFY`. -/
def howToVerify : JStr :=
  JStr.ofString
    ("This bundle is self-describing: `manifest.json` lists a SHA-256 for every other " ++
    "file. Re-hashing those files proves the bundle is internally consistent, which is " ++
    "not the same as proving it is the bundle that was generated — anyone who edits a " ++
    "file can also edit the manifest. The real check is comparing the hash of " ++
    "`manifest.json` itself against the value recorded out of band when the bundle was " ++
    "exported. `rootsign export --check <dir>` does both and prints that hash.")

section

variable (rt : Runtime)

/-- `_or_dash`. -/
def orDash (v : Json) : JStr :=
  if Json.isNone v || v.pyEq (.str "") then "—" else rt.pyStr v

/-- `_agent_label`. -/
def agentLabel (agent : Dict) : JStr :=
  if (agent.get "name").truthy then
    rt.pyStr (agent.get "name") ++ " (" ++ rt.pyStr (agent.getD "agent_id" (.str "")) ++ ")" ++
      (if (agent.get "owner").truthy then (", owned by " : JStr) ++ rt.pyStr (agent.get "owner")
        else "") ++
      (if (agent.get "risk_tier").truthy then
        (", risk tier " : JStr) ++ rt.pyStr (agent.get "risk_tier") else "")
  else if (agent.get "agent_id").truthy then
    rt.pyStr (agent.get "agent_id") ++ " — identity details not recorded in this source"
  else "not recorded in this source"

/-- `_identity_rows`. -/
def identityRows (manifest : Manifest) (timeline : Timeline) : List (String × JStr) :=
  [("Session", manifest.session_id),
   ("Objective", orDash rt (timeline.session.get "objective")),
   ("Status", orDash rt (timeline.session.get "status")),
   ("Started", orDash rt (timeline.session.get "start_time")),
   ("Ended", orDash rt (timeline.session.get "end_time")),
   ("Agent", agentLabel rt manifest.agent),
   ("Source", JStr.ofString manifest.backend ++ " (" ++ manifest.location ++ ")"),
   ("Generated", manifest.generated_at ++ " by " ++ manifest.generator),
   ("Bundle format", "1.0")]

/-- `_range_label`. -/
def rangeLabel (first last : Json) : JStr :=
  if Json.isNone first then ""
  else if first.pyEq last then " (sequence " ++ rt.pyStr first ++ ")"
  else " (sequence " ++ rt.pyStr first ++ "-" ++ rt.pyStr last ++ ")"

/-- `_event_summary`: one line about an event, whatever its kind. -/
def eventSummary (event : Dict) : JStr :=
  let text := fun key => rt.pyStr (event.getD key (.str "?"))
  let kind := event.get "type"
  if kind.pyEq (.str "SESSION_OPEN") then orDash rt (event.get "objective")
  else if kind.pyEq (.str "SESSION_CLOSE") then "status: " ++ orDash rt (event.get "status")
  else if kind.pyEq (.str "DECISION") then
    joinText "; "
      (["selected " ++ text "selected_action"] ++
        (if Json.isNone (event.get "confidence") then []
          else ["confidence " ++ rt.pyStr (event.get "confidence")]) ++
        (if (event.get "reasoning_summary").truthy then
          [rt.pyStr (event.get "reasoning_summary")] else []))
  else if kind.pyEq (.str "ACTION") then
    joinText " — "
      (([text "tool_name" ++ " (#" ++ text "sequence_number" ++ ")",
         rt.pyStr (event.getD "authorization_status" (.str ""))] ++
        (if Json.isNone (event.get "duration_ms") then []
          else [rt.pyStr (event.get "duration_ms") ++ "ms"])).filter nonEmpty)
  else if kind.pyEq (.str "APPROVAL") then
    joinText " — "
      ([text "decision" ++ " by " ++ text "approver_id" ++ " (" ++ text "approver_type" ++ ")"] ++
        (if (event.get "decision_reason").truthy then [rt.pyStr (event.get "decision_reason")]
          else []))
  else if kind.pyEq (.str "RECORD_LOSS") then
    text "lost_count" ++ " record(s) never written" ++
      rangeLabel rt (event.get "first_sequence") (event.get "last_sequence")
  else ""

/-- `_field_text`: structures become compact JSON. -/
def fieldText : Json → JStr
  | .null => "—"
  | .arr items => ⟨sortedDumps (.arr items)⟩
  | .obj fields => ⟨sortedDumps (.obj fields)⟩
  | v => rt.pyStr v

/-- `_event_fields`: every field but the two of the header. -/
def eventFields (event : Dict) : List (JStr × JStr) :=
  (event.filter fun p => !(p.1 == JStr.ofString "type" || p.1 == JStr.ofString "timestamp")).map
    fun p => (p.1, fieldText rt p.2)

end

/-- `_document_hashes`: those of the JSON documents, in reading order. -/
def documentHashes (manifest : Manifest) : List (String × JStr) :=
  ["verification.json", "timeline.json", "redaction.json"].filterMap fun name =>
    (manifest.files.lookup name).map fun digest => (name, digest)

/-- `_withheld_note`. -/
def withheldNote (previews : Previews) : JStr :=
  if previews.withheld_fields.isEmpty then ""
  else
    "Withheld from " ++ decimal previews.withheld_from_events ++ " event(s): " ++
      joinText ", " (previews.withheld_fields.map JStr.ofString) ++ ". " ++
      "Ask the exporter for an unredacted bundle if you need them."

/-- `_missing_label`. -/
def missingLabel (verification : Verification) : JStr :=
  joinText ", " (verification.missing_ranges.map fun r =>
    if r.1 = r.2 then decimal r.1 else decimal r.1 ++ "-" ++ decimal r.2)

/-- The notes on previews: what was withheld, and from where. -/
def previewNotes (previews : Previews) : List JStr :=
  match previews.included, previews.note with
  | false, some note =>
    if nonEmpty note then
      note :: (if nonEmpty (withheldNote previews) then [withheldNote previews] else [])
    else []
  | _, _ => []

/-- The redacted paths of a record. -/
def redactionPaths (record : RedactionEntry) : JStr :=
  joinText ", " (record.input_paths ++ record.output_paths)

/-! ### Markdown -/

/-- An empty line. -/
def blank : JStr := ""

/-- `value.replace("|", "\\|")`. -/
def escapePipes (value : JStr) : JStr :=
  ⟨value.units.flatMap fun u => if u.val = 0x7C then lit "\\|" else [u]⟩

section

variable (rt : Runtime)

/-- A row of the chain table. -/
def recordRow (record : RecordEntry) : JStr :=
  "| " ++ rt.pyStr record.sequence_number ++ " | " ++ rt.pyStr record.tool_name ++ " | " ++
    JStr.ofString record.chain_status.text ++ " | `" ++ rt.pyStr record.self_hash ++ "` | `" ++
    rt.pyStr (orValue record.prev_action_hash (.str "—")) ++ "` |"

/-- A row of an event's table. -/
def fieldRow (field : JStr × JStr) : JStr :=
  "| `" ++ field.1 ++ "` | " ++ escapePipes field.2 ++ " |"

/-- The block of an event, at its position. -/
def eventBlock (position : ℕ) (event : Dict) : List JStr :=
  let headline := eventSummary rt event
  let fields := eventFields rt event
  ["### " ++ decimal position ++ ". " ++ rt.pyStr (event.getD "type" (.str "?")) ++
      (if nonEmpty headline then " — " ++ headline else ""), blank,
    "_" ++ orDash rt (event.get "timestamp") ++ "_", blank] ++
  if fields.isEmpty then (["_no further fields recorded_", blank] : List JStr)
  else (["| Field | Value |", "| --- | --- |"] : List JStr) ++ fields.map fieldRow ++ [blank]

/-- The lines of the events, from a position on. -/
def eventBlocks (position : ℕ) : List Dict → List JStr
  | [] => []
  | event :: rest => eventBlock rt position event ++ eventBlocks (position + 1) rest

/-- The head of the report, with the verdict first. -/
def markdownHead (d : Documents) : List JStr :=
  ["# " ++ JStr.ofString d.verification.verdict.text ++ " — RootSign evidence bundle", blank,
    "**" ++ verdictMeaning d.verification.verdict ++ "**", blank] ++
  (if nonEmpty d.verification.summary then ["> " ++ d.verification.summary, blank] else []) ++
  (if nonEmpty (missingLabel d.verification) then
    ["Missing sequence numbers: **" ++ missingLabel d.verification ++ "**", blank] else []) ++
  (["## Session", ""] : List JStr) ++
  (identityRows rt d.manifest d.timeline).map (fun row =>
    "- **" ++ JStr.ofString row.1 ++ ":** " ++ row.2) ++ [blank]

/-- The chain table. -/
def markdownChain (d : Documents) : List JStr :=
  (["## Chain verification", blank,
    decimal d.verification.record_count ++
      " action record(s) checked against the frozen canonical hash (ADR-001, sha256).", blank,
    "| # | Tool | Status | self_hash | prev_action_hash |",
    "| ---: | --- | --- | --- | --- |"] : List JStr) ++
  d.verification.records.map (recordRow rt) ++ [blank]

/-- The events. -/
def markdownEvents (d : Documents) : List JStr :=
  (["## What happened", ""] : List JStr) ++
  (previewNotes d.timeline.previews).zipIdx.flatMap (fun p =>
    -- the first note is a clause, and gets its full stop here
    if p.2 = 0 then [("_" : JStr) ++ p.1 ++ "._", blank]
    else [("_" : JStr) ++ p.1 ++ "_", blank]) ++
  ([JStr.ofString ("Every field recorded for each event, as stored. Field names match " ++
    "`timeline.json` so the two can be read side by side."), ""] : List JStr) ++
  eventBlocks rt 1 d.timeline.events

/-- The redaction inventory. -/
def markdownRedaction (d : Documents) : List JStr :=
  (["## Redaction", blank,
    decimal d.redaction.redacted_fields ++ " field(s) across " ++
      decimal d.redaction.actions_with_redactions ++ " action(s) were replaced with `" ++
        sentinel ++
      "` before storage.", blank] : List JStr) ++
  d.redaction.records.map (fun record =>
    "- #" ++ rt.pyStr record.sequence_number ++ ": " ++ redactionPaths record) ++
  (if d.redaction.records.isEmpty then [] else [blank]) ++
  ["_" ++ redactionProvenance ++ "_", blank]

/-- The hashes, and how to check them. -/
def markdownContents (d : Documents) : List JStr :=
  (["## Bundle contents", "",
    "SHA-256 of each machine-readable document in this bundle, copied from `manifest.json`.", "",
    "| File | SHA-256 |", "| --- | --- |"] : List JStr) ++
  (documentHashes d.manifest).map
    (fun p => "| `" ++ JStr.ofString p.1 ++ "` | `" ++ p.2 ++ "` |") ++
  ([blank, JStr.ofString
    ("_This report and `manifest.json` are hashed too, but a document cannot " ++
    "quote its own digest — those values are in `manifest.json`._"), "",
   "## Verifying this bundle", "", howToVerify, ""] : List JStr)

/-- The lines of `report.md`. -/
def markdownReport (d : Documents) : List JStr :=
  markdownHead rt d ++ markdownChain rt d ++ markdownEvents rt d ++ markdownRedaction rt d ++
    markdownContents d

/-- `render_markdown`. -/
def renderMarkdown (d : Documents) : JStr := joinText "\n" (markdownReport rt d)

end

/-! ### HTML -/

/-- A part of the output: a text of the renderer, a number, or a text from the documents, escaped
    in the text of an element or in a quoted attribute. -/
inductive HtmlPiece where
  | markup (text : String)
  | number (n : ℤ)
  | value (text : JStr)
  | attribute (text : JStr)

/-- `html.escape(text, quote=True)`, of one unit. -/
def escapeHtml (u : CodeUnit) : List CodeUnit :=
  if u.val = 0x26 then lit "&amp;"
  else if u.val = 0x3C then lit "&lt;"
  else if u.val = 0x3E then lit "&gt;"
  else if u.val = 0x22 then lit "&quot;"
  else if u.val = 0x27 then lit "&#x27;"
  else [u]

/-- What a part adds to the output. -/
def HtmlPiece.units : HtmlPiece → List CodeUnit
  | .markup text => lit text
  | .number n => (decimal n).units
  | .value text => text.units.flatMap escapeHtml
  | .attribute text => text.units.flatMap escapeHtml

/-- `_STYLE`. -/
def reportStyle : String :=
  "\n" ++
  ":root \x7b color-scheme: light; \x7d\n" ++
  "body \x7b margin: 0; padding: 2rem 1.5rem 4rem; background: #f6f7f9; color: #14181f;\n" ++
  "       font: 15px/1.55 -apple-system, BlinkMacSystemFont, \"Segoe UI\", Roboto, Helvetica, sans-serif; \x7d\n" ++
  "main \x7b max-width: 60rem; margin: 0 auto; \x7d\n" ++
  ".verdict \x7b border-radius: 10px; padding: 1.25rem 1.5rem; margin: 0 0 1.5rem;\n" ++
  "           border: 1px solid; \x7d\n" ++
  ".verdict h1 \x7b margin: 0 0 .35rem; font-size: 1.6rem; letter-spacing: .01em; \x7d\n" ++
  ".verdict p \x7b margin: .25rem 0 0; \x7d\n" ++
  ".verdict .detail \x7b font-family: ui-monospace, SFMono-Regular, Menlo, monospace; font-size: .85rem; \x7d\n" ++
  ".valid \x7b background: #e9f7ee; border-color: #2f8f4e; color: #14532d; \x7d\n" ++
  ".tampered \x7b background: #fdecec; border-color: #c0392b; color: #7f1d1d; \x7d\n" ++
  ".incomplete \x7b background: #fff7e6; border-color: #b7791f; color: #7a4b06; \x7d\n" ++
  "h2 \x7b margin: 2rem 0 .75rem; font-size: 1.1rem; text-transform: uppercase;\n" ++
  "     letter-spacing: .06em; color: #4a5568; \x7d\n" ++
  "section \x7b background: #fff; border: 1px solid #e2e6ec; border-radius: 8px; padding: 1rem 1.25rem; \x7d\n" ++
  "table \x7b width: 100%; border-collapse: collapse; font-size: .9rem; \x7d\n" ++
  "th, td \x7b text-align: left; padding: .45rem .6rem; border-bottom: 1px solid #eceff3;\n" ++
  "         vertical-align: top; \x7d\n" ++
  "th \x7b font-weight: 600; color: #4a5568; \x7d\n" ++
  "td.hash, code \x7b font-family: ui-monospace, SFMono-Regular, Menlo, monospace; font-size: .8rem;\n" ++
  "                word-break: break-all; \x7d\n" ++
  "dl \x7b display: grid; grid-template-columns: minmax(8rem, 12rem) 1fr; gap: .4rem 1rem; margin: 0; \x7d\n" ++
  "dt \x7b font-weight: 600; color: #4a5568; \x7d\n" ++
  "dd \x7b margin: 0; \x7d\n" ++
  ".status-verified \x7b color: #276749; \x7d\n" ++
  ".status-failed \x7b color: #9b2c2c; font-weight: 600; \x7d\n" ++
  ".status-unverified \x7b color: #975a16; \x7d\n" ++
  ".note \x7b color: #4a5568; font-style: italic; margin: 0 0 .75rem; \x7d\n" ++
  ".event \x7b border: 1px solid #e2e6ec; border-radius: 6px; padding: .75rem 1rem 1rem;\n" ++
  "         margin: 0 0 .85rem; background: #fcfcfd; \x7d\n" ++
  ".event h3 \x7b margin: 0 0 .5rem; font-size: .95rem; display: flex; flex-wrap: wrap;\n" ++
  "            align-items: baseline; gap: .6rem; \x7d\n" ++
  ".event .kind \x7b font-weight: 700; letter-spacing: .04em; color: #1a202c; \x7d\n" ++
  ".event .pos \x7b color: #a0aec0; font-weight: 400; \x7d\n" ++
  ".event time \x7b color: #4a5568; font-weight: 400; font-size: .85rem;\n" ++
  "              font-family: ui-monospace, SFMono-Regular, Menlo, monospace; \x7d\n" ++
  ".event .headline \x7b margin: 0 0 .6rem; color: #2d3748; \x7d\n" ++
  "table.fields \x7b table-layout: fixed; \x7d\n" ++
  "table.fields th \x7b width: 12rem; font-weight: 500; \x7d\n" ++
  "table.fields td.value \x7b font-family: ui-monospace, SFMono-Regular, Menlo, monospace;\n" ++
  "                        font-size: .8rem; word-break: break-word; white-space: pre-wrap; \x7d\n" ++
  "table.fields tr:last-child th, table.fields tr:last-child td \x7b border-bottom: none; \x7d\n" ++
  "@media (max-width: 40rem) \x7b\n" ++
  "  table.fields, table.fields tbody, table.fields tr, table.fields th, table.fields td\n" ++
  "    \x7b display: block; width: auto; \x7d\n" ++
  "  table.fields th \x7b padding-bottom: 0; border-bottom: none; \x7d\n" ++
  "\x7d\n" ++
  "footer \x7b margin-top: 2rem; color: #4a5568; font-size: .85rem; \x7d\n" ++
  "@media print \x7b body \x7b background: #fff; \x7d section \x7b border: none; padding: 0; \x7d \x7d\n"

/-- The class of a verdict's box: `verdict.lower()`. -/
def Verdict.lower : Verdict → String
  | .VALID => "valid"
  | .TAMPERED => "tampered"
  | .INCOMPLETE => "incomplete"

section

variable (rt : Runtime)

/-- The head of the page, with the verdict first in its body. -/
def htmlHead (d : Documents) : List (List HtmlPiece) :=
  [[.markup "<!DOCTYPE html>"],
    [.markup "<html lang=\"en\"><head><meta charset=\"utf-8\">"],
    [.markup "<meta name=\"viewport\" content=\"width=device-width, initial-scale=1\">"],
    [.markup "<title>", .value d.verification.verdict.text, .markup " — RootSign evidence ",
      .value d.manifest.session_id, .markup "</title>"],
    [.markup "<style>", .markup reportStyle, .markup "</style>"],
    [.markup "</head><body><main>"],
    [.markup "<div class=\"verdict ", .markup d.verification.verdict.lower, .markup "\">"],
    [.markup "<h1>", .value d.verification.verdict.text, .markup "</h1>"],
    [.markup "<p>", .value (verdictMeaning d.verification.verdict), .markup "</p>"]] ++
  (if nonEmpty d.verification.summary then
    [[.markup "<p class=\"detail\">", .value d.verification.summary, .markup "</p>"]] else []) ++
  (if nonEmpty (missingLabel d.verification) then
    [[.markup "<p>Missing sequence numbers: <strong>", .value (missingLabel d.verification),
      .markup "</strong></p>"]] else []) ++
  [[.markup "</div>"], [.markup "<h2>Session</h2><section><dl>"]] ++
  (identityRows rt d.manifest d.timeline).map (fun row =>
    [.markup "<dt>", .value (JStr.ofString row.1), .markup "</dt><dd>", .value row.2,
      .markup "</dd>"]) ++
  [[.markup "</dl></section>"]]

/-- A row of the chain table. -/
def htmlRecord (record : RecordEntry) : List HtmlPiece :=
  [.markup "<tr><td>", .value (rt.pyStr record.sequence_number), .markup "</td><td>",
    .value (rt.pyStr record.tool_name), .markup "</td><td class=\"status-",
    .attribute record.chain_status.text, .markup "\">", .value record.chain_status.text,
    .markup "</td><td class=\"hash\">", .value (rt.pyStr record.self_hash),
    .markup "</td><td class=\"hash\">",
    .value (rt.pyStr (orValue record.prev_action_hash (.str "—"))), .markup "</td></tr>"]

/-- The chain table. -/
def htmlChain (d : Documents) : List (List HtmlPiece) :=
  [[.markup "<h2>Chain verification</h2><section>"],
    [.markup "<p class=\"note\">", .number d.verification.record_count,
      .markup " action record(s) checked against the frozen canonical hash (", .value "ADR-001",
      .markup ", ", .value "sha256", .markup ").</p>"],
    [.markup "<table><thead><tr><th>#</th><th>Tool</th><th>Status</th>"],
    [.markup "<th>self_hash</th><th>prev_action_hash</th></tr></thead><tbody>"]] ++
  d.verification.records.map (htmlRecord rt) ++ [[.markup "</tbody></table></section>"]]

/-- The article of an event, at its position. -/
def htmlEvent (position : ℕ) (event : Dict) : List (List HtmlPiece) :=
  let headline := eventSummary rt event
  let fields := eventFields rt event
  [[.markup "<article class=\"event\">"],
    [.markup "<h3><span class=\"kind\">", .value (rt.pyStr (event.getD "type" (.str "?"))),
      .markup "</span><span class=\"pos\">#", .number position, .markup "</span><time>",
      .value (orDash rt (event.get "timestamp")), .markup "</time></h3>"]] ++
  (if nonEmpty headline then
    [[.markup "<p class=\"headline\">", .value headline, .markup "</p>"]] else []) ++
  (if fields.isEmpty then [[.markup "<p class=\"note\">no further fields recorded</p>"]]
    else
      [[.markup "<table class=\"fields\"><tbody>"]] ++
      fields.map (fun field =>
        [.markup "<tr><th scope=\"row\"><code>", .value field.1,
          .markup "</code></th><td class=\"value\">", .value field.2, .markup "</td></tr>"]) ++
      [[.markup "</tbody></table>"]]) ++
  [[.markup "</article>"]]

/-- The articles of the events, from a position on. -/
def htmlEventList (position : ℕ) : List Dict → List (List HtmlPiece)
  | [] => []
  | event :: rest => htmlEvent rt position event ++ htmlEventList (position + 1) rest

/-- The events. -/
def htmlEvents (d : Documents) : List (List HtmlPiece) :=
  [[.markup "<h2>What happened</h2><section>"]] ++
  (previewNotes d.timeline.previews).map (fun note =>
    [.markup "<p class=\"note\">", .value note, .markup "</p>"]) ++
  [[.markup ("<p class=\"note\">Every field recorded for each event, as stored. Field names " ++
    "match <code>timeline.json</code> so the two can be read side by side.</p>")]] ++
  htmlEventList rt 1 d.timeline.events ++ [[.markup "</section>"]]

/-- The redaction inventory. -/
def htmlRedaction (d : Documents) : List (List HtmlPiece) :=
  [[.markup "<h2>Redaction</h2><section>"],
    [.markup "<p>", .number d.redaction.redacted_fields, .markup " field(s) across ",
      .number d.redaction.actions_with_redactions, .markup " action(s) were replaced with <code>",
      .value sentinel, .markup "</code> before storage.</p>"]] ++
  (if d.redaction.records.isEmpty then []
    else
      [[.markup "<table><thead><tr><th>#</th><th>Redacted field paths</th></tr></thead><tbody>"]] ++
      d.redaction.records.map (fun record =>
        [.markup "<tr><td>", .value (rt.pyStr record.sequence_number),
          .markup "</td><td class=\"hash\">", .value (redactionPaths record),
          .markup "</td></tr>"]) ++
      [[.markup "</tbody></table>"]]) ++
  [[.markup "<p class=\"note\">", .value redactionProvenance, .markup "</p>"],
    [.markup "</section>"]]

/-- The hashes, and how to check them. -/
def htmlContents (d : Documents) : List (List HtmlPiece) :=
  [[.markup "<h2>Bundle contents</h2><section>"],
    [.markup ("<p class=\"note\">SHA-256 of each machine-readable document in this bundle, " ++
      "copied from <code>manifest.json</code>.</p>")],
    [.markup "<table><thead><tr><th>File</th><th>SHA-256</th></tr></thead><tbody>"]] ++
  (documentHashes d.manifest).map (fun p =>
    [.markup "<tr><td><code>", .value (JStr.ofString p.1),
      .markup "</code></td><td class=\"hash\">", .value p.2, .markup "</td></tr>"]) ++
  [[.markup "</tbody></table>"],
    [.markup ("<p class=\"note\">This report and <code>manifest.json</code> are hashed too, " ++
      "but a document cannot quote its own digest — those values are in " ++
      "<code>manifest.json</code>.</p>")],
    [.markup "</section>"],
    [.markup "<footer><h2>Verifying this bundle</h2><p>", .value howToVerify,
      .markup "</p></footer>"],
    [.markup "</main></body></html>"]]

/-- The lines of `report.html`. -/
def htmlReport (d : Documents) : List (List HtmlPiece) :=
  htmlHead rt d ++ htmlChain rt d ++ htmlEvents rt d ++ htmlRedaction rt d ++ htmlContents d

/-- `render_html`: every line ends with a line break. -/
def renderHtml (d : Documents) : JStr :=
  ⟨(htmlReport rt d).flatMap fun line => line.flatMap HtmlPiece.units ++ lit "\n"⟩

/-! ### The bundle with its reports -/

/-- `bundle_documents`. -/
def bundleDocuments (w : JsonLimits) (sdk_version : JStr) (b : EvidenceBundle) :
    Except ReceiptError Documents := do
  let manifest ← b.manifest w sdk_version
  return { manifest := manifest, verification := b.verification, timeline := b.timeline,
           redaction := b.redaction }

/-- `attach_reports`. -/
def attachReports (w : JsonLimits) (sdk_version : JStr) (b : EvidenceBundle) :
    Except ReceiptError EvidenceBundle := do
  let documents ← bundleDocuments w sdk_version b
  return { b with
    rendered := b.rendered ++ [("report.md", (renderMarkdown rt documents).units),
      ("report.html", (renderHtml rt documents).units)] }

end

end RootSign
