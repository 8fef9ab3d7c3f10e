import RootSign.Sdk.Report

namespace RootSign

open RootSign.Python

/-!
# Withheld previews

With `--redact-previews` a bundle does not depend on the stored content.

* `ContentAlike`, `EvidenceAlike` — records, and evidence, that differ in the values of content
  fields only;
* `exportBundle` — a bundle with its reports;
* `withheld_alike` — it is the same for alike evidence.

The redaction inventory walks the stored payloads by recursion; they are taken to fit the stack
here.
-/

/-- A bundle, or the exception that building or attaching raises. -/
inductive ExportError where
  | build (e : PyError)
  | attach (e : ReceiptError)

/-- `attach_reports(build_bundle(evidence, redact_previews=…))`. -/
def exportBundle (rt : Runtime) (w : JsonLimits) (sdk_version generated_at : JStr)
    (redact_previews : Bool) (evidence : SessionEvidence) : Except ExportError EvidenceBundle :=
  match buildBundle rt generated_at redact_previews evidence with
  | .error e => .error (.build e)
  | .ok bundle =>
    match attachReports rt w sdk_version bundle with
    | .error e => .error (.attach e)
    | .ok bundle => .ok bundle

/-- The fields of a record that hold stored content. -/
def storedContent : List String :=
  ["input_redacted", "output_redacted", "context_presented", "inputs_summary", "reasoning_summary"]

/-- Records that are equal except for the values of content fields: these are null in both or in
    neither, and the sentinel stands at the same paths of both payloads. -/
structure ContentAlike (a b : Dict) : Prop where
  same : ∀ key, key ∉ storedContent → a.get key = b.get key
  nullness : ∀ key ∈ storedContent, Json.isNone (a.get key) = Json.isNone (b.get key)
  input_paths :
    redactedPaths "" (a.get "input_redacted") = redactedPaths "" (b.get "input_redacted")
  output_paths :
    redactedPaths "" (a.get "output_redacted") = redactedPaths "" (b.get "output_redacted")

/-- Evidence that is equal except for the values of content fields. -/
structure EvidenceAlike (e₁ e₂ : SessionEvidence) : Prop where
  session_id : e₁.session_id = e₂.session_id
  source_backend : e₁.source_backend = e₂.source_backend
  source_location : e₁.source_location = e₂.source_location
  verify : e₁.verify = e₂.verify
  session : e₁.session = e₂.session
  agent : e₁.agent = e₂.agent
  actions : List.Forall₂ ContentAlike e₁.actions e₂.actions
  decisions : List.Forall₂ ContentAlike e₁.decisions e₂.decisions
  approvals : List.Forall₂ ContentAlike e₁.approvals e₂.approvals
  losses : e₁.losses = e₂.losses
  receipt : e₁.receipt = e₂.receipt

section

variable {rt : Runtime} {a b : Dict} {e₁ e₂ : SessionEvidence}

/-- What is the same of two related elements is the same of two related lists. -/
theorem map_eq_of_forall₂ {α β : Type} {R : α → α → Prop} {f : α → β} {l l' : List α}
    (h : List.Forall₂ R l l') (hf : ∀ a b, R a b → f a = f b) : l.map f = l'.map f := by
  induction h with
  | nil => rfl
  | cons hab _ ih => rw [List.map_cons, List.map_cons, hf _ _ hab, ih]

/-! ### Events -/

/-- What is left of an event, and which of its content fields hold something. -/
def withheldView (event : Dict) : Dict × List String :=
  (stripContent event, contentFields.filter (carriesContent event))

/-- A field that holds no content is the same in both. -/
theorem ContentAlike.get_eq (h : ContentAlike a b) (key : String)
    (hkey : key ∉ storedContent := by decide) : a.get key = b.get key := h.same key hkey

theorem ContentAlike.isNone_eq (h : ContentAlike a b) (key : String)
    (hkey : key ∈ storedContent := by decide) : Json.isNone (a.get key) = Json.isNone (b.get key) :=
  h.nullness key hkey

theorem withheldView_eq {x y : Dict} (hstrip : stripContent x = stripContent y)
    (hnone : ∀ key ∈ contentFields, Json.isNone (x.get key) = Json.isNone (y.get key)) :
    withheldView x = withheldView y := by
  unfold withheldView carriesContent
  rw [hstrip]
  refine congrArg _ (List.filter_congr fun key hkey => ?_)
  rw [hnone key hkey]

theorem decisionEvent_alike (h : ContentAlike a b) :
    withheldView (decisionEvent a) = withheldView (decisionEvent b) := by
  unfold decisionEvent
  apply withheldView_eq
  · rw [stripContent_ofFields, stripContent_ofFields]
    simp [contentFields, h.get_eq "timestamp", h.get_eq "decision_id", h.get_eq "selected_action",
      h.get_eq "confidence", h.get_eq "alternatives_considered"]
  · simp [contentFields, Dict.get_ofFields, List.lookup_cons, h.isNone_eq "inputs_summary",
      h.isNone_eq "reasoning_summary"]

theorem actionEvent_alike (h : ContentAlike a b) :
    withheldView (actionEvent a) = withheldView (actionEvent b) := by
  unfold actionEvent
  apply withheldView_eq
  · rw [stripContent_ofFields, stripContent_ofFields]
    simp [contentFields, h.get_eq "timestamp", h.get_eq "sequence_number", h.get_eq "action_id",
      h.get_eq "tool_name", h.get_eq "authorization_status", h.get_eq "duration_ms",
      h.get_eq "decision_id", h.get_eq "input_hash", h.get_eq "output_hash"]
  · simp [contentFields, Dict.get_ofFields, List.lookup_cons, h.isNone_eq "input_redacted",
      h.isNone_eq "output_redacted"]

theorem approvalEvent_alike (h : ContentAlike a b) :
    withheldView (approvalEvent a) = withheldView (approvalEvent b) := by
  unfold approvalEvent
  apply withheldView_eq
  · rw [stripContent_ofFields, stripContent_ofFields]
    simp [contentFields, h.get_eq "timestamp", h.get_eq "approval_id", h.get_eq "action_id",
      h.get_eq "approver_id", h.get_eq "approver_type", h.get_eq "decision",
      h.get_eq "decision_reason", h.get_eq "response_latency_ms"]
  · simp [contentFields, Dict.get_ofFields, List.lookup_cons, h.isNone_eq "context_presented"]

/-- The events of alike evidence differ in their content only. -/
theorem eventsOf_alike (h : EvidenceAlike e₁ e₂) :
    (eventsOf e₁).map withheldView = (eventsOf e₂).map withheldView := by
  unfold eventsOf
  simp only [List.map_append, List.map_map, h.session, h.losses]
  rw [map_eq_of_forall₂ h.decisions (f := withheldView ∘ decisionEvent)
      fun a b => decisionEvent_alike,
    map_eq_of_forall₂ h.actions (f := withheldView ∘ actionEvent) fun a b => actionEvent_alike,
    map_eq_of_forall₂ h.approvals (f := withheldView ∘ approvalEvent)
      fun a b => approvalEvent_alike]

/-! ### The timeline -/

/-- Stripping an event keeps what it is ordered by. -/
theorem get_stripContent {event : Dict} {key : String} (hkey : key ∉ contentFields) :
    (stripContent event).get key = event.get key := by
  -- by induction on the event: only content fields are taken out, and the key is none
  have hlookup : (stripContent event).lookup (JStr.ofString key) =
      event.lookup (JStr.ofString key) := by
    induction event with
    | nil => rfl
    | cons p rest ih =>
      obtain ⟨k, v⟩ := p
      unfold stripContent at ih ⊢
      rw [List.filter_cons]
      by_cases hk : k = JStr.ofString key
      · subst hk
        have hany : (contentFields.any fun field => JStr.ofString key == JStr.ofString field) =
            false := by
          rw [List.any_eq_false]
          intro field hfield
          rw [JStr.ofString_beq, beq_iff_eq]
          exact fun heq => hkey (heq ▸ hfield)
        rw [hany, Bool.not_false, if_pos rfl, List.lookup_cons_self, List.lookup_cons_self]
      · have hne : (JStr.ofString key == k) = false := beq_eq_false_iff_ne.mpr fun h => hk h.symm
        rw [List.lookup_cons, hne]
        split
        · rw [List.lookup_cons, hne]
          exact ih
        · exact ih
  rw [Dict.get, Dict.getD, hlookup]
  rfl

theorem narrativeBefore_strip (x y : Dict) :
    narrativeBefore rt (stripContent x) (stripContent y) = narrativeBefore rt x y := by
  unfold narrativeBefore narrativeText boundaryRank
  rw [get_stripContent (by decide), get_stripContent (by decide), get_stripContent (by decide),
    get_stripContent (by decide)]

/-- Sorting and stripping commute. -/
theorem sortEvents_strip (events : List Dict) :
    (sortEvents rt events).map stripContent = sortEvents rt (events.map stripContent) := by
  refine List.map_insertionSort _ _ stripContent events fun x _ y _ => ?_
  rw [narrativeBefore_strip]

/-- Sorting changes neither which content is there nor how many events have some. -/
theorem withheld_sort (events : List Dict) :
    withheldFields (sortEvents rt events) = withheldFields events ∧
      ((sortEvents rt events).countP fun event => contentFields.any (carriesContent event)) =
        events.countP fun event => contentFields.any (carriesContent event) := by
  have hperm : (sortEvents rt events).Perm events := List.perm_insertionSort _ _
  refine ⟨?_, hperm.countP_eq _⟩
  unfold withheldFields
  simp only [hperm.any_eq]

/-- What the views of the events tell. -/
theorem withheld_views {l l' : List Dict} (h : l.map withheldView = l'.map withheldView) :
    l.map stripContent = l'.map stripContent ∧ withheldFields l = withheldFields l' ∧
      (l.countP fun event => contentFields.any (carriesContent event)) =
        l'.countP fun event => contentFields.any (carriesContent event) := by
  -- a view is the stripped event paired with its content fields that were carried
  have hstrip : l.map stripContent = l'.map stripContent := by
    have hfst := congrArg (List.map Prod.fst) h
    rw [List.map_map, List.map_map] at hfst
    exact hfst
  have hcarried : l.map (fun event => contentFields.filter (carriesContent event)) =
      l'.map fun event => contentFields.filter (carriesContent event) := by
    have hsnd := congrArg (List.map Prod.snd) h
    rw [List.map_map, List.map_map] at hsnd
    exact hsnd
  -- both counts are functions of the lists of carried fields alone
  refine ⟨hstrip, ?_, ?_⟩
  · have hany : ∀ l : List Dict, ∀ key ∈ contentFields,
        (l.any fun event => carriesContent event key) =
          (l.map fun event => contentFields.filter (carriesContent event)).any
            fun carried => carried.contains key := by
      intro l key hkey
      rw [List.any_map]
      refine List.any_congr rfl fun event => ?_
      show _ = (contentFields.filter (carriesContent event)).contains key
      rw [Bool.eq_iff_iff, List.contains_iff_mem, List.mem_filter]
      exact ⟨fun h => ⟨hkey, h⟩, fun h => h.2⟩
    unfold withheldFields
    congr 1
    refine List.filter_congr fun key hkey => ?_
    rw [hany l key hkey, hany l' key hkey, hcarried]
  · have hcount : ∀ l : List Dict,
        (l.countP fun event => contentFields.any (carriesContent event)) =
          (l.map fun event => contentFields.filter (carriesContent event)).countP
            fun carried => !carried.isEmpty := by
      intro l
      rw [List.countP_map]
      refine List.countP_congr fun event _ => ?_
      show _ ↔ (!(contentFields.filter (carriesContent event)).isEmpty) = true
      rw [List.any_eq_true, Bool.not_eq_true', List.isEmpty_eq_false_iff_exists_mem]
      simp only [List.mem_filter]
    rw [hcount, hcount, hcarried]

/-- Without previews the timeline is the same. -/
theorem buildTimeline_alike (h : EvidenceAlike e₁ e₂) (previews_stored : Bool) :
    buildTimeline rt e₁ false previews_stored = buildTimeline rt e₂ false previews_stored := by
  obtain ⟨hstrip, hfields, hcount⟩ := withheld_views (eventsOf_alike h)
  have hsession : sessionBlock e₁ = sessionBlock e₂ := by
    unfold sessionBlock
    rw [h.session, h.session_id, h.actions.length_eq, h.decisions.length_eq, h.approvals.length_eq]
  have hevents : (sortEvents rt (eventsOf e₁)).map stripContent =
      (sortEvents rt (eventsOf e₂)).map stripContent := by
    rw [sortEvents_strip, sortEvents_strip, hstrip]
  unfold buildTimeline
  simp only [Bool.false_eq_true, if_false]
  rw [hsession, hevents, (withheld_sort _).1, (withheld_sort _).1, (withheld_sort _).2,
    (withheld_sort _).2, hfields, hcount]

/-! ### The other documents -/

theorem buildVerification_alike (h : EvidenceAlike e₁ e₂) :
    buildVerification rt e₁ = buildVerification rt e₂ := by
  have hentry : ∀ a b, ContentAlike a b → recordEntry e₂.verify a = recordEntry e₂.verify b := by
    intro a b hab
    unfold recordEntry
    rw [hab.get_eq "sequence_number", hab.get_eq "action_id", hab.get_eq "timestamp",
      hab.get_eq "tool_name", hab.get_eq "prev_action_hash", hab.get_eq "self_hash"]
  have hrecords : e₁.actions.mapM (recordEntry e₂.verify) =
      e₂.actions.mapM (recordEntry e₂.verify) := by
    have hall := h.actions
    generalize e₁.actions = l₁, e₂.actions = l₂ at hall ⊢
    induction hall with
    | nil => rfl
    | cons hab _ ih => rw [List.mapM_cons, List.mapM_cons, ih, hentry _ _ hab]
  unfold buildVerification
  simp only [h.verify, hrecords, h.receipt]

theorem buildRedaction_alike (h : EvidenceAlike e₁ e₂) :
    buildRedaction e₁ = buildRedaction e₂ := by
  have hentries : e₁.actions.map redactionEntry = e₂.actions.map redactionEntry := by
    refine map_eq_of_forall₂ h.actions fun a b hab => ?_
    unfold redactionEntry
    rw [hab.input_paths, hab.output_paths, hab.get_eq "sequence_number", hab.get_eq "action_id"]
  have hrecords : e₁.actions.filterMap redactionEntry = e₂.actions.filterMap redactionEntry := by
    have hsome := congrArg (List.filterMap id) hentries
    rw [List.filterMap_map, List.filterMap_map] at hsome
    exact hsome
  unfold buildRedaction
  rw [hrecords]

end

/-- **Withheld previews.**  A bundle made with `--redact-previews`, its documents and both reports,
    is the same for evidence that differs in its stored content only. -/
theorem withheld_alike (rt : Runtime) (w : JsonLimits) (sdk_version generated_at : JStr)
    (e₁ e₂ : SessionEvidence) (h : EvidenceAlike e₁ e₂) :
    exportBundle rt w sdk_version generated_at true e₁ =
      exportBundle rt w sdk_version generated_at true e₂ := by
  have hstored : (e₁.actions.any fun action =>
      carriesContent action "input_redacted" || carriesContent action "output_redacted") =
        e₂.actions.any fun action =>
          carriesContent action "input_redacted" || carriesContent action "output_redacted" := by
    have hmap := map_eq_of_forall₂ (f := fun action =>
      carriesContent action "input_redacted" || carriesContent action "output_redacted")
      h.actions fun a b hab => by
        simp only [carriesContent, hab.isNone_eq "input_redacted", hab.isNone_eq "output_redacted"]
    have hany := congrArg (fun l => l.any id) hmap
    rw [List.any_map, List.any_map] at hany
    exact hany
  have hbuild : buildBundle rt generated_at true e₁ = buildBundle rt generated_at true e₂ := by
    unfold buildBundle
    simp only [hstored, Bool.not_true, Bool.and_false, buildVerification_alike h,
      buildTimeline_alike h, buildRedaction_alike h, h.session_id, h.source_backend,
      h.source_location, h.agent, h.receipt]
  unfold exportBundle
  rw [hbuild]

/-! ### Two sessions -/

/-- A session whose records hold the given content; a token of the input is redacted. -/
def evidenceWith (recipient output reasoning context : Json) : SessionEvidence where
  session_id := exampleSession.text
  source_backend := "jsonl"
  source_location := "s.jsonl"
  verify := { verdict := .VALID, record_count := 1, session_id := .str exampleSession.text }
  session := []
  agent := none
  actions := [Dict.ofFields [("sequence_number", .int 1), ("tool_name", .str "send_email"),
    ("input_redacted", .obj [("to", recipient), ("token", .str sentinel)]),
    ("output_redacted", output)]]
  decisions := [Dict.ofFields [("decision_id", .str exampleRecord.text),
    ("reasoning_summary", reasoning)]]
  approvals := [Dict.ofFields [("action_id", .str exampleEvent.text),
    ("context_presented", context)]]
  losses := []
  receipt := none

theorem withheld_alike_contents :
    exportBundle exampleRuntime defaultLimits "0.3.0" "2026-05-01T12:00:00+00:00" true
        (evidenceWith (.str "alice") (.int 7) (.str "she asked") (.obj [])) =
      exportBundle exampleRuntime defaultLimits "0.3.0" "2026-05-01T12:00:00+00:00" true
        (evidenceWith (.arr [.str "bob", .str "carol"]) (.arr []) (.str "they did")
          (.obj [("amount", .int 3)])) := by
  refine withheld_alike _ _ _ _ _ _
    ⟨rfl, rfl, rfl, rfl, rfl, rfl, .cons ?_ .nil, .cons ?_ .nil, .cons ?_ .nil, rfl, rfl⟩
  all_goals
    refine ⟨fun key hkey => ?_, fun key hkey => ?_, by decide +kernel, by decide +kernel⟩
    · simp only [storedContent, List.mem_cons, List.not_mem_nil, or_false, not_or,
        ← beq_eq_false_iff_ne] at hkey
      simp [Dict.get_ofFields, List.lookup_cons, hkey]
    · simp only [storedContent, List.mem_cons, List.not_mem_nil, or_false] at hkey
      rcases hkey with rfl | rfl | rfl | rfl | rfl <;>
        simp [Dict.get_ofFields, List.lookup_cons, Json.isNone]

end RootSign
