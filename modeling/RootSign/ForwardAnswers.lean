import RootSign.CloudCalls

namespace RootSign

open RootSign.Lib RootSign.Python

/-!
# Answers of a later server

A server of the same major version may answer with error codes and fields that this client does not
know.  Each element of such an answer says for itself whether it was accepted and whether it is to
be sent again.

* `WireResponse` — an element such a server may answer with, and `Familiar`: this client knows all
  of it;
* `ReadsWire` — what the client relies on `model_validate` for;
* `ReadElementwise` — every element is treated by its own status and flag;
* `read_elementwise_iff` — a call does so exactly when an array with an unfamiliar element asks for
  every element again.
-/

/-! ### Elements of an answer -/

/-- The fields of `IngestResponse`. -/
def responseFields : List String :=
  ["status", "event_id", "entity_id", "sequence_number", "self_hash", "error_code",
   "error_message", "retryable"]

/-- An element a server of this major version may answer with: the fields this client knows have
    their types, error codes are any text, and there may be more fields. -/
structure WireResponse (d : Dict) : Prop where
  status : d.get "status" = .str "accepted" ∨ d.get "status" = .str "rejected"
  event_id : ∃ u : Uuid, d.get "event_id" = .str u.text
  entity_id : d.get "entity_id" = .null ∨ ∃ u : Uuid, d.get "entity_id" = .str u.text
  sequence_number : d.get "sequence_number" = .null ∨ ∃ n, d.get "sequence_number" = .int n
  self_hash : d.get "self_hash" = .null ∨ ∃ text, d.get "self_hash" = .str text
  error_code : d.get "error_code" = .null ∨ ∃ text, d.get "error_code" = .str text
  error_message : d.get "error_message" = .null ∨ ∃ text, d.get "error_message" = .str text
  retryable : d.get "retryable" = .null ∨ ∃ b, d.get "retryable" = .bool b

/-- The client knows every field, and the error code if there is one. -/
structure Familiar (d : Dict) : Prop where
  fields : ∀ p ∈ d, ∃ key ∈ responseFields, p.1 = JStr.ofString key
  error_code : d.get "error_code" = .null ∨
    ∃ code : ErrorCode, d.get "error_code" = .str (JStr.ofString code.text)

/-- The element asks to be sent again. -/
def AsksAgain (d : Dict) : Prop :=
  d.get "status" = .str "rejected" ∧ d.get "retryable" = .bool true

/-- The response has the status and the flag of the element. -/
def Carries (d : Dict) (r : IngestResponse) : Prop :=
  d.get "status" = .str r.status ∧ d.get "retryable" = (r.retryable.map .bool).getD .null

/-- **`IngestResponse.model_validate`** on such elements: extra fields are forbidden, the error
    codes are an enumeration, and what is accepted keeps its status and its flag. -/
structure ReadsWire (validate : Json → Option IngestResponse) : Prop where
  familiar : ∀ d, WireResponse d → Familiar d → ∃ r, validate (.obj d) = some r ∧ Carries d r
  unfamiliar : ∀ d, WireResponse d → ¬ Familiar d → validate (.obj d) = none

/-- An array aligned with what was sent, of such elements. -/
structure WireAnswer (items : List Json) (count : ℕ) : Prop where
  aligned : items.length = count
  elements : ∀ item ∈ items, ∃ d, item = .obj d ∧ WireResponse d

/-- Every element of the array is familiar. -/
def AllFamiliar (items : List Json) : Prop := ∀ d, Json.obj d ∈ items → Familiar d

/-- Every element of the array asks to be sent again. -/
def AllAskAgain (items : List Json) : Prop := ∀ d, Json.obj d ∈ items → AsksAgain d

/-- An answer needs a retry exactly if its element asks for one. -/
theorem needsRetry_iff {d : Dict} {r : IngestResponse} (h : Carries d r) :
    needsRetry r = true ↔ AsksAgain d := by
  unfold AsksAgain needsRetry
  rw [h.1, h.2, Bool.and_eq_true, beq_iff_eq, beq_iff_eq, Json.str.injEq]
  refine and_congr_right fun _ => ?_
  cases r.retryable with
  | none => simp
  | some b => simp

/-! ### One answer -/

section

variable {rt : Runtime} {cfg : HttpConfig} {batch : List Dict} {items : List Json}

/-- An array of familiar elements is read element by element. -/
theorem interpret_familiar (hreads : ReadsWire cfg.validate)
    (hanswer : WireAnswer items batch.length) (hfamiliar : AllFamiliar items) :
    List.Forall₂ (fun item r => ∃ d, item = Json.obj d ∧ Carries d r) items
      (interpret rt cfg batch (.response 200 (some (.arr items)))) := by
  -- each element is read by itself, so the whole array is
  obtain ⟨responses, hresponses⟩ : ∃ responses, List.Forall₂ (fun item r =>
      cfg.validate item = some r ∧ ∃ d, item = .obj d ∧ Carries d r) items responses := by
    have hall : ∀ item ∈ items, ∃ r, cfg.validate item = some r ∧
        ∃ d, item = .obj d ∧ Carries d r := by
      intro item hitem
      obtain ⟨d, rfl, hd⟩ := hanswer.elements item hitem
      obtain ⟨r, hr, hcarries⟩ := hreads.familiar d hd (hfamiliar d hitem)
      exact ⟨r, hr, d, rfl, hcarries⟩
    -- by induction on the elements
    clear hanswer hfamiliar
    induction items with
    | nil => exact ⟨[], .nil⟩
    | cons item rest ih =>
      obtain ⟨r, hr⟩ := hall item List.mem_cons_self
      obtain ⟨rs, hrs⟩ := ih fun i hi => hall i (List.mem_cons_of_mem item hi)
      exact ⟨r :: rs, .cons hr hrs⟩
  have hparse : parseBody cfg batch (some (.arr items)) = some responses := by
    unfold parseBody
    dsimp only
    rw [if_pos hanswer.aligned]
    exact mapM_eq_some.mpr (hresponses.imp fun item r h => h.1)
  unfold interpret
  dsimp only
  rw [hparse]
  exact hresponses.imp fun item r h => h.2

/-- One unfamiliar element, and the whole array is a retryable rejection of everything. -/
theorem interpret_unfamiliar (hreads : ReadsWire cfg.validate)
    (hanswer : WireAnswer items batch.length) (hunfamiliar : ¬ AllFamiliar items) :
    ∃ message, interpret rt cfg batch (.response 200 (some (.arr items))) =
      rejectBatch rt batch .INTERNAL_ERROR message true := by
  unfold AllFamiliar at hunfamiliar
  push Not at hunfamiliar
  obtain ⟨d, hitem, hnot⟩ := hunfamiliar
  have hparse : parseBody cfg batch (some (.arr items)) = none := by
    unfold parseBody
    dsimp only
    rw [if_pos hanswer.aligned, ← Option.not_isSome_iff_eq_none]
    intro hsome
    obtain ⟨responses, hresponses⟩ := Option.isSome_iff_exists.mp hsome
    obtain ⟨d', hd', hwire⟩ := hanswer.elements _ hitem
    obtain rfl := Json.obj.inj hd'
    obtain ⟨i, hi, hget⟩ := List.getElem_of_mem hitem
    have hone := (List.forall₂_iff_get.mp (mapM_eq_some.mp hresponses)).2 i hi
      ((mapM_eq_some.mp hresponses).length_eq ▸ hi)
    rw [List.get_eq_getElem, hget, hreads.unfamiliar d hwire hnot] at hone
    exact absurd hone (by simp)
  refine ⟨(statusError batch 200).2.2, ?_⟩
  unfold interpret
  dsimp only
  rw [hparse]
  rfl

end

/-! ### What a call does with its answers -/

/-- **Element by element.**  Whatever else its array contains, an element that does not ask to be
    sent again is not sent again and not handed to the spool, and the result in its slot has its
    status and its flag. -/
def ReadElementwise (c : CloudCall) (o : CloudOutcome) : Prop :=
  ∀ (k : ℕ) (round : Round) (items : List Json), o.rounds[k]? = some round →
    c.replies k = .response 200 (some (.arr items)) → WireAnswer items round.length →
    ∀ (j i : ℕ) (d : Dict), (round.map Prod.fst)[j]? = some i → items[j]? = some (.obj d) →
      ¬ AsksAgain d →
      (∀ later ∈ o.rounds.drop (k + 1), i ∉ later.map Prod.fst) ∧ i ∉ o.spooled ∧
        ∀ responses, o.result = .ok responses → ∃ r, responses[i]? = some r ∧ Carries d r

/-- The call sends something: sealing raises nothing, and the client does not spool. -/
def CloudCall.Sends (rt : Runtime) (s : HttpState) (c : CloudCall) : Prop :=
  s.spooling = false ∧ ∃ batch s', s.sealAll rt c.envelopes = (.ok batch, s')

/-- The arrays that the replies hold, for what is left to send when they arrive. -/
def CloudCall.Answered (rt : Runtime) (cfg : HttpConfig) (c : CloudCall) (k : ℕ)
    (items : List Json) : Prop :=
  k < cfg.max_retries ∧ c.replies k = .response 200 (some (.arr items)) ∧
    WireAnswer items
      (HttpBatch.pendingAfter rt cfg (c.envelopes.map Prod.fst) c.replies k).length

section

variable {rt : Runtime} {cfg : HttpConfig} {s : HttpState} {c : CloudCall} {batch : List Dict}
  {replies : ℕ → HttpReply} {items : List Json}

open HttpBatch

/-- What is left later was left before. -/
theorem pendingAfter_subset (k m i : ℕ) (h : i ∈ pendingAfter rt cfg batch replies (k + m)) :
    i ∈ pendingAfter rt cfg batch replies k := by
  induction m with
  | zero => exact h
  | succ m ih =>
    obtain ⟨p, hp, rfl⟩ := List.mem_map.mp h
    exact ih (List.of_mem_zip (List.mem_of_mem_filter hp)).1

/-- The slot and the answer at one place of a request. -/
theorem lookup_request {k j i : ℕ} {r : IngestResponse}
    (hi : (pendingAfter rt cfg batch replies k)[j]? = some i)
    (hr : (interpret rt cfg ((pendingAfter rt cfg batch replies k).filterMap fun i => batch[i]?)
      (replies k))[j]? = some r) :
    (request rt cfg batch replies k).lookup i = some r ∧
      (i ∈ pendingAfter rt cfg batch replies (k + 1) ↔ needsRetry r = true) := by
  obtain ⟨-, hnodup, hsent⟩ := @pendingAfter_sound rt cfg batch replies k
  have hget : (request rt cfg batch replies k)[j]? = some (i, r) :=
    List.getElem?_zip_eq_some.mpr ⟨hi, hr⟩
  have hmem : (i, r) ∈ request rt cfg batch replies k := List.mem_of_getElem? hget
  -- no slot is twice in a request
  have hunique : ∀ p ∈ request rt cfg batch replies k, p.1 = i → p = (i, r) := by
    intro p hp hpi
    refine List.inj_on_of_nodup_map (f := Prod.fst) ?_ hp hmem hpi
    rw [hsent]
    exact hnodup
  constructor
  · cases hlookup : (request rt cfg batch replies k).lookup i with
    | none => exact absurd (List.lookup_eq_none_iff.mp hlookup (i, r) hmem) (by simp)
    | some r' =>
      obtain ⟨front, back, heq, -⟩ := List.lookup_eq_some_iff.mp hlookup
      have hmem' : (i, r') ∈ request rt cfg batch replies k := by
        rw [heq]
        exact List.mem_append_right _ List.mem_cons_self
      exact congrArg some (Prod.mk.inj (hunique _ hmem' rfl)).2
  -- what is pending next is what was answered by a retry
  · show i ∈ ((request rt cfg batch replies k).filter fun p => needsRetry p.2).map Prod.fst ↔ _
    constructor
    · intro hagain
      obtain ⟨p, hp, hpi⟩ := List.mem_map.mp hagain
      obtain ⟨hp, hretry⟩ := List.mem_filter.mp hp
      rwa [hunique p hp hpi] at hretry
    · exact fun hretry => List.mem_map.mpr ⟨(i, r), List.mem_filter.mpr ⟨hmem, hretry⟩, rfl⟩

/-- An array of familiar elements leaves those that ask for it. -/
theorem answered_familiar (hreads : ReadsWire cfg.validate) {k j i : ℕ} {d : Dict}
    (hreply : replies k = .response 200 (some (.arr items)))
    (hanswer : WireAnswer items (pendingAfter rt cfg batch replies k).length)
    (hfamiliar : AllFamiliar items)
    (hi : (pendingAfter rt cfg batch replies k)[j]? = some i) (hd : items[j]? = some (.obj d)) :
    ∃ r, (request rt cfg batch replies k).lookup i = some r ∧ Carries d r ∧
      (i ∈ pendingAfter rt cfg batch replies (k + 1) ↔ AsksAgain d) := by
  obtain ⟨hbound, -, -⟩ := @pendingAfter_sound rt cfg batch replies k
  have hall := @interpret_familiar rt cfg
    ((pendingAfter rt cfg batch replies k).filterMap fun i => batch[i]?) items hreads
    (by rw [length_filterMap_get hbound]; exact hanswer) hfamiliar
  rw [← hreply] at hall
  obtain ⟨hj, hjd⟩ := List.getElem?_eq_some_iff.mp hd
  have hj' := hall.length_eq ▸ hj
  obtain ⟨d', hd', hcarries⟩ := (List.forall₂_iff_get.mp hall).2 j hj hj'
  rw [List.get_eq_getElem, hjd] at hd'
  obtain rfl := Json.obj.inj hd'
  obtain ⟨hlookup, hagain⟩ := lookup_request hi (List.getElem?_eq_getElem hj')
  exact ⟨_, hlookup, hcarries, hagain.trans (needsRetry_iff hcarries)⟩

/-- An array with an unfamiliar element leaves everything. -/
theorem answered_unfamiliar (hreads : ReadsWire cfg.validate) {k j i : ℕ}
    (hreply : replies k = .response 200 (some (.arr items)))
    (hanswer : WireAnswer items (pendingAfter rt cfg batch replies k).length)
    (hunfamiliar : ¬ AllFamiliar items)
    (hi : (pendingAfter rt cfg batch replies k)[j]? = some i) :
    ∃ r, (request rt cfg batch replies k).lookup i = some r ∧ needsRetry r = true ∧
      i ∈ pendingAfter rt cfg batch replies (k + 1) := by
  obtain ⟨hbound, -, -⟩ := @pendingAfter_sound rt cfg batch replies k
  obtain ⟨message, hreject⟩ := @interpret_unfamiliar rt cfg
    ((pendingAfter rt cfg batch replies k).filterMap fun i => batch[i]?) items hreads
    (by rw [length_filterMap_get hbound]; exact hanswer) hunfamiliar
  rw [← hreply] at hreject
  obtain ⟨hj, -⟩ := List.getElem?_eq_some_iff.mp hi
  obtain ⟨r, hr⟩ : ∃ r, (interpret rt cfg ((pendingAfter rt cfg batch replies k).filterMap
      fun i => batch[i]?) (replies k))[j]? = some r := by
    refine ⟨_, List.getElem?_eq_getElem ?_⟩
    rw [length_interpret, length_filterMap_get hbound]
    exact hj
  have hretry : needsRetry r = true := by
    have hmem := List.mem_of_getElem? hr
    rw [hreject] at hmem
    obtain ⟨envelope, -, rfl⟩ := List.mem_map.mp hmem
    rfl
  obtain ⟨hlookup, hagain⟩ := lookup_request hi hr
  exact ⟨r, hlookup, hretry, hagain.mpr hretry⟩

/-- A slot that is not handed to the spool keeps its result. -/
theorem settle_keeps {b : HttpBatch} {io : ℕ → SpoolIO} {responses : List IngestResponse}
    (h : (s.settle rt cfg b io).1 = .ok responses) {i : ℕ}
    (hi : i ∉ if cfg.enable_spool then b.unsent else []) : responses[i]? = b.results[i]? := by
  unfold HttpState.settle at h
  cases hspool : cfg.enable_spool with
  | false =>
    rw [hspool, Bool.not_false, Bool.or_true, if_pos rfl] at h
    rw [Except.ok.inj h]
  | true =>
    rw [hspool, if_pos rfl] at hi
    rw [hspool, Bool.not_true, Bool.or_false] at h
    split_ifs at h
    · rw [Except.ok.inj h]
    · dsimp only at h
      generalize HttpState.writeToSpool rt cfg io _ _ = written at h
      obtain ⟨result, s'⟩ := written
      cases result with
      | error e => exact absurd h (by simp [Except.map])
      | ok spooled =>
        obtain rfl := Except.ok.inj h
        refine getElem?_store_of_not_mem (fun p hp hpi => hi ?_) _
        exact hpi ▸ (List.of_mem_zip hp).1

/-- What a call that sends comes to. -/
theorem CloudCall.Sends.handleAlone (h : c.Sends rt s) (hsome : c.envelopes ≠ []) :
    ∃ (batch : List Dict) (s' : HttpState), batch.length = (c.envelopes.map Prod.fst).length ∧
      s.handleAlone rt cfg c =
        { result := (s'.settle rt cfg
            ((start batch).exchange rt cfg c.replies cfg.max_retries).1 c.io).1
          state := (s'.settle rt cfg
            ((start batch).exchange rt cfg c.replies cfg.max_retries).1 c.io).2
          rounds := ((start batch).exchange rt cfg c.replies cfg.max_retries).2
          spooled := if cfg.enable_spool then
              ((start batch).exchange rt cfg c.replies cfg.max_retries).1.unsent
            else [] } := by
  obtain ⟨hspooling, batch, s', hsealed⟩ := h
  have hsame : s'.spooling = s.spooling := by
    obtain ⟨-, -, -, hsame⟩ := @sealAll_history rt s c.envelopes
    rwa [hsealed] at hsame
  refine ⟨batch, s', (length_sealAll hsealed).trans (List.length_map _).symm, ?_⟩
  unfold HttpState.handleAlone
  rw [if_neg (by simp [hsome]), hsealed]
  dsimp only
  rw [hsame, hspooling, if_neg Bool.false_ne_true]

/-- A call that does not send has no requests. -/
theorem rounds_of_not_sends (h : ¬ (c.Sends rt s ∧ c.envelopes ≠ [])) :
    (s.handleAlone rt cfg c).rounds = [] := by
  unfold HttpState.handleAlone
  by_cases hempty : c.envelopes.isEmpty = true
  · rw [if_pos hempty]
  rw [if_neg hempty]
  cases hsealed : s.sealAll rt c.envelopes with
  | mk result s' =>
    cases result with
    | error e => rfl
    | ok batch =>
      dsimp only
      cases hspooling : s'.spooling with
      | true => rfl
      | false =>
        obtain ⟨-, -, -, hsame⟩ := @sealAll_history rt s c.envelopes
        rw [hsealed, hspooling] at hsame
        exact absurd ⟨⟨hsame.symm, batch, s', hsealed⟩, fun h => hempty (by simp [h])⟩ h

/-- What the loop has sent, what it gives up on, and the results it leaves. -/
structure Sent (rt : Runtime) (cfg : HttpConfig) (batch : List Dict) (replies : ℕ → HttpReply)
    (b : HttpBatch) (rounds : List Round) : Prop where
  rounds_iff : ∀ k round, rounds[k]? = some round ↔ k < cfg.max_retries ∧
    pendingAfter rt cfg batch replies k ≠ [] ∧ round = request rt cfg batch replies k
  unsent_iff : ∀ i, i ∈ b.unsent ↔ i ∈ pendingAfter rt cfg batch replies cfg.max_retries
  results : ∀ i < batch.length, b.results[i]? = lastAnswer rounds i

/-- Each request of an exchange holds the elements still pending, and each slot keeps the last
    answer to it. -/
theorem exchange_sent (hsome : batch ≠ []) (replies : ℕ → HttpReply) :
    Sent rt cfg batch replies ((start batch).exchange rt cfg replies cfg.max_retries).1
      ((start batch).exchange rt cfg replies cfg.max_retries).2 := by
  refine ⟨fun k round => ?_, fun i => ?_, fun i hi =>
    results_exchange rt cfg replies batch cfg.one_le_max_retries hi⟩
  · have hrounds := @exchange_rounds rt cfg (start batch) replies cfg.max_retries rfl
      (Nat.zero_add _) (by simpa [start] using hsome) k round
    rw [show (start batch).attempt + k = k from Nat.zero_add k] at hrounds
    exact hrounds
  · obtain ⟨hbound, -, -⟩ := @pendingAfter_sound rt cfg batch replies cfg.max_retries
    rw [unsent_exchange, List.mem_filter, List.contains_iff_mem, List.mem_range]
    exact ⟨fun h => h.2, fun h => ⟨hbound i h, h⟩⟩

section

variable {b : HttpBatch} {rounds : List Round}

/-- The request with the given number was sent if something was left for it. -/
theorem Sent.request_mem (h : Sent rt cfg batch replies b rounds) {k i : ℕ}
    (hk : k < cfg.max_retries) (hi : i ∈ pendingAfter rt cfg batch replies k) :
    rounds[k]? = some (request rt cfg batch replies k) :=
  (h.rounds_iff k _).mpr ⟨hk, List.ne_nil_of_mem hi, rfl⟩

/-- What is not left after a request is not sent again, nor given up on. -/
theorem Sent.over (h : Sent rt cfg batch replies b rounds) {k i : ℕ} (hk : k < cfg.max_retries)
    (hi : i ∉ pendingAfter rt cfg batch replies (k + 1)) :
    (∀ later ∈ rounds.drop (k + 1), i ∉ later.map Prod.fst) ∧ i ∉ b.unsent := by
  constructor
  · intro later hlater hmem
    obtain ⟨m, hm⟩ := List.mem_iff_getElem?.mp hlater
    rw [List.getElem?_drop] at hm
    obtain ⟨-, -, rfl⟩ := (h.rounds_iff _ _).mp hm
    rw [(@pendingAfter_sound rt cfg batch replies _).2.2] at hmem
    exact hi (pendingAfter_subset _ m i hmem)
  · intro hunsent
    obtain ⟨m, hm⟩ := Nat.exists_eq_add_of_le (Nat.succ_le_of_lt hk)
    rw [h.unsent_iff, hm] at hunsent
    exact hi (pendingAfter_subset _ m i hunsent)

/-- The result of a slot that is not sent after a request is the answer to it there. -/
theorem Sent.result (h : Sent rt cfg batch replies b rounds) {k i : ℕ} {r : IngestResponse}
    (hk : k < cfg.max_retries) (hi : i ∈ pendingAfter rt cfg batch replies k)
    (hlookup : (request rt cfg batch replies k).lookup i = some r)
    (hlater : ∀ later ∈ rounds.drop (k + 1), i ∉ later.map Prod.fst) : b.results[i]? = some r := by
  rw [h.results i ((@pendingAfter_sound rt cfg batch replies k).1 i hi)]
  exact lastAnswer_eq (h.request_mem hk hi) hlookup hlater

end

/-- A call that reads element by element gets only arrays of familiar elements, or arrays that ask
    for all of their elements again. -/
theorem ReadElementwise.all_familiar_or (hreads : ReadsWire cfg.validate)
    (hread : ReadElementwise c (s.handleAlone rt cfg c)) (hsends : c.Sends rt s)
    (hsome : c.envelopes ≠ []) {k : ℕ} (hanswered : c.Answered rt cfg k items) :
    AllFamiliar items ∨ AllAskAgain items := by
  obtain ⟨hk, hreply, hanswer⟩ := hanswered
  obtain ⟨batch, s', hlength, houtcome⟩ := @CloudCall.Sends.handleAlone rt cfg s c hsends hsome
  have hpos : batch ≠ [] := by
    rintro rfl
    exact hsome (List.map_eq_nil_iff.mp (List.eq_nil_of_length_eq_zero hlength.symm))
  have hsent := @exchange_sent rt cfg batch hpos c.replies
  rw [houtcome] at hread
  rw [pendingAfter_congr hlength.symm] at hanswer
  generalize (start batch).exchange rt cfg c.replies cfg.max_retries = sent at hsent hread
  obtain ⟨b, rounds⟩ := sent
  dsimp only at hsent
  by_contra hneither
  rw [not_or] at hneither
  obtain ⟨hunfamiliar, hsettled⟩ := hneither
  unfold AllAskAgain at hsettled
  push Not at hsettled
  obtain ⟨d, hitem, hd⟩ := hsettled
  -- the slot of an element that does not ask to be sent again
  obtain ⟨j, hjd⟩ := List.mem_iff_getElem?.mp hitem
  obtain ⟨i, hi⟩ : ∃ i, (pendingAfter rt cfg batch c.replies k)[j]? = some i := by
    obtain ⟨hj, -⟩ := List.getElem?_eq_some_iff.mp hjd
    exact ⟨_, List.getElem?_eq_getElem (lt_of_lt_of_eq hj hanswer.aligned)⟩
  have hmem := List.mem_of_getElem? hi
  obtain ⟨-, -, hslots⟩ := @pendingAfter_sound rt cfg batch c.replies k
  obtain ⟨hlater, hnot, hresult⟩ := hread k _ items (hsent.request_mem hk hmem) hreply
    ⟨by rw [hanswer.aligned, ← hslots, List.length_map], hanswer.elements⟩ j i d
    (by rw [hslots]; exact hi) hjd hd
  obtain ⟨r, hlookup, hretry, hagain⟩ := answered_unfamiliar hreads hreply hanswer hunfamiliar hi
  rcases Nat.lt_or_ge (k + 1) cfg.max_retries with hmore | hover
  · -- the element is sent again
    refine hlater (request rt cfg batch c.replies (k + 1)) ?_ ?_
    · refine List.mem_iff_getElem?.mpr ⟨0, ?_⟩
      rw [List.getElem?_drop]
      exact hsent.request_mem hmore hagain
    · rw [(@pendingAfter_sound rt cfg batch c.replies (k + 1)).2.2]
      exact hagain
  · -- no request is left: the element goes to the spool, or its result asks for a retry
    have hlast : k + 1 = cfg.max_retries := le_antisymm hk hover
    have hunsent : i ∈ b.unsent := (hsent.unsent_iff i).mpr (hlast ▸ hagain)
    cases hspool : cfg.enable_spool with
    | true =>
      rw [hspool, if_pos rfl] at hnot
      exact hnot hunsent
    | false =>
      have hsettle : (s'.settle rt cfg b c.io).1 = .ok b.results := by
        unfold HttpState.settle
        rw [hspool, Bool.not_false, Bool.or_true, if_pos rfl]
      obtain ⟨r', hr', hcarries⟩ := hresult _ hsettle
      rw [hsent.result hk hmem hlookup hlater, Option.some.injEq] at hr'
      exact hd ((needsRetry_iff hcarries).mp (hr' ▸ hretry))

/-- A call that gets only such arrays reads element by element. -/
theorem readElementwise_of_familiar (hreads : ReadsWire cfg.validate) (hsends : c.Sends rt s)
    (hsome : c.envelopes ≠ [])
    (hcond : ∀ k items, c.Answered rt cfg k items → AllFamiliar items ∨ AllAskAgain items) :
    ReadElementwise c (s.handleAlone rt cfg c) := by
  obtain ⟨batch, s', hlength, houtcome⟩ := @CloudCall.Sends.handleAlone rt cfg s c hsends hsome
  have hpos : batch ≠ [] := by
    rintro rfl
    -- what the loop sent and was answered, whatever came of the spool
    exact hsome (List.map_eq_nil_iff.mp (List.eq_nil_of_length_eq_zero hlength.symm))
  have hsent := @exchange_sent rt cfg batch hpos c.replies
  rw [houtcome]
  generalize (start batch).exchange rt cfg c.replies cfg.max_retries = sent at hsent
  obtain ⟨b, rounds⟩ := sent
  dsimp only at hsent
  intro k round items hround hreply hanswer j i d hi hitem hd
  obtain ⟨hk, -, rfl⟩ := (hsent.rounds_iff k _).mp hround
  obtain ⟨-, -, hslots⟩ := @pendingAfter_sound rt cfg batch c.replies k
  rw [hslots] at hi
  have hanswer' : WireAnswer items (pendingAfter rt cfg batch c.replies k).length :=
    ⟨by rw [hanswer.aligned, ← hslots, List.length_map], hanswer.elements⟩
  have hanswered : c.Answered rt cfg k items :=
    ⟨hk, hreply, by rw [pendingAfter_congr hlength.symm]; exact hanswer'⟩
  -- a familiar array is read element by element; one that asks again settles nothing
  rcases hcond k items hanswered with hfamiliar | hall
  · obtain ⟨r, hlookup, hcarries, hagain⟩ :=
      answered_familiar hreads hreply hanswer' hfamiliar hi hitem
    obtain ⟨hlater, hunsent⟩ := hsent.over hk fun h => hd (hagain.mp h)
    have hnot : i ∉ if cfg.enable_spool then b.unsent else [] := by
      split_ifs
      · exact hunsent
      · exact List.not_mem_nil
    refine ⟨hlater, hnot, fun responses hresponses => ⟨r, ?_, hcarries⟩⟩
    rw [settle_keeps hresponses hnot]
    exact hsent.result hk (List.mem_of_getElem? hi) hlookup hlater
  · exact absurd (hall d (List.mem_of_getElem? hitem)) hd

/-- **Read element by element.**  A call treats every element of its answers by its own status and
    flag exactly when every array with an unfamiliar element asks for all of its elements again. -/
theorem read_elementwise_iff (hreads : ReadsWire cfg.validate) (s : HttpState) (c : CloudCall) :
    ReadElementwise c (s.handleAlone rt cfg c) ↔
      (c.Sends rt s → ∀ k items, c.Answered rt cfg k items →
        AllFamiliar items ∨ AllAskAgain items) := by
  by_cases hcall : c.Sends rt s ∧ c.envelopes ≠ []
  · obtain ⟨hsends, hsome⟩ := hcall
    exact ⟨fun hread _ k items => hread.all_familiar_or hreads hsends hsome,
      fun hcond => readElementwise_of_familiar hreads hsends hsome (hcond hsends)⟩
  -- no request is sent, or there is nothing to send
  have hnone := @rounds_of_not_sends rt cfg s c hcall
  constructor
  · rintro - hsends k items ⟨-, -, hanswer⟩
    have hempty : c.envelopes = [] := by
      by_contra hsome
      exact hcall ⟨hsends, hsome⟩
    have hleft : pendingAfter rt cfg (c.envelopes.map Prod.fst) c.replies (0 + k) = [] := by
      rw [hempty]
      exact pendingAfter_nil rfl k
    rw [Nat.zero_add] at hleft
    rw [hleft] at hanswer
    obtain rfl := List.eq_nil_of_length_eq_zero hanswer.aligned
    exact Or.inl fun d hd => absurd hd List.not_mem_nil
  · rintro - k round items hround
    rw [hnone] at hround
    exact absurd hround (by simp)

end

/-! ### A strict reader -/

/-- All error codes. -/
def errorCodes : List ErrorCode :=
  [.SCHEMA_VERSION_MISMATCH, .UNKNOWN_AGENT, .SESSION_NOT_FOUND, .SESSION_CLOSED,
   .SESSION_ALREADY_EXISTS, .DUPLICATE_EVENT, .ACTION_NOT_FOUND, .ACTION_ALREADY_RESOLVED,
   .APPROVAL_PARENT_NOT_FOUND, .VALIDATION_ERROR, .HASH_CHAIN_BROKEN, .STORE_UNAVAILABLE,
   .WRITE_TIMEOUT, .RATE_LIMITED, .INTERNAL_ERROR]

/-- A field that may be missing or `null`. -/
def readOptional {α : Type} (read : Json → Option α) : Json → Option (Option α)
  | .null => some none
  | v => (read v).map some

/-- A string as it stands. -/
def readStr : Json → Option JStr
  | .str text => some text
  | _ => none

/-- An integer as it stands. -/
def readInt : Json → Option ℤ
  | .int n => some n
  | _ => none

/-- A boolean as it stands. -/
def readBool : Json → Option Bool
  | .bool b => some b
  | _ => none

/-- A UUID in its canonical form. -/
def readUuid : Json → Option Uuid
  | .str text => if h : isCanonicalUuid text = true then some ⟨text, h⟩ else none
  | _ => none

/-- One of the error codes known. -/
def readCode : Json → Option ErrorCode
  | .str text => errorCodes.find? fun code => JStr.ofString code.text == text
  | _ => none

/-- The fields, each of its declared type. -/
def readFields (d : Dict) : Option IngestResponse := do
  let status ← readStr (d.get "status")
  let event_id ← readUuid (d.get "event_id")
  let entity_id ← readOptional readUuid (d.get "entity_id")
  let sequence_number ← readOptional readInt (d.get "sequence_number")
  let self_hash ← readOptional readStr (d.get "self_hash")
  let error_code ← readOptional readCode (d.get "error_code")
  let error_message ← readOptional readStr (d.get "error_message")
  let retryable ← readOptional readBool (d.get "retryable")
  return { status := status, event_id := event_id, entity_id := entity_id,
           sequence_number := sequence_number, self_hash := self_hash, error_code := error_code,
           error_message := error_message, retryable := retryable }

/-- `model_validate` on elements whose fields have the declared types. -/
def readResponse : Json → Option IngestResponse
  | .obj d =>
    if d.all fun p => responseFields.any fun key => p.1 == JStr.ofString key then readFields d
    else none
  | _ => none

/-- The text of a UUID is read back. -/
theorem readUuid_text (u : Uuid) : readUuid (.str u.text) = some u := dif_pos u.canonical

/-- The text of an error code is read back. -/
theorem readCode_text (code : ErrorCode) :
    readCode (.str (JStr.ofString code.text)) = some code := by
  cases code <;> decide

/-- Nothing but its own text is read as an error code. -/
theorem readCode_eq_some {text : JStr} {code : ErrorCode} (h : readCode (.str text) = some code) :
    text = JStr.ofString code.text := by
  have hfound : (JStr.ofString code.text == text) = true :=
    @List.find?_some _ (fun code : ErrorCode => JStr.ofString code.text == text) _ _ h
  exact (beq_iff_eq.mp hfound).symm

/-- A response has no field but the declared ones. -/
theorem all_fields_iff {d : Dict} :
    (d.all fun p => responseFields.any fun key => p.1 == JStr.ofString key) = true ↔
      ∀ p ∈ d, ∃ key ∈ responseFields, p.1 = JStr.ofString key := by
  simp only [List.all_eq_true, List.any_eq_true, beq_iff_eq]

/-- A field of the declared type is read. -/
theorem readOptional_eq {α : Type} {read : Json → Option α} {v : Json}
    (h : v = .null ∨ v ≠ .null ∧ ∃ x, read v = some x) :
    ∃ x, readOptional read v = some x := by
  rcases h with rfl | ⟨hne, x, hx⟩
  · exact ⟨none, rfl⟩
  · refine ⟨some x, ?_⟩
    cases v with
    | null => exact absurd rfl hne
    | _ => exact congrArg (Option.map some) hx

/-- Such an element is read if its error code is. -/
theorem readFields_eq {d : Dict} (h : WireResponse d) {code : Option ErrorCode}
    (hcode : readOptional readCode (d.get "error_code") = some code) :
    ∃ r, readFields d = some r ∧ Carries d r := by
  -- Each field is read by itself; null is read as null, and a value of the field's own type as
  -- itself.
  obtain ⟨status, hstatus⟩ : ∃ status, d.get "status" = .str status := by
    rcases h.status with h | h
    · exact ⟨_, h⟩
    · exact ⟨_, h⟩
  obtain ⟨event_id, hevent⟩ := h.event_id
  obtain ⟨entity_id, hentity⟩ : ∃ x, readOptional readUuid (d.get "entity_id") = some x := by
    refine readOptional_eq (h.entity_id.imp_right ?_)
    rintro ⟨u, hu⟩
    exact ⟨by rw [hu]; exact Json.noConfusion, u, by rw [hu]; exact readUuid_text u⟩
  obtain ⟨number, hnumber⟩ : ∃ x, readOptional readInt (d.get "sequence_number") = some x := by
    refine readOptional_eq (h.sequence_number.imp_right ?_)
    rintro ⟨n, hn⟩
    exact ⟨by rw [hn]; exact Json.noConfusion, n, by rw [hn]; rfl⟩
  obtain ⟨self_hash, hhash⟩ : ∃ x, readOptional readStr (d.get "self_hash") = some x := by
    refine readOptional_eq (h.self_hash.imp_right ?_)
    rintro ⟨text, ht⟩
    exact ⟨by rw [ht]; exact Json.noConfusion, text, by rw [ht]; rfl⟩
  obtain ⟨message, hmessage⟩ : ∃ x, readOptional readStr (d.get "error_message") = some x := by
    refine readOptional_eq (h.error_message.imp_right ?_)
    rintro ⟨text, ht⟩
    exact ⟨by rw [ht]; exact Json.noConfusion, text, by rw [ht]; rfl⟩
  obtain ⟨flag, hflag, hcarries⟩ : ∃ flag : Option Bool,
      readOptional readBool (d.get "retryable") = some flag ∧
        d.get "retryable" = (flag.map .bool).getD .null := by
    rcases h.retryable with hnull | ⟨b, hb⟩
    · exact ⟨none, by rw [hnull]; rfl, hnull⟩
    · exact ⟨some b, by rw [hb]; rfl, hb⟩
  refine ⟨{ status := status, event_id := event_id, entity_id := entity_id,
            sequence_number := number, self_hash := self_hash, error_code := code,
            error_message := message, retryable := flag }, ?_, hstatus, hcarries⟩
  unfold readFields
  rw [hstatus, hevent, readUuid_text, hentity, hnumber, hhash, hcode, hmessage, hflag]
  rfl

/-- The strict reader is what the client relies on. -/
theorem readsWire_readResponse : ReadsWire readResponse := by
  constructor
  · intro d hd hfamiliar
    obtain ⟨code, hcode⟩ : ∃ x, readOptional readCode (d.get "error_code") = some x := by
      refine readOptional_eq (hfamiliar.error_code.imp_right ?_)
      rintro ⟨code, hcode⟩
      exact ⟨by rw [hcode]; exact Json.noConfusion, code, by rw [hcode]; exact readCode_text code⟩
    obtain ⟨r, hr, hcarries⟩ := readFields_eq hd hcode
    exact ⟨r, (if_pos (all_fields_iff.mpr hfamiliar.fields)).trans hr, hcarries⟩
  · intro d hd hunfamiliar
    by_cases hfields : (d.all fun p =>
        responseFields.any fun key => p.1 == JStr.ofString key) = true
    · refine (if_pos hfields).trans ?_
      rw [← Option.not_isSome_iff_eq_none]
      intro hsome
      refine hunfamiliar ⟨all_fields_iff.mp hfields, ?_⟩
      rcases hd.error_code with hnull | ⟨text, htext⟩
      · exact Or.inl hnull
      · -- the code is read, so it is one of the registry
        obtain ⟨r, hr⟩ := Option.isSome_iff_exists.mp hsome
        unfold readFields at hr
        simp only [Option.bind_eq_bind, Option.bind_eq_some_iff] at hr
        obtain ⟨-, -, -, -, -, -, -, -, -, -, code, hcode, -⟩ := hr
        rw [htext] at hcode
        obtain ⟨code, hcode, -⟩ := Option.map_eq_some_iff.mp hcode
        exact Or.inr ⟨code, by rw [htext, readCode_eq_some hcode]⟩
    · exact if_neg hfields

/-! ### Two answers -/

/-- A call with two actions, to a server that answers every request with the given array. -/
def twoActions (items : List Json) : CloudCall where
  envelopes :=
    [(exampleAction exampleEvent, exampleEvent), (exampleAction exampleRecord, exampleRecord)]
  replies _ := .response 200 (some (.arr items))
  io := noonIO

/-- One attempt, with the strict reader. -/
def strictConfig : HttpConfig := { oneAttempt with validate := readResponse }

/-- The example hands over a batch that can be sent. -/
theorem twoActions_sends (items : List Json) : (twoActions items).Sends exampleRuntime .init := by
  obtain ⟨batch, s', hsealed, -⟩ := @sealAll_seals exampleRuntime .init (twoActions items).envelopes
    (by
      intro p hp
      rcases List.mem_cons.mp hp with rfl | hp
      · exact exampleAction_emitted _
      · rw [List.mem_singleton.mp hp]
        exact exampleAction_emitted _)
  exact ⟨rfl, batch, s', hsealed⟩

/-- The first action is accepted. -/
def acceptedElement : Dict :=
  Dict.ofFields [("status", .str "accepted"), ("event_id", .str exampleEvent.text)]

/-- The second one is refused for good, with the given code. -/
def refusedElement (code : JStr) : Dict :=
  Dict.ofFields
    [("status", .str "rejected"), ("event_id", .str exampleRecord.text), ("error_code", .str code),
     ("error_message", .str "refused"), ("retryable", .bool false)]

/-- The accepted element of the example is a response of the wire. -/
theorem wireResponse_accepted : WireResponse acceptedElement := by
  constructor <;> simp [acceptedElement, Dict.get_ofFields, List.lookup_cons]

/-- The refused element is a response of the wire whatever its code. -/
theorem wireResponse_refused (code : JStr) : WireResponse (refusedElement code) := by
  constructor <;> simp [refusedElement, Dict.get_ofFields, List.lookup_cons]

/-- The answer with the given code for the second action. -/
def mixedAnswer (code : JStr) : List Json :=
  [.obj acceptedElement, .obj (refusedElement code)]

/-- Both elements of the answer are responses of the wire. -/
theorem mixedAnswer_elements (code : JStr) (item : Json) (hitem : item ∈ mixedAnswer code) :
    ∃ d, item = .obj d ∧ WireResponse d := by
  rcases List.mem_cons.mp hitem with rfl | hitem
  · exact ⟨_, rfl, wireResponse_accepted⟩
  · rw [List.mem_singleton.mp hitem]
    exact ⟨_, rfl, wireResponse_refused code⟩

/-- An acceptance and a refusal with a known code are each taken as they are. -/
theorem read_elementwise_closed :
    ReadElementwise (twoActions (mixedAnswer "SESSION_CLOSED"))
      (HttpState.init.handleAlone exampleRuntime strictConfig
        (twoActions (mixedAnswer "SESSION_CLOSED"))) := by
  refine (read_elementwise_iff readsWire_readResponse .init _).mpr ?_
  rintro - k items ⟨-, hreply, -⟩
  obtain rfl : mixedAnswer "SESSION_CLOSED" = items := by
    simpa [twoActions] using hreply
  left
  intro d hd
  rcases List.mem_cons.mp hd with h | hd
  · obtain rfl := Json.obj.inj h
    constructor
    · simp [acceptedElement, Dict.ofFields, responseFields]
    · simp [acceptedElement, Dict.get_ofFields, List.lookup_cons]
  · obtain rfl := Json.obj.inj (List.mem_singleton.mp hd)
    constructor
    · simp [refusedElement, Dict.ofFields, responseFields]
    · exact Or.inr ⟨.SESSION_CLOSED, by
        simp [refusedElement, Dict.get_ofFields, List.lookup_cons, ErrorCode.text]⟩

/-- With a code the client does not know, the accepted action goes to the spool. -/
theorem not_read_elementwise_unknown :
    ¬ ReadElementwise (twoActions (mixedAnswer "QUOTA_EXHAUSTED"))
      (HttpState.init.handleAlone exampleRuntime strictConfig
        (twoActions (mixedAnswer "QUOTA_EXHAUSTED"))) := by
  intro hread
  have hanswered : (twoActions (mixedAnswer "QUOTA_EXHAUSTED")).Answered exampleRuntime
      strictConfig 0 (mixedAnswer "QUOTA_EXHAUSTED") :=
    ⟨Nat.one_pos, rfl, rfl, mixedAnswer_elements _⟩
  rcases hread.all_familiar_or readsWire_readResponse (twoActions_sends _)
    (List.cons_ne_nil _ _) hanswered with hfamiliar | hall
  · have hunknown := (hfamiliar (refusedElement "QUOTA_EXHAUSTED")
      (List.mem_cons_of_mem _ List.mem_cons_self)).error_code
    rcases hunknown with hnull | ⟨code, hcode⟩
    · simp [refusedElement, Dict.get_ofFields, List.lookup_cons] at hnull
    · revert hcode
      cases code <;> simp [refusedElement, Dict.get_ofFields, List.lookup_cons, ErrorCode.text]
  · have hasks := (hall acceptedElement List.mem_cons_self).1
    simp [acceptedElement, Dict.get_ofFields] at hasks

end RootSign
