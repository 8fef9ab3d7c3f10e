import RootSign.Python.KeyOrder
import RootSign.RedactionExact
import RootSign.Transparency

namespace RootSign

open RootSign.Python

/-!
# What a record tells of a redacted value

Two calls of a traced tool whose arguments and results differ only where redaction hides it.

* `Alike` — two payloads of one shape that differ at hidden leaves only;
* `redactValue_alike` — redaction makes the same of both, up to the order of the keys;
* `TraceCall.emit` — what the auto-authorized path and the gated path hand on;
* `Discreet` — both calls hand on the same, and each stored payload has its own hash;
* `discreet_iff` — two such calls are discreet exactly when the redacted result can be encoded, if
  there is one, and the order of the keys does not show in what the operator of a gated call sees.
-/

/-! ### Payloads of one shape -/

section

variable (rt : Runtime) (max_digits : ℕ) (rules : List RedactionRule) (match_mode : MatchMode)

/-- Two leaves that a record does not tell apart: they are equal, lie beyond the limit, or both
    match the rule of their path. -/
def LeavesAlike (keys : List JStr) (depth : ℕ) (v w : Json) : Prop :=
  v = w ∨ maxRedactionDepth < depth ∨
    ∃ search, applicableRule rules match_mode (dottedPath keys) = some search ∧
      (v ≠ .null ∧ Hits rt max_digits search v) ∧ w ≠ .null ∧ Hits rt max_digits search w

mutual

/-- Two payloads of one shape that differ at hidden leaves only, under the given keys. -/
def Alike : List JStr → ℕ → Json → Json → Prop
  | keys, depth, .arr items, w =>
    ∃ items', w = .arr items' ∧ ItemsAlike keys (depth + 1) items items'
  | keys, depth, .obj fields, w =>
    (fields.map Prod.fst).Nodup ∧
      ∃ fields', w = .obj fields' ∧ FieldsAlike keys (depth + 1) fields fields'
  | keys, depth, v, w => w.IsLeaf ∧ LeavesAlike rt max_digits rules match_mode keys depth v w

/-- Two lists of one length; the items keep their list's path. -/
def ItemsAlike : List JStr → ℕ → List Json → List Json → Prop
  | _, _, [], items' => items' = []
  | keys, depth, v :: rest, items' =>
    ∃ w rest', items' = w :: rest' ∧ Alike keys depth v w ∧ ItemsAlike keys depth rest rest'

/-- Two dicts with the same keys, in whatever order. -/
def FieldsAlike : List JStr → ℕ → List (JStr × Json) → List (JStr × Json) → Prop
  | _, _, [], fields' => fields' = []
  | keys, depth, (k, v) :: rest, fields' =>
    ∃ w before after, fields' = before ++ (k, w) :: after ∧ Alike (keys ++ [k]) depth v w ∧
      FieldsAlike keys depth rest (before ++ after)

end

end

section

variable {rt : Runtime} {max_digits : ℕ} {rules : List RedactionRule} {match_mode : MatchMode}

/-- The keys begin with one that is not empty. -/
def FirstNamed (keys : List JStr) : Prop := ∃ k rest, keys = k :: rest ∧ k.units ≠ []

/-- A path with a first name has it however deep it goes. -/
theorem FirstNamed.concat {keys : List JStr} (h : FirstNamed keys) (k : JStr) :
    FirstNamed (keys ++ [k]) := by
  obtain ⟨k₀, rest, rfl, hk⟩ := h
  exact ⟨k₀, rest ++ [k], rfl, hk⟩

/-- The path of a field is the dotted path of its keys. -/
theorem FirstNamed.fullPath {keys : List JStr} (h : FirstNamed keys) (k : JStr) :
    RedactionConfig.fullPath (dottedPath keys) k = dottedPath (keys ++ [k]) := by
  obtain ⟨k₀, rest, rfl, hk⟩ := h
  have hsome : (dottedPath (k₀ :: rest)).units.isEmpty = false :=
    List.isEmpty_eq_false_iff.mpr (dottedPath_ne_nil hk rest)
  rw [RedactionConfig.fullPath, hsome, if_neg Bool.false_ne_true]
  exact (dottedPath_concat (List.cons_ne_nil k₀ rest) k).symm

/-- A value that its rule hits is replaced. -/
theorem redactLeaf_hit {path : JStr} {search : JStr → Bool} {v : Json}
    (hrule : applicableRule rules match_mode path = some search)
    (hhits : Hits rt max_digits search v) :
    (RedactionConfig.new rules match_mode).redactLeaf rt max_digits path v =
      redactedPlaceholder := by
  rw [RedactionConfig.redactLeaf, matchedRule_new, hrule]
  dsimp only
  cases htext : RedactionConfig.candidate rt max_digits v with
  | none => rfl
  | some text => simp only [hhits text htext, if_true]

/-- Leaves that are alike are redacted to the same. -/
theorem redactValue_leaves {keys : List JStr} {depth : ℕ} {v w : Json} (hv : v.IsLeaf)
    (hw : w.IsLeaf) (h : LeavesAlike rt max_digits rules match_mode keys depth v w) :
    (RedactionConfig.new rules match_mode).redactValue rt max_digits (dottedPath keys) v depth =
      (RedactionConfig.new rules match_mode).redactValue rt max_digits (dottedPath keys) w
        depth := by
  rcases Nat.lt_or_ge maxRedactionDepth depth with hover | hwithin
  · rw [redactValue_beyond hover, redactValue_beyond hover]
  · rcases h with rfl | hover | ⟨search, hrule, ⟨hvnull, hvhits⟩, hwnull, hwhits⟩
    · rfl
    · omega
    · rw [redactValue_leaf hv hvnull hwithin, redactValue_leaf hw hwnull hwithin,
        redactLeaf_hit hrule hvhits, redactLeaf_hit hrule hwhits]

/-- A redacted leaf is a leaf. -/
theorem isLeaf_redactValue {path : JStr} {depth : ℕ} {v : Json} (hv : v.IsLeaf) :
    ((RedactionConfig.new rules match_mode).redactValue rt max_digits path v depth).IsLeaf := by
  rcases Nat.lt_or_ge maxRedactionDepth depth with hover | hwithin
  · rw [redactValue_beyond hover]
    trivial
  · by_cases hnull : v = .null
    · rw [hnull, redactValue_null hwithin]
      trivial
    · rw [redactValue_leaf hv hnull hwithin]
      rcases redactLeaf_cases with heq | heq
      · rw [heq]
        trivial
      · rw [heq]
        exact hv

/-- Leaves that are equal are the same. -/
theorem same_of_leaf {v w : Json} (hv : v.IsLeaf) (h : v = w) : v.Same w := by
  cases v with
  | arr items => exact absurd hv id
  | obj fields => exact absurd hv id
  | _ => exact h

/-- Alike leaves are redacted to one value. -/
theorem redactValue_same_leaf {keys : List JStr} {depth : ℕ} {v w : Json} (hv : v.IsLeaf)
    (h : w.IsLeaf ∧ LeavesAlike rt max_digits rules match_mode keys depth v w) :
    ((RedactionConfig.new rules match_mode).redactValue rt max_digits (dottedPath keys) v
      depth).Same
      ((RedactionConfig.new rules match_mode).redactValue rt max_digits (dottedPath keys) w
        depth) :=
  same_of_leaf (isLeaf_redactValue hv) (redactValue_leaves hv h.1 h.2)

/-- The fields of a dict that is redacted. -/
theorem redactFields_append (path : JStr) (a b : List (JStr × Json)) (depth : ℕ) :
    (RedactionConfig.new rules match_mode).redactFields rt max_digits path (a ++ b) depth =
      (RedactionConfig.new rules match_mode).redactFields rt max_digits path a depth ++
        (RedactionConfig.new rules match_mode).redactFields rt max_digits path b depth := by
  rw [redactFields_eq_map, redactFields_eq_map, redactFields_eq_map, List.map_append]

/-- Redaction keeps the keys and their order. -/
theorem keys_redactFields (path : JStr) (fields : List (JStr × Json)) (depth : ℕ) :
    ((RedactionConfig.new rules match_mode).redactFields rt max_digits path fields depth).map
      Prod.fst = fields.map Prod.fst := by
  rw [redactFields_eq_map, List.map_map]
  rfl

mutual

/-- **Redaction hides the difference**: it makes the same of payloads that are alike. -/
theorem redactValue_alike : ∀ (keys : List JStr) (depth : ℕ) (v w : Json), FirstNamed keys →
    Alike rt max_digits rules match_mode keys depth v w →
      ((RedactionConfig.new rules match_mode).redactValue rt max_digits (dottedPath keys) v
        depth).Same
        ((RedactionConfig.new rules match_mode).redactValue rt max_digits (dottedPath keys) w
          depth)
  | keys, depth, .arr items, w, hkeys, h => by
    obtain ⟨items', rfl, hitems⟩ := h
    simp only [RedactionConfig.redactValue]
    split_ifs
    · rfl
    · exact ⟨_, rfl, redactItems_alike keys (depth + 1) items items' hkeys hitems⟩
  | keys, depth, .obj fields, w, hkeys, h => by
    obtain ⟨hnodup, fields', rfl, hfields⟩ := h
    simp only [RedactionConfig.redactValue]
    split_ifs
    · rfl
    · exact ⟨by rwa [keys_redactFields], _, rfl,
        redactFields_alike keys (depth + 1) fields fields' hkeys hfields⟩
  | keys, depth, .null, w, _, h => redactValue_same_leaf trivial h
  | keys, depth, .bool _, w, _, h => redactValue_same_leaf trivial h
  | keys, depth, .int _, w, _, h => redactValue_same_leaf trivial h
  | keys, depth, .float _, w, _, h => redactValue_same_leaf trivial h
  | keys, depth, .str _, w, _, h => redactValue_same_leaf trivial h

/-- Alike lists are redacted to the same list, item by item. -/
theorem redactItems_alike : ∀ (keys : List JStr) (depth : ℕ) (items items' : List Json),
    FirstNamed keys → ItemsAlike rt max_digits rules match_mode keys depth items items' →
      SameItems
        ((RedactionConfig.new rules match_mode).redactItems rt max_digits (dottedPath keys) items
          depth)
        ((RedactionConfig.new rules match_mode).redactItems rt max_digits (dottedPath keys) items'
          depth)
  | keys, depth, [], items', _, h => by
    obtain rfl : items' = [] := h
    rfl
  | keys, depth, v :: rest, items', hkeys, h => by
    obtain ⟨w, rest', rfl, hv, hrest⟩ := h
    exact ⟨_, _, rfl, redactValue_alike keys depth v w hkeys hv,
      redactItems_alike keys depth rest rest' hkeys hrest⟩

/-- Alike dicts are redacted to the same dict, whatever the order of their keys. -/
theorem redactFields_alike : ∀ (keys : List JStr) (depth : ℕ) (fields fields' : List (JStr × Json)),
    FirstNamed keys → FieldsAlike rt max_digits rules match_mode keys depth fields fields' →
      SameFields
        ((RedactionConfig.new rules match_mode).redactFields rt max_digits (dottedPath keys) fields
          depth)
        ((RedactionConfig.new rules match_mode).redactFields rt max_digits (dottedPath keys) fields'
          depth)
  | keys, depth, [], fields', _, h => by
    obtain rfl : fields' = [] := h
    rfl
  | keys, depth, (k, v) :: rest, fields', hkeys, h => by
    obtain ⟨w, before, after, rfl, hv, hrest⟩ := h
    have hsame := redactFields_alike keys depth rest _ hkeys hrest
    rw [redactFields_append] at hsame
    simp only [redactFields_append, RedactionConfig.redactFields, hkeys.fullPath]
    exact ⟨_, _, _, rfl, redactValue_alike (keys ++ [k]) depth v w (hkeys.concat k) hv, hsame⟩

end

/-- The fields of a payload, each under a key that is not empty. -/
theorem redactFields_alike_root {depth : ℕ} {fields fields' : List (JStr × Json)}
    (hnamed : ∀ p ∈ fields, p.1.units ≠ [])
    (h : FieldsAlike rt max_digits rules match_mode [] depth fields fields') :
    SameFields
      ((RedactionConfig.new rules match_mode).redactFields rt max_digits "" fields depth)
      ((RedactionConfig.new rules match_mode).redactFields rt max_digits "" fields' depth) := by
  induction fields generalizing fields' with
  | nil =>
    obtain rfl : fields' = [] := h
    rfl
  | cons p rest ih =>
    obtain ⟨k, v⟩ := p
    obtain ⟨w, before, after, rfl, hv, hrest⟩ := h
    have hkey : FirstNamed [k] := ⟨k, [], rfl, hnamed _ List.mem_cons_self⟩
    have hpath : RedactionConfig.fullPath "" k = dottedPath [k] := rfl
    have hsame := ih (fun p hp => hnamed p (List.mem_cons_of_mem _ hp)) hrest
    rw [redactFields_append] at hsame
    simp only [redactFields_append, RedactionConfig.redactFields, hpath]
    exact ⟨_, _, _, rfl, redactValue_alike [k] depth v w hkey hv, hsame⟩

/-- Payloads that are alike are redacted to the same. -/
theorem redact_alike {fields : List (JStr × Json)} {w : Json} (hrules : rules ≠ [])
    (hnamed : ∀ p ∈ fields, p.1.units ≠ [])
    (h : Alike rt max_digits rules match_mode [] 0 (.obj fields) w) :
    ((RedactionConfig.new rules match_mode).redact rt max_digits (.obj fields)).Same
      ((RedactionConfig.new rules match_mode).redact rt max_digits w) := by
  obtain ⟨hnodup, fields', rfl, hfields⟩ := h
  simp only [RedactionConfig.redact, hasRules_new hrules, if_true]
  exact ⟨by rwa [keys_redactFields], _, rfl, redactFields_alike_root hnamed hfields⟩

end

/-! ### What a call hands on -/

/-- The two paths of a traced call. -/
inductive TraceMode where
  | auto
  | gated

variable {ε : Type}

/-- The envelopes a call hands to its client, and what the operator is shown. -/
def TraceCall.emit (rt : Runtime) (w : Interpreter ε) (c : TraceCall ε) (ctx : SessionContext) :
    TraceMode → List Dict × Option Dict
  | .auto => ((c.emitActionRecord rt w ctx).sent, none)
  | .gated => ((c.emitHitlAction rt w ctx).sent, (c.emitHitlAction rt w ctx).context_presented)

/-- The payload of an envelope. -/
def payloadFields (envelope : Dict) : Dict :=
  match envelope.get "payload" with
  | .obj payload => payload
  | _ => []

/-- A payload without its ids and timestamps. -/
def withoutStamps (payload : Dict) : Dict :=
  payload.filter fun p => !(p.1 == "timestamp" || p.1 == "decision_id")

/-- Each payload that is stored has its own hash beside it. -/
structure HashBound (rt : Runtime) (payload : Dict) : Prop where
  input : payload.get "input_redacted" ≠ .null →
    payload.get "input_hash" = .str (computePayloadHash rt (payload.get "input_redacted"))
  output : payload.get "output_redacted" ≠ .null →
    payload.get "output_hash" = .str (computePayloadHash rt (payload.get "output_redacted"))

/-- The payload of an action. -/
theorem payloadFields_actionEnvelope (sdk_version : JStr) (ctx : SessionContext) (m : Minted)
    (a : ActionFields) : payloadFields (actionEnvelope sdk_version ctx m a) = a.payload := by
  simp [payloadFields, actionEnvelope, envelopeOf, Dict.get_ofFields, List.lookup_cons]

/-- What of an action is neither id nor timestamp. -/
theorem withoutStamps_payload (a : ActionFields) :
    withoutStamps a.payload = Dict.ofFields
      [("tool_name", .str a.tool_name), ("input_hash", .str a.input_hash),
       ("output_hash", optStr a.output_hash), ("input_redacted", dictOrNone a.redacted_input),
       ("output_redacted", dictOrNone a.redacted_output),
       ("authorization_status", .str a.authorization_status)] := by
  simp [withoutStamps, ActionFields.payload, Dict.ofFields]

/-- A stored payload is the redacted one. -/
theorem hashBound_iff (rt : Runtime) (a : ActionFields) :
    HashBound rt a.payload ↔
      (∀ d, a.redacted_input = .obj d → a.input_hash = computePayloadHash rt (.obj d)) ∧
        ∀ d, a.redacted_output = .obj d →
          a.output_hash = some (computePayloadHash rt (.obj d)) := by
  have hinput : a.payload.get "input_redacted" = dictOrNone a.redacted_input := by
    simp [ActionFields.payload, Dict.get_ofFields, List.lookup_cons]
  have hinput_hash : a.payload.get "input_hash" = .str a.input_hash := by
    simp [ActionFields.payload, Dict.get_ofFields, List.lookup_cons]
  have houtput : a.payload.get "output_redacted" = dictOrNone a.redacted_output := by
    simp [ActionFields.payload, Dict.get_ofFields, List.lookup_cons]
  have houtput_hash : a.payload.get "output_hash" = optStr a.output_hash := by
    simp [ActionFields.payload, Dict.get_ofFields, List.lookup_cons]
  constructor
  -- a field that holds a payload is not null, so the hash beside it is the one the record names
  · rintro ⟨hin, hout⟩
    rw [hinput, hinput_hash] at hin
    rw [houtput, houtput_hash] at hout
    refine ⟨fun d hd => ?_, fun d hd => ?_⟩
    · rw [hd] at hin
      exact Json.str.inj (hin (by simp [dictOrNone]))
    · rw [hd] at hout
      have hhash := hout (by simp [dictOrNone])
      cases hnone : a.output_hash with
      | none =>
        rw [hnone] at hhash
        exact absurd hhash (by simp [optStr])
      | some digest =>
        rw [hnone] at hhash
        rw [Json.str.inj hhash]
        rfl
  -- conversely a field that holds no payload is written as null, which `HashBound` says nothing of
  · rintro ⟨hin, hout⟩
    refine ⟨fun hne => ?_, fun hne => ?_⟩
    · rw [hinput] at hne ⊢
      rw [hinput_hash]
      cases hd : a.redacted_input with
      | obj d => exact congrArg Json.str (hin d hd)
      | _ => exact absurd (by rw [hd]; rfl) hne
    · rw [houtput] at hne ⊢
      rw [houtput_hash]
      cases hd : a.redacted_output with
      | obj d =>
        rw [hout d hd]
        rfl
      | _ => exact absurd (by rw [hd]; rfl) hne

/-! ### Two calls -/

/-- Two calls hand on the same, ids and timestamps apart, show the operator the same, and bind each
    stored payload to its hash.  Dicts are the same whatever the order of their keys. -/
structure Discreet (rt : Runtime) (e₁ e₂ : List Dict × Option Dict) : Prop where
  records : List.Forall₂ (fun a b => (Json.obj (withoutStamps (payloadFields a))).Same
    (.obj (withoutStamps (payloadFields b)))) e₁.1 e₂.1
  context_presented : e₁.2 = e₂.2
  bound₁ : ∀ envelope ∈ e₁.1, HashBound rt (payloadFields envelope)
  bound₂ : ∀ envelope ∈ e₂.1, HashBound rt (payloadFields envelope)

/-- The two tools return results that are alike, or both raise. -/
def OutcomesAlike (rt : Runtime) (w : Interpreter ε) (rules : List RedactionRule)
    (match_mode : MatchMode) : Heap ε × Except ε ℕ → Heap ε × Except ε ℕ → Prop
  | (h₁, .ok r₁), (h₂, .ok r₂) => ∃ q₁ q₂, coerceOutput w h₁ r₁ = .ok q₁ ∧
      coerceOutput w h₂ r₂ = .ok q₂ ∧ Alike rt w.max_digits rules match_mode [] 0 q₁ q₂
  | (_, .error _), (_, .error _) => True
  | _, _ => False

/-- Two calls of a traced tool with arguments and results that are alike. -/
structure CallsAlike (rt : Runtime) (w : Interpreter ε) (rules : List RedactionRule)
    (match_mode : MatchMode) (mode : TraceMode) (c₁ c₂ : TraceCall ε) : Prop where
  rules_ne : rules ≠ []
  config₁ : c₁.config = some (RedactionConfig.new rules match_mode)
  config₂ : c₂.config = some (RedactionConfig.new rules match_mode)
  captured₁ : c₁.payload_override = none
  captured₂ : c₂.payload_override = none
  tool_name : c₁.tool_name = c₂.tool_name
  input : ∃ p₁ p₂, coerceInput w c₁.heap c₁.args = .ok p₁ ∧
    coerceInput w c₂.heap c₂.args = .ok p₂ ∧ Alike rt w.max_digits rules match_mode [] 0 p₁ p₂
  output : mode = .auto → OutcomesAlike rt w rules match_mode (c₁.func.outcome c₁.args)
    (c₂.func.outcome c₂.args)

/-- The redacted result of a call that is recorded can be encoded. -/
def TraceCall.OutputEncodable (rt : Runtime) (w : Interpreter ε) (c : TraceCall ε) : Prop :=
  ∀ input h result payload, c.captureInput rt w = .ok input →
    c.func.called w c.args = (h, .ok result) → coerceOutput w h result = .ok payload →
      encodable w (redactWith rt w c.config payload) w.encoder_depth = true

/-- If the calls are recorded, both await a generator that the tool has returned, or neither. -/
def GeneratorsAlike (rt : Runtime) (w : Interpreter ε) (c₁ c₂ : TraceCall ε) : Prop :=
  ∀ input, c₁.captureInput rt w = .ok input →
    c₁.func.awaitsGenerator w c₁.args = c₂.func.awaitsGenerator w c₂.args

/-- The operators of two gated calls see the same of the arguments: the texts of the redacted
    arguments, in which the order of their keys may show, begin with the same 500 code points. -/
def OrderUnseen (rt : Runtime) (w : Interpreter ε) (c₁ c₂ : TraceCall ε) : Prop :=
  ∀ input₁ input₂, c₁.captureInput rt w = .ok input₁ → c₂.captureInput rt w = .ok input₂ →
    JStr.firstChars 500 (rt.pyStr input₁.1).units =
      JStr.firstChars 500 (rt.pyStr input₂.1).units

/-- The keys of the redacted arguments come in the same order. -/
def KeysInOrder (rt : Runtime) (w : Interpreter ε) (c₁ c₂ : TraceCall ε) : Prop :=
  ∀ r₁ r₂, c₁.redactedInput rt w = .ok r₁ → c₂.redactedInput rt w = .ok r₂ → r₁.InOrder r₂

section

variable {rt : Runtime} {w : Interpreter ε} {rules : List RedactionRule} {match_mode : MatchMode}
  {mode : TraceMode} {c c₁ c₂ : TraceCall ε} {ctx ctx₁ ctx₂ : SessionContext}

/-- The coerced arguments are a dict with two keys. -/
theorem coerceInput_shape {h : Heap ε} {args : CallArgs} {payload : Json}
    (hok : coerceInput w h args = .ok payload) :
    ∃ fields, payload = .obj fields ∧ ∀ p ∈ fields, p.1.units ≠ [] := by
  unfold coerceInput at hok
  split at hok
  · obtain ⟨values, -, hok⟩ := bind_eq_ok.mp hok
    obtain ⟨fields, -, hok⟩ := bind_eq_ok.mp hok
    obtain rfl := Except.ok.inj hok
    refine ⟨_, rfl, ?_⟩
    intro p hp
    rcases List.mem_pair.mp hp with rfl | rfl
    · exact show (JStr.ofString "args").units ≠ [] by decide
    · exact show (JStr.ofString "kwargs").units ≠ [] by decide
  · exact absurd hok (by simp)

/-- The coerced result is a dict with one key. -/
theorem coerceOutput_shape {h : Heap ε} {result : ℕ} {payload : Json}
    (hok : coerceOutput w h result = .ok payload) :
    ∃ fields, payload = .obj fields ∧ ∀ p ∈ fields, p.1.units ≠ [] := by
  unfold coerceOutput at hok
  split at hok
  · obtain ⟨value, -, hok⟩ := bind_eq_ok.mp hok
    obtain rfl := Except.ok.inj hok
    refine ⟨_, rfl, ?_⟩
    intro p hp
    rw [List.mem_singleton.mp hp]
    exact show (JStr.ofString "result").units ≠ [] by decide
  · exact absurd hok (by simp)

/-- Fields can be encoded if both parts can. -/
theorem encodableFields_append (a b : List (JStr × Json)) (n : ℕ) :
    encodableFields w (a ++ b) n = (encodableFields w a n && encodableFields w b n) := by
  induction a with
  | nil => rfl
  | cons p a ih => rw [List.cons_append, encodableFields, encodableFields, ih, Bool.and_assoc]

mutual

/-- Whether a value can be encoded does not depend on the order of its keys. -/
theorem encodable_same : ∀ {v v' : Json} (n : ℕ), v.Same v' → encodable w v n = encodable w v' n
  | .arr items, _, n, h => by
    obtain ⟨items', rfl, hitems⟩ := h
    rw [encodable, encodable, encodableItems_same (n - 1) hitems]
  | .obj fields, _, n, h => by
    obtain ⟨-, fields', rfl, hfields⟩ := h
    rw [encodable, encodable, encodableFields_same (n - 1) hfields]
  | .null, _, n, h => congrArg (encodable w · n) h
  | .bool _, _, n, h => congrArg (encodable w · n) h
  | .int _, _, n, h => congrArg (encodable w · n) h
  | .float _, _, n, h => congrArg (encodable w · n) h
  | .str _, _, n, h => congrArg (encodable w · n) h

/-- Equal lists can be encoded alike. -/
theorem encodableItems_same : ∀ {items items' : List Json} (n : ℕ), SameItems items items' →
    encodableItems w items n = encodableItems w items' n
  | [], _, n, h => congrArg (encodableItems w · n) (Eq.symm h)
  | v :: rest, _, n, h => by
    obtain ⟨v', rest', rfl, hv, hrest⟩ := h
    rw [encodableItems, encodableItems, encodable_same n hv, encodableItems_same n hrest]

/-- Equal dicts can be encoded alike. -/
theorem encodableFields_same : ∀ {fields fields' : List (JStr × Json)} (n : ℕ),
    SameFields fields fields' → encodableFields w fields n = encodableFields w fields' n
  | [], _, n, h => congrArg (encodableFields w · n) (Eq.symm h)
  | (k, v) :: rest, _, n, h => by
    obtain ⟨v', before, after, rfl, hv, hrest⟩ := h
    rw [encodableFields, encodable_same n hv, encodableFields_same n hrest, encodableFields_append,
      encodableFields_append, encodableFields, Bool.and_left_comm]

end

/-- The hash of a payload does not depend on the order of its keys. -/
theorem computePayloadHash_same {v v' : Json} (h : v.Same v') :
    computePayloadHash rt v = computePayloadHash rt v' := by
  have hdumps := dumps_same h
  cases v with
  | obj fields =>
    obtain ⟨-, fields', rfl, -⟩ := h
    exact congrArg rt.sha256 hdumps
  | arr items =>
    obtain ⟨items', rfl, -⟩ := h
    exact congrArg rt.sha256 hdumps
  | _ => exact congrArg (computePayloadHash rt) h

/-- Payloads that are the same both have a hash, which is one, or neither has. -/
theorem payloadHash_same {v v' : Json} (h : v.Same v') :
    (∃ digest, payloadHash rt w v = .ok digest ∧ payloadHash rt w v' = .ok digest) ∨
      ∃ e e', payloadHash rt w v = .error e ∧ payloadHash rt w v' = .error e' := by
  unfold payloadHash
  rw [← encodable_same w.encoder_depth h, ← computePayloadHash_same h]
  by_cases hencodable : encodable w v w.encoder_depth = true
  · exact Or.inl ⟨_, if_pos hencodable, if_pos hencodable⟩
  · exact Or.inr ⟨_, _, if_neg hencodable, if_neg hencodable⟩

/-- The captured input is the redacted one beside its hash. -/
theorem captureInput_eq_map {r : Json} (hr : c.redactedInput rt w = .ok r) :
    c.captureInput rt w = (payloadHash rt w r).map fun digest => (r, digest) := by
  rw [TraceCall.captureInput, hr]
  show (payloadHash rt w r >>= fun digest => pure (r, digest)) = _
  cases payloadHash rt w r <;> rfl

/-- **No derived field of the input** comes from the raw value: both inputs are captured, as the
    same with one hash, or neither is. -/
theorem CallsAlike.captureInput_same (h : CallsAlike rt w rules match_mode mode c₁ c₂) :
    (∃ r₁ r₂ digest, c₁.captureInput rt w = .ok (r₁, digest) ∧
        c₂.captureInput rt w = .ok (r₂, digest) ∧ c₁.redactedInput rt w = .ok r₁ ∧
        c₂.redactedInput rt w = .ok r₂ ∧ r₁.Same r₂) ∨
      ∃ e₁ e₂, c₁.captureInput rt w = .error e₁ ∧ c₂.captureInput rt w = .error e₂ := by
  obtain ⟨p₁, p₂, hp₁, hp₂, halike⟩ := h.input
  obtain ⟨fields, rfl, hnamed⟩ := coerceInput_shape hp₁
  have hsame := @redact_alike rt w.max_digits _ _ _ _ h.rules_ne hnamed halike
  have hinput₁ : c₁.redactedInput rt w = .ok ((RedactionConfig.new rules match_mode).redact rt
      w.max_digits (.obj fields)) := by
    simp only [TraceCall.redactedInput, h.captured₁, hp₁, Except.map, redactWith, h.config₁]
  have hinput₂ : c₂.redactedInput rt w = .ok ((RedactionConfig.new rules match_mode).redact rt
      w.max_digits p₂) := by
    simp only [TraceCall.redactedInput, h.captured₂, hp₂, Except.map, redactWith, h.config₂]
  rw [captureInput_eq_map hinput₁, captureInput_eq_map hinput₂]
  rcases @payloadHash_same _ rt w _ _ hsame with ⟨digest, h₁, h₂⟩ | ⟨e₁, e₂, h₁, h₂⟩
  · rw [h₁, h₂]
    exact Or.inl ⟨_, _, digest, rfl, rfl, hinput₁, hinput₂, hsame⟩
  · rw [h₁, h₂]
    exact Or.inr ⟨e₁, e₂, rfl, rfl⟩

/-- What the calls come to is alike, if both await a generator or neither does. -/
theorem CallsAlike.called_alike (h : CallsAlike rt w rules match_mode .auto c₁ c₂)
    (hgenerators : c₁.func.awaitsGenerator w c₁.args = c₂.func.awaitsGenerator w c₂.args) :
    OutcomesAlike rt w rules match_mode (c₁.func.called w c₁.args) (c₂.func.called w c₂.args) := by
  unfold Callable.called
  rw [← hgenerators]
  split_ifs
  · trivial
  · exact h.output rfl

/-- **No derived field of the output** comes from the raw value. -/
theorem CallsAlike.capture_same (h : CallsAlike rt w rules match_mode .auto c₁ c₂)
    (hgenerators : c₁.func.awaitsGenerator w c₁.args = c₂.func.awaitsGenerator w c₂.args) :
    ((c₁.capture rt w (c₁.func.called w c₁.args)).1.getD .null).Same
        ((c₂.capture rt w (c₂.func.called w c₂.args)).1.getD .null) ∧
      (c₁.capture rt w (c₁.func.called w c₁.args)).2.1 =
        (c₂.capture rt w (c₂.func.called w c₂.args)).2.1 := by
  have houtcomes := h.called_alike hgenerators
  generalize c₁.func.called w c₁.args = ran₁ at houtcomes
  generalize c₂.func.called w c₂.args = ran₂ at houtcomes
  obtain ⟨h₁, result₁⟩ := ran₁
  obtain ⟨h₂, result₂⟩ := ran₂
  -- by what the two calls came to, which is the same for both: alike arguments raise together
  cases result₁ with
  | error e₁ =>
    cases result₂ with
    | error e₂ => exact ⟨rfl, rfl⟩
    | ok r₂ => exact absurd houtcomes id
  | ok r₁ =>
    cases result₂ with
    | error e₂ => exact absurd houtcomes id
    | ok r₂ =>
      -- two results that differ at leaves a rule takes are redacted to the same document
      obtain ⟨q₁, q₂, hq₁, hq₂, halike⟩ := houtcomes
      obtain ⟨fields, rfl, hnamed⟩ := coerceOutput_shape hq₁
      have hsame := @redact_alike rt w.max_digits _ _ _ _ h.rules_ne hnamed halike
      simp only [TraceCall.capture, TraceCall.captureOutput, hq₁, hq₂, redactWith, h.config₁,
        h.config₂]
      rcases @payloadHash_same _ rt w _ _ hsame with ⟨digest, hd₁, hd₂⟩ | ⟨e₁, e₂, hd₁, hd₂⟩
      · rw [hd₁, hd₂]
        exact ⟨hsame, rfl⟩
      · rw [hd₁, hd₂]
        exact ⟨hsame, rfl⟩

/-- A hash that was computed is the one of its payload. -/
theorem payloadHash_eq {payload : Json} {digest : JStr}
    (h : payloadHash rt w payload = .ok digest) : digest = computePayloadHash rt payload := by
  unfold payloadHash at h
  split at h
  · exact (Except.ok.inj h).symm
  · exact absurd h (by simp)

/-- The hash captured is that of the redacted input. -/
theorem captureInput_hash {redacted : Json} {digest : JStr}
    (h : c.captureInput rt w = .ok (redacted, digest)) :
    digest = computePayloadHash rt redacted := by
  obtain ⟨redacted', -, h⟩ := bind_eq_ok.mp h
  obtain ⟨digest', hdigest, h⟩ := bind_eq_ok.mp h
  obtain ⟨rfl, rfl⟩ := Prod.mk.inj (Except.ok.inj h)
  exact payloadHash_eq hdigest

/-- The record of a gated call has the input beside its hash, and no output. -/
theorem hashBound_gated :
    ∀ envelope ∈ (c.emit rt w ctx .gated).1, HashBound rt (payloadFields envelope) := by
  intro envelope henvelope
  unfold TraceCall.emit TraceCall.emitHitlAction at henvelope
  cases hinput : c.captureInput rt w with
  | error e =>
    simp only [hinput] at henvelope
    exact absurd henvelope (by simp)
  | ok input =>
    obtain ⟨redacted, digest⟩ := input
    simp only [hinput] at henvelope
    rw [List.mem_singleton.mp henvelope, payloadFields_actionEnvelope, hashBound_iff]
    refine ⟨fun d hd => ?_, fun d hd => absurd hd (by simp)⟩
    obtain rfl : redacted = .obj d := hd
    exact captureInput_hash hinput

/-- What is captured of a result is bound to its hash exactly when it can be encoded. -/
theorem captureOutput_bound_iff (hconfig : c.config = some (RedactionConfig.new rules match_mode))
    {h : Heap ε} {result : ℕ} :
    (∀ d, (c.captureOutput rt w h result).1.getD .null = .obj d →
        (c.captureOutput rt w h result).2.1 = some (computePayloadHash rt (.obj d))) ↔
      ∀ payload, coerceOutput w h result = .ok payload →
        encodable w (redactWith rt w c.config payload) w.encoder_depth = true := by
  unfold TraceCall.captureOutput
  cases hpayload : coerceOutput w h result with
  | error e => exact ⟨fun _ payload hok => absurd hok (by simp), fun _ d hd => absurd hd (by simp)⟩
  | ok payload =>
    obtain ⟨fields, rfl, -⟩ := coerceOutput_shape hpayload
    -- the redacted result is a dict, whatever is in it
    obtain ⟨fields', hobj⟩ : ∃ fields', redactWith rt w c.config (.obj fields) = .obj fields' := by
      rw [hconfig]
      simp only [redactWith, RedactionConfig.redact]
      split_ifs
      · exact ⟨_, rfl⟩
      · exact ⟨_, rfl⟩
    dsimp only
    by_cases hencodable : encodable w (.obj fields') w.encoder_depth = true
    · have hhash : payloadHash rt w (.obj fields') = .ok (computePayloadHash rt (.obj fields')) :=
        if_pos hencodable
      rw [hobj, hhash]
      constructor
      · rintro - payload hok
        obtain rfl := Except.ok.inj hok
        rw [hobj]
        exact hencodable
      · intro _ d hd
        obtain rfl := Json.obj.inj hd
        rfl
    · have hhash : payloadHash rt w (.obj fields') = .error (w.dumps_error (.obj fields')) :=
        if_neg hencodable
      rw [hobj, hhash]
      constructor
      · intro hbound
        exact absurd (hbound fields' rfl) (by simp)
      · intro hall
        have hok := hall _ rfl
        rw [hobj] at hok
        exact absurd hok hencodable

/-- The record of an auto-authorized call has each payload beside its hash exactly when the redacted
    result can be encoded, if there is one. -/
theorem hashBound_auto_iff (ctx : SessionContext)
    (hconfig : c.config = some (RedactionConfig.new rules match_mode)) :
    (∀ envelope ∈ (c.emit rt w ctx .auto).1, HashBound rt (payloadFields envelope)) ↔
      c.OutputEncodable rt w := by
  unfold TraceCall.emit TraceCall.emitActionRecord TraceCall.OutputEncodable
  cases hinput : c.captureInput rt w with
  | error e => exact ⟨fun _ input h result payload hok => absurd hok (by simp), by simp⟩
  | ok input =>
    -- the input is always stored with its hash; only the output can be stored without one
    obtain ⟨redacted, digest⟩ := input
    dsimp only
    rw [List.forall_mem_singleton, payloadFields_actionEnvelope, hashBound_iff]
    dsimp only
    have hin : ∀ d, redacted = .obj d → digest = computePayloadHash rt (.obj d) := by
      rintro d rfl
      exact captureInput_hash hinput
    generalize c.func.called w c.args = ran
    obtain ⟨h, result⟩ := ran
    cases result with
    -- a call that raised stores no output
    | error e =>
      have hnone : (c.capture rt w (h, .error e)).1.getD .null = .null := rfl
      constructor
      · intro _ input' h' result' payload _ hok
        exact absurd (congrArg Prod.snd hok) (by simp)
      · exact fun _ => ⟨hin, fun d hd => absurd hd (by simp [hnone])⟩
    | ok result =>
      have hbound : (∀ d, (c.captureOutput rt w h result).1.getD .null = .obj d →
          (c.captureOutput rt w h result).2.1 = some (computePayloadHash rt (.obj d))) ↔
          ∀ payload, coerceOutput w h result = .ok payload →
            encodable w (redactWith rt w c.config payload) w.encoder_depth = true :=
        captureOutput_bound_iff hconfig
      constructor
      · rintro ⟨-, hout⟩ input' h' result' payload - hok hpayload
        obtain ⟨rfl, hresult⟩ := Prod.mk.inj hok
        obtain rfl := Except.ok.inj hresult
        exact hbound.mp hout payload hpayload
      · intro hall
        exact ⟨hin, hbound.mpr fun payload hpayload => hall _ _ _ payload rfl rfl hpayload⟩

/-- Payloads of actions with the same fields, ids and timestamps apart. -/
theorem same_withoutStamps {a b : ActionFields} (htool : a.tool_name = b.tool_name)
    (hin : a.input_hash = b.input_hash) (hout : a.output_hash = b.output_hash)
    (hinput : (dictOrNone a.redacted_input).Same (dictOrNone b.redacted_input))
    (houtput : (dictOrNone a.redacted_output).Same (dictOrNone b.redacted_output))
    (hstatus : a.authorization_status = b.authorization_status) :
    (Json.obj (withoutStamps a.payload)).Same (.obj (withoutStamps b.payload)) := by
  rw [withoutStamps_payload, withoutStamps_payload, htool, hin, hout, hstatus]
  have hhash : (optStr b.output_hash).Same (optStr b.output_hash) := by
    cases b.output_hash <;> rfl
  refine ⟨by simp [Dict.ofFields], _, rfl, ?_⟩
  exact ⟨_, [], _, rfl, rfl, _, [], _, rfl, rfl, _, [], _, rfl, hhash, _, [], _, rfl, hinput,
    _, [], _, rfl, houtput, _, [], _, rfl, rfl, rfl⟩

/-- What is stored of values that are the same. -/
theorem dictOrNone_same {v v' : Json} (h : v.Same v') : (dictOrNone v).Same (dictOrNone v') := by
  cases v with
  | obj fields =>
    obtain ⟨hkeys, fields', rfl, hfields⟩ := h
    exact ⟨hkeys, fields', rfl, hfields⟩
  | arr items =>
    obtain ⟨items', rfl, -⟩ := h
    rfl
  | _ =>
    obtain rfl := h
    rfl

/-- Calls that are alike hand on the same. -/
theorem CallsAlike.records_same (h : CallsAlike rt w rules match_mode mode c₁ c₂)
    (hgenerators : mode = .auto → GeneratorsAlike rt w c₁ c₂) (ctx₁ ctx₂ : SessionContext) :
    List.Forall₂ (fun a b => (Json.obj (withoutStamps (payloadFields a))).Same
      (.obj (withoutStamps (payloadFields b)))) (c₁.emit rt w ctx₁ mode).1
      (c₂.emit rt w ctx₂ mode).1 := by
  have hinput := h.captureInput_same
  cases mode with
  | auto =>
    simp only [TraceCall.emit, TraceCall.emitActionRecord]
    rcases hinput with ⟨r₁, r₂, digest, h₁, h₂, -, -, hsame⟩ | ⟨e₁, e₂, h₁, h₂⟩
    · obtain ⟨houtput, hhash⟩ := h.capture_same (hgenerators rfl _ h₁)
      simp only [h₁, h₂, List.forall₂_cons, payloadFields_actionEnvelope, List.forall₂_nil_left_iff,
        and_true]
      exact same_withoutStamps h.tool_name rfl hhash (dictOrNone_same hsame)
        (dictOrNone_same houtput) rfl
    · simp only [h₁, h₂, List.forall₂_nil_left_iff]
  | gated =>
    simp only [TraceCall.emit, TraceCall.emitHitlAction]
    rcases hinput with ⟨r₁, r₂, digest, h₁, h₂, -, -, hsame⟩ | ⟨e₁, e₂, h₁, h₂⟩
    · simp only [h₁, h₂, List.forall₂_cons, payloadFields_actionEnvelope, List.forall₂_nil_left_iff,
        and_true]
      exact same_withoutStamps h.tool_name rfl rfl (dictOrNone_same hsame) rfl rfl
    · simp only [h₁, h₂, List.forall₂_nil_left_iff]

/-- A result is stored where its payload is, and `null` where a generator is awaited. -/
theorem capture_null_iff (hconfig : c.config = some (RedactionConfig.new rules match_mode))
    {heap : Heap ε} {result : ℕ} {payload : Json}
    (houtcome : c.func.outcome c.args = (heap, .ok result))
    (hpayload : coerceOutput w heap result = .ok payload) :
    dictOrNone ((c.capture rt w (c.func.called w c.args)).1.getD .null) = .null ↔
      c.func.awaitsGenerator w c.args = true := by
  unfold Callable.called
  by_cases hawaits : c.func.awaitsGenerator w c.args = true
  · rw [if_pos hawaits]
    exact iff_of_true rfl hawaits
  · rw [if_neg hawaits, houtcome]
    refine iff_of_false ?_ hawaits
    obtain ⟨fields, rfl, -⟩ := coerceOutput_shape hpayload
    simp only [TraceCall.capture, TraceCall.captureOutput, hpayload, redactWith, hconfig,
      RedactionConfig.redact]
    split_ifs
    · cases payloadHash rt w _ <;> simp [dictOrNone]
    · cases payloadHash rt w _ <;> simp [dictOrNone]

/-- Calls with the same records both await a generator, or neither does. -/
theorem CallsAlike.generatorsAlike (h : CallsAlike rt w rules match_mode .auto c₁ c₂)
    {ctx₁ ctx₂ : SessionContext}
    (hrecords : List.Forall₂ (fun a b => (Json.obj (withoutStamps (payloadFields a))).Same
      (.obj (withoutStamps (payloadFields b)))) (c₁.emit rt w ctx₁ .auto).1
      (c₂.emit rt w ctx₂ .auto).1) : GeneratorsAlike rt w c₁ c₂ := by
  intro input hinput
  rcases h.captureInput_same with ⟨r₁, r₂, digest, h₁, h₂, -⟩ | ⟨e₁, e₂, h₁, -⟩
  swap
  · exact absurd (hinput.symm.trans h₁) (by simp)
  simp only [TraceCall.emit, TraceCall.emitActionRecord, h₁, h₂, List.forall₂_cons,
    payloadFields_actionEnvelope] at hrecords
  obtain ⟨⟨hkeys, fields', hfields', hsame⟩, -⟩ := hrecords
  obtain rfl := Json.obj.inj hfields'
  have hlookup :
    ∀ a : ActionFields, (withoutStamps a.payload).lookup (JStr.ofString "output_redacted") =
      some (dictOrNone a.redacted_output) := by
    intro a
    rw [withoutStamps_payload]
    simp [Dict.ofFields, List.lookup_cons]
  have houtput := hsame.lookup hkeys (hlookup _) (hlookup _)
  have houtcomes := h.output rfl
  cases hran₁ : c₁.func.outcome c₁.args with
  | mk heap₁ result₁ =>
  cases hran₂ : c₂.func.outcome c₂.args with
  | mk heap₂ result₂ =>
  rw [hran₁, hran₂] at houtcomes
  cases result₁ with
  | error e₁ =>
    -- what is raised is no generator
    have hnone : ∀ {c : TraceCall ε} {heap : Heap ε} {e : ε},
        c.func.outcome c.args = (heap, .error e) → c.func.awaitsGenerator w c.args = false := by
      intro c heap e hran
      by_contra hawaits
      obtain ⟨heap', result, hok⟩ := outcome_of_awaitsGenerator (Bool.of_not_eq_false hawaits)
      exact absurd (congrArg Prod.snd (hran.symm.trans hok)) (by simp)
    cases result₂ with
    | error e₂ => rw [hnone hran₁, hnone hran₂]
    | ok r₂ => exact absurd houtcomes id
  | ok r₁ =>
    cases result₂ with
    | error e₂ => exact absurd houtcomes id
    | ok r₂ =>
      obtain ⟨q₁, q₂, hq₁, hq₂, -⟩ := houtcomes
      rw [Bool.eq_iff_iff, ← capture_null_iff h.config₁ hran₁ hq₁,
        ← capture_null_iff h.config₂ hran₂ hq₂]
      exact houtput.null_iff

/-- What the operators of two calls that are alike see. -/
theorem CallsAlike.presented_iff (h : CallsAlike rt w rules match_mode mode c₁ c₂)
    (ctx₁ ctx₂ : SessionContext) :
    (c₁.emit rt w ctx₁ mode).2 = (c₂.emit rt w ctx₂ mode).2 ↔
      (mode = .gated → OrderUnseen rt w c₁ c₂) := by
  cases mode with
  | auto => exact ⟨fun _ hgated => absurd hgated (by simp), fun _ => rfl⟩
  | gated =>
    simp only [TraceCall.emit, TraceCall.emitHitlAction, OrderUnseen, forall_const]
    rcases h.captureInput_same with ⟨r₁, r₂, digest, h₁, h₂, -, -, -⟩ | ⟨e₁, e₂, h₁, h₂⟩
    · simp only [h₁, h₂, TraceCall.defaultContext, h.tool_name, Dict.ofFields, Except.ok.injEq]
      simp
    · simp only [h₁, h₂, true_iff]
      exact fun input₁ input₂ hok => absurd hok (by simp)

/-- Keys in the same order are not seen. -/
theorem CallsAlike.orderUnseen (h : CallsAlike rt w rules match_mode mode c₁ c₂)
    (horder : KeysInOrder rt w c₁ c₂) : OrderUnseen rt w c₁ c₂ := by
  intro input₁ input₂ hok₁ hok₂
  rcases h.captureInput_same with ⟨r₁, r₂, digest, h₁, h₂, hr₁, hr₂, hsame⟩ | ⟨e₁, e₂, h₁, -⟩
  · obtain rfl := Except.ok.inj (hok₁.symm.trans h₁)
    obtain rfl := Except.ok.inj (hok₂.symm.trans h₂)
    rw [eq_of_inOrder hsame (horder r₁ r₂ hr₁ hr₂)]
  · exact absurd (hok₁.symm.trans h₁) (by simp)

/-- A result that is captured is encodable when its payload is. -/
theorem outputEncodable_iff_of_ok {input : Json × JStr} {heap : Heap ε} {result : ℕ}
    {payload : Json} (hinput : c.captureInput rt w = .ok input)
    (hran : c.func.called w c.args = (heap, .ok result))
    (hpayload : coerceOutput w heap result = .ok payload) :
    c.OutputEncodable rt w ↔
      encodable w (redactWith rt w c.config payload) w.encoder_depth = true := by
  refine ⟨fun hall => hall _ _ _ _ hinput hran hpayload, ?_⟩
  intro hencodable input' heap' result' payload' _ hran' hpayload'
  obtain ⟨rfl, hresult⟩ := Prod.mk.inj (hran.symm.trans hran')
  obtain rfl := Except.ok.inj hresult
  obtain rfl := Except.ok.inj (hpayload.symm.trans hpayload')
  exact hencodable

/-- The redacted results of calls that are alike can both be encoded, or neither. -/
theorem CallsAlike.outputEncodable_iff (h : CallsAlike rt w rules match_mode .auto c₁ c₂)
    (hgenerators : GeneratorsAlike rt w c₁ c₂) :
    c₁.OutputEncodable rt w ↔ c₂.OutputEncodable rt w := by
  rcases h.captureInput_same with ⟨r₁, r₂, digest, h₁, h₂, -, -, -⟩ | ⟨e₁, e₂, h₁, h₂⟩
  · have houtcomes := h.called_alike (hgenerators _ h₁)
    cases hran₁ : c₁.func.called w c₁.args with
    | mk heap₁ result₁ =>
    cases hran₂ : c₂.func.called w c₂.args with
    | mk heap₂ result₂ =>
    rw [hran₁, hran₂] at houtcomes
    cases result₁ with
    | error e₁ =>
      cases result₂ with
      | error e₂ =>
        -- neither call returns
        have hnone : ∀ {c : TraceCall ε} {heap : Heap ε} {e : ε},
            c.func.called w c.args = (heap, .error e) → c.OutputEncodable rt w := by
          intro c heap e hran input heap' result payload _ hok
          exact absurd (congrArg Prod.snd (hran.symm.trans hok)) (by simp)
        exact ⟨fun _ => hnone hran₂, fun _ => hnone hran₁⟩
      | ok r₂ => exact absurd houtcomes id
    | ok r₁ =>
      cases result₂ with
      | error e₂ => exact absurd houtcomes id
      | ok r₂ =>
        obtain ⟨q₁, q₂, hq₁, hq₂, halike⟩ := houtcomes
        obtain ⟨fields, rfl, hnamed⟩ := coerceOutput_shape hq₁
        have hsame := @redact_alike rt w.max_digits _ _ _ _ h.rules_ne hnamed halike
        rw [outputEncodable_iff_of_ok h₁ hran₁ hq₁, outputEncodable_iff_of_ok h₂ hran₂ hq₂,
          h.config₁, h.config₂]
        simp only [redactWith]
        rw [encodable_same w.encoder_depth hsame]
  · exact ⟨fun _ input _ _ _ hok => absurd (hok.symm.trans h₂) (by simp),
      fun _ input _ _ _ hok => absurd (hok.symm.trans h₁) (by simp)⟩

/-- Two calls that are alike are discreet when their outputs, and the inputs of gated ones, tell
    nothing more. -/
theorem discreet_of_alike (h : CallsAlike rt w rules match_mode mode c₁ c₂) :
    Discreet rt (c₁.emit rt w ctx₁ mode) (c₂.emit rt w ctx₂ mode) ↔
      (mode = .auto → GeneratorsAlike rt w c₁ c₂ ∧ c₁.OutputEncodable rt w) ∧
        (mode = .gated → OrderUnseen rt w c₁ c₂) := by
  rw [← h.presented_iff ctx₁ ctx₂]
  cases mode with
  | gated =>
    constructor
    · exact fun hdiscreet => ⟨fun hauto => absurd hauto (by simp), hdiscreet.context_presented⟩
    · exact fun hall => ⟨h.records_same (fun hauto => absurd hauto (by simp)) ctx₁ ctx₂, hall.2,
        hashBound_gated, hashBound_gated⟩
  | auto =>
    constructor
    · intro hdiscreet
      have hencodable := (hashBound_auto_iff ctx₁ h.config₁).mp hdiscreet.bound₁
      exact ⟨fun _ => ⟨h.generatorsAlike hdiscreet.records, hencodable⟩,
        hdiscreet.context_presented⟩
    · rintro ⟨hauto, hpresented⟩
      obtain ⟨hgenerators, hfirst⟩ := hauto rfl
      have hsecond := (h.outputEncodable_iff hgenerators).mp hfirst
      exact ⟨h.records_same (fun _ => hgenerators) ctx₁ ctx₂, hpresented,
        (hashBound_auto_iff ctx₁ h.config₁).mpr hfirst,
        (hashBound_auto_iff ctx₂ h.config₂).mpr hsecond⟩

/-- Rules for the arguments and the result that match everything. -/
def callRules : List RedactionRule := [("args", fun _ => true), ("result", fun _ => true)]

/-- The tool that returns its argument, called with a string under these rules. -/
def stringCall (s : JStr) : TraceCall InterpreterError :=
  { identityCall (.str s) with config := some (RedactionConfig.new callRules .leaf) }

/-- Two strings that the rules hide. -/
theorem stringCall_alike (mode : TraceMode) : CallsAlike exampleRuntime exampleInterpreter callRules
    .leaf mode (stringCall "alice") (stringCall "bob") := by
  have hhits : ∀ s : JStr, Json.str s ≠ .null ∧
      Hits exampleRuntime exampleInterpreter.max_digits (fun _ => true) (.str s) :=
    fun s => ⟨by simp, fun _ _ => rfl⟩
  have hleaf : ∀ key : JStr,
      applicableRule callRules .leaf (dottedPath [key]) = some (fun _ => true) →
      ∀ depth, Alike exampleRuntime exampleInterpreter.max_digits callRules .leaf [key] depth
        (.str "alice") (.str "bob") :=
    fun key hrule depth => ⟨trivial, Or.inr (Or.inr ⟨_, hrule, hhits _, hhits _⟩)⟩
  refine ⟨List.cons_ne_nil _ _, rfl, rfl, rfl, rfl, rfl, ⟨_, _, rfl, rfl, ?_⟩,
    fun _ => ⟨_, _, rfl, rfl, ?_⟩⟩
  · refine ⟨by decide, _, rfl, _, [], _, rfl, ?_, _, [], _, rfl, ?_, rfl⟩
    · exact ⟨_, rfl, _, _, rfl, hleaf "args" rfl _, rfl⟩
    · exact ⟨List.nodup_nil, _, rfl, rfl⟩
  · exact ⟨by decide, _, rfl, _, [], _, rfl, hleaf "result" rfl _, rfl⟩

/-- A rule for the arguments that matches everything. -/
def argumentRules : List RedactionRule := [("args", fun _ => true)]

/-- The tool that returns its argument, called with an integer under this rule. -/
def integerCall (n : ℤ) : TraceCall InterpreterError :=
  { identityCall (.int n) with config := some (RedactionConfig.new argumentRules .leaf) }

/-- A call is like itself. -/
theorem integerCall_alike (n : ℤ) : CallsAlike exampleRuntime exampleInterpreter argumentRules .leaf
    .auto (integerCall n) (integerCall n) := by
  have hleaf : ∀ key depth, Alike exampleRuntime exampleInterpreter.max_digits argumentRules .leaf
      key depth (.int n) (.int n) := fun key depth => ⟨trivial, Or.inl rfl⟩
  have hkeys : (["args", "kwargs"] : List JStr).Nodup := by decide
  refine ⟨List.cons_ne_nil _ _, rfl, rfl, rfl, rfl, rfl, ⟨_, _, rfl, rfl, ?_⟩,
    fun _ => ⟨_, _, rfl, rfl, ?_⟩⟩
  · refine ⟨hkeys, _, rfl, _, [], _, rfl, ?_, _, [], _, rfl, ?_, rfl⟩
    · exact ⟨_, rfl, _, _, rfl, hleaf _ _, rfl⟩
    · exact ⟨List.nodup_nil, _, rfl, rfl⟩
  · exact ⟨List.nodup_singleton _, _, rfl, _, [], _, rfl, hleaf _ _, rfl⟩

/-- The arguments are hidden, so the record is made whatever the integer is. -/
theorem integerCall_captured (n : ℤ) :
    ∃ input, (integerCall n).captureInput exampleRuntime exampleInterpreter = .ok input := by
  have hrule : applicableRule argumentRules .leaf "args" = some fun _ => true := rfl
  have hitem : (RedactionConfig.new argumentRules .leaf).redactValue exampleRuntime
      exampleInterpreter.max_digits "args" (.int n) 2 = redactedPlaceholder := by
    have hwithin : 2 ≤ maxRedactionDepth := by decide
    rw [redactValue_leaf (v := .int n) trivial (by simp) hwithin,
      redactLeaf_hit hrule fun _ _ => rfl]
  have hredacted : (integerCall n).redactedInput exampleRuntime exampleInterpreter =
      .ok (.obj (Dict.ofFields [("args", .arr [redactedPlaceholder]), ("kwargs", .obj [])])) := by
    show Except.ok ((RedactionConfig.new argumentRules .leaf).redact exampleRuntime
      exampleInterpreter.max_digits
      (.obj (Dict.ofFields [("args", .arr [.int n]), ("kwargs", .obj [])]))) = _
    rw [redact_eq rfl, redactValue_obj (Nat.zero_le _)]
    simp only [Dict.ofFields, List.map_cons, List.map_nil]
    rw [redactValue_arr (by decide), redactValue_obj (by decide)]
    simp only [List.map_cons, List.map_nil]
    show Except.ok (Json.obj [("args", .arr [(RedactionConfig.new argumentRules .leaf).redactValue
      exampleRuntime exampleInterpreter.max_digits "args" (.int n) 2]), ("kwargs", .obj [])]) = _
    rw [hitem]
  rw [TraceCall.captureInput, hredacted]
  exact ⟨_, rfl⟩

/-- A result that no rule is for is kept as it is, and cannot be encoded if it is too long. -/
theorem not_encodable_result {n : ℤ}
    (hlong : tooManyDigits exampleInterpreter.max_digits n = true) :
    encodable exampleInterpreter (redactWith exampleRuntime exampleInterpreter
      (integerCall n).config (.obj (Dict.ofFields [("result", .int n)])))
      exampleInterpreter.encoder_depth = false := by
  have hrule : applicableRule argumentRules .leaf "result" = none := rfl
  have hvalue : (RedactionConfig.new argumentRules .leaf).redactValue exampleRuntime
      exampleInterpreter.max_digits "result" (.int n) 1 = .int n := by
    have hwithin : 1 ≤ maxRedactionDepth := by decide
    rw [redactValue_leaf (v := .int n) trivial (by simp) hwithin, RedactionConfig.redactLeaf,
      matchedRule_new, hrule]
  have hredacted : redactWith exampleRuntime exampleInterpreter (integerCall n).config
      (.obj (Dict.ofFields [("result", .int n)])) = .obj (Dict.ofFields [("result", .int n)]) := by
    show (RedactionConfig.new argumentRules .leaf).redact exampleRuntime
      exampleInterpreter.max_digits (.obj (Dict.ofFields [("result", .int n)])) = _
    rw [redact_eq rfl, redactValue_obj (Nat.zero_le _)]
    show Json.obj [("result", (RedactionConfig.new argumentRules .leaf).redactValue
      exampleRuntime exampleInterpreter.max_digits "result" (.int n) 1)] = _
    rw [hvalue]
    rfl
  rw [hredacted]
  simp [Dict.ofFields, encodable, encodableFields, hlong]

end

end RootSign
