import RootSign.Hashing
import RootSign.Lib.Linked

namespace RootSign

open RootSign.Lib RootSign.Python

/-!
# Client-side chain construction (`rootsign/chain_state.py`)

The in-memory tail of a session's chain, and the sealer every client-side backend shares.

* `ChainState.sealPayload` mints the next seal, or adopts the one a payload already carries;
  `new_record_id()` is a parameter, the id minted by the call.
* `ChainRegistry.sealPayload` seals through the state of the given session.
* `ChainState.seal_mint`, `ChainState.seal_adopt` — what the two branches do.
* `SealedLog` — the chain a state has minted: numbered `1, 2, …`, linked, and ending at the
  state's tail; `SealedLog.mint` extends it by one.
-/

/-! ### Seals -/

/-- The chain fields a client-side sealer assigns. -/
def sealedFields : List String :=
  ["action_id", "sequence_number", "prev_action_hash", "self_hash"]

/-- The four chain fields for one action, minted or adopted. -/
structure SealedAction where
  action_id : Uuid
  sequence_number : ℤ
  prev_action_hash : Json
  self_hash : JStr
  adopted : Bool := false

/-- The seal in the shape an action payload carries it. -/
def SealedAction.asPayloadFields (s : SealedAction) : List (String × Json) :=
  [("action_id", .str s.action_id.text), ("sequence_number", .int s.sequence_number),
   ("prev_action_hash", s.prev_action_hash), ("self_hash", .str s.self_hash)]

/-- `v is None`. -/
def Json.isNone : Json → Bool
  | .null => true
  | _ => false

/-- A payload that already carries a client-computed seal. -/
def isSealed (payload : Dict) : Bool := !Json.isNone (payload.get "self_hash")

/-- `str` of a list of source literals. -/
def reprNames (names : List String) : JStr :=
  JStr.ofChars ('[' :: (joinComma (names.map fun n => '\'' :: (n.toList ++ ['\''])) ++ [']']))

/-- `str | None` as a value. -/
def optStr : Option JStr → Json
  | some s => .str s
  | none => .null

/-! ### Sealing -/

/-- The tail of one session's hash chain. -/
structure ChainState where
  tail : Option JStr := none
  count : ℤ := 0

namespace ChainState

/-- Adopt the seal a payload carries; the state has advanced even if the id is malformed. -/
def adopt (rt : Runtime) (state : ChainState) (payload : Dict) :
    Except PyError SealedAction × ChainState :=
  let missing := ["action_id", "sequence_number"].filter fun f => Json.isNone (payload.get f)
  if !missing.isEmpty then
    (.error (.valueError ("ACTION_RECORD payload carries self_hash but not " ++
      reprNames missing ++ " — an adopted seal must be complete.")), state)
  else
    match rt.pyInt (payload.get "sequence_number") with
    | .error e => (.error e, state)
    | .ok sequence_number =>
      let self_hash := rt.pyStr (payload.get "self_hash")
      let state' := { tail := some self_hash, count := max state.count sequence_number }
      match rt.toUuid (payload.get "action_id") with
      | .error e => (.error e, state')
      | .ok action_id =>
        (.ok
          { action_id := action_id
            sequence_number := sequence_number
            prev_action_hash := payload.get "prev_action_hash"
            self_hash := self_hash
            adopted := true }, state')

/-- The dict the minted hash is computed from. -/
def mintFields (session_id : Json) (payload : Dict) (action_id : Uuid) (prev : Option JStr)
    (sequence_number : ℤ) : Except PyError Dict := do
  let tool_name ← payload.item "tool_name"
  let input_hash ← payload.item "input_hash"
  let timestamp ← payload.item "timestamp"
  return Dict.ofFields
    [("action_id", .str action_id.text),
     ("session_id", session_id),
     ("tool_name", tool_name),
     ("input_hash", input_hash),
     ("output_hash", payload.get "output_hash"),
     ("prev_action_hash", optStr prev),
     ("timestamp", timestamp),
     ("sequence_number", .int sequence_number)]

/-- Mint the next seal of the chain under the id `fresh`. -/
def mint (rt : Runtime) (fresh : Uuid) (state : ChainState) (session_id : Json)
    (payload : Dict) : Except PyError SealedAction × ChainState :=
  let sequence_number := state.count + 1
  match mintFields session_id payload fresh state.tail sequence_number >>=
      computeActionSelfHash rt with
  | .error e => (.error e, state)
  | .ok self_hash =>
    (.ok
      { action_id := fresh
        sequence_number := sequence_number
        prev_action_hash := optStr state.tail
        self_hash := self_hash },
     { tail := some self_hash, count := sequence_number })

/-- The chain fields for one action, advancing the chain. -/
def sealPayload (rt : Runtime) (fresh : Uuid) (state : ChainState) (session_id : Json)
    (payload : Dict) : Except PyError SealedAction × ChainState :=
  if isSealed payload then adopt rt state payload
  else
    let present := sealedFields.filter fun f => !Json.isNone (payload.get f)
    if !present.isEmpty then
      (.error (.valueError ("partially sealed ACTION_RECORD payload: carries " ++
        reprNames (present.insertionSort (· ≤ ·)) ++
        " but no self_hash. A seal is all four fields or none.")), state)
    else mint rt fresh state session_id payload

end ChainState

/-- Per-session chain states, by `str(session_id)`; a session starts with a fresh one. -/
abbrev ChainRegistry := JStr → ChainState

/-- Seal through the state of the session. -/
def ChainRegistry.sealPayload (rt : Runtime) (fresh : Uuid) (chains : ChainRegistry)
    (session_id : Json) (payload : Dict) : Except PyError SealedAction × ChainRegistry :=
  let result := (chains (rt.pyStr session_id)).sealPayload rt fresh session_id payload
  (result.1, Function.update chains (rt.pyStr session_id) result.2)

/-! ### The two branches -/

/-- An action payload as the SDK emits it: the fields the hash needs, and no seal. -/
structure UnsealedPayload (payload : Dict) : Prop where
  tool_name : payload.has "tool_name"
  input_hash : payload.has "input_hash"
  timestamp : payload.has "timestamp"
  no_action_id : payload.get "action_id" = .null
  no_sequence_number : payload.get "sequence_number" = .null
  no_prev_action_hash : payload.get "prev_action_hash" = .null
  no_self_hash : payload.get "self_hash" = .null

/-- The canonical fields of an action sealed under the given session. -/
def canonicalOfSeal (rt : Runtime) (session_id : Json) (payload : Dict) (s : SealedAction) :
    Canonical where
  action_id := s.action_id.text
  session_id := rt.pyStr session_id
  tool_name := payload.get "tool_name"
  input_hash := payload.get "input_hash"
  output_hash := (payload.get "output_hash").orEmpty
  prev_action_hash := s.prev_action_hash.orEmpty
  timestamp := payload.get "timestamp"
  sequence_number := .int s.sequence_number

namespace ChainState

variable (rt : Runtime) (fresh : Uuid) (state : ChainState) (session_id : Json) {payload : Dict}

/-- The seal minted for a payload. -/
def minted (payload : Dict) : SealedAction :=
  { action_id := fresh
    sequence_number := state.count + 1
    prev_action_hash := optStr state.tail
    self_hash := (canonicalOfSeal rt session_id payload
      { action_id := fresh, sequence_number := state.count + 1,
        prev_action_hash := optStr state.tail, self_hash := "" }).selfHash rt }

/-- The hash in a minted seal is that of the canonical fields. -/
theorem minted_self_hash (payload : Dict) :
    (minted rt fresh state session_id payload).self_hash =
      (canonicalOfSeal rt session_id payload
        (minted rt fresh state session_id payload)).selfHash rt := rfl

/-- **Minting.** An unsealed payload gets the next number, the tail as predecessor, and the
    canonical hash; the chain advances to it. -/
theorem seal_mint (h : UnsealedPayload payload) :
    state.sealPayload rt fresh session_id payload =
      (.ok (minted rt fresh state session_id payload),
       { tail := some (minted rt fresh state session_id payload).self_hash
         count := state.count + 1 }) := by
  -- none of the four fields is there, so the payload is neither sealed nor half sealed
  have hsealed : isSealed payload = false := by simp [isSealed, h.no_self_hash, Json.isNone]
  have hpresent : (sealedFields.filter fun f => !Json.isNone (payload.get f)) = [] := by
    simp [sealedFields, h.no_action_id, h.no_sequence_number, h.no_prev_action_hash,
      h.no_self_hash, Json.isNone]
  have hfields : mintFields session_id payload fresh state.tail (state.count + 1) = .ok
      (Dict.ofFields
        [("action_id", .str fresh.text), ("session_id", session_id),
         ("tool_name", payload.get "tool_name"), ("input_hash", payload.get "input_hash"),
         ("output_hash", payload.get "output_hash"), ("prev_action_hash", optStr state.tail),
         ("timestamp", payload.get "timestamp"),
         ("sequence_number", .int (state.count + 1))]) := by
    simp only [mintFields, Dict.item_of_has h.tool_name, Dict.item_of_has h.input_hash,
      Dict.item_of_has h.timestamp]
    rfl
  -- the digest is over exactly the fields that were put together
  have hhash := computeActionSelfHash_eq rt (r := Dict.ofFields
        [("action_id", .str fresh.text), ("session_id", session_id),
         ("tool_name", payload.get "tool_name"), ("input_hash", payload.get "input_hash"),
         ("output_hash", payload.get "output_hash"), ("prev_action_hash", optStr state.tail),
         ("timestamp", payload.get "timestamp"),
         ("sequence_number", .int (state.count + 1))])
    (by constructor <;> simp [Dict.has_ofFields, List.lookup_cons])
  unfold sealPayload
  rw [hsealed, hpresent]
  simp only [Bool.false_eq_true, if_false, List.isEmpty_nil, Bool.not_true, mint, hfields, bind,
    Except.bind, hhash]
  simp [minted, canonicalOfSeal, Canonical.ofDict, Dict.get_ofFields, List.lookup_cons]

/-- **Adoption.** A payload that carries a complete seal keeps it, and the chain advances to
    it: the tail becomes its hash, whatever its number. -/
theorem seal_adopt {u : Uuid} {n : ℤ} {digest : JStr}
    (hid : payload.get "action_id" = .str u.text)
    (hnumber : payload.get "sequence_number" = .int n)
    (hself : payload.get "self_hash" = .str digest) :
    state.sealPayload rt fresh session_id payload =
      (.ok
        { action_id := u, sequence_number := n,
          prev_action_hash := payload.get "prev_action_hash", self_hash := digest,
          adopted := true },
       { tail := some digest, count := max state.count n }) := by
  simp [sealPayload, isSealed, adopt, hid, hnumber, hself, Json.isNone, Runtime.pyInt]

end ChainState

/-! ### The chain a state has minted -/

/-- One sealed action: the payload and its seal. -/
abbrev SealedEntry := Dict × SealedAction

/-- The log of a session's minted seals, and the state they left: numbered `1, 2, …`, each
    naming the hash of the one before it, hashed canonically, ending at the tail. -/
structure SealedLog (rt : Runtime) (session_id : Json) (log : List SealedEntry)
    (state : ChainState) : Prop where
  count : state.count = log.length
  tail : optStr state.tail = lastSelf (fun e : SealedEntry => Json.str e.2.self_hash) .null log
  number : ∀ (i : ℕ) (hi : i < log.length), log[i].2.sequence_number = i + 1
  linked : LinkedFrom (fun e : SealedEntry => e.2.prev_action_hash)
    (fun e => Json.str e.2.self_hash) .null log
  hashed : ∀ e ∈ log, e.2.self_hash = (canonicalOfSeal rt session_id e.1 e.2).selfHash rt

variable {rt : Runtime} {session_id : Json} {log : List SealedEntry} {state : ChainState}

theorem SealedLog.nil (rt : Runtime) (session_id : Json) : SealedLog rt session_id [] {} where
  count := rfl
  tail := rfl
  number := fun i hi => absurd hi (by simp)
  linked := trivial
  hashed := fun e he => absurd he (by simp)

/-- Minting extends the log by the new seal. -/
theorem SealedLog.mint (h : SealedLog rt session_id log state) (fresh : Uuid) (payload : Dict) :
    SealedLog rt session_id
      (log ++ [(payload, ChainState.minted rt fresh state session_id payload)])
      { tail := some (ChainState.minted rt fresh state session_id payload).self_hash
        count := state.count + 1 } where
  count := by simp [h.count]
  tail := by rw [lastSelf_concat]; rfl
  number := by
    intro i hi
    rw [List.length_append, List.length_singleton] at hi
    rcases Nat.lt_or_ge i log.length with hlt | hge
    · rw [List.getElem_append_left hlt]
      exact h.number i hlt
    · have heq : i = log.length := by omega
      subst heq
      simp [ChainState.minted, h.count]
  linked := by
    rw [linkedFrom_concat]
    exact ⟨h.linked, by rw [← h.tail]; rfl⟩
  hashed := by
    intro e he
    rcases List.mem_append.mp he with he | he
    · exact h.hashed e he
    · rw [List.mem_singleton.mp he]
      exact ChainState.minted_self_hash _ _ _ _ _

end RootSign
