import RootSign.Sdk.Decorator
import RootSign.Sdk.Redaction

namespace RootSign

open RootSign.Python

/-!
# Tracing a call (`rootsign/sdk/decorator.py`)

What `@rootsign.trace` does around a call whose arguments and result are any Python objects: it
makes JSON of them, redacts and hashes that, calls the tool and hands the record to the client.

* `Heap` — the objects, with what looking at them comes to;
* `toJsonSafe` — the coercion of an object;
* `emitActionRecord` — one traced call;
* `emitHitlAction` — one gated call, up to the submission of the pending action.
-/

/-! ### Objects -/

variable {ε : Type}

/-- An object, as `_to_json_safe` tells them apart; `ε` are the exceptions.  Iterating a container
    may end with one.  `content` and `type` are the attributes of that name: nothing where missing,
    and for `type` where no `str`. -/
inductive Cell (ε : Type) where
  | none
  | bool (b : Bool)
  | int (n : ℤ)
  | float (x : PyFloat)
  | str (s : JStr)
  | dict (items : List (ℕ × ℕ)) (stop : Option ε)
  | list (items : List ℕ) (stop : Option ε)
  | object (classAccess : Option ε) (content : Except ε (Option ℕ)) (type : Except ε (Option JStr))

/-- Objects by their addresses, and what `str` makes of each. -/
structure Heap (ε : Type) where
  cell : ℕ → Cell ε
  str : ℕ → Except ε JStr
  str_str : ∀ r s, cell r = .str s → str r = .ok s

/-- What the interpreter contributes: the exceptions it raises itself, how many nested calls of
    `_to_json_safe` and nested containers of `json.dumps` fit, the limit of `str` on integers, the
    classes of exceptions, and `str` of an exception.  A `StopIteration` that leaves a coroutine
    becomes a `RuntimeError`; up to Python 3.11 `asyncio.iscoroutine` holds of a generator too, and
    awaiting one raises a `TypeError`. -/
structure Interpreter (ε : Type) where
  recursion_error : ε
  dumps_error : Json → ε
  coercion_depth : ℕ
  encoder_depth : ℕ
  max_digits : ℕ
  isException : ε → Bool
  isPersistence : ε → Bool
  render : ε → Except ε JStr
  isStopIteration : ε → Bool
  stopIterationRaised : ε → ε
  raised_ne : ∀ e, isStopIteration (stopIterationRaised e) = false
  generatorsAreCoroutines : Bool
  generator_error : ε

/-- What an exception is once it has left a coroutine. -/
def Interpreter.leave (w : Interpreter ε) (e : ε) : ε :=
  if w.isStopIteration e then w.stopIterationRaised e else e

/-- The end of an iteration, or a look at an object's class. -/
def raises : Option ε → Except ε Unit
  | some e => .error e
  | none => .ok ()

/-- `d[key] = value`. -/
def setField : Dict → JStr → Json → Dict
  | [], key, value => [(key, value)]
  | (k, v) :: rest, key, value =>
    if k = key then (k, value) :: rest else (k, v) :: setField rest key value

/-- A dict comprehension: a later value replaces an earlier one under the same key. -/
def dictOf (fields : List (JStr × Json)) : Dict :=
  fields.foldl (fun d p => setField d p.1 p.2) []

/-- `_to_json_safe`, with the given number of nested calls left. -/
def toJsonSafe (w : Interpreter ε) (h : Heap ε) : ℕ → ℕ → Except ε Json
  | 0, _ => .error w.recursion_error
  | n + 1, r =>
    match h.cell r with
    | .none => .ok .null
    | .bool b => .ok (.bool b)
    | .int k => .ok (.int k)
    | .float x => .ok (.float x)
    | .str s => .ok (.str s)
    | .dict items stop => do
      let fields ← items.mapM fun p => do
        let key ← h.str p.1
        let value ← toJsonSafe w h n p.2
        return (key, value)
      raises stop
      return .obj (dictOf fields)
    | .list items stop => do
      let values ← items.mapM (toJsonSafe w h n)
      raises stop
      return .arr values
    | .object classAccess content type => do
      raises classAccess
      let content ← content
      let type ← type
      match content, type with
      | some c, some text =>
        let value ← toJsonSafe w h n c
        return .obj (Dict.ofFields [("_message_type", .str text), ("content", value)])
      | _, _ => return .str (← h.str r)

/-! ### Hashing -/

mutual

/-- Whether `json.dumps` takes a value, with the given number of nested containers left. -/
def encodable (w : Interpreter ε) : Json → ℕ → Bool
  | .int k, _ => !tooManyDigits w.max_digits k
  | .arr items, n => decide (0 < n) && encodableItems w items (n - 1)
  | .obj fields, n => decide (0 < n) && encodableFields w fields (n - 1)
  | _, _ => true

def encodableItems (w : Interpreter ε) : List Json → ℕ → Bool
  | [], _ => true
  | v :: rest, n => encodable w v n && encodableItems w rest n

def encodableFields (w : Interpreter ε) : List (JStr × Json) → ℕ → Bool
  | [], _ => true
  | (_, v) :: rest, n => encodable w v n && encodableFields w rest n

end

/-- `compute_payload_hash`. -/
def payloadHash (rt : Runtime) (w : Interpreter ε) (payload : Json) : Except ε JStr :=
  if encodable w payload w.encoder_depth then .ok (computePayloadHash rt payload)
  else .error (w.dumps_error payload)

/-! ### One traced call -/

/-- The arguments of a call. -/
structure CallArgs where
  args : List ℕ
  kwargs : List (JStr × ℕ)

/-- What a plain function returns: an object, a coroutine with what awaiting it comes to, or a
    generator. -/
inductive Returned (ε : Type) where
  | value (h : Heap ε) (r : ℕ)
  | coroutine (awaited : Heap ε × Except ε ℕ)
  | generator (h : Heap ε) (r : ℕ)

/-- A wrapped callable, with the objects as it leaves them. -/
inductive Callable (ε : Type) where
  | coroutineFunction (run : CallArgs → Heap ε × Except ε ℕ)
  | plain (run : CallArgs → Heap ε × Except ε (Returned ε))

/-- The tool's own outcome: what `await func(…)`, or `func(…)` awaited where that is a coroutine,
    comes to. -/
def Callable.outcome (func : Callable ε) (args : CallArgs) : Heap ε × Except ε ℕ :=
  match func with
  | .coroutineFunction run => run args
  | .plain run =>
    match run args with
    | (h, .error e) => (h, .error e)
    | (_, .ok (.value h r)) => (h, .ok r)
    | (_, .ok (.coroutine awaited)) => awaited
    | (_, .ok (.generator h r)) => (h, .ok r)

/-- Whether a generator is awaited that the tool has returned. -/
def Callable.awaitsGenerator (w : Interpreter ε) (func : Callable ε) (args : CallArgs) : Bool :=
  match func with
  | .coroutineFunction _ => false
  | .plain run =>
    match run args with
    | (_, .ok (.generator _ _)) => w.generatorsAreCoroutines
    | _ => false

/-- `result = await maybe if asyncio.iscoroutine(maybe) else maybe`, or `await func(…)`. -/
def Callable.called (w : Interpreter ε) (func : Callable ε) (args : CallArgs) :
    Heap ε × Except ε ℕ :=
  if func.awaitsGenerator w args then ((func.outcome args).1, .error w.generator_error)
  else func.outcome args

/-- `redaction_config.redact(payload) if redaction_config else payload`. -/
def redactWith (rt : Runtime) (w : Interpreter ε) (config : Option RedactionConfig)
    (payload : Json) : Json :=
  match config with
  | some cfg => cfg.redact rt w.max_digits payload
  | none => payload

/-- `_to_json_safe({"args": list(args), "kwargs": dict(kwargs)})`. -/
def coerceInput (w : Interpreter ε) (h : Heap ε) (args : CallArgs) : Except ε Json :=
  match w.coercion_depth with
  | n + 2 => do
    let values ← args.args.mapM (toJsonSafe w h n)
    let fields ← args.kwargs.mapM fun p => do
      let value ← toJsonSafe w h n p.2
      return (p.1, value)
    return .obj (Dict.ofFields [("args", .arr values), ("kwargs", .obj fields)])
  | _ => .error w.recursion_error

/-- `_to_json_safe({"result": result})`. -/
def coerceOutput (w : Interpreter ε) (h : Heap ε) (result : ℕ) : Except ε Json :=
  match w.coercion_depth with
  | n + 1 => do
    let value ← toJsonSafe w h n result
    return .obj (Dict.ofFields [("result", value)])
  | 0 => .error w.recursion_error

/-- One traced call: the wrapped callable with its arguments, and what the rest is supplied with.
    `reply` is what the client returns or raises. -/
structure TraceCall (ε : Type) where
  func : Callable ε
  args : CallArgs
  heap : Heap ε
  config : Option RedactionConfig
  payload_override : Option Dict
  sdk_version : JStr
  tool_name : JStr
  timestamp : UtcNow
  minted : Minted
  reply : Except ε (Option IngestResponse)

/-- What a traced call comes to: the calls of the tool, the envelopes handed to the client, the
    session, and what it returns or raises. -/
structure Traced (ε : Type) where
  calls : List CallArgs
  sent : List Dict
  context : SessionContext
  outcome : Except ε ℕ

namespace TraceCall

variable (rt : Runtime) (w : Interpreter ε) (c : TraceCall ε)

/-- The redacted input. -/
def redactedInput : Except ε Json :=
  match c.payload_override with
  | some payload => .ok (.obj payload)
  | none => (coerceInput w c.heap c.args).map (redactWith rt w c.config)

/-- The redacted input and its hash. -/
def captureInput : Except ε (Json × JStr) := do
  let redacted_input ← c.redactedInput rt w
  let input_hash ← payloadHash rt w redacted_input
  return (redacted_input, input_hash)

/-- The redacted output and its hash, as far as they get, and what is raised on the way. -/
def captureOutput (h : Heap ε) (result : ℕ) : Option Json × Option JStr × Option ε :=
  match coerceOutput w h result with
  | .error e => (none, none, some e)
  | .ok payload =>
    let redacted_output := redactWith rt w c.config payload
    match payloadHash rt w redacted_output with
    | .error e => (some redacted_output, none, some e)
    | .ok output_hash => (some redacted_output, some output_hash, none)

/-- What is captured of what the call comes to. -/
def capture (ran : Heap ε × Except ε ℕ) : Option Json × Option JStr × Option ε :=
  match ran.2 with
  | .error e => (none, none, some e)
  | .ok result => c.captureOutput rt w ran.1 result

/-- `_try_ingest`, after the client has returned or raised: what it raises is logged, unless it is a
    persistence error or no `Exception` at all. -/
def ingest (ctx : SessionContext) : Except ε Unit × SessionContext :=
  match c.reply with
  | .ok response =>
    (.ok (),
      if ∃ r ∈ response, r.status = "accepted" ∨ r.status = "buffered" then
        { ctx with sequence := ctx.sequence + 1 }
      else ctx)
  | .error e =>
    if w.isPersistence e || !w.isException e then (.error e, ctx)
    else ((w.render e).map fun _ => (), ctx)

/-- `_emit_action_record`: a coroutine, which every exception leaves at last. -/
def emitActionRecord (ctx : SessionContext) : Traced ε :=
  match c.captureInput rt w with
  | .error e => { calls := [], sent := [], context := ctx, outcome := .error (w.leave e) }
  | .ok (redacted_input, input_hash) =>
    let ctx' := { ctx with pending_decision_id := none }
    let ran := c.func.called w c.args
    let captured := c.capture rt w ran
    let ingested := c.ingest w ctx'
    { calls := [c.args]
      sent := [actionEnvelope c.sdk_version ctx' c.minted
        { tool_name := c.tool_name
          input_hash := input_hash
          output_hash := captured.2.1
          redacted_input := redacted_input
          redacted_output := captured.1.getD .null
          timestamp := c.timestamp
          authorization_status := "auto_authorized"
          decision_id := ctx.pending_decision_id }]
      context := ingested.2
      outcome :=
        match ingested.1, captured.2.2 with
        | .error e, _ => .error (w.leave e)
        | .ok (), some e => .error (w.leave e)
        | .ok (), none => ran.2.mapError w.leave }

/-! ### One gated call -/

/-- What the operator sees where the caller supplies no builder. -/
def defaultContext (tool_name : JStr) (redacted_input : Json) : Dict :=
  Dict.ofFields
    [("tool_name", .str tool_name),
     ("input_summary", .str ⟨JStr.firstChars 500 (rt.pyStr redacted_input).units⟩)]

/-- A gated call up to the submission of the pending action: the envelopes handed to the client, the
    session, what the operator is shown, and what is raised on the way. -/
structure Pended (ε : Type) where
  sent : List Dict
  context : SessionContext
  context_presented : Option Dict
  raised : Option ε

/-- `_emit_hitl_action` and `_emit_hitl_action_sync`, with the default context, up to the submission
    of the pending action. -/
def emitHitlAction (ctx : SessionContext) : Pended ε :=
  match c.captureInput rt w with
  | .error e => { sent := [], context := ctx, context_presented := none, raised := some e }
  | .ok (redacted_input, input_hash) =>
    let ctx' := { ctx with pending_decision_id := none }
    { sent := [actionEnvelope c.sdk_version ctx' c.minted
        { tool_name := c.tool_name
          input_hash := input_hash
          output_hash := none
          redacted_input := redacted_input
          redacted_output := .null
          timestamp := c.timestamp
          authorization_status := "pending"
          decision_id := ctx.pending_decision_id }]
      context := ctx'
      context_presented := some (defaultContext rt c.tool_name redacted_input)
      raised := none }

end TraceCall

end RootSign
