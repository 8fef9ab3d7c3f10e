import RootSign.Lib.Walks
import RootSign.Python.Sha256
import RootSign.Sdk.Tracing

namespace RootSign

open RootSign.Lib RootSign.Python

/-!
# Tracing and the tool

A traced call makes JSON of any objects at all, and the tool must not notice.

* `Coercible` — no walk through the object is too long, and nothing on the way raises;
* `toJsonSafe_ok_iff` — the coercion returns exactly then;
* `Transparent` — the tool is called once with the original arguments, and its own outcome is the
  outcome;
* `transparent_iff` — a traced call is transparent exactly when the input can be captured, the
  output too if there is one, the tool's outcome can leave a coroutine, and what the client raises
  can be rendered.
-/

section

variable {ε : Type} {w : Interpreter ε} {h : Heap ε} {n r : ℕ}

/-! ### Objects that can be coerced -/

/-- The objects that the coercion goes on to. -/
def Heap.next (h : Heap ε) (r : ℕ) : List ℕ :=
  match h.cell r with
  | .dict items _ => items.map Prod.snd
  | .list items _ => items
  | .object _ (.ok (some c)) (.ok (some _)) => [c]
  | _ => []

/-- Looking at the object itself raises nothing: iterating it, the texts of its keys, its class and
    its attributes, and its own text where that is what it is coerced to. -/
def Heap.Renders (h : Heap ε) (r : ℕ) : Prop :=
  match h.cell r with
  | .dict items stop => (∀ p ∈ items, ∃ text, h.str p.1 = .ok text) ∧ stop = none
  | .list _ stop => stop = none
  | .object classAccess content type =>
    classAccess = none ∧ ∃ c t, content = .ok c ∧ type = .ok t ∧
      (c = none ∨ t = none → ∃ text, h.str r = .ok text)
  | _ => True

/-- **Objects that can be coerced**: every walk through them fits into the calls left, and nothing
    on the way raises. -/
def Coercible (h : Heap ε) (n r : ℕ) : Prop :=
  ∀ k r', Walk h.next k r r' → k < n ∧ h.Renders r'

theorem coercible_succ :
    Coercible h (n + 1) r ↔ h.Renders r ∧ ∀ r' ∈ h.next r, Coercible h n r' := by
  unfold Coercible
  rw [Walk.forall_iff]
  simp only [Nat.zero_lt_succ, true_and, Nat.succ_lt_succ_iff]

/-- An object on a cycle cannot be. -/
theorem not_coercible_of_cycle {k : ℕ} (hcycle : Walk h.next (k + 1) r r) : ¬ Coercible h n r := by
  intro hcoercible
  obtain ⟨m, hm, hwalk⟩ := hcycle.around n
  exact absurd (hcoercible m r hwalk).1 (Nat.not_lt.mpr hm)

theorem mapM_ok_iff {α β : Type} {f : α → Except ε β} {xs : List α} :
    (∃ ys, xs.mapM f = .ok ys) ↔ ∀ x ∈ xs, ∃ y, f x = .ok y := by
  refine ⟨?_, exists_mapM_eq_ok⟩
  rintro ⟨ys, hys⟩ x hx
  have hall := mapM_eq_ok.mp hys
  clear hys
  induction hall with
  | nil => exact absurd hx List.not_mem_nil
  | cons hxy _ ih =>
    rcases List.mem_cons.mp hx with rfl | hx
    · exact ⟨_, hxy⟩
    · exact ih hx

theorem bind_ok_iff {α β : Type} {x : Except ε α} {f : α → Except ε β} :
    (∃ b, x >>= f = .ok b) ↔ ∃ a, x = .ok a ∧ ∃ b, f a = .ok b := by
  cases x <;> simp [bind, Except.bind]

theorem bind_return_ok_iff {α β : Type} {x : Except ε α} {f : α → β} :
    (∃ b, (do return f (← x)) = Except.ok b) ↔ ∃ a, x = .ok a := by
  cases x <;> simp [bind, Except.bind, pure, Except.pure]

theorem raises_ok_iff {stop : Option ε} : (∃ u, raises stop = .ok u) ↔ stop = none := by
  cases stop <;> simp [raises]

/-- **The coercion returns** exactly on these. -/
theorem toJsonSafe_ok_iff : (∃ v, toJsonSafe w h n r = .ok v) ↔ Coercible h n r := by
  induction n generalizing r with
  | zero =>
    refine ⟨fun ⟨v, hv⟩ => absurd hv (by simp [toJsonSafe]), fun hcoercible => ?_⟩
    exact absurd (hcoercible 0 r (.nil r)).1 (Nat.lt_irrefl 0)
  | succ n ih =>
    rw [coercible_succ]
    unfold toJsonSafe Heap.Renders Heap.next
    cases h.cell r with
    | none => simp
    | bool b => simp
    | int k => simp
    | float x => simp
    | str s => simp
    | dict items stop =>
      -- the key of each item first, then its value, and the end of the iteration
      dsimp only
      rw [bind_ok_iff]
      constructor
      · rintro ⟨fields, hfields, hrest⟩
        obtain ⟨u, hstop, -⟩ := bind_ok_iff.mp hrest
        have hitems := mapM_ok_iff.mp ⟨fields, hfields⟩
        refine ⟨⟨fun p hp => ?_, raises_ok_iff.mp ⟨_, hstop⟩⟩, fun r' hr' => ?_⟩
        · obtain ⟨key, hkey, -⟩ := bind_ok_iff.mp (hitems p hp)
          exact ⟨key, hkey⟩
        · obtain ⟨p, hp, rfl⟩ := List.mem_map.mp hr'
          obtain ⟨key, -, hvalue⟩ := bind_ok_iff.mp (hitems p hp)
          obtain ⟨value, hvalue, -⟩ := bind_ok_iff.mp hvalue
          exact ih.mp ⟨value, hvalue⟩
      · rintro ⟨⟨hkeys, rfl⟩, hvalues⟩
        have hitems : ∀ p ∈ items, ∃ field, (do
            let key ← h.str p.1
            let value ← toJsonSafe w h n p.2
            return (key, value)) = Except.ok field := by
          intro p hp
          obtain ⟨key, hkey⟩ := hkeys p hp
          obtain ⟨value, hvalue⟩ := ih.mpr (hvalues p.2 (List.mem_map_of_mem hp))
          exact bind_ok_iff.mpr ⟨key, hkey, bind_ok_iff.mpr ⟨value, hvalue, _, rfl⟩⟩
        obtain ⟨fields, hfields⟩ := mapM_ok_iff.mpr hitems
        exact ⟨fields, hfields, _, rfl⟩
    | list items stop =>
      dsimp only
      rw [bind_ok_iff]
      constructor
      · rintro ⟨values, hvalues, hrest⟩
        obtain ⟨u, hstop, -⟩ := bind_ok_iff.mp hrest
        refine ⟨raises_ok_iff.mp ⟨_, hstop⟩, fun r' hr' => ?_⟩
        exact ih.mp (mapM_ok_iff.mp ⟨values, hvalues⟩ r' hr')
      · rintro ⟨rfl, hvalues⟩
        obtain ⟨values, hvalues⟩ := mapM_ok_iff.mpr fun r' hr' => ih.mpr (hvalues r' hr')
        exact ⟨values, hvalues, _, rfl⟩
    | object classAccess content type =>
      -- the attributes are read before it is known whether they are needed
      dsimp only
      rw [bind_ok_iff]
      cases content with
      | error e => simp [bind, Except.bind]
      | ok c =>
        cases type with
        | error e => simp [bind, Except.bind]
        | ok t =>
          rw [← raises_ok_iff]
          have htext : (∃ v, (do return Json.str (← h.str r)) = Except.ok v) ↔
              ∃ text, h.str r = .ok text := bind_return_ok_iff
          cases c with
          | none =>
            show (∃ u, raises classAccess = .ok u ∧ ∃ v, (do return Json.str (← h.str r)) = _) ↔ _
            rw [htext]
            simp
          | some c =>
            cases t with
            | none =>
              show (∃ u, raises classAccess = .ok u ∧ ∃ v, (do return Json.str (← h.str r)) = _) ↔ _
              rw [htext]
              simp
            | some text =>
              show (∃ u, raises classAccess = .ok u ∧ ∃ v, (do
                let value ← toJsonSafe w h n c
                return Json.obj (Dict.ofFields
                  [("_message_type", .str text), ("content", value)])) = _) ↔ _
              rw [bind_return_ok_iff, ih]
              simp

end

/-! ### What is captured -/

section

variable {ε : Type} {rt : Runtime} {w : Interpreter ε} {c : TraceCall ε}

/-- The objects of the arguments. -/
def CallArgs.objects (a : CallArgs) : List ℕ := a.args ++ a.kwargs.map Prod.snd

/-- **The input can be captured**: the arguments can be coerced, unless the payload is given, and
    the redacted payload can be encoded. -/
structure TraceCall.InputCaptured (rt : Runtime) (w : Interpreter ε) (c : TraceCall ε) : Prop where
  coercible : c.payload_override = none → 2 ≤ w.coercion_depth ∧
    ∀ r ∈ c.args.objects, Coercible c.heap (w.coercion_depth - 2) r
  encodable : ∀ redacted, c.redactedInput rt w = .ok redacted →
    encodable w redacted w.encoder_depth = true

/-- **The output can be captured**: the result can be coerced, and the redacted payload can be
    encoded. -/
structure TraceCall.OutputCaptured (rt : Runtime) (w : Interpreter ε) (c : TraceCall ε)
    (h : Heap ε) (result : ℕ) : Prop where
  depth : 1 ≤ w.coercion_depth
  coercible : Coercible h (w.coercion_depth - 1) result
  encodable : ∀ payload, coerceOutput w h result = .ok payload →
    encodable w (redactWith rt w c.config payload) w.encoder_depth = true

theorem coerceInput_ok_iff {h : Heap ε} {args : CallArgs} :
    (∃ payload, coerceInput w h args = .ok payload) ↔ 2 ≤ w.coercion_depth ∧
      ∀ r ∈ args.objects, Coercible h (w.coercion_depth - 2) r := by
  unfold coerceInput
  -- the coercion of a call takes two levels: the dict of the call and its list of arguments
  split
  case h_1 n hdepth =>
    have hless : w.coercion_depth - 2 = n := by rw [hdepth]; rfl
    rw [hless, bind_ok_iff]
    constructor
    · rintro ⟨values, hvalues, hrest⟩
      obtain ⟨fields, hfields, -⟩ := bind_ok_iff.mp hrest
      refine ⟨by rw [hdepth]; exact Nat.le_add_left 2 n, fun r hr => ?_⟩
      rw [← toJsonSafe_ok_iff]
      rcases List.mem_append.mp hr with hr | hr
      · exact mapM_ok_iff.mp ⟨values, hvalues⟩ r hr
      · obtain ⟨p, hp, rfl⟩ := List.mem_map.mp hr
        obtain ⟨field, hfield⟩ := mapM_ok_iff.mp ⟨fields, hfields⟩ p hp
        exact bind_return_ok_iff.mp ⟨field, hfield⟩
    · rintro ⟨-, hall⟩
      obtain ⟨values, hvalues⟩ := mapM_ok_iff.mpr fun r hr =>
        toJsonSafe_ok_iff.mpr (hall r (List.mem_append_left _ hr))
      have hitems : ∀ p ∈ args.kwargs, ∃ field, (do
          let value ← toJsonSafe w h n p.2
          return (p.1, value)) = Except.ok field := fun p hp =>
        bind_return_ok_iff.mpr (toJsonSafe_ok_iff.mpr
          (hall p.2 (List.mem_append_right _ (List.mem_map_of_mem hp))))
      obtain ⟨fields, hfields⟩ := mapM_ok_iff.mpr hitems
      exact ⟨values, hvalues, bind_ok_iff.mpr ⟨fields, hfields, _, rfl⟩⟩
  case h_2 hdepth =>
    -- a stack of fewer levels raises whatever the arguments
    refine ⟨fun ⟨payload, hpayload⟩ => absurd hpayload (by simp), fun ⟨hle, _⟩ => ?_⟩
    obtain ⟨n, hn⟩ := Nat.exists_eq_add_of_le' hle
    exact absurd hn (hdepth n)

theorem coerceOutput_ok_iff {h : Heap ε} {result : ℕ} :
    (∃ payload, coerceOutput w h result = .ok payload) ↔
      1 ≤ w.coercion_depth ∧ Coercible h (w.coercion_depth - 1) result := by
  unfold coerceOutput
  split
  case h_1 n hdepth =>
    have hless : w.coercion_depth - 1 = n := by rw [hdepth]; rfl
    rw [hless, bind_return_ok_iff, toJsonSafe_ok_iff]
    exact ⟨fun h => ⟨by rw [hdepth]; exact Nat.le_add_left 1 n, h⟩, fun h => h.2⟩
  case h_2 hdepth =>
    rw [hdepth]
    exact ⟨fun ⟨payload, hpayload⟩ => absurd hpayload (by simp), fun h => absurd h.1 (by simp)⟩

/-- A payload is hashed if it can be encoded. -/
theorem payloadHash_ok_iff {payload : Json} :
    (∃ digest, payloadHash rt w payload = .ok digest) ↔
      encodable w payload w.encoder_depth = true := by
  unfold payloadHash
  split_ifs with h
  · exact ⟨fun _ => h, fun _ => ⟨_, rfl⟩⟩
  · exact ⟨fun ⟨digest, hdigest⟩ => absurd hdigest (by simp), fun h' => absurd h' h⟩

theorem captureInput_ok_iff :
    (∃ captured, c.captureInput rt w = .ok captured) ↔ c.InputCaptured rt w := by
  have hredacted : (∃ redacted, c.redactedInput rt w = .ok redacted) ↔
      (c.payload_override = none → 2 ≤ w.coercion_depth ∧
        ∀ r ∈ c.args.objects, Coercible c.heap (w.coercion_depth - 2) r) := by
    unfold TraceCall.redactedInput
    rw [← coerceInput_ok_iff]
    cases c.payload_override with
    | some payload => simp
    | none => cases coerceInput w c.heap c.args <;> simp [Except.map]
  unfold TraceCall.captureInput
  rw [bind_ok_iff]
  constructor
  · rintro ⟨redacted, hok, hrest⟩
    refine ⟨hredacted.mp ⟨redacted, hok⟩, fun redacted' hok' => ?_⟩
    obtain rfl := Except.ok.inj (hok.symm.trans hok')
    exact payloadHash_ok_iff.mp (bind_return_ok_iff.mp hrest)
  · intro h
    obtain ⟨redacted, hok⟩ := hredacted.mpr h.coercible
    exact ⟨redacted, hok,
      bind_return_ok_iff.mpr (payloadHash_ok_iff.mpr (h.encodable redacted hok))⟩

theorem captureOutput_ok_iff {h : Heap ε} {result : ℕ} :
    (c.captureOutput rt w h result).2.2 = none ↔ c.OutputCaptured rt w h result := by
  unfold TraceCall.captureOutput
  cases hpayload : coerceOutput w h result with
  | error e =>
    refine ⟨fun h => absurd h (by simp), fun captured => ?_⟩
    obtain ⟨payload, hok⟩ := coerceOutput_ok_iff.mpr ⟨captured.depth, captured.coercible⟩
    exact absurd (hpayload.symm.trans hok) (by simp)
  | ok payload =>
    obtain ⟨hdepth, hcoercible⟩ := coerceOutput_ok_iff.mp ⟨payload, hpayload⟩
    dsimp only
    cases hhash : payloadHash rt w (redactWith rt w c.config payload) with
    | error e =>
      refine ⟨fun h => absurd h (by simp), fun captured => ?_⟩
      obtain ⟨digest, hok⟩ :=
        (@payloadHash_ok_iff _ rt _ _).mpr (captured.encodable payload hpayload)
      exact absurd (hhash.symm.trans hok) (by simp)
    | ok digest =>
      refine ⟨fun _ => ⟨hdepth, hcoercible, fun payload' hok => ?_⟩, fun _ => rfl⟩
      obtain rfl := Except.ok.inj (hpayload.symm.trans hok)
      exact payloadHash_ok_iff.mp ⟨digest, hhash⟩

/-! ### Transparency -/

/-- **Tracing is transparent**: the tool is called once, with the original arguments, and its own
    outcome is the outcome. -/
structure Transparent (c : TraceCall ε) (run : Traced ε) : Prop where
  once : run.calls = [c.args]
  outcome : run.outcome = (c.func.outcome c.args).2

/-- What the client raises is an `Exception` that is no persistence error. -/
def TraceCall.ClientRaises (w : Interpreter ε) (c : TraceCall ε) : Prop :=
  ∀ e, c.reply = .error e → w.isException e = true ∧ w.isPersistence e = false

/-- **What the client raises can be rendered**, or rendering it raises what the tool has raised. -/
def TraceCall.ClientRenders (w : Interpreter ε) (c : TraceCall ε) : Prop :=
  ∀ e e', c.reply = .error e → w.render e = .error e' →
    (c.func.outcome c.args).2 = .error (w.leave e')

/-- **The tool's outcome can leave a coroutine**: it raises no `StopIteration`, and returns no
    generator where that is awaited. -/
structure TraceCall.ToolLeaves (w : Interpreter ε) (c : TraceCall ε) : Prop where
  raised : ∀ e, (c.func.outcome c.args).2 = .error e → w.isStopIteration e = false
  returned : c.func.awaitsGenerator w c.args = false

/-- Where every exception can be rendered, it is `tryIngest`. -/
theorem ingest_eq_tryIngest {w : Interpreter ClientError} {c : TraceCall ClientError}
    {reply : Except ClientError IngestResponse} {ctx : SessionContext}
    (hreply : c.reply = reply.map some) (hrender : ∀ e, ∃ text, w.render e = .ok text)
    (hexception : ∀ e, w.isException e = true)
    (hpersistence : ∀ e, w.isPersistence e = false ↔ ∃ e', e = .python e') :
    c.ingest w ctx = ((tryIngest ctx reply).1.map fun _ => (), (tryIngest ctx reply).2) := by
  unfold TraceCall.ingest
  rw [hreply]
  cases reply with
  | ok response =>
    simp only [Except.map, Option.mem_def, Option.some.injEq, exists_eq_left', tryIngest]
  | error e =>
    obtain ⟨text, htext⟩ := hrender e
    simp only [Except.map, hexception, Bool.not_true, Bool.or_false, htext]
    cases e with
    | python e =>
      rw [(hpersistence _).mpr ⟨e, rfl⟩, if_neg Bool.false_ne_true]
      rfl
    | hitlPersistence message =>
      rw [if_pos]
      · rfl
      · exact Bool.of_not_eq_false fun h => absurd ((hpersistence _).mp h) (by simp)
    | recordPersistence message =>
      rw [if_pos]
      · rfl
      · exact Bool.of_not_eq_false fun h => absurd ((hpersistence _).mp h) (by simp)

/-- What leaves `_try_ingest` is what rendering raises. -/
theorem ingest_error_iff (hclient : c.ClientRaises w) {ctx : SessionContext} {e' : ε} :
    (c.ingest w ctx).1 = .error e' ↔ ∃ e, c.reply = .error e ∧ w.render e = .error e' := by
  unfold TraceCall.ingest
  cases hreply : c.reply with
  | ok response => simp
  | error e =>
    obtain ⟨hexception, hpersistence⟩ := hclient e hreply
    dsimp only
    rw [hexception, hpersistence, if_neg (by simp)]
    cases hrender : w.render e <;> simp [Except.map, hrender]

/-- A generator that is awaited is what the tool has returned. -/
theorem outcome_of_awaitsGenerator (h : c.func.awaitsGenerator w c.args = true) :
    ∃ heap result, c.func.outcome c.args = (heap, .ok result) := by
  unfold Callable.awaitsGenerator at h
  unfold Callable.outcome
  split at h
  · exact absurd h Bool.false_ne_true
  · split at h
    · rename_i run _ heap result hrun
      rw [hrun]
      exact ⟨heap, result, rfl⟩
    · exact absurd h Bool.false_ne_true

/-- Only a `StopIteration` is another exception once it has left. -/
theorem leave_eq_iff {e : ε} : w.leave e = e ↔ w.isStopIteration e = false := by
  unfold Interpreter.leave
  split_ifs with hstop
  · refine ⟨fun heq => ?_, fun h => absurd (h.symm.trans hstop) Bool.false_ne_true⟩
    rw [← heq]
    exact w.raised_ne e
  · exact iff_of_true rfl (Bool.eq_false_of_not_eq_true hstop)

/-- No `StopIteration` has left a coroutine. -/
theorem isStopIteration_leave (e : ε) : w.isStopIteration (w.leave e) = false := by
  unfold Interpreter.leave
  split_ifs with hstop
  · exact w.raised_ne e
  · exact Bool.eq_false_of_not_eq_true hstop

/-- Nothing that the wrapper does shows, if all of it can be done. -/
theorem transparent_of_captured (hclient : c.ClientRaises w) {ctx : SessionContext}
    (hinput : c.InputCaptured rt w) (htool : c.ToolLeaves w)
    (houtput : ∀ h result, c.func.outcome c.args = (h, .ok result) → c.OutputCaptured rt w h result)
    (hrenders : c.ClientRenders w) : Transparent c (c.emitActionRecord rt w ctx) := by
  obtain ⟨⟨redacted_input, input_hash⟩, hcaptured⟩ := captureInput_ok_iff.mpr hinput
  have hcalled : c.func.called w c.args = c.func.outcome c.args := by
    rw [Callable.called, htool.returned, if_neg Bool.false_ne_true]
  unfold TraceCall.emitActionRecord
  rw [hcaptured]
  refine ⟨rfl, ?_⟩
  dsimp only
  rw [hcalled]
  cases hingest : (c.ingest w { ctx with pending_decision_id := none }).1 with
  | error e' =>
    obtain ⟨e, hreply, hrender⟩ := (ingest_error_iff hclient).mp hingest
    exact (hrenders e e' hreply hrender).symm
  | ok u =>
    unfold TraceCall.capture
    cases hran : c.func.outcome c.args with
    | mk h result =>
      cases result with
      | error e =>
        have hraised := htool.raised e (congrArg Prod.snd hran)
        exact congrArg Except.error (leave_eq_iff.mpr hraised)
      | ok result =>
        dsimp only
        rw [captureOutput_ok_iff.mpr (houtput h result hran)]
        rfl

/-- A transparent call returns what the tool returns, where nothing was raised around it. -/
theorem Transparent.captured (hclient : c.ClientRaises w) {ctx : SessionContext}
    (h : Transparent c (c.emitActionRecord rt w ctx)) :
    c.InputCaptured rt w ∧ c.ToolLeaves w ∧
      (∀ heap result, c.func.outcome c.args = (heap, .ok result) →
        c.OutputCaptured rt w heap result) ∧ c.ClientRenders w := by
  unfold TraceCall.emitActionRecord at h
  cases hcaptured : c.captureInput rt w with
  | error e =>
    -- the tool is not called
    rw [hcaptured] at h
    exact absurd h.once (by simp)
  | ok captured =>
    obtain ⟨redacted_input, input_hash⟩ := captured
    rw [hcaptured] at h
    have houtcome := h.outcome
    dsimp only at houtcome
    -- what was raised has left the coroutine
    have hraised : ∀ e, (c.func.outcome c.args).2 = .error e → w.isStopIteration e = false := by
      intro e he
      rw [he] at houtcome
      have hleft : ∃ e', e = w.leave e' := by
        split at houtcome
        · exact ⟨_, (Except.error.inj houtcome).symm⟩
        · exact ⟨_, (Except.error.inj houtcome).symm⟩
        · cases hran : (c.func.called w c.args).2 with
          | error e' =>
            rw [hran] at houtcome
            exact ⟨e', (Except.error.inj houtcome).symm⟩
          | ok result =>
            rw [hran] at houtcome
            exact absurd houtcome (by simp [Except.mapError])
      obtain ⟨e', rfl⟩ := hleft
      exact isStopIteration_leave e'
    have hreturned : c.func.awaitsGenerator w c.args = false := by
      by_contra hawaits
      rw [Bool.not_eq_false] at hawaits
      obtain ⟨heap, result, hran⟩ := outcome_of_awaitsGenerator hawaits
      rw [Callable.called, hawaits, if_pos rfl, hran] at houtcome
      dsimp only at houtcome
      split at houtcome
      · exact absurd houtcome (by simp)
      · exact absurd houtcome (by simp)
      · exact absurd houtcome (by simp [Except.mapError])
    have hcalled : c.func.called w c.args = c.func.outcome c.args := by
      rw [Callable.called, hreturned, if_neg Bool.false_ne_true]
    rw [hcalled] at houtcome
    refine ⟨captureInput_ok_iff.mp ⟨_, hcaptured⟩, ⟨hraised, hreturned⟩,
      fun heap result hran => ?_, ?_⟩
    · rw [← captureOutput_ok_iff]
      by_contra hfailed
      obtain ⟨e, he⟩ := Option.ne_none_iff_exists'.mp hfailed
      unfold TraceCall.capture at houtcome
      rw [hran] at houtcome
      dsimp only at houtcome
      rw [he] at houtcome
      cases hingest : (c.ingest w { ctx with pending_decision_id := none }).1 with
      | error e' => rw [hingest] at houtcome; exact absurd houtcome (by simp)
      | ok u => rw [hingest] at houtcome; exact absurd houtcome (by simp)
    · intro e e' hreply hrender
      have hingest : (c.ingest w { ctx with pending_decision_id := none }).1 = .error e' :=
        (ingest_error_iff hclient).mpr ⟨e, hreply, hrender⟩
      rw [hingest] at houtcome
      exact houtcome.symm

/-- **Tracing is transparent** exactly when the input can be captured, the tool's outcome can leave
    a coroutine, the output can be captured if there is one, and what the client raises can be
    rendered. -/
theorem transparent_iff (rt : Runtime) (w : Interpreter ε) (c : TraceCall ε) (ctx : SessionContext)
    (hclient : c.ClientRaises w) :
    Transparent c (c.emitActionRecord rt w ctx) ↔
      c.InputCaptured rt w ∧ c.ToolLeaves w ∧
        (∀ h result, c.func.outcome c.args = (h, .ok result) → c.OutputCaptured rt w h result) ∧
          c.ClientRenders w :=
  ⟨fun h => h.captured hclient, fun h => transparent_of_captured hclient h.1 h.2.1 h.2.2.1 h.2.2.2⟩

end

/-! ### Two calls -/

/-- What the interpreter raises itself, and what a tool may raise. -/
inductive InterpreterError where
  | recursionError
  | valueError
  | stopIteration
  | runtimeError
  | typeError

/-- An interpreter with room for a hundred calls. -/
def exampleInterpreter : Interpreter InterpreterError where
  recursion_error := .recursionError
  dumps_error := fun _ => .valueError
  coercion_depth := 100
  encoder_depth := 100
  max_digits := 4300
  isException := fun _ => true
  isPersistence := fun _ => false
  render := fun _ => .ok "error"
  isStopIteration := fun
    | .stopIteration => true
    | _ => false
  stopIterationRaised := fun _ => .runtimeError
  raised_ne := fun _ => rfl
  generatorsAreCoroutines := true
  generator_error := .typeError

/-- The integer 1, or a list that contains itself. -/
def oneObject (cell : Cell InterpreterError) : Heap InterpreterError where
  cell := fun _ => cell
  str := fun _ => .ok (match cell with | .str s => s | _ => "object")
  str_str := by
    rintro - s rfl
    rfl

/-- A tool that returns its argument, called with the object. -/
def identityCall (cell : Cell InterpreterError) : TraceCall InterpreterError where
  func := .plain fun _ => (oneObject cell, .ok (.value (oneObject cell) 0))
  args := ⟨[0], []⟩
  heap := oneObject cell
  config := none
  payload_override := none
  sdk_version := "1"
  tool_name := "identity"
  timestamp := mayNoon
  minted := ⟨freshUuid 5, mayNoon⟩
  reply := .ok none

/-- The session of the calls. -/
def identityContext : SessionContext where
  agent_id := exampleAgent
  session_id := exampleSession

theorem transparent_integer :
    Transparent (identityCall (.int 1)) ((identityCall (.int 1)).emitActionRecord exampleRuntime
      exampleInterpreter identityContext) := by
  refine (transparent_iff exampleRuntime exampleInterpreter (identityCall (.int 1))
    identityContext nofun).mpr ⟨⟨fun _ => ⟨by decide, ?_⟩, ?_⟩, ⟨nofun, rfl⟩, ?_, nofun⟩
  · intro r hr
    obtain rfl := List.mem_singleton.mp hr
    exact (@toJsonSafe_ok_iff _ exampleInterpreter _ _ _).mp ⟨.int 1, rfl⟩
  · intro redacted hredacted
    obtain rfl := Except.ok.inj hredacted
    decide
  · intro h result hran
    obtain ⟨rfl, hresult⟩ := Prod.mk.inj hran
    obtain rfl := Except.ok.inj hresult
    refine ⟨by decide, (@toJsonSafe_ok_iff _ exampleInterpreter _ _ _).mp ⟨.int 1, rfl⟩,
      fun payload hpayload => ?_⟩
    obtain rfl := Except.ok.inj hpayload
    decide

/-- The list that contains itself: the tool is never called. -/
theorem not_transparent_cycle :
    ¬ Transparent (identityCall (.list [0] none)) ((identityCall (.list [0] none)).emitActionRecord
      exampleRuntime exampleInterpreter identityContext) := by
  intro h
  obtain ⟨hinput, -, -⟩ := h.captured nofun
  have hcycle : Walk (oneObject (.list [0] none)).next 1 0 0 := .cons List.mem_cons_self (.nil 0)
  exact not_coercible_of_cycle hcycle ((hinput.coercible rfl).2 0 List.mem_cons_self)

end RootSign
