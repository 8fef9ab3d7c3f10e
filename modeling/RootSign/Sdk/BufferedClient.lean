import RootSign.Sdk.JsonlClient

namespace RootSign

open RootSign.Python

/-!
# The buffered client (`rootsign/sdk/buffered_client.py`)

`BufferedIngestClient` collects auto-authorized actions and hands them to an inner client in
batches.  Several tasks of one event loop drive it: callers of `handle`, `flush` and `close`, and
the background flush loop.  A task runs until it waits for the inner client, for a backoff or for
the interval; the lock is never held across such a wait.

A buffered envelope is known by its number in the order of the `handle` calls.

* `Task` — where a task waits, with the local variables it holds there;
* `Buffered.flush`, `Buffered.sendNext`, `Buffered.startSend` — what a task does until its next
  wait;
* `Buffered.step` — one task runs on from its wait, or a call is made.
-/

/-! ### Tasks -/

/-- What the inner client answers to an envelope. -/
inductive InnerAnswer where
  | accepted
  | refused (retryable : Bool)
deriving DecidableEq, Repr

/-- `_needs_retry`. -/
def InnerAnswer.needsRetry : InnerAnswer → Bool
  | .refused true => true
  | _ => false

/-- The inner client has a `handle_batch`; how many times a send is tried; the size that triggers
    a flush. -/
structure BufferConfig where
  batched : Bool
  attempts : ℕ
  max_buffer_size : ℕ

/-- What a task does when its flush is over: `handle` has forwarded what it had to or forwards
    the envelope it was called with, before which so many were buffered; the loop sleeps. -/
inductive AfterFlush where
  | done
  | passthrough (before : ℕ)
  | sleep
deriving DecidableEq, Repr

/-- Where a task waits.  `idle` is an agent's task outside the client. -/
inductive Task where
  | idle
  | batch (pending : List ℕ) (attempt : ℕ) (after : AfterFlush)
  | batchBackoff (pending : List ℕ) (attempt : ℕ) (after : AfterFlush)
  | one (failed : List ℕ) (current attempt : ℕ) (rest : List ℕ) (after : AfterFlush)
  | oneBackoff (failed : List ℕ) (current attempt : ℕ) (rest : List ℕ) (after : AfterFlush)
  | passing (before : ℕ)
  | closing
  | asleep
  | ended
deriving DecidableEq, Repr

/-- The envelopes of the batch a task is sending, in their order. -/
def Task.sending : Task → List ℕ
  | .batch pending _ _ => pending
  | .batchBackoff pending _ _ => pending
  | .one failed current _ rest _ => failed ++ current :: rest
  | .oneBackoff failed current _ rest _ => failed ++ current :: rest
  | _ => []

/-- The client: the buffer, how many envelopes were buffered so far, the tasks with the loop as
    `none`, and what the inner client has answered, in the order of the answers. -/
structure Buffered where
  buffer : List ℕ
  next : ℕ
  closed : Bool
  loop_started : Bool
  tasks : Option ℕ → Task
  answers : List (ℕ × InnerAnswer)

/-- `_should_buffer`. -/
def shouldBuffer (envelope : Dict) : Except PyError Bool :=
  if (envelope.get "event_type").pyEq (.str "ACTION_RECORD") then
    match payloadOf envelope with
    | .error e => .error e
    | .ok payload => .ok ((payload.get "authorization_status").pyEq (.str "auto_authorized"))
  else .ok false

namespace Buffered

/-- A client that has not been used. -/
def init : Buffered where
  buffer := []
  next := 0
  closed := false
  loop_started := false
  tasks := fun _ => .idle
  answers := []

/-! ### From wait to wait -/

/-- The task waits at the given place. -/
def setTask (s : Buffered) (who : Option ℕ) (task : Task) : Buffered :=
  { s with tasks := Function.update s.tasks who task }

/-- The flush is over; the loop looks at `_closed` before it sleeps again. -/
def resume (s : Buffered) (who : Option ℕ) : AfterFlush → Buffered
  | .done => s.setTask who .idle
  | .passthrough before => s.setTask who (.passing before)
  | .sleep => s.setTask who (if s.closed then .ended else .asleep)

/-- The send is over: what failed goes back to the front of the buffer. -/
def finish (s : Buffered) (who : Option ℕ) (failed : List ℕ) (after : AfterFlush) : Buffered :=
  ({ s with buffer := failed ++ s.buffer }).resume who after

/-- The loop of `_send` over the envelopes left; with no attempts each of them fails. -/
def sendNext (cfg : BufferConfig) (s : Buffered) (who : Option ℕ) (failed : List ℕ) :
    List ℕ → AfterFlush → Buffered
  | [], after => s.finish who failed after
  | current :: rest, after =>
    if cfg.attempts = 0 then s.sendNext cfg who (failed ++ [current]) rest after
    else s.setTask who (.one failed current 0 rest after)

/-- `_send`. -/
def startSend (cfg : BufferConfig) (s : Buffered) (who : Option ℕ) (batch : List ℕ)
    (after : AfterFlush) : Buffered :=
  if cfg.batched then
    if cfg.attempts = 0 then s.finish who batch after
    else s.setTask who (.batch batch 0 after)
  else s.sendNext cfg who [] batch after

/-- `flush`, up to its first wait. -/
def flush (cfg : BufferConfig) (s : Buffered) (who : Option ℕ) (after : AfterFlush) : Buffered :=
  if s.buffer.isEmpty then s.resume who after
  else ({ s with buffer := [] }).startSend cfg who s.buffer after

/-- The answers to the elements of a batch; a raised exception answers none. -/
def answered (pending : List ℕ) (responses : Option (List InnerAnswer)) :
    List (ℕ × InnerAnswer) :=
  pending.zip (responses.getD [])

/-- The elements to send again: those answered retryable, then those not answered. -/
def unsent (pending : List ℕ) (responses : Option (List InnerAnswer)) : List ℕ :=
  ((answered pending responses).filter fun p => p.2.needsRetry).map Prod.fst ++
    pending.drop (responses.getD []).length

/-- `_send_batch_with_retry` after a batch call has returned or raised. -/
def batchAnswered (cfg : BufferConfig) (s : Buffered) (who : Option ℕ) (pending : List ℕ)
    (attempt : ℕ) (after : AfterFlush) (responses : Option (List InnerAnswer)) : Buffered :=
  let failed := unsent pending responses
  let s := { s with answers := s.answers ++ answered pending responses }
  if failed.isEmpty then s.finish who [] after
  else if attempt + 1 < cfg.attempts then s.setTask who (.batchBackoff failed (attempt + 1) after)
  else s.finish who failed after

/-- `_send_with_retry` after the inner `handle` has returned or raised: whatever it returns is a
    success. -/
def oneAnswered (cfg : BufferConfig) (s : Buffered) (who : Option ℕ) (failed : List ℕ)
    (current attempt : ℕ) (rest : List ℕ) (after : AfterFlush) :
    Option InnerAnswer → Buffered
  | some response =>
    ({ s with answers := s.answers ++ [(current, response)] }).sendNext cfg who failed rest after
  | none =>
    if attempt + 1 < cfg.attempts then
      s.setTask who (.oneBackoff failed current (attempt + 1) rest after)
    else s.sendNext cfg who (failed ++ [current]) rest after

/-! ### Calls -/

/-- The lazy start of the loop. -/
def startLoop (s : Buffered) : Buffered :=
  if s.loop_started || s.closed then s
  else { s.setTask none .asleep with loop_started := true }

/-- `handle`, up to its first wait. -/
def handle (cfg : BufferConfig) (s : Buffered) (t : ℕ) (envelope : Dict) : Buffered :=
  let s := s.startLoop
  match shouldBuffer envelope with
  | .error _ => s
  | .ok true =>
    let s := { s with buffer := s.buffer ++ [s.next], next := s.next + 1 }
    if cfg.max_buffer_size ≤ s.buffer.length then s.flush cfg (some t) .done else s
  | .ok false => s.flush cfg (some t) (.passthrough s.next)

/-- `close`, up to its first wait: the loop is cancelled wherever it waits, and what it holds in
    its local variables is gone. -/
def close (cfg : BufferConfig) (s : Buffered) (t : ℕ) : Buffered :=
  let s := { s with closed := true }
  if s.loop_started then (s.setTask none .ended).setTask (some t) .closing
  else s.flush cfg (some t) .done

/-- What can happen next: a call by an idle task, or the end of a wait. -/
inductive Label where
  | handle (t : ℕ) (envelope : Dict)
  | flush (t : ℕ)
  | close (t : ℕ)
  | closeFlush (t : ℕ)
  | tick
  | wake (who : Option ℕ)
  | answerBatch (who : Option ℕ) (responses : Option (List InnerAnswer))
  | answerOne (who : Option ℕ) (response : Option InnerAnswer)
  | answerPassthrough (t : ℕ)

/-- One step; `none` when the task does not wait there. -/
def step (cfg : BufferConfig) (s : Buffered) : Label → Option Buffered
  | .handle t envelope =>
    match s.tasks (some t) with
    | .idle => some (s.handle cfg t envelope)
    | _ => none
  | .flush t =>
    match s.tasks (some t) with
    | .idle => some (s.flush cfg (some t) .done)
    | _ => none
  | .close t =>
    match s.tasks (some t) with
    | .idle => some (s.close cfg t)
    | _ => none
  | .closeFlush t =>
    match s.tasks (some t) with
    | .closing => some (s.flush cfg (some t) .done)
    | _ => none
  | .tick =>
    match s.tasks none with
    | .asleep => some (s.flush cfg none .sleep)
    | _ => none
  | .wake who =>
    match s.tasks who with
    | .batchBackoff pending attempt after => some (s.setTask who (.batch pending attempt after))
    | .oneBackoff failed current attempt rest after =>
      some (s.setTask who (.one failed current attempt rest after))
    | _ => none
  | .answerBatch who responses =>
    match s.tasks who with
    | .batch pending attempt after => some (s.batchAnswered cfg who pending attempt after responses)
    | _ => none
  | .answerOne who response =>
    match s.tasks who with
    | .one failed current attempt rest after =>
      some (s.oneAnswered cfg who failed current attempt rest after response)
    | _ => none
  | .answerPassthrough t =>
    match s.tasks (some t) with
    | .passing _ => some (s.setTask (some t) .idle)
    | _ => none

end Buffered

end RootSign
