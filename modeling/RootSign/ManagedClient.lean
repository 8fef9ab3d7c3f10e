import RootSign.AtMostOnce
import RootSign.Lib.Runs

namespace RootSign

open RootSign.Lib RootSign.Python

/-!
# The managed client (`rootsign/sdk/client.py`)

`ManagedLocalIngestClient.handle` opens a transaction for each envelope and commits it before it
returns.  The idempotency cache is outside the transaction: the handler caches the response
before the commit.

* `ManagedState.handle` — the call, which raises when the commit fails;
* `handle_outcome` — what a call leaves in the cache and in its transaction;
* `Ledger` — the client with the history of its answers and its commits;
* `accepted_committed` — every accepted answer describes a committed row as long as no id is
  handed over again after its commit failed, while its response is still cached.
-/

/-! ### The client -/

/-- The cache of the run, and the committed tables. -/
structure ManagedState where
  idempotency : IdempotencyStore
  db : EventDatabase

/-- An envelope handed over, and whether the database commits its transaction. -/
structure ManagedCall where
  io : EventIO
  env : EventEnvelope
  commit_ok : Bool

/-- The handler on the transaction of the call. -/
def ManagedCall.handled (rt : Runtime) (s : ManagedState) (c : ManagedCall) :
    Except HandlerError IngestResponse × StoreState EventDatabase :=
  handle c.io.toHandlerIO (dispatchEvent rt c.io c.env)
    { idempotency := s.idempotency, db := s.db } c.env.toIngestEnvelope

/-- `ManagedLocalIngestClient.handle`: nothing undoes the cache when the commit fails. -/
def ManagedState.handle (rt : Runtime) (s : ManagedState) (c : ManagedCall) :
    Except HandlerError IngestResponse × ManagedState :=
  let result := c.handled rt s
  match result.1 with
  | .error e => (.error e, { s with idempotency := result.2.idempotency })
  | .ok response =>
    if c.commit_ok then
      (.ok response, { idempotency := result.2.idempotency, db := result.2.db })
    else (.error .databaseError, { s with idempotency := result.2.idempotency })

/-- The call is answered from the cache. -/
def ManagedCall.cached (s : ManagedState) (c : ManagedCall) : Bool :=
  replayed c.io.toHandlerIO { idempotency := s.idempotency, db := s.db } c.env.toIngestEnvelope

/-- The accepted response that the handler makes anew, before the commit. -/
def ManagedCall.produces (rt : Runtime) (s : ManagedState) (c : ManagedCall) :
    Option IngestResponse :=
  match (c.handled rt s).1 with
  | .ok response => if response.isAccepted && !c.cached s then some response else none
  | .error _ => none

/-! ### What a call leaves -/

namespace IdempotencyStore

variable {store : IdempotencyStore} {event_id : Uuid}

/-- Storing a response leaves entries there were, and a new one under the id if it returns. -/
theorem mem_put (now_evict now : UtcNow) (event_id : Uuid) (response : IngestResponse)
    (emitted_at : PyDateTime) (haware : store.Aware) :
    ((store.put now_evict now event_id response emitted_at).1 = .ok () ∧
        ∀ x ∈ store.access (.put now_evict now event_id response emitted_at),
          (x ∈ store ∧ x.key ≠ event_id.text) ∨
            (x.key = event_id.text ∧ x.response = response)) ∨
      ((∃ e, (store.put now_evict now event_id response emitted_at).1 = .error e) ∧
        ∀ x ∈ store.access (.put now_evict now event_id response emitted_at), x ∈ store) := by
  have hsub : ∀ x ∈ store.access (.get now_evict), x ∈ store := by
    rw [access_get now_evict haware]
    exact fun x hx => List.mem_of_mem_filter hx
  by_cases hgood : emitted_at.aware = true ∧ emitted_at.canAdd ttl = true
  · obtain ⟨e, hinserted, hresponse, hok, hleft⟩ :=
      put_inserts now_evict now event_id response haware hgood.1 hgood.2
    refine Or.inl ⟨hok, ?_⟩
    rw [hleft]
    intro x hx
    rcases mem_insert hx with ⟨hx, hne⟩ | rfl
    · exact Or.inl ⟨hsub x hx, hinserted.key ▸ hne⟩
    · exact Or.inr ⟨hinserted.key, hresponse⟩
  · have hbad : emitted_at.aware = false ∨ emitted_at.canAdd ttl = false := by
      simpa only [not_and_or, Bool.not_eq_true] using hgood
    obtain ⟨herror, hleft⟩ := put_raises now_evict now event_id response haware hbad
    refine Or.inr ⟨herror, ?_⟩
    rw [hleft]
    exact hsub

end IdempotencyStore

/-- What a call of the handler leaves: it was answered from an entry of the cache; or it was not
    accepted; or a new response was accepted and cached, over the tables as the handler left
    them. -/
inductive Outcome (rt : Runtime) (s : ManagedState) (c : ManagedCall) : Prop where
  | replayed (e : CacheEntry) (he : e ∈ s.idempotency) (hkey : e.key = c.env.event_id.text)
      (hcached : c.cached s = true) (hanswer : (c.handled rt s).1 = .ok e.response)
      (hdb : (c.handled rt s).2.db = s.db)
      (hcache : ∀ x ∈ (c.handled rt s).2.idempotency, x ∈ s.idempotency)
  | refused (hanswer : accepts (c.handled rt s).1 = false)
      (hdb : ∀ response, (c.handled rt s).1 = .ok response → (c.handled rt s).2.db = s.db)
      (hcache : ∀ x ∈ (c.handled rt s).2.idempotency,
        x ∈ s.idempotency ∨ x.response.isAccepted = false)
  | accepted (response : IngestResponse) (db' : EventDatabase)
      (hdispatch : dispatchEvent rt c.io c.env s.db = .ok (response, db'))
      (haccepted : response.isAccepted = true) (hcached : c.cached s = false)
      (hanswer : (c.handled rt s).1 = .ok response) (hdb : (c.handled rt s).2.db = db')
      (hcache : ∀ x ∈ (c.handled rt s).2.idempotency,
        (x ∈ s.idempotency ∧ x.key ≠ c.env.event_id.text) ∨
          (x.key = c.env.event_id.text ∧ x.response = response))

/-- Caching a response: it returns it and leaves at most its entry, or raises and leaves none. -/
theorem maybeCache_outcome (io : HandlerIO) (s : StoreState EventDatabase) (env : IngestEnvelope)
    (response : IngestResponse) (haware : s.idempotency.Aware) :
    ((maybeCache io s env response).1 = .ok response ∧
        ∀ x ∈ (maybeCache io s env response).2.idempotency,
          (x ∈ s.idempotency ∧ (response.isAccepted = true → x.key ≠ env.event_id.text)) ∨
            (x.key = env.event_id.text ∧ x.response = response)) ∨
      ((∃ e, (maybeCache io s env response).1 = .error e) ∧
        ∀ x ∈ (maybeCache io s env response).2.idempotency, x ∈ s.idempotency) := by
  unfold maybeCache
  -- Only accepted answers and final refusals are put into the cache.
  by_cases heligible : (response.isAccepted || response.retryable == some false) = true
  · rw [if_pos heligible]
    rcases IdempotencyStore.mem_put io.now_evict io.now_set env.event_id response env.emitted_at
      haware with ⟨hok, hleft⟩ | ⟨⟨e, herror⟩, hleft⟩
    · left
      split
      · next hput => exact absurd hok (by simp [hput])
      · next hput =>
        refine ⟨rfl, fun x hx => ?_⟩
        rcases hleft x (by
          show x ∈ (s.idempotency.put _ _ _ _ _).2
          rw [hput]
          exact hx) with ⟨hold, hne⟩ | hnew
        · exact Or.inl ⟨hold, fun _ => hne⟩
        · exact Or.inr hnew
    · right
      split
      · next hput =>
        refine ⟨⟨_, rfl⟩, fun x hx => hleft x ?_⟩
        show x ∈ (s.idempotency.put _ _ _ _ _).2
        rw [hput]
        exact hx
      · next hput => exact absurd herror (by simp [hput])
  · rw [if_neg heligible]
    refine Or.inl ⟨rfl, fun x hx => Or.inl ⟨hx, fun haccepted => ?_⟩⟩
    exact absurd (by simp [haccepted]) heligible

/-- **What a call leaves.** -/
theorem handle_outcome (rt : Runtime) (s : ManagedState) (c : ManagedCall)
    (haware : s.idempotency.Aware) : Outcome rt s c := by
  -- what a rejection that is cached leaves
  have hrejected : ∀ (s' : StoreState EventDatabase) (response : IngestResponse),
      s'.idempotency.Aware → (∀ x ∈ s'.idempotency, x ∈ s.idempotency) → s'.db = s.db →
        response.isAccepted = false →
          c.handled rt s = maybeCache c.io.toHandlerIO s' c.env.toIngestEnvelope response →
            Outcome rt s c := by
    intro s' response haware' hsub hdb hno heq
    have hoff : (c.handled rt s).2.db = s.db := by rw [heq, maybeCache_db, hdb]
    rcases maybeCache_outcome c.io.toHandlerIO s' c.env.toIngestEnvelope response haware' with
      ⟨hanswer, hleft⟩ | ⟨⟨e, hanswer⟩, hleft⟩
    · refine .refused (by rw [heq, hanswer]; exact hno) (fun _ _ => hoff) ?_
      rw [heq]
      intro x hx
      rcases hleft x hx with ⟨hx, -⟩ | ⟨-, hresponse⟩
      · exact Or.inl (hsub x hx)
      · exact Or.inr (by rw [hresponse]; exact hno)
    · refine .refused (by rw [heq, hanswer]; rfl) (fun _ _ => hoff) ?_
      rw [heq]
      exact fun x hx => Or.inl (hsub x (hleft x hx))
  have hget := IdempotencyStore.get_of_aware c.io.now_get c.env.event_id haware
  have hsub : ∀ x ∈ s.idempotency.access (.get c.io.now_get), x ∈ s.idempotency := by
    rw [IdempotencyStore.access_get c.io.now_get haware]
    exact fun x hx => List.mem_of_mem_filter hx
  have hleft := haware.evict c.io.now_get
  by_cases hversion : majorOf c.env.schema_version ≠ supportedSchemaMajor
  · exact hrejected { idempotency := s.idempotency, db := s.db } _ haware (fun _ hx => hx) rfl
      (IngestResponse.isAccepted_rejected _ _ _ _)
        (by rw [ManagedCall.handled, handle, if_pos hversion])
  cases hfound : (s.idempotency.access (.get c.io.now_get)).find?
      fun e => e.key == c.env.event_id.text with
  | some e =>
    rw [hfound, Option.map_some] at hget
    have hhandled : c.handled rt s = (.ok e.response,
        { idempotency := s.idempotency.access (.get c.io.now_get), db := s.db }) := by
      rw [ManagedCall.handled, handle, if_neg hversion, hget]
    refine .replayed e (hsub e (List.mem_of_find?_eq_some hfound))
      (by simpa using List.find?_some hfound) ?_ (by rw [hhandled]) (by rw [hhandled])
      (by rw [hhandled]; exact hsub)
    rw [ManagedCall.cached, RootSign.replayed, hget]
  | none =>
    rw [hfound, Option.map_none] at hget
    have hcached : c.cached s = false := by rw [ManagedCall.cached, RootSign.replayed, hget]
    cases hdispatch : dispatchEvent rt c.io c.env s.db with
    | error e =>
      have hhandled : c.handled rt s = answerError c.io.toHandlerIO
          { idempotency := s.idempotency.access (.get c.io.now_get), db := s.db }
          c.env.toIngestEnvelope e := by
        rw [ManagedCall.handled, handle, if_neg hversion, hget]
        simp only [hdispatch]
      cases e with
      | ingest code message retryable =>
        exact hrejected _ _ hleft hsub rfl (IngestResponse.isAccepted_rejected _ _ _ _) hhandled
      | _ =>
        refine .refused (by rw [hhandled]; rfl) (fun response h => ?_)
          (by rw [hhandled]; exact fun x hx => Or.inl (hsub x hx))
        rw [hhandled] at h
        exact absurd h (by simp [answerError])
    | ok result =>
      obtain ⟨response, db'⟩ := result
      have hhandled : c.handled rt s = maybeCache c.io.toHandlerIO
          { idempotency := s.idempotency.access (.get c.io.now_get), db := db' }
          c.env.toIngestEnvelope response := by
        rw [ManagedCall.handled, handle, if_neg hversion, hget]
        simp only [hdispatch]
      rcases dispatchEvent_ok hdispatch with ⟨hno, rfl⟩ | ⟨haccepted, -⟩
      · exact hrejected _ _ hleft hsub rfl hno hhandled
      rcases maybeCache_outcome c.io.toHandlerIO
        { idempotency := s.idempotency.access (.get c.io.now_get), db := db' }
        c.env.toIngestEnvelope response hleft with
        ⟨hanswer, hentries⟩ | ⟨⟨e, hanswer⟩, hentries⟩
      · refine .accepted response db' hdispatch haccepted hcached (by rw [hhandled, hanswer])
          (by rw [hhandled, maybeCache_db]) ?_
        rw [hhandled]
        intro x hx
        rcases hentries x hx with ⟨hx, hne⟩ | hnew
        · exact Or.inl ⟨hsub x hx, hne haccepted⟩
        · exact Or.inr hnew
      · refine .refused (by rw [hhandled, hanswer]; rfl) (fun response h => ?_) ?_
        · rw [hhandled, hanswer] at h
          exact absurd h (by simp)
        · rw [hhandled]
          exact fun x hx => Or.inl (hsub x (hentries x hx))

/-! ### Runs -/

/-- The client, with what it has answered and what the database has committed: the accepted
    answers; the new responses of committed transactions; and the ids whose response is cached
    although its commit failed. -/
structure Ledger where
  client : ManagedState
  answers : List (EventEnvelope × IngestResponse) := []
  written : List (EventEnvelope × IngestResponse) := []
  uncommitted : List Uuid := []

namespace Ledger

/-- A client whose cache is empty. -/
def opened (db : EventDatabase) : Ledger where
  client := { idempotency := [], db := db }

/-- One call. -/
def step (rt : Runtime) (s : Ledger) (c : ManagedCall) : Option Ledger :=
  let result := s.client.handle rt c
  some {
    client := result.2
    answers :=
      match result.1 with
      | .ok response =>
        if response.isAccepted then s.answers ++ [(c.env, response)] else s.answers
      | .error _ => s.answers
    written :=
      match c.produces rt s.client with
      | some response => if c.commit_ok then s.written ++ [(c.env, response)] else s.written
      | none => s.written
    uncommitted :=
      match c.produces rt s.client with
      | some _ =>
        if c.commit_ok then s.uncommitted.filter fun u => u != c.env.event_id
        else c.env.event_id :: s.uncommitted
      | none => s.uncommitted }

/-- The response stands for a committed transaction under the id, and the row it describes is in
    the committed tables. -/
def Committed (s : Ledger) (event_id : Uuid) (response : IngestResponse) : Prop :=
  ∃ env payload, (env, response) ∈ s.written ∧ env.event_id = event_id ∧
    env.payload = .ok payload ∧ Recorded payload.eventType response s.client.db

/-- Every accepted answer so far is committed. -/
def AcceptedCommitted (s : Ledger) : Prop :=
  ∀ p ∈ s.answers, s.Committed p.1.event_id p.2

/-- The call does not hand over an id whose commit failed while its response is cached. -/
def NoStaleRetry (s : Ledger) (c : ManagedCall) : Prop :=
  c.env.event_id ∈ s.uncommitted → c.cached s.client = false

/-- What holds of the client after any calls that meet the condition. -/
structure Inv (s : Ledger) : Prop where
  aware : s.client.idempotency.Aware
  entries : ∀ e ∈ s.client.idempotency, e.response.isAccepted = true →
    ∃ event_id, e.key = event_id.text ∧
      (event_id ∈ s.uncommitted ∨ s.Committed event_id e.response)
  answers : s.AcceptedCommitted

/-- Committed responses stay committed while the tables keep their rows. -/
theorem Committed.mono {s s' : Ledger} {event_id : Uuid} {response : IngestResponse}
    (h : s.Committed event_id response) (hwritten : ∀ p ∈ s.written, p ∈ s'.written)
    (hkeeps : Keeps s.client.db s'.client.db) : s'.Committed event_id response := by
  obtain ⟨env, payload, hmem, hid, hpayload, hrecorded⟩ := h
  exact ⟨env, payload, hwritten _ hmem, hid, hpayload, hrecorded.mono hkeeps⟩

variable {rt : Runtime} {s s' : Ledger} {c : ManagedCall}

/-- A call that produces nothing and changes no table keeps the invariant, if what it leaves in
    the cache was there or is not accepted, and its answer, if accepted, is committed. -/
theorem Inv.quiet (h : s.Inv) {client : ManagedState}
    {answers : List (EventEnvelope × IngestResponse)}
    (haware : client.idempotency.Aware) (hdb : client.db = s.client.db)
    (hcache : ∀ x ∈ client.idempotency,
      x ∈ s.client.idempotency ∨ x.response.isAccepted = false)
    (hanswers : ∀ p ∈ answers, s.Committed p.1.event_id p.2) :
    Inv { s with client := client, answers := answers } := by
  have hkeeps : Keeps s.client.db client.db := hdb ▸ Keeps.refl _
  refine ⟨haware, fun e he haccepted => ?_, fun p hp => ?_⟩
  · rcases hcache e he with hold | hno
    · obtain ⟨event_id, hkey, hstate⟩ := h.entries e hold haccepted
      exact ⟨event_id, hkey, hstate.imp_right fun hc => hc.mono (fun _ hp => hp) hkeeps⟩
    · exact absurd haccepted (by simp [hno])
  · exact (hanswers p hp).mono (fun _ hp => hp) hkeeps

theorem aware_handled (haware : s.client.idempotency.Aware) :
    (c.handled rt s.client).2.idempotency.Aware := by
  obtain ⟨as, heq, -⟩ := HandlerCall.handled_accesses rt
    { io := c.io, env := c.env, db := s.client.db, kept := true } haware
  have heq' : (c.handled rt s.client).2.idempotency =
      as.foldl IdempotencyStore.access s.client.idempotency := heq
  rw [heq']
  exact haware.accesses

/-- The cache of the client is that of the handlers, whether the commit fails or not. -/
theorem idempotency_handle :
    (s.client.handle rt c).2.idempotency = (c.handled rt s.client).2.idempotency := by
  unfold ManagedState.handle
  dsimp only
  split
  · rfl
  · split <;> rfl

/-- A call answered from the cache: the entry found is one whose commit did not fail. -/
theorem Inv.replayed {e : CacheEntry} (h : s.Inv) (hok : s.NoStaleRetry c)
    (he : e ∈ s.client.idempotency) (hkey : e.key = c.env.event_id.text)
    (hcached : c.cached s.client = true) (hanswer : (c.handled rt s.client).1 = .ok e.response)
    (hdb : (c.handled rt s.client).2.db = s.client.db)
    (hcache : ∀ x ∈ (c.handled rt s.client).2.idempotency, x ∈ s.client.idempotency)
    (hstep : step rt s c = some s') : s'.Inv := by
  obtain rfl := Option.some.inj hstep
  -- A replayed answer produces nothing new, so only the answers given can change.
  have hnone : c.produces rt s.client = none := by
    rw [ManagedCall.produces, hanswer, hcached]
    simp
  simp only [hnone]
  apply h.quiet (idempotency_handle ▸ aware_handled h.aware)
  · unfold ManagedState.handle
    simp only [hanswer]
    split
    · exact hdb
    · rfl
  · rw [idempotency_handle]
    exact fun x hx => Or.inl (hcache x hx)
  · intro p hp
    unfold ManagedState.handle at hp
    simp only [hanswer] at hp
    by_cases hcommit : c.commit_ok = true
    · simp only [hcommit, if_true] at hp
      by_cases haccepted : e.response.isAccepted = true
      · simp only [haccepted, if_true] at hp
        rcases List.mem_append.mp hp with hp | hp
        · exact h.answers p hp
        · rw [List.mem_singleton.mp hp]
          -- The entry's event was committed, or its commit failed; then the condition has kept it
          -- out of the cache.
          obtain ⟨event_id, hid, hstate⟩ := h.entries e he haccepted
          have hsame : event_id = c.env.event_id := Uuid.ext (hid.symm.trans hkey)
          subst hsame
          refine hstate.resolve_left fun hmem => ?_
          exact absurd (hok hmem) (by simp [hcached])
      · simp only [haccepted, Bool.false_eq_true, if_false] at hp
        exact h.answers p hp
    · simp only [hcommit, Bool.false_eq_true, if_false] at hp
      exact h.answers p hp

/-- A call that is not accepted adds no answer. -/
theorem Inv.refused (h : s.Inv) (hanswer : accepts (c.handled rt s.client).1 = false)
    (hdb : ∀ response, (c.handled rt s.client).1 = .ok response →
      (c.handled rt s.client).2.db = s.client.db)
    (hcache : ∀ x ∈ (c.handled rt s.client).2.idempotency,
      x ∈ s.client.idempotency ∨ x.response.isAccepted = false)
    (hstep : step rt s c = some s') : s'.Inv := by
  obtain rfl := Option.some.inj hstep
  have hnone : c.produces rt s.client = none := by
    unfold ManagedCall.produces
    cases hresult : (c.handled rt s.client).1 with
    | error e => rfl
    | ok response =>
      rw [hresult] at hanswer
      have hno : response.isAccepted = false := hanswer
      simp [hno]
  simp only [hnone]
  apply h.quiet (idempotency_handle ▸ aware_handled h.aware)
  · unfold ManagedState.handle
    dsimp only
    split
    · rfl
    · next response hresult =>
      split
      · exact hdb response hresult
      · rfl
  · rw [idempotency_handle]
    exact hcache
  · intro p hp
    -- The answers given are those of accepted, committed calls.
    have hold : p ∈ s.answers := by
      unfold ManagedState.handle at hp
      cases hresult : (c.handled rt s.client).1 with
      | error e => simpa only [hresult] using hp
      | ok response =>
        rw [hresult] at hanswer
        have hno : response.isAccepted = false := hanswer
        cases hcommit : c.commit_ok with
        | true => simpa [hresult, hcommit, hno] using hp
        | false => simpa [hresult, hcommit] using hp
    exact h.answers p hold

section

variable {response : IngestResponse} {db' : EventDatabase}

/-- An accepted call that is committed adds the row just written to those there were. -/
theorem Inv.written (h : s.Inv) (hcommit : c.commit_ok = true)
    (hdispatch : dispatchEvent rt c.io c.env s.client.db = .ok (response, db'))
    (haccepted : response.isAccepted = true) (hproduces : c.produces rt s.client = some response)
    (hanswer : (c.handled rt s.client).1 = .ok response)
    (hdb : (c.handled rt s.client).2.db = db')
    (hcache : ∀ x ∈ (c.handled rt s.client).2.idempotency,
      (x ∈ s.client.idempotency ∧ x.key ≠ c.env.event_id.text) ∨
        (x.key = c.env.event_id.text ∧ x.response = response))
    (hstep : step rt s c = some s') : s'.Inv := by
  obtain rfl := Option.some.inj hstep
  obtain ⟨-, hkeeps, payload, hpayload, hrecorded⟩ :=
    (dispatchEvent_ok hdispatch).resolve_left fun h => by simp [haccepted] at h
  have hhandle : s.client.handle rt c =
      (.ok response, { idempotency := (c.handled rt s.client).2.idempotency, db := db' }) := by
    rw [ManagedState.handle]
    simp only [hanswer, hcommit, if_true, hdb]
  simp only [hproduces, hhandle, haccepted, hcommit, if_true]
  -- The row just written is the event's own, and it is committed with its answer.
  have hnew : Committed
      { client := { idempotency := (c.handled rt s.client).2.idempotency, db := db' }
        answers := s.answers ++ [(c.env, response)]
        written := s.written ++ [(c.env, response)]
        uncommitted := s.uncommitted.filter fun u => u != c.env.event_id }
      c.env.event_id response :=
    ⟨c.env, payload, by simp, rfl, hpayload, hrecorded⟩
  have hwritten : ∀ p ∈ s.written, p ∈ s.written ++ [(c.env, response)] :=
    fun p hp => List.mem_append_left _ hp
  refine ⟨aware_handled h.aware, fun e he hacc => ?_, fun p hp => ?_⟩
  · rcases hcache e he with ⟨hold, hne⟩ | ⟨hkey, hresponse⟩
    · obtain ⟨event_id, hkey, hstate⟩ := h.entries e hold hacc
      refine ⟨event_id, hkey, ?_⟩
      rcases hstate with hmem | hcommitted
      · refine Or.inl (List.mem_filter.mpr ⟨hmem, ?_⟩)
        rw [bne_iff_ne]
        rintro rfl
        exact hne hkey
      · exact Or.inr (hcommitted.mono hwritten hkeeps)
    · rw [hresponse]
      exact ⟨c.env.event_id, hkey, Or.inr hnew⟩
  · rcases List.mem_append.mp hp with hp | hp
    · exact (h.answers p hp).mono hwritten hkeeps
    · rw [List.mem_singleton.mp hp]
      exact hnew

/-- Where the commit fails, the entry stays in the cache and its id is noted. -/
theorem Inv.unwritten (h : s.Inv) (hcommit : c.commit_ok = false)
    (hproduces : c.produces rt s.client = some response)
    (hanswer : (c.handled rt s.client).1 = .ok response)
    (hcache : ∀ x ∈ (c.handled rt s.client).2.idempotency,
      (x ∈ s.client.idempotency ∧ x.key ≠ c.env.event_id.text) ∨
        (x.key = c.env.event_id.text ∧ x.response = response))
    (hstep : step rt s c = some s') : s'.Inv := by
  obtain rfl := Option.some.inj hstep
  have hhandle : s.client.handle rt c = (.error .databaseError,
      { idempotency := (c.handled rt s.client).2.idempotency, db := s.client.db }) := by
    rw [ManagedState.handle]
    simp only [hanswer, hcommit, Bool.false_eq_true, if_false]
  simp only [hproduces, hhandle, hcommit, Bool.false_eq_true, if_false]
  refine ⟨aware_handled h.aware, fun e he hacc => ?_, fun p hp => h.answers p hp⟩
  rcases hcache e he with ⟨hold, -⟩ | ⟨hkey, -⟩
  · obtain ⟨event_id, hkey, hstate⟩ := h.entries e hold hacc
    exact ⟨event_id, hkey, hstate.imp_left fun hmem => List.mem_cons_of_mem _ hmem⟩
  · exact ⟨c.env.event_id, hkey, Or.inl List.mem_cons_self⟩

end

/-- **One call** that meets the condition keeps the invariant. -/
theorem inv_step (h : s.Inv) (hok : s.NoStaleRetry c) (hstep : step rt s c = some s') : s'.Inv := by
  cases handle_outcome rt s.client c h.aware with
  | replayed e he hkey hcached hanswer hdb hcache =>
    exact h.replayed hok he hkey hcached hanswer hdb hcache hstep
  | refused hanswer hdb hcache => exact h.refused hanswer hdb hcache hstep
  | accepted response db' hdispatch haccepted hcached hanswer hdb hcache =>
    have hproduces : c.produces rt s.client = some response := by
      rw [ManagedCall.produces, hanswer, hcached]
      simp [haccepted]
    cases hcommit : c.commit_ok with
    | true => exact h.written hcommit hdispatch haccepted hproduces hanswer hdb hcache hstep
    | false => exact h.unwritten hcommit hproduces hanswer hcache hstep

end Ledger

/-- **Accepted means committed**, in every run on any tables in which no id is handed over again
    after its commit failed, while its response is still cached. -/
theorem accepted_committed (rt : Runtime) (db : EventDatabase) (calls : List ManagedCall)
    (h : Guarded (Ledger.step rt) Ledger.NoStaleRetry (.opened db) calls) :
    Throughout (Ledger.step rt) Ledger.AcceptedCommitted (.opened db) calls := by
  have hopened : (Ledger.opened db).Inv :=
    ⟨fun e he => absurd he (by simp [Ledger.opened]),
      fun e he => absurd he (by simp [Ledger.opened]),
      fun p hp => absurd hp (by simp [Ledger.opened])⟩
  exact (throughout_of_guarded (fun s c s' hs hok hstep => Ledger.inv_step hs hok hstep)
    hopened h).mono fun s hs => hs.answers

/-! ### A commit that fails, and the retry -/

/-- Tables with a registered agent and nothing else. -/
def registered : EventDatabase where
  toDatabase := .opened (fun _ => none) fun _ => false
  agents := fun agent => agent == exampleAgent
  details := fun _ => none
  decisions := []
  approvals := []

/-- The example session is opened. -/
def openEnvelope : EventEnvelope where
  schema_version := "1.1"
  event_id := exampleEvent
  emitted_at := mayNoon.time
  session_id := exampleSession
  agent_id := exampleAgent
  payload := .ok (.sessionOpen { objective := none, user_id := none, metadata := none })

/-- The envelope is handed over at noon. -/
def openCall (commit_ok : Bool) : ManagedCall where
  io := { fresh := exampleRecord, now_get := mayNoon, now_evict := mayNoon, now_set := mayNoon,
          now := mayNoon }
  env := openEnvelope
  commit_ok := commit_ok

/-- With a commit that succeeds, the second answer is the cached one and committed. -/
theorem accepted_committed_openTwice :
    Throughout (Ledger.step exampleRuntime) Ledger.AcceptedCommitted (.opened registered)
      [openCall true, openCall true] := by
  apply accepted_committed
  refine fun s₁ h₁ => ⟨fun hmem => absurd hmem (by simp [Ledger.opened]), fun s₂ h₂ => ⟨?_, ?_⟩⟩
  · obtain rfl := Option.some.inj h₁
    intro hmem
    exact absurd hmem (by decide)
  · exact trivial

/-- The first call raises; the second is answered accepted, and no session is in the tables. -/
theorem not_accepted_committed_retry :
    ¬ Throughout (Ledger.step exampleRuntime) Ledger.AcceptedCommitted (.opened registered)
      [openCall false, openCall true] := by
  intro h
  obtain ⟨s, hrun, hanswers, hwritten⟩ : ∃ s,
      run (Ledger.step exampleRuntime) (.opened registered) [openCall false, openCall true] =
        some s ∧ s.answers ≠ [] ∧ s.written = [] :=
    ⟨_, rfl, by decide, rfl⟩
  obtain ⟨p, hp⟩ := List.exists_mem_of_ne_nil _ hanswers
  obtain ⟨env, payload, hmem, -⟩ := h.last hrun p hp
  rw [hwritten] at hmem
  exact absurd hmem (by simp)

end RootSign
