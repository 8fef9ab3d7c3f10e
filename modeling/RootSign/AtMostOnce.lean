import RootSign.Ingest.Events
import RootSign.JsonlAgreement
import RootSign.Sdk.JsonlBytes

namespace RootSign

open RootSign.Python

/-!
# An event id handled twice

Both stores answer from the idempotency cache.  The time an entry is kept is counted from the
`emitted_at` of the envelope, clamped on one side only.

* `Backend` — a store as the cache sees it: what a call reads, records and caches;
* `Repetition` — a run in which an event id comes back within a day, with fewer than
  `maxEntries` other ids in between;
* `handlerBackend`, `jsonlBackend` — `IngestHandler.handle` and `JsonlIngestClient.handle`;
* `at_most_once_iff` — the second call records nothing exactly when one of the two calls has
  nothing to record, or the first call's response is cached past the second call.
-/

/-! ### Stores over a cache -/

/-- What a call shows the cache: the id, the date of the envelope, and its readings of the
    clock. -/
structure Stamp where
  event_id : Uuid
  emitted_at : PyDateTime
  now_get : UtcNow
  now_evict : UtcNow
  now_set : UtcNow

/-- The access is one that a call with this stamp makes. -/
structure Stamp.Makes (stamp : Stamp) (a : IdempotencyStore.Access) : Prop where
  reads : a.evictsAt = stamp.now_get.time.instant ∨ a.evictsAt = stamp.now_evict.time.instant
  inserts : ∀ u ∈ a.inserts, u = stamp.event_id

/-- A store over a cache, with what its calls do.  A call writes when the tables or files it
    finds leave it something to record; it caches when it gets as far as the cache. -/
structure Backend (State Call : Type) where
  stamp : Call → Stamp
  run : State → Call → State
  cache : State → IdempotencyStore
  Records : State → Call → Prop
  Writes : State → Call → Prop
  Caches : State → Call → Prop
  run_accesses : ∀ s c, (cache s).Aware → ∃ as : List IdempotencyStore.Access,
    cache (run s c) = as.foldl IdempotencyStore.access (cache s) ∧ ∀ a ∈ as, (stamp c).Makes a
  records_of_forgotten : ∀ s c,
    (∃ left, (cache s).get (stamp c).now_get (stamp c).event_id = .ok (none, left)) →
      (Records s c ↔ Writes s c)
  not_records_of_found : ∀ s c,
    (∃ response left, (cache s).get (stamp c).now_get (stamp c).event_id =
      .ok (some response, left)) → ¬ Records s c
  run_writes : ∀ s c, (cache s).Aware → Writes s c →
    (cache s).get (stamp c).now_get (stamp c).event_id =
        .ok (none, (cache s).access (.get (stamp c).now_get)) →
      (Caches s c ∧ ∃ response, cache (run s c) = ((cache s).access (.get (stamp c).now_get)).access
        (.put (stamp c).now_evict (stamp c).now_set (stamp c).event_id response
          (stamp c).emitted_at)) ∨
      (¬ Caches s c ∧ cache (run s c) = (cache s).access (.get (stamp c).now_get))

/-- The response to the first call is still cached at the second: `emitted_at` has an offset, a
    day past it is representable, and the second call comes before that. -/
def Lasting (first second : Stamp) : Prop :=
  first.emitted_at.aware = true ∧ first.emitted_at.canAdd ttl = true ∧
    second.now_get.time.instant < first.emitted_at.instant + ttl

/-- A run of a store from an empty cache, in which the id of `first` comes back: within a day, by
    clocks that do not go back, and with fewer than `maxEntries` other ids in between. -/
structure Repetition {State Call : Type} (B : Backend State Call) where
  start : State
  before : List Call
  first : Call
  between : List Call
  second : Call
  start_empty : B.cache start = []
  before_other : ∀ c ∈ before, (B.stamp c).event_id ≠ (B.stamp first).event_id
  between_other : ∀ c ∈ between, (B.stamp c).event_id ≠ (B.stamp first).event_id
  same_id : (B.stamp second).event_id = (B.stamp first).event_id
  few : (between.map fun c => (B.stamp c).event_id).toFinset.card < maxEntries
  within_day : (B.stamp second).now_get.time.instant <
    (B.stamp first).now_get.time.instant + ttl
  first_clock : (B.stamp first).now_get.time.instant ≤ (B.stamp first).now_set.time.instant
  between_clock : ∀ c ∈ between,
    (B.stamp c).now_get.time.instant ≤ (B.stamp second).now_get.time.instant ∧
    (B.stamp c).now_evict.time.instant ≤ (B.stamp second).now_get.time.instant

namespace Repetition

variable {State Call : Type} {B : Backend State Call} (h : Repetition B)

/-- The state the first call finds. -/
def atFirst : State := h.before.foldl B.run h.start

/-- The state the second call finds. -/
def atSecond : State := h.between.foldl B.run (B.run h.atFirst h.first)

/-- The two calls do not both record something. -/
def AtMostOnce : Prop := ¬ (B.Records h.atFirst h.first ∧ B.Records h.atSecond h.second)

/-- One of the two calls has nothing to record, or the first call caches its response for long
    enough. -/
def Covered : Prop :=
  ¬ B.Writes h.atFirst h.first ∨ ¬ B.Writes h.atSecond h.second ∨
    (B.Caches h.atFirst h.first ∧ Lasting (B.stamp h.first) (B.stamp h.second))

end Repetition

namespace Backend

open IdempotencyStore (Aware Forgot Remembers)

variable {State Call : Type} (B : Backend State Call)

/-- A run of calls accesses the cache as its calls do. -/
theorem foldl_accesses (calls : List Call) {s : State} (haware : (B.cache s).Aware) :
    ∃ as : List IdempotencyStore.Access,
      B.cache (calls.foldl B.run s) = as.foldl IdempotencyStore.access (B.cache s) ∧
      ∀ a ∈ as, ∃ c ∈ calls, (B.stamp c).Makes a := by
  induction calls generalizing s with
  | nil => exact ⟨[], rfl, fun a ha => absurd ha (by simp)⟩
  | cons c rest ih =>
    obtain ⟨as, hrun, has⟩ := B.run_accesses s c haware
    have hnext : (B.cache (B.run s c)).Aware := hrun ▸ haware.accesses
    obtain ⟨later, hrest, hlater⟩ := ih hnext
    refine ⟨as ++ later, ?_, fun a ha => ?_⟩
    · rw [List.foldl_cons, hrest, hrun, List.foldl_append]
    · rcases List.mem_append.mp ha with ha | ha
      · exact ⟨c, by simp, has a ha⟩
      · obtain ⟨d, hd, hmakes⟩ := hlater a ha
        exact ⟨d, by simp [hd], hmakes⟩

/-- Calls under other ids keep an id forgotten. -/
theorem forgot_foldl {calls : List Call} {s : State} {event_id : Uuid} {t : ℤ}
    (haware : (B.cache s).Aware) (h : (B.cache s).Forgot event_id t)
    (hother : ∀ c ∈ calls, (B.stamp c).event_id ≠ event_id) :
    (B.cache (calls.foldl B.run s)).Aware ∧ (B.cache (calls.foldl B.run s)).Forgot event_id t := by
  obtain ⟨as, heq, hmade⟩ := B.foldl_accesses calls haware
  rw [heq]
  refine ⟨haware.accesses, h.accesses haware fun a ha hinserts => ?_⟩
  obtain ⟨c, hc, hmakes⟩ := hmade a ha
  exact hother c hc (hmakes.inserts event_id hinserts).symm

end Backend

namespace Repetition

open IdempotencyStore (Aware Forgot Remembers)

variable {State Call : Type} {B : Backend State Call} (h : Repetition B)

/-- At the first call the id is in no entry. -/
theorem forgot_atFirst (t : ℤ) :
    (B.cache h.atFirst).Aware ∧ (B.cache h.atFirst).Forgot (B.stamp h.first).event_id t := by
  have haware : (B.cache h.start).Aware := by
    rw [h.start_empty]
    exact fun e he => absurd he (by simp)
  have hforgot : (B.cache h.start).Forgot (B.stamp h.first).event_id t := by
    rw [h.start_empty]
    exact fun e he => absurd he (by simp)
  exact B.forgot_foldl haware hforgot h.before_other

theorem get_atFirst :
    (B.cache h.atFirst).get (B.stamp h.first).now_get (B.stamp h.first).event_id =
      .ok (none, (B.cache h.atFirst).access (.get (B.stamp h.first).now_get)) :=
  (h.forgot_atFirst _).2.get (h.forgot_atFirst 0).1

/-- The response of a first call that caches for long enough is found by the second. -/
theorem found_atSecond (hwrites : B.Writes h.atFirst h.first) (hcaches : B.Caches h.atFirst h.first)
    (hlasting : Lasting (B.stamp h.first) (B.stamp h.second)) :
    ∃ response left, (B.cache h.atSecond).get (B.stamp h.second).now_get
      (B.stamp h.second).event_id = .ok (some response, left) := by
  have haware := (h.forgot_atFirst 0).1
  obtain ⟨hemitted, hrange, hbefore⟩ := hlasting
  rcases B.run_writes h.atFirst h.first haware hwrites h.get_atFirst with
    ⟨-, response, hrun⟩ | ⟨hno, -⟩
  case inr => exact absurd hcaches hno
  have hget := haware.evict (B.stamp h.first).now_get
  obtain ⟨e, hinserted, -, -, hput⟩ := IdempotencyStore.put_inserts (B.stamp h.first).now_evict
    (B.stamp h.first).now_set (B.stamp h.first).event_id response hget hemitted hrange
  -- the entry expires after the second call, whichever end the expiry was clamped to
  have hexpires : (B.stamp h.second).now_get.time.instant < e.expires_at.instant := by
    rw [hinserted.expires, lt_min_iff]
    have hday := h.within_day
    have hclock := h.first_clock
    exact ⟨hbefore, by omega⟩
  have hremembers : (B.cache (B.run h.atFirst h.first)).Remembers (B.stamp h.first).event_id
      e.expires_at.instant (h.between.map fun c => (B.stamp c).event_id).toFinset := by
    rw [hrun, hput]
    exact IdempotencyStore.remembers_insert _ hinserted.key _
  have hnext : (B.cache (B.run h.atFirst h.first)).Aware := by
    rw [hrun]
    exact hget.access _
  obtain ⟨as, heq, hmade⟩ := B.foldl_accesses h.between hnext
  have hearly : ∀ a ∈ as, a.evictsAt < e.expires_at.instant := by
    intro a ha
    obtain ⟨c, hc, hmakes⟩ := hmade a ha
    have hclock := h.between_clock c hc
    rcases hmakes.reads with hreads | hreads <;> omega
  have hother : ∀ a ∈ as, a.inserts ≠ some (B.stamp h.first).event_id := by
    intro a ha hinserts
    obtain ⟨c, hc, hmakes⟩ := hmade a ha
    exact h.between_other c hc (hmakes.inserts _ hinserts).symm
  have hlater : ∀ a ∈ as, ∀ u ∈ a.inserts,
      u ∈ (h.between.map fun c => (B.stamp c).event_id).toFinset := by
    intro a ha u hu
    obtain ⟨c, hc, hmakes⟩ := hmade a ha
    rw [hmakes.inserts u hu, List.mem_toFinset]
    exact List.mem_map.mpr ⟨c, hc, rfl⟩
  have hkept := hremembers.accesses hnext hearly hother hlater h.few
  rw [← heq] at hkept
  obtain ⟨found, hfound⟩ := hkept.get (heq ▸ hnext.accesses) hexpires
  exact ⟨found, _, h.same_id ▸ hfound⟩

/-- Otherwise the second call finds nothing. -/
theorem not_found_atSecond (hwrites : B.Writes h.atFirst h.first)
    (hshort : ¬ (B.Caches h.atFirst h.first ∧ Lasting (B.stamp h.first) (B.stamp h.second))) :
    ∃ left, (B.cache h.atSecond).get (B.stamp h.second).now_get
      (B.stamp h.second).event_id = .ok (none, left) := by
  let now := (B.stamp h.second).now_get
  -- The entry of the first call is gone when its expiry is not after the second call's clock; the
  -- calls in between only make it older.
  obtain ⟨haware, hforgot⟩ := h.forgot_atFirst now.time.instant
  have hget := haware.evict (B.stamp h.first).now_get
  have hgetforgot := hforgot.evict haware (B.stamp h.first).now_get
  have hnext : (B.cache (B.run h.atFirst h.first)).Aware ∧
      (B.cache (B.run h.atFirst h.first)).Forgot (B.stamp h.first).event_id now.time.instant := by
    -- Whether or not the first call cached, its entry does not outlive the second call's lookup.
    rcases B.run_writes h.atFirst h.first haware hwrites h.get_atFirst with
      ⟨hcaches, response, hrun⟩ | ⟨-, hrun⟩
    · rw [hrun]
      refine ⟨hget.access _, ?_⟩
      by_cases hgood : (B.stamp h.first).emitted_at.aware = true ∧
          (B.stamp h.first).emitted_at.canAdd ttl = true
      · -- the entry is inserted, and expires by the second call
        obtain ⟨e, hinserted, -, -, hput⟩ := IdempotencyStore.put_inserts
          (B.stamp h.first).now_evict (B.stamp h.first).now_set (B.stamp h.first).event_id response
          hget hgood.1 hgood.2
        have hlate : (B.stamp h.first).emitted_at.instant + ttl ≤ now.time.instant :=
          not_lt.mp fun hlt => hshort ⟨hcaches, hgood.1, hgood.2, hlt⟩
        rw [hput]
        intro x hx hkey
        rcases IdempotencyStore.mem_insert hx with ⟨hx, -⟩ | rfl
        · exact hgetforgot.evict hget _ x hx hkey
        · rw [hinserted.expires]
          exact (min_le_left _ _).trans hlate
      -- The lookup comes first in every call that gets past the version.
      · -- the expiry raises
        have hbad : (B.stamp h.first).emitted_at.aware = false ∨
            (B.stamp h.first).emitted_at.canAdd ttl = false := by
          simpa only [not_and_or, Bool.not_eq_true] using hgood
        rw [(IdempotencyStore.put_raises _ _ _ _ hget hbad).2]
        exact hgetforgot.evict hget _
    · rw [hrun]
      exact ⟨hget, hgetforgot⟩
  obtain ⟨hsecond, hsecondforgot⟩ := B.forgot_foldl hnext.1 hnext.2 h.between_other
  rw [h.same_id]
  exact ⟨_, hsecondforgot.get hsecond⟩

/-- **Two calls with one id** record something twice exactly when the second finds something to
    record after the first, and the response of the first is no longer cached. -/
theorem atMostOnce_iff : h.AtMostOnce ↔ h.Covered := by
  have hfirst : B.Records h.atFirst h.first ↔ B.Writes h.atFirst h.first :=
    B.records_of_forgotten _ _ ⟨_, h.get_atFirst⟩
  unfold AtMostOnce Covered
  rw [hfirst]
  by_cases hwrites : B.Writes h.atFirst h.first
  case neg => simp [hwrites]
  by_cases hlasting : B.Caches h.atFirst h.first ∧ Lasting (B.stamp h.first) (B.stamp h.second)
  · have hno := B.not_records_of_found _ _ (h.found_atSecond hwrites hlasting.1 hlasting.2)
    simp [hno, hlasting]
  · have hsecond := B.records_of_forgotten _ _ (h.not_found_atSecond hwrites hlasting)
    rw [hsecond]
    simp only [hwrites, true_and, not_true_eq_false, false_or, hlasting, or_false]

end Repetition

/-! ### `IngestHandler.handle` -/

/-- A call in its caller's transaction: the tables it finds, and whether what it has written when
    it returns or raises is kept. -/
structure HandlerCall where
  io : EventIO
  env : EventEnvelope
  db : EventDatabase
  kept : Bool

namespace HandlerCall

/-- The call on the cache of the process. -/
def handled (rt : Runtime) (store : IdempotencyStore) (c : HandlerCall) :
    Except HandlerError IngestResponse × StoreState EventDatabase :=
  handle c.io.toHandlerIO (dispatchEvent rt c.io c.env) { idempotency := store, db := c.db }
    c.env.toIngestEnvelope

def stamp (c : HandlerCall) : Stamp where
  event_id := c.env.event_id
  emitted_at := c.env.emitted_at
  now_get := c.io.now_get
  now_evict := c.io.now_evict
  now_set := c.io.now_set

/-- The handler of a supported envelope finds something to write, and the caller keeps it. -/
def Writes (rt : Runtime) (c : HandlerCall) : Prop :=
  c.kept = true ∧ majorOf c.env.schema_version = supportedSchemaMajor ∧
    ∃ response db', dispatchEvent rt c.io c.env c.db = .ok (response, db') ∧ db' ≠ c.db

variable {rt : Runtime} {store : IdempotencyStore} {c : HandlerCall}

/-- Caching a response is at most one access. -/
theorem maybeCache_accesses (c : HandlerCall) (s : StoreState EventDatabase)
    (response : IngestResponse) :
    ∃ as : List IdempotencyStore.Access,
      (maybeCache c.io.toHandlerIO s c.env.toIngestEnvelope response).2.idempotency =
        as.foldl IdempotencyStore.access s.idempotency ∧ ∀ a ∈ as, c.stamp.Makes a := by
  by_cases heligible : (response.isAccepted || response.retryable == some false) = true
  · refine ⟨[.put c.io.now_evict c.io.now_set c.env.event_id response c.env.emitted_at], ?_, ?_⟩
    · rw [maybeCache, if_pos heligible]
      show _ = (s.idempotency.put _ _ _ _ _).2
      split
      · next hput => rw [hput]
      · next hput => rw [hput]
    · intro a ha
      rw [List.mem_singleton.mp ha]
      exact ⟨Or.inr rfl, fun u hu => (Option.some.inj hu).symm⟩
  · refine ⟨[], ?_, fun a ha => absurd ha (by simp)⟩
    rw [maybeCache, if_neg heligible]
    rfl

/-- Accepted responses are cached. -/
theorem maybeCache_accepted (c : HandlerCall) (s : StoreState EventDatabase)
    {response : IngestResponse}
    (h : response.isAccepted = true) :
    (maybeCache c.io.toHandlerIO s c.env.toIngestEnvelope response).2.idempotency =
      s.idempotency.access
      (.put c.io.now_evict c.io.now_set c.env.event_id response c.env.emitted_at) := by
  rw [maybeCache, if_pos (by simp [h])]
  show _ = (s.idempotency.put _ _ _ _ _).2
  split
  · next hput => rw [hput]
  · next hput => rw [hput]

/-- A call accesses the cache under its own id. -/
theorem handled_accesses (rt : Runtime) (c : HandlerCall) (haware : store.Aware) :
    ∃ as : List IdempotencyStore.Access,
      (c.handled rt store).2.idempotency = as.foldl IdempotencyStore.access store ∧
        ∀ a ∈ as, c.stamp.Makes a := by
  have hgetmakes : c.stamp.Makes (.get c.io.now_get) :=
    ⟨Or.inl rfl, fun u hu => absurd hu (by simp [IdempotencyStore.Access.inserts])⟩
  -- Every answer that is sent goes through `_maybe_cache`.
  have hafter : ∀ (db : EventDatabase) (response : IngestResponse),
      ∃ as : List IdempotencyStore.Access,
        (maybeCache c.io.toHandlerIO
          { idempotency := store.access (.get c.io.now_get), db := db } c.env.toIngestEnvelope
          response).2.idempotency = as.foldl IdempotencyStore.access store ∧
          ∀ a ∈ as, c.stamp.Makes a := by
    intro db response
    obtain ⟨as, heq, hmade⟩ := maybeCache_accesses c
      { idempotency := store.access (.get c.io.now_get), db := db } response
    refine ⟨.get c.io.now_get :: as, heq, fun a ha => ?_⟩
    rcases List.mem_cons.mp ha with rfl | ha
    · exact hgetmakes
    · exact hmade a ha
  have honly : ∃ as : List IdempotencyStore.Access,
      store.access (.get c.io.now_get) = as.foldl IdempotencyStore.access store ∧
        ∀ a ∈ as, c.stamp.Makes a :=
    ⟨[.get c.io.now_get], rfl, fun a ha => by rwa [List.mem_singleton.mp ha]⟩
  -- The branches of `handle`: the version, the lookup, and then the handler of the event.
  unfold handled handle
  by_cases hversion : majorOf c.env.schema_version ≠ supportedSchemaMajor
  · rw [if_pos hversion]
    exact maybeCache_accesses c _ _
  rw [if_neg hversion, IdempotencyStore.get_of_aware _ _ haware]
  cases ((store.access (.get c.io.now_get)).find? fun e => e.key == c.env.event_id.text) with
  | some e => exact honly
  | none =>
    simp only [Option.map_none]
    cases dispatchEvent rt c.io c.env c.db with
    | ok result => exact hafter result.2 result.1
    | error e =>
      cases e with
      | ingest error_code message retryable => exact hafter c.db _
      | _ => exact honly

/-- With the id not cached, a call leaves the tables as its handler does. -/
theorem handled_of_forgotten {left : IdempotencyStore}
    (hget : store.get c.io.now_get c.env.event_id = .ok (none, left)) :
    (c.kept = true ∧ (c.handled rt store).2.db ≠ c.db) ↔ c.Writes rt := by
  unfold handled handle Writes
  by_cases hversion : majorOf c.env.schema_version ≠ supportedSchemaMajor
  · rw [if_pos hversion, maybeCache_db]
    simp [hversion]
  rw [if_neg hversion, hget]
  rw [not_not] at hversion
  cases hdispatch : dispatchEvent rt c.io c.env c.db with
  | ok result =>
    obtain ⟨response, db'⟩ := result
    simp [hversion, maybeCache_db]
  | error e =>
    cases e with
    | ingest error_code message retryable => simp [answerError, maybeCache_db]
    | _ => simp [answerError]

/-- With the id cached, a call leaves the tables alone. -/
theorem handled_of_found {response : IngestResponse} {left : IdempotencyStore}
    (hget : store.get c.io.now_get c.env.event_id = .ok (some response, left)) :
    (c.handled rt store).2.db = c.db := by
  unfold handled handle
  by_cases hversion : majorOf c.env.schema_version ≠ supportedSchemaMajor
  · rw [if_pos hversion, maybeCache_db]
  · rw [if_neg hversion, hget]

/-- A call that writes caches its response. -/
theorem handled_of_writes (hwrites : c.Writes rt)
    (hget : store.get c.io.now_get c.env.event_id =
      .ok (none, store.access (.get c.io.now_get))) :
    ∃ response, (c.handled rt store).2.idempotency = (store.access (.get c.io.now_get)).access
      (.put c.io.now_evict c.io.now_set c.env.event_id response c.env.emitted_at) := by
  obtain ⟨-, hversion, response, db', hdispatch, hne⟩ := hwrites
  refine ⟨response, ?_⟩
  have haccepted : response.isAccepted = true := by
    rcases dispatchEvent_ok hdispatch with ⟨-, hsame⟩ | ⟨haccepted, -⟩
    · exact absurd hsame hne
    · exact haccepted
  have hhandled : c.handled rt store = maybeCache c.io.toHandlerIO
      { idempotency := store.access (.get c.io.now_get), db := db' } c.env.toIngestEnvelope
      response := by
    rw [handled, handle, if_neg (not_not.mpr hversion), hget]
    simp only [hdispatch]
  rw [hhandled]
  exact maybeCache_accepted c _ haccepted

end HandlerCall

/-- `IngestHandler.handle` over the cache of the process. -/
def handlerBackend (rt : Runtime) : Backend IdempotencyStore HandlerCall where
  stamp := HandlerCall.stamp
  run store c := (c.handled rt store).2.idempotency
  cache store := store
  Records store c := c.kept = true ∧ (c.handled rt store).2.db ≠ c.db
  Writes _ c := c.Writes rt
  Caches _ _ := True
  run_accesses _ c haware := c.handled_accesses rt haware
  records_of_forgotten _ _ := fun ⟨_, hget⟩ => HandlerCall.handled_of_forgotten hget
  not_records_of_found _ _ := fun ⟨_, _, hget⟩ hrecords =>
    hrecords.2 (HandlerCall.handled_of_found hget)
  run_writes _ _ _ hwrites hget :=
    Or.inl ⟨trivial, HandlerCall.handled_of_writes hwrites hget⟩

/-! ### `JsonlIngestClient.handle` -/

/-- A call with an envelope that carries an event id, an event type and a session id. -/
structure LineCall (rt : Runtime) where
  io : ByteIO
  envelope : Dict
  head : JsonlState.Head
  readHead_eq : JsonlState.readHead rt (ByteState.ioOf io .written) envelope = .ok head

namespace LineCall

variable {rt : Runtime} {w : JsonLimits} {s : ByteState} {c : LineCall rt}

def stamp (c : LineCall rt) : Stamp where
  event_id := c.head.event_id
  emitted_at := c.head.emitted_at
  now_get := c.io.now_get
  now_evict := c.io.now_evict
  now_set := c.io.now_set

/-- What the call builds from the envelope, and the chains that leaves. -/
def built (s : ByteState) (c : LineCall rt) :
    Except PyError (IngestResponse × Dict) × ChainRegistry :=
  ByteState.buildRecord rt c.io s.chains c.envelope c.head

/-- What the append of a line leaves in the file, and whether it returns: `os.fsync` and `os.close`
    may raise behind `os.write`.  Nothing if it raises before. -/
def appended (w : JsonLimits) (s : ByteState) (c : LineCall rt) (line : Dict) :
    Option (List UInt8 × Bool) :=
  match shouldFsync s.fsync c.head.event_type with
  | .error _ => none
  | .ok do_fsync =>
    match dumpsError w 0 (.obj line) with
    | some _ => none
    | none =>
      (c.io.write (recordText line ++ [lineBreak]).length).map fun written =>
        ((recordText line ++ [lineBreak]).take written,
          !((do_fsync && !c.io.fsync_ok) || !c.io.close_ok))

/-- The call seals an action or writes to the file. -/
def Writes (w : JsonLimits) (s : ByteState) (c : LineCall rt) : Prop :=
  (c.built s).2 ≠ s.chains ∨ ∃ response line bytes returns, (c.built s).1 = .ok (response, line) ∧
    c.appended w s line = some (bytes, returns) ∧ bytes ≠ []

/-- The call gets past the append. -/
def Caches (w : JsonLimits) (s : ByteState) (c : LineCall rt) : Prop :=
  ∃ response line bytes, (c.built s).1 = .ok (response, line) ∧
    c.appended w s line = some (bytes, true)

/-- The call on an id that is not cached: what it builds is recorded, or the error escapes. -/
theorem handle_of_forgotten {left : IdempotencyStore}
    (hget : s.idempotency.get c.io.now_get c.head.event_id = .ok (none, left)) :
    s.handle rt w c.io c.envelope =
      match (c.built s).1 with
      | .error e =>
        (.error (.python e), { s with idempotency := left, chains := (c.built s).2 })
      | .ok (response, line) =>
        ({ s with idempotency := left, chains := (c.built s).2 } : ByteState).record w c.io c.head
          response line := by
  rw [ByteState.handle, c.readHead_eq]
  simp only [hget]
  unfold built
  generalize ByteState.buildRecord rt c.io s.chains c.envelope c.head = built
  obtain ⟨result, chains⟩ := built
  cases result with
  | error e => rfl
  | ok p => rfl

/-- Recording a line: the bytes of the append are there, and the cache is accessed if it returns. -/
theorem record_eq (w : JsonLimits) (s : ByteState) (c : LineCall rt) (response : IngestResponse)
    (line : Dict) :
    (s.record w c.io c.head response line).2.chains = s.chains ∧
      (s.record w c.io c.head response line).2.files = (match c.appended w s line with
        | none => s.files
        | some (bytes, _) => Function.update s.files c.head.session_id
            (s.files c.head.session_id ++ bytes)) ∧
      (s.record w c.io c.head response line).2.idempotency = (match c.appended w s line with
        | some (_, true) => s.idempotency.access
            (.put c.io.now_evict c.io.now_set c.head.event_id response c.head.emitted_at)
        | _ => s.idempotency) := by
  unfold ByteState.record appended
  -- a mode of fsync that is no text, or a record that cannot be dumped: nothing was opened yet
  cases shouldFsync s.fsync c.head.event_type with
  | error e => exact ⟨rfl, rfl, rfl⟩
  | ok do_fsync =>
    unfold ByteState.appendLine
    dsimp only
    cases dumpsError w 0 (.obj line) with
    | some e => exact ⟨rfl, rfl, rfl⟩
    | none =>
      dsimp only
      cases c.io.write (recordText line ++ [lineBreak]).length with
      -- `os.write` raised
      | none => exact ⟨rfl, rfl, rfl⟩
      | some written =>
        rw [Option.map_some]
        dsimp only
        -- whatever was written stays; only an append that returns reaches the cache
        by_cases hraises : ((do_fsync && !c.io.fsync_ok) || !c.io.close_ok) = true
        · rw [if_pos hraises, hraises]
          exact ⟨rfl, rfl, rfl⟩
        · rw [if_neg hraises, Bool.eq_false_iff.mpr hraises]
          unfold IdempotencyStore.access
          dsimp only
          generalize s.idempotency.put c.io.now_evict c.io.now_set c.head.event_id response
            c.head.emitted_at = put
          obtain ⟨result, store⟩ := put
          cases result with
          | error e => exact ⟨rfl, rfl, rfl⟩
          | ok _ => exact ⟨rfl, rfl, rfl⟩

/-- The call on an id that is not cached, summed up. -/
theorem handle_cases {left : IdempotencyStore}
    (hget : s.idempotency.get c.io.now_get c.head.event_id = .ok (none, left)) :
    ((s.handle rt w c.io c.envelope).2.chains = (c.built s).2) ∧
      ((s.handle rt w c.io c.envelope).2.files ≠ s.files ↔
        ∃ response line bytes returns, (c.built s).1 = .ok (response, line) ∧
          c.appended w s line = some (bytes, returns) ∧ bytes ≠ []) ∧
      ((c.Caches w s ∧ ∃ response, (s.handle rt w c.io c.envelope).2.idempotency = left.access
          (.put c.io.now_evict c.io.now_set c.head.event_id response c.head.emitted_at)) ∨
        (¬ c.Caches w s ∧ (s.handle rt w c.io c.envelope).2.idempotency = left)) := by
  rw [handle_of_forgotten hget]
  unfold Caches
  cases hbuilt : (c.built s).1 with
  | error e =>
    refine ⟨rfl, ⟨fun h => absurd rfl h, ?_⟩, Or.inr ⟨?_, rfl⟩⟩
    · rintro ⟨response, line, bytes, returns, heq, -⟩
      exact absurd heq (by simp)
    · rintro ⟨response, line, bytes, heq, -⟩
      exact absurd heq (by simp)
  | ok result =>
    obtain ⟨response, line⟩ := result
    obtain ⟨hchains, hfiles, hcache⟩ := record_eq w
      { s with idempotency := left, chains := (c.built s).2 } c response line
    -- the append looks at neither the cache nor the chains
    have happended : c.appended w { s with idempotency := left, chains := (c.built s).2 } line =
        c.appended w s line := rfl
    rw [happended] at hfiles hcache
    refine ⟨hchains, ?_, ?_⟩
    · dsimp only
      rw [hfiles]
      constructor
      · intro hchanged
        cases happ : c.appended w s line with
        | none =>
          rw [happ] at hchanged
          exact absurd rfl hchanged
        | some p =>
          obtain ⟨bytes, returns⟩ := p
          rw [happ] at hchanged
          refine ⟨response, line, bytes, returns, rfl, happ, ?_⟩
          rintro rfl
          refine hchanged ?_
          dsimp only
          rw [List.append_nil, Function.update_eq_self]
      · rintro ⟨response', line', bytes, returns, heq, happ, hbytes⟩ hsame
        obtain ⟨-, rfl⟩ := Prod.mk.inj (Except.ok.inj heq)
        rw [happ] at hsame
        have hline := congrFun hsame c.head.session_id
        dsimp only at hline
        rw [Function.update_self] at hline
        exact hbytes (List.append_right_eq_self.mp hline)
    · dsimp only
      rw [hcache]
      cases happ : c.appended w s line with
      | none =>
        refine Or.inr ⟨?_, rfl⟩
        rintro ⟨response', line', bytes, heq, happ'⟩
        obtain ⟨-, rfl⟩ := Prod.mk.inj (Except.ok.inj heq)
        exact absurd (happ.symm.trans happ') (by simp)
      | some p =>
        obtain ⟨bytes, returns⟩ := p
        cases returns with
        | true => exact Or.inl ⟨⟨response, line, bytes, rfl, happ⟩, response, rfl⟩
        | false =>
          refine Or.inr ⟨?_, rfl⟩
          rintro ⟨response', line', bytes', heq, happ'⟩
          obtain ⟨-, rfl⟩ := Prod.mk.inj (Except.ok.inj heq)
          exact absurd (happ.symm.trans happ') (by simp)

/-- With the id cached, a call leaves the chains and the files alone. -/
theorem handle_of_found {response : IngestResponse} {left : IdempotencyStore}
    (hget : s.idempotency.get c.io.now_get c.head.event_id = .ok (some response, left)) :
    (s.handle rt w c.io c.envelope).2 = { s with idempotency := left } := by
  rw [ByteState.handle, c.readHead_eq]
  simp only [hget]

/-- A call accesses the cache under its own id. -/
theorem handle_accesses (w : JsonLimits) (s : ByteState) (c : LineCall rt)
    (haware : s.idempotency.Aware) :
    ∃ as : List IdempotencyStore.Access,
      (s.handle rt w c.io c.envelope).2.idempotency =
        as.foldl IdempotencyStore.access s.idempotency ∧ ∀ a ∈ as, c.stamp.Makes a := by
  have hgetmakes : c.stamp.Makes (.get c.io.now_get) :=
    ⟨Or.inl rfl, fun u hu => absurd hu (by simp [IdempotencyStore.Access.inserts])⟩
  have hget := IdempotencyStore.get_of_aware c.io.now_get c.head.event_id haware
  cases hfound : (s.idempotency.access (.get c.io.now_get)).find?
      fun e => e.key == c.head.event_id.text with
  | some e =>
    rw [hfound, Option.map_some] at hget
    refine ⟨[.get c.io.now_get], ?_, fun a ha => by rwa [List.mem_singleton.mp ha]⟩
    rw [handle_of_found hget]
    rfl
  | none =>
    rw [hfound, Option.map_none] at hget
    obtain ⟨-, -, ⟨-, response, heq⟩ | ⟨-, heq⟩⟩ := @handle_cases rt w s c _ hget
    · refine ⟨[.get c.io.now_get, .put c.io.now_evict c.io.now_set c.head.event_id response
        c.head.emitted_at], heq, fun a ha => ?_⟩
      rcases List.mem_pair.mp ha with rfl | rfl
      · exact hgetmakes
      · exact ⟨Or.inr rfl, fun u hu => (Option.some.inj hu).symm⟩
    · exact ⟨[.get c.io.now_get], heq, fun a ha => by rwa [List.mem_singleton.mp ha]⟩

end LineCall

/-- `JsonlIngestClient.handle`: bytes in a file or a sealed action count as recorded. -/
def jsonlBackend (rt : Runtime) (w : JsonLimits) : Backend ByteState (LineCall rt) where
  stamp := LineCall.stamp
  run s c := (s.handle rt w c.io c.envelope).2
  cache s := s.idempotency
  Records s c := (s.handle rt w c.io c.envelope).2.chains ≠ s.chains ∨
    (s.handle rt w c.io c.envelope).2.files ≠ s.files
  Writes s c := c.Writes w s
  Caches s c := c.Caches w s
  run_accesses s c haware := c.handle_accesses w s haware
  records_of_forgotten s c := by
    rintro ⟨left, hget⟩
    obtain ⟨hchains, hfiles, -⟩ := @LineCall.handle_cases rt w s c left hget
    rw [hchains, hfiles]
    rfl
  not_records_of_found s c := by
    rintro ⟨response, left, hget⟩
    rw [@LineCall.handle_of_found rt w s c response left hget]
    simp
  run_writes s c _ _ := by
    intro hget
    obtain ⟨-, -, hcache⟩ := @LineCall.handle_cases rt w s c _ hget
    exact hcache

/-! ### At most once -/

/-- **At most once per event id.**  In every run of either store in which an id comes back within
    a day, with fewer than `maxEntries` other ids in between, the two calls do not both record
    something exactly when one of them finds nothing to record, or the first gets as far as the
    cache and its `emitted_at`, with an offset and a day past it representable, is less than a
    day before the second call. -/
theorem at_most_once_iff (rt : Runtime) (w : JsonLimits) :
    (∀ h : Repetition (handlerBackend rt), h.AtMostOnce ↔ h.Covered) ∧
      ∀ h : Repetition (jsonlBackend rt w), h.AtMostOnce ↔ h.Covered :=
  ⟨fun h => h.atMostOnce_iff, fun h => h.atMostOnce_iff⟩

/-! ### An event handed over two days late -/

/-- The call of a well-formed envelope, on files of bytes. -/
def JsonlCall.lineCall {rt : Runtime} (c : JsonlCall rt) (io : ByteIO)
    (hio : ByteState.ioOf io .written = c.io) : LineCall rt :=
  ⟨io, c.envelope, c.head, hio ▸ c.readHead_eq⟩

/-- An action is always sealed. -/
theorem JsonlCall.writes {rt : Runtime} (c : JsonlCall rt) (hkind : c.kind = .ACTION_RECORD)
    (io : ByteIO) (hio : ByteState.ioOf io .written = c.io) (w : JsonLimits) (s : ByteState) :
    (c.lineCall io hio).Writes w s := by
  let lines : JsonlState := ⟨s.fsync, s.idempotency, s.chains, fun _ => []⟩
  obtain ⟨response, line, chains, hbuild, -, ⟨-, sealed, -, hchains, -⟩ | ⟨hno, -⟩⟩ :=
    build_eq c lines
  · left
    rw [← hio, ByteState.build_eq_buildRecord] at hbuild
    have hbuilt : ((c.lineCall io hio).built s).2 = chains :=
      congrArg (fun p => p.2.chains) hbuild
    rw [hbuilt, hchains]
    intro hsame
    have hcount := congrArg ChainState.count (congrFun hsame c.session.text)
    rw [Function.update_self] at hcount
    exact absurd hcount (by simp [lines])
  · exact absurd hkind hno

/-- `2026-05-03T12:00:00+00:00`. -/
def mayThird : UtcNow where
  time :=
    { ticks := 63913406400000000
      offset := some 0
      ticks_lt := by decide
      offset_lt := zeroOffset_lt }
  utc := rfl
  in_range := by decide

/-- The action emitted at noon of the first of May, handed over two days later. -/
def lateCall : JsonlCall twoDates :=
  { mayCall with
    io := ⟨exampleRecord, mayThird, mayThird, mayThird, mayThird, .written⟩
    written := rfl
    emitted_at_eq := mayCall.emitted_at_eq }

/-- A file system on which nothing fails. -/
def lateIO : ByteIO where
  fresh := exampleRecord
  now_parse := mayThird
  now_get := mayThird
  now_evict := mayThird
  now_set := mayThird
  write := some
  write_le := fun _ _ h => (Option.some.inj h).ge
  fsync_ok := true
  close_ok := true

/-- The late call, made twice at one reading of the clock. -/
def lateTwice : Repetition (jsonlBackend twoDates defaultLimits) where
  start := .init
  before := []
  first := lateCall.lineCall lateIO rfl
  between := []
  second := lateCall.lineCall lateIO rfl
  start_empty := rfl
  before_other := fun c hc => absurd hc (by simp)
  between_other := fun c hc => absurd hc (by simp)
  same_id := rfl
  few := by
    show 0 < maxEntries
    decide
  within_day := by
    have hday : 0 < ttl := by decide
    omega
  first_clock := le_refl _
  between_clock := fun c hc => absurd hc (by simp)

/-- A second line is written. -/
theorem not_at_most_once_lateTwice : ¬ lateTwice.AtMostOnce := by
  rw [lateTwice.atMostOnce_iff]
  rintro (hno | hno | ⟨-, -, -, hbefore⟩)
  · exact hno (lateCall.writes rfl lateIO rfl _ _)
  · exact hno (lateCall.writes rfl lateIO rfl _ _)
  · have hlate : ¬ mayThird.time.instant < mayNoon.time.instant + ttl := by decide
    exact hlate hbefore

end RootSign
