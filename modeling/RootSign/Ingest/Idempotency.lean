import Mathlib.Data.Finset.Card
import RootSign.Ingest.Schemas

namespace RootSign

open RootSign.Python

/-!
# The idempotency store (`rootsign/ingest/idempotency.py`)

An insertion-ordered map from event ids to responses with an expiry.  Eviction drops expired
entries; the expiry is clamped to one day from now; a hard cap drops the oldest entries.

* `IdempotencyStore.get`, `IdempotencyStore.put` (`set` in the source) with the exceptions
  their date arithmetic raises;
* `get_eq`, `put_eq` — what they do when every date is offset-aware;
* `StoreInv` — the invariant both keep;
* `Remembers`, `Forgot` — an id is cached until a given time, or no longer; accesses under
  other ids keep either (`Remembers.accesses`, `Forgot.accesses`).
-/

/-- The time to live: 24 hours. -/
def ttl : ℕ := dayTicks

theorem ttl_eq : ttl = dayTicks := rfl

/-- Hard ceiling on cached entries. -/
def maxEntries : ℕ := 100000

/-- A cached response and when it expires. -/
structure CacheEntry where
  key : JStr
  response : IngestResponse
  expires_at : PyDateTime

/-- The cache, oldest insertion first. -/
abbrev IdempotencyStore := List CacheEntry

namespace IdempotencyStore

/-- Drop the entries that have expired at `now`. -/
def evictExpired (now : UtcNow) : IdempotencyStore → Except PyError IdempotencyStore
  | [] => .ok []
  | e :: rest => do
    let expired ← e.expires_at.le now.time
    let kept ← evictExpired now rest
    return if expired then kept else e :: kept

/-- Drop the oldest entries until under the cap. -/
def enforceSizeCap (store : IdempotencyStore) : IdempotencyStore :=
  store.drop (store.length - maxEntries)

/-- `get(event_id)`, with the store after eviction. -/
def get (store : IdempotencyStore) (now : UtcNow) (event_id : Uuid) :
    Except PyError (Option IngestResponse × IdempotencyStore) := do
  let store ← evictExpired now store
  return ((store.find? fun e => e.key == event_id.text).map CacheEntry.response, store)

/-- `min(emitted_at + TTL, now + TTL)`. -/
def expiry (now : UtcNow) (emitted_at : PyDateTime) : Except PyError PyDateTime := do
  let requested ← emitted_at.add ttl
  let limit ← now.time.add ttl
  requested.min limit

/-- Insert at the end, as the most recent entry. -/
def insert (store : IdempotencyStore) (e : CacheEntry) : IdempotencyStore :=
  enforceSizeCap (store.filter (fun x => x.key != e.key) ++ [e])

/-- `set(event_id, response, emitted_at)`; the entries evicted before an exception are gone. -/
def put (store : IdempotencyStore) (now_evict now : UtcNow) (event_id : Uuid)
    (response : IngestResponse) (emitted_at : PyDateTime) :
    Except PyError Unit × IdempotencyStore :=
  match evictExpired now_evict store with
  | .error e => (.error e, store)
  | .ok store =>
    match expiry now emitted_at with
    | .error e => (.error e, store)
    | .ok expires_at =>
      (.ok (), store.insert
        { key := event_id.text, response := response, expires_at := expires_at })

end IdempotencyStore

/-! ### On offset-aware dates -/

/-- Every expiry is offset-aware, and every key is one of the ids handled. -/
structure StoreInv (handled : List Uuid) (store : IdempotencyStore) : Prop where
  aware : ∀ e ∈ store, e.expires_at.aware = true
  key : ∀ e ∈ store, ∃ u ∈ handled, e.key = u.text

/-- Dropping entries keeps the invariant, and so does handling more ids. -/
theorem StoreInv.mono {handled handled' : List Uuid} {store store' : IdempotencyStore}
    (h : StoreInv handled store) (hsub : ∀ e ∈ store', e ∈ store)
    (hids : ∀ u ∈ handled, u ∈ handled') : StoreInv handled' store' where
  aware := fun e he => h.aware e (hsub e he)
  key := fun e he => by
    obtain ⟨u, hu, hkey⟩ := h.key e (hsub e he)
    exact ⟨u, hids u hu, hkey⟩

namespace IdempotencyStore

variable {store : IdempotencyStore} {handled : List Uuid} {event_id : Uuid}

/-- Eviction only drops entries. -/
theorem evictExpired_eq (now : UtcNow) (h : ∀ e ∈ store, e.expires_at.aware = true) :
    ∃ kept, evictExpired now store = .ok kept ∧ ∀ e ∈ kept, e ∈ store := by
  induction store with
  | nil => exact ⟨[], rfl, fun e he => he⟩
  | cons e rest ih =>
    obtain ⟨kept, hkept, hsub⟩ := ih fun x hx => h x (by simp [hx])
    have hle := PyDateTime.le_of_aware (h e (by simp)) now.aware
    rw [evictExpired, hle, hkept]
    cases decide (e.expires_at.instant ≤ now.time.instant)
    · refine ⟨e :: kept, rfl, fun x hx => ?_⟩
      rcases List.mem_cons.mp hx with rfl | hx
      · simp
      · simp [hsub x hx]
    · exact ⟨kept, rfl, fun x hx => by simp [hsub x hx]⟩

/-- The size cap adds no entry. -/
theorem mem_enforceSizeCap {e : CacheEntry} (h : e ∈ enforceSizeCap store) : e ∈ store := by
  rw [enforceSizeCap] at h
  exact List.mem_of_mem_drop h

/-- A fresh id is not found. -/
theorem get_eq (now : UtcNow) (h : StoreInv handled store) (hfresh : event_id ∉ handled) :
    ∃ store', store.get now event_id = .ok (none, store') ∧ StoreInv handled store' := by
  obtain ⟨kept, hkept, hsub⟩ := evictExpired_eq now h.aware
  have hinv := h.mono hsub fun u hu => hu
  refine ⟨kept, ?_, hinv⟩
  have hnone : kept.find? (fun e => e.key == event_id.text) = none := by
    rw [List.find?_eq_none]
    intro e he heq
    obtain ⟨u, hu, hkey⟩ := hinv.key e he
    rw [beq_iff_eq, hkey] at heq
    exact hfresh (Uuid.ext heq ▸ hu)
  simp only [IdempotencyStore.get, hkept, bind, Except.bind, hnone]
  rfl

/-- The expiry of an aware date is representable exactly when a day past it is. -/
theorem expiry_eq (now : UtcNow) {emitted_at : PyDateTime} (haware : emitted_at.aware = true) :
    (emitted_at.canAdd ttl = true → ∃ t, expiry now emitted_at = .ok t ∧ t.aware = true) ∧
    (emitted_at.canAdd ttl = false → expiry now emitted_at = .error .overflowError) := by
  constructor
  · intro hrange
    obtain ⟨requested, hok⟩ := PyDateTime.add_of_canAdd hrange
    have hraware := (PyDateTime.add_aware hok).trans haware
    obtain ⟨limit, hlimit, hlaware⟩ := now.add_day
    rw [← ttl_eq] at hlimit
    obtain ⟨t, hmin, htaware⟩ := PyDateTime.min_of_aware hraware hlaware
    refine ⟨t, ?_, htaware⟩
    rw [expiry, hok, hlimit]
    exact hmin
  · intro hrange
    rw [expiry, PyDateTime.add_of_not_canAdd hrange]
    rfl

/-- Inserting an aware entry under a handled id keeps the invariant. -/
theorem insert_inv {e : CacheEntry} (h : StoreInv handled store)
    (haware : e.expires_at.aware = true) (hkey : e.key = event_id.text) :
    StoreInv (event_id :: handled) (store.insert e) := by
  have hmem : ∀ x ∈ store.insert e, x ∈ store ∨ x = e := by
    intro x hx
    rcases List.mem_append.mp (mem_enforceSizeCap hx) with hx | hx
    · exact Or.inl (List.mem_of_mem_filter hx)
    · exact Or.inr (List.mem_singleton.mp hx)
  refine ⟨fun x hx => ?_, fun x hx => ?_⟩
  all_goals rcases hmem x hx with hx | rfl
  · exact h.aware x hx
  · exact haware
  · obtain ⟨u, hu, hxkey⟩ := h.key x hx
    exact ⟨u, List.mem_cons_of_mem _ hu, hxkey⟩
  · exact ⟨event_id, List.mem_cons_self, hkey⟩

/-- Storing a response raises exactly when a day past `emitted_at` is not representable. -/
theorem put_eq (now_evict now : UtcNow) (event_id : Uuid) (response : IngestResponse)
    {emitted_at : PyDateTime}
    (h : StoreInv handled store) (haware : emitted_at.aware = true) :
    ∃ store', StoreInv (event_id :: handled) store' ∧
      store.put now_evict now event_id response emitted_at =
        (if emitted_at.canAdd ttl then .ok () else .error .overflowError, store') := by
  obtain ⟨kept, hkept, hsub⟩ := evictExpired_eq now_evict h.aware
  have hinv := h.mono hsub fun u hu => hu
  rw [IdempotencyStore.put, hkept]
  cases hrange : emitted_at.canAdd ttl with
  | true =>
    obtain ⟨t, ht, htaware⟩ := (expiry_eq now haware).1 hrange
    rw [ht]
    exact ⟨_, insert_inv hinv htaware rfl, rfl⟩
  | false =>
    rw [(expiry_eq now haware).2 hrange]
    exact ⟨kept, hinv.mono (fun e he => he) fun u hu => List.mem_cons_of_mem _ hu, rfl⟩

/-! ### How long an id is remembered -/

/-- An access of a call to the store. -/
inductive Access where
  | get (now : UtcNow)
  | put (now_evict now : UtcNow) (event_id : Uuid) (response : IngestResponse)
      (emitted_at : PyDateTime)

/-- The reading of the clock at which an access evicts. -/
def Access.evictsAt : Access → ℤ
  | .get now => now.time.instant
  | .put now_evict _ _ _ _ => now_evict.time.instant

/-- The id an access inserts. -/
def Access.inserts : Access → Option Uuid
  | .get _ => none
  | .put _ _ event_id _ _ => some event_id

/-- The store after an access. -/
def access (store : IdempotencyStore) : Access → IdempotencyStore
  | .get now =>
    match evictExpired now store with
    | .ok kept => kept
    | .error _ => store
  | .put now_evict now event_id response emitted_at =>
    (store.put now_evict now event_id response emitted_at).2

/-- Every expiry is offset-aware. -/
def Aware (store : IdempotencyStore) : Prop := ∀ e ∈ store, e.expires_at.aware = true

/-- Eviction keeps the entries that expire later. -/
theorem evictExpired_filter (now : UtcNow) (h : Aware store) :
    evictExpired now store =
      .ok (store.filter fun e => now.time.instant < e.expires_at.instant) := by
  induction store with
  | nil => rfl
  | cons e rest ih =>
    have hle := PyDateTime.le_of_aware (h e (by simp)) now.aware
    rw [evictExpired, hle, ih fun x hx => h x (by simp [hx]), List.filter_cons]
    by_cases hlt : now.time.instant < e.expires_at.instant
    · simp [bind, Except.bind, pure, Except.pure, hlt, not_le.mpr hlt]
    · simp [bind, Except.bind, pure, Except.pure, hlt, not_lt.mp hlt]

/-- A look-up drops the entries that have expired. -/
theorem access_get (now : UtcNow) (h : Aware store) :
    access store (.get now) = store.filter fun e => now.time.instant < e.expires_at.instant := by
  unfold access
  simp only [evictExpired_filter now h]

/-- Looking an id up, on offset-aware expiries. -/
theorem get_of_aware (now : UtcNow) (event_id : Uuid) (h : Aware store) :
    store.get now event_id =
      .ok (((access store (.get now)).find? fun e => e.key == event_id.text).map
        CacheEntry.response, access store (.get now)) := by
  rw [access_get now h, IdempotencyStore.get, evictExpired_filter now h]
  rfl

/-- An insert keeps the other keys and adds one entry at most. -/
theorem mem_insert {e x : CacheEntry} (h : x ∈ store.insert e) :
    (x ∈ store ∧ x.key ≠ e.key) ∨ x = e := by
  rcases List.mem_append.mp (mem_enforceSizeCap h) with hx | hx
  · rw [List.mem_filter] at hx
    exact Or.inl ⟨hx.1, by simpa using hx.2⟩
  · exact Or.inr (List.mem_singleton.mp hx)

/-- What a successful insertion stores: an entry that expires a day from `emitted_at`, or a day
    from now if that is earlier. -/
structure Inserted (now : UtcNow) (event_id : Uuid) (emitted_at : PyDateTime) (e : CacheEntry) :
    Prop where
  key : e.key = event_id.text
  aware : e.expires_at.aware = true
  expires : e.expires_at.instant =
    min (emitted_at.instant + ttl) (now.time.instant + ttl)

/-- The expiry is undefined for a date without an offset, or too late. -/
theorem expiry_error (now : UtcNow) {emitted_at : PyDateTime}
    (h : emitted_at.aware = false ∨ emitted_at.canAdd ttl = false) :
    ∃ e, expiry now emitted_at = .error e := by
  cases hrange : emitted_at.canAdd ttl with
  | false =>
    refine ⟨.overflowError, ?_⟩
    rw [expiry, PyDateTime.add_of_not_canAdd hrange]
    rfl
  | true =>
    obtain ⟨requested, hok⟩ := PyDateTime.add_of_canAdd hrange
    obtain ⟨limit, hlimit, hlaware⟩ := now.add_day
    rw [← ttl_eq] at hlimit
    have hnaive : requested.aware = false := by
      rw [PyDateTime.add_aware hok]
      exact h.resolve_right (by simp [hrange])
    refine ⟨.typeError, ?_⟩
    rw [expiry, hok, hlimit]
    exact PyDateTime.min_of_naive hnaive hlaware

/-- The expiry of an offset-aware date, with a day past it representable. -/
theorem expiry_instant (now : UtcNow) {emitted_at : PyDateTime} (haware : emitted_at.aware = true)
    (hrange : emitted_at.canAdd ttl = true) :
    ∃ t, expiry now emitted_at = .ok t ∧ t.aware = true ∧
      t.instant = min (emitted_at.instant + ttl) (now.time.instant + ttl) := by
  obtain ⟨requested, hok⟩ := PyDateTime.add_of_canAdd hrange
  obtain ⟨limit, hlimit, hlaware⟩ := now.add_day
  rw [← ttl_eq] at hlimit
  have hraware := (PyDateTime.add_aware hok).trans haware
  obtain ⟨t, hmin, htaware⟩ := PyDateTime.min_of_aware hraware hlaware
  refine ⟨t, ?_, htaware, ?_⟩
  · rw [expiry, hok, hlimit]
    exact hmin
  · rw [PyDateTime.min_instant hmin, PyDateTime.add_instant hok, PyDateTime.add_instant hlimit]

/-- `set` with a date that an expiry can be computed of. -/
theorem put_of_ok {now_evict now : UtcNow} {emitted_at t : PyDateTime} {kept : IdempotencyStore}
    (response : IngestResponse) (hkept : evictExpired now_evict store = .ok kept)
    (hexpiry : expiry now emitted_at = .ok t) :
    store.put now_evict now event_id response emitted_at =
      (.ok (), kept.insert { key := event_id.text, response := response, expires_at := t }) := by
  unfold IdempotencyStore.put
  rw [hkept]
  conv_lhs => rw [hexpiry]

/-- `set` with a date that no expiry can be computed of raises once the cache is evicted. -/
theorem put_of_error {now_evict now : UtcNow} {emitted_at : PyDateTime} {kept : IdempotencyStore}
    {error : PyError} (event_id : Uuid) (response : IngestResponse)
    (hkept : evictExpired now_evict store = .ok kept)
    (hexpiry : expiry now emitted_at = .error error) :
    store.put now_evict now event_id response emitted_at = (.error error, kept) := by
  unfold IdempotencyStore.put
  rw [hkept]
  conv_lhs => rw [hexpiry]

/-- Storing a response, with what it leaves. -/
theorem access_put {now_evict now : UtcNow} {response : IngestResponse} {emitted_at : PyDateTime}
    {result : Except PyError Unit} {left : IdempotencyStore}
    (h : store.put now_evict now event_id response emitted_at = (result, left)) :
    (store.put now_evict now event_id response emitted_at).1 = result ∧
      access store (.put now_evict now event_id response emitted_at) = left := by
  have heq : access store (.put now_evict now event_id response emitted_at) =
      (store.put now_evict now event_id response emitted_at).2 := rfl
  rw [heq, h]
  exact ⟨rfl, rfl⟩

/-- Storing a response evicts and inserts an entry, when a day past an offset-aware `emitted_at`
    is representable. -/
theorem put_inserts (now_evict now : UtcNow) (event_id : Uuid) (response : IngestResponse)
    {emitted_at : PyDateTime} (h : Aware store) (haware : emitted_at.aware = true)
    (hrange : emitted_at.canAdd ttl = true) :
    ∃ e, Inserted now event_id emitted_at e ∧ e.response = response ∧
      (store.put now_evict now event_id response emitted_at).1 = .ok () ∧
      access store (.put now_evict now event_id response emitted_at) =
        (access store (.get now_evict)).insert e := by
  obtain ⟨t, hexpiry, htaware, hinstant⟩ := expiry_instant now haware hrange
  refine ⟨⟨event_id.text, response, t⟩, ⟨rfl, htaware, hinstant⟩, rfl, ?_⟩
  rw [access_get now_evict h]
  exact access_put (put_of_ok response (evictExpired_filter now_evict h) hexpiry)

/-- Otherwise it evicts and raises. -/
theorem put_raises (now_evict now : UtcNow) (event_id : Uuid) (response : IngestResponse)
    {emitted_at : PyDateTime} (h : Aware store)
    (hbad : emitted_at.aware = false ∨ emitted_at.canAdd ttl = false) :
    (∃ error, (store.put now_evict now event_id response emitted_at).1 = .error error) ∧
      access store (.put now_evict now event_id response emitted_at) =
        access store (.get now_evict) := by
  obtain ⟨error, herror⟩ := expiry_error now hbad
  obtain ⟨herr, hleft⟩ :=
    access_put (put_of_error event_id response (evictExpired_filter now_evict h) herror)
  rw [access_get now_evict h]
  exact ⟨⟨error, herr⟩, hleft⟩

/-- What an access leaves: the entries that have not expired, with an inserted one at most. -/
theorem access_cases (h : Aware store) (a : Access) :
    (∃ now, a.evictsAt = now.time.instant ∧ access store a = access store (.get now)) ∨
    ∃ now_evict now event_id response emitted_at e,
      a = .put now_evict now event_id response emitted_at ∧ emitted_at.aware = true ∧
      Inserted now event_id emitted_at e ∧
      access store a = (access store (.get now_evict)).insert e := by
  cases a with
  | get now => exact Or.inl ⟨now, rfl, rfl⟩
  | put now_evict now event_id response emitted_at =>
    by_cases hgood : emitted_at.aware = true ∧ emitted_at.canAdd ttl = true
    · obtain ⟨e, hinserted, -, -, heq⟩ :=
        put_inserts now_evict now event_id response h hgood.1 hgood.2
      exact Or.inr ⟨_, _, _, _, _, e, rfl, hgood.1, hinserted, heq⟩
    · have hbad : emitted_at.aware = false ∨ emitted_at.canAdd ttl = false := by
        simpa only [not_and_or, Bool.not_eq_true] using hgood
      exact Or.inl ⟨now_evict, rfl, (put_raises now_evict now event_id response h hbad).2⟩

/-- Eviction keeps awareness. -/
theorem Aware.evict (h : Aware store) (now : UtcNow) : Aware (access store (.get now)) := by
  rw [access_get now h]
  exact fun e he => h e (List.mem_of_mem_filter he)

/-- An access keeps every expiry offset-aware. -/
theorem Aware.access (h : Aware store) (a : Access) : Aware (access store a) := by
  rcases access_cases h a with ⟨now, -, heq⟩ | ⟨now_evict, now, id, response, emitted_at, e, -, -,
    hinserted, heq⟩
  · rw [heq]
    exact h.evict now
  · rw [heq]
    intro x hx
    rcases mem_insert hx with ⟨hx, -⟩ | rfl
    · exact h.evict now_evict x hx
    · exact hinserted.aware

/-- Every entry of the id expires by the time `t`. -/
def Forgot (store : IdempotencyStore) (event_id : Uuid) (t : ℤ) : Prop :=
  ∀ e ∈ store, e.key = event_id.text → e.expires_at.instant ≤ t

/-- A look-up does not bring an entry back. -/
theorem Forgot.evict {t : ℤ} (h : Forgot store event_id t) (haware : Aware store) (now : UtcNow) :
    Forgot (IdempotencyStore.access store (.get now)) event_id t := by
  rw [access_get now haware]
  exact fun e he => h e (List.mem_of_mem_filter he)

/-- Accesses that insert no entry of the id keep it forgotten. -/
theorem Forgot.access {t : ℤ} (h : Forgot store event_id t) (haware : Aware store) {a : Access}
    (ha : a.inserts ≠ some event_id) : Forgot (access store a) event_id t := by
  rcases access_cases haware a with ⟨now, -, heq⟩ | ⟨now_evict, now, other, response, emitted_at, e,
    rfl, -, hinserted, heq⟩
  · rw [heq]
    exact h.evict haware now
  · rw [heq]
    intro x hx hkey
    rcases mem_insert hx with ⟨hx, -⟩ | rfl
    · exact h.evict haware now_evict x hx hkey
    · rw [hinserted.key] at hkey
      exact absurd (congrArg some (Uuid.ext hkey)) ha

/-- A forgotten id is not found. -/
theorem Forgot.get {now : UtcNow} (h : Forgot store event_id now.time.instant)
    (haware : Aware store) :
    store.get now event_id = .ok (none, IdempotencyStore.access store (.get now)) := by
  have hnone : (IdempotencyStore.access store (.get now)).find?
      (fun e => e.key == event_id.text) = none := by
    rw [List.find?_eq_none, access_get now haware]
    intro e he hkey
    rw [List.mem_filter] at he
    have hle := h e he.1 (by simpa using hkey)
    exact absurd (of_decide_eq_true he.2) (not_lt.mpr hle)
  rw [get_of_aware now event_id haware, hnone]
  rfl

/-- An entry of the id expires at `expires_at`, and the entries inserted since then have
    distinct keys among `later`. -/
structure Remembers (store : IdempotencyStore) (event_id : Uuid) (expires_at : ℤ)
    (later : Finset Uuid) : Prop where
  split : ∃ front e back, store = front ++ e :: back ∧ e.key = event_id.text ∧
    e.expires_at.instant = expires_at ∧ (back.map CacheEntry.key).Nodup ∧
    ∀ b ∈ back, ∃ u ∈ later, b.key = u.text

/-- Keys among the texts of some ids are no more than the ids. -/
theorem length_le_card {back : List CacheEntry} {later : Finset Uuid}
    (hnodup : (back.map CacheEntry.key).Nodup) (hback : ∀ b ∈ back, ∃ u ∈ later, b.key = u.text) :
    back.length ≤ later.card := by
  have hsub : (back.map CacheEntry.key).toFinset ⊆ later.image Uuid.text := by
    intro key hkey
    obtain ⟨b, hb, rfl⟩ := List.mem_map.mp (List.mem_toFinset.mp hkey)
    obtain ⟨u, hu, heq⟩ := hback b hb
    exact Finset.mem_image.mpr ⟨u, hu, heq.symm⟩
  have hcard := Finset.card_le_card hsub
  rw [List.toFinset_card_of_nodup hnodup, List.length_map] at hcard
  exact hcard.trans Finset.card_image_le

/-- Evicting before the expiry keeps the entry. -/
theorem Remembers.evict {expires_at : ℤ} {later : Finset Uuid}
    (h : Remembers store event_id expires_at later) (haware : Aware store) {now : UtcNow}
    (hnow : now.time.instant < expires_at) :
    Remembers (IdempotencyStore.access store (.get now)) event_id expires_at later := by
  obtain ⟨front, e, back, rfl, hkey, hexpires, hnodup, hback⟩ := h.split
  refine ⟨?_⟩
  rw [access_get now haware]
  refine ⟨_, e, _, by rw [List.filter_append, List.filter_cons_of_pos (by simp [hexpires, hnow])],
    hkey, hexpires, ?_, fun b hb => hback b (List.mem_of_mem_filter hb)⟩
  exact hnodup.sublist (List.filter_sublist.map _)

/-- The cap drops nothing of a short enough end of the store. -/
theorem enforceSizeCap_append (front : IdempotencyStore) {back : IdempotencyStore}
    (h : back.length ≤ maxEntries) :
    ∃ kept, enforceSizeCap (front ++ back) = kept ++ back := by
  unfold enforceSizeCap
  generalize maxEntries = cap at h
  refine ⟨_, List.drop_append_of_le_length ?_⟩
  rw [List.length_append]
  omega

/-- Inserting another id keeps the entry while the later ids are fewer than the cap. -/
theorem Remembers.insert {expires_at : ℤ} {later : Finset Uuid} {other : Uuid}
    (h : Remembers store event_id expires_at later) {e : CacheEntry} (hkey : e.key = other.text)
    (hne : other ≠ event_id) (hother : other ∈ later) (hfew : later.card < maxEntries) :
    Remembers (store.insert e) event_id expires_at later := by
  obtain ⟨front, x, back, rfl, hx, hexpires, hnodup, hback⟩ := h.split
  have hxkey : (x.key != e.key) = true := by
    rw [bne_iff_ne, hx, hkey]
    exact fun heq => hne (Uuid.ext heq).symm
  let kept := back.filter (fun b => b.key != e.key) ++ [e]
  have hkeptkeys : (kept.map CacheEntry.key).Nodup := by
    rw [List.map_append, List.nodup_append]
    refine ⟨hnodup.sublist (List.filter_sublist.map _), List.nodup_singleton _, ?_⟩
    intro a ha b hb
    obtain ⟨c, hc, rfl⟩ := List.mem_map.mp ha
    rw [List.map_singleton, List.mem_singleton] at hb
    rw [hb]
    simpa using (List.mem_filter.mp hc).2
  have hkeptids : ∀ b ∈ kept, ∃ u ∈ later, b.key = u.text := by
    intro b hb
    rcases List.mem_append.mp hb with hb | hb
    · exact hback b (List.mem_of_mem_filter hb)
    · rw [List.mem_singleton.mp hb]
      exact ⟨other, hother, hkey⟩
  have hlist : (front ++ x :: back).filter (fun b => b.key != e.key) ++ [e] =
      front.filter (fun b => b.key != e.key) ++ x :: kept := by
    rw [List.filter_append, List.filter_cons, if_pos hxkey, List.append_assoc, List.cons_append]
  -- the cap drops entries of the front only
  have hshort : (x :: kept).length ≤ maxEntries := by
    rw [List.length_cons]
    exact (length_le_card hkeptkeys hkeptids).trans_lt hfew
  obtain ⟨front', hcap⟩ := enforceSizeCap_append (front.filter _) hshort
  refine ⟨⟨front', x, kept, ?_, hx, hexpires, hkeptkeys, hkeptids⟩⟩
  rw [IdempotencyStore.insert, hlist, hcap]

/-- The entry just inserted is remembered. -/
theorem remembers_insert (store : IdempotencyStore) {e : CacheEntry} (hkey : e.key = event_id.text)
    (later : Finset Uuid) :
    Remembers (store.insert e) event_id e.expires_at.instant later := by
  have hone : [e].length ≤ maxEntries := by
    rw [List.length_singleton]
    decide
  obtain ⟨kept, hcap⟩ := enforceSizeCap_append (store.filter fun x => x.key != e.key) hone
  refine ⟨⟨kept, e, [], ?_, hkey, rfl, List.nodup_nil, fun b hb => absurd hb (by simp)⟩⟩
  rw [IdempotencyStore.insert, hcap]

/-- An access under another id keeps the entry before its expiry, while the later ids are fewer
    than the cap. -/
theorem Remembers.access {expires_at : ℤ} {later : Finset Uuid}
    (h : Remembers store event_id expires_at later) (haware : Aware store) {a : Access}
    (hearly : a.evictsAt < expires_at) (hother : a.inserts ≠ some event_id)
    (hlater : ∀ u ∈ a.inserts, u ∈ later) (hfew : later.card < maxEntries) :
    Remembers (IdempotencyStore.access store a) event_id expires_at later := by
  rcases access_cases haware a with ⟨now, hnow, heq⟩ | ⟨now_evict, now, other, response,
    emitted_at, e, rfl, -, hinserted, heq⟩
  · rw [heq]
    exact h.evict haware (hnow ▸ hearly)
  · rw [heq]
    have hne : other ≠ event_id := fun heq => hother (congrArg some heq)
    exact (h.evict haware hearly).insert hinserted.key hne (hlater other rfl) hfew

/-- A remembered id is found before its expiry. -/
theorem Remembers.get {expires_at : ℤ} {later : Finset Uuid}
    (h : Remembers store event_id expires_at later) (haware : Aware store) {now : UtcNow}
    (hnow : now.time.instant < expires_at) :
    ∃ response, store.get now event_id =
      .ok (some response, IdempotencyStore.access store (.get now)) := by
  obtain ⟨front, e, back, hsplit, hkey, -⟩ := (h.evict haware hnow).split
  have hfound : ((IdempotencyStore.access store (.get now)).find?
      fun x => x.key == event_id.text).isSome = true := by
    rw [List.find?_isSome, hsplit]
    exact ⟨e, by simp, by simp [hkey]⟩
  obtain ⟨found, hfound⟩ := Option.isSome_iff_exists.mp hfound
  refine ⟨found.response, ?_⟩
  rw [get_of_aware now event_id haware, hfound]
  rfl

/-! ### Runs of accesses -/

/-- Any accesses keep every expiry offset-aware. -/
theorem Aware.accesses {as : List Access} (h : Aware store) :
    Aware (as.foldl IdempotencyStore.access store) := by
  induction as generalizing store with
  | nil => exact h
  | cons a as ih => exact ih (h.access a)

/-- Accesses for other ids do not bring an entry back. -/
theorem Forgot.accesses {t : ℤ} {as : List Access} (h : Forgot store event_id t)
    (haware : Aware store) (hother : ∀ a ∈ as, a.inserts ≠ some event_id) :
    Forgot (as.foldl IdempotencyStore.access store) event_id t := by
  induction as generalizing store with
  | nil => exact h
  | cons a as ih =>
    exact ih (h.access haware (hother a (by simp))) (haware.access a)
      fun b hb => hother b (by simp [hb])

/-- **An entry is remembered** over any accesses before it expires that insert few other ids. -/
theorem Remembers.accesses {expires_at : ℤ} {later : Finset Uuid} {as : List Access}
    (h : Remembers store event_id expires_at later) (haware : Aware store)
    (hearly : ∀ a ∈ as, a.evictsAt < expires_at) (hother : ∀ a ∈ as, a.inserts ≠ some event_id)
    (hlater : ∀ a ∈ as, ∀ u ∈ a.inserts, u ∈ later) (hfew : later.card < maxEntries) :
    Remembers (as.foldl IdempotencyStore.access store) event_id expires_at later := by
  induction as generalizing store with
  | nil => exact h
  | cons a as ih =>
    exact ih
      (h.access haware (hearly a (by simp)) (hother a (by simp)) (hlater a (by simp)) hfew)
      (haware.access a) (fun b hb => hearly b (by simp [hb])) (fun b hb => hother b (by simp [hb]))
      fun b hb => hlater b (by simp [hb])

end IdempotencyStore

end RootSign
