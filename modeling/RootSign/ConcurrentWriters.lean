import RootSign.Ingest.Handler
import RootSign.Lib.Runs

namespace RootSign

open RootSign.Lib RootSign.Python

/-!
# Concurrent writers of the action table

Any number of `handle` calls on actions, each in its own `AsyncSession` and transaction.  The
handler reads the session row without a lock; `create_with_hash` then waits for the row lock,
but the object already loaded keeps the attributes of that first read, and the chain is
extended from them.  Commits are atomic, and no uncommitted row is visible.

* `Writers.step` — one step of one call: the first read, the lock, the flush, the commit, or
  a rollback;
* `WritersInv` — what holds as long as every commit extends the committed row;
* `StoreIntact` — rows `1 … n`, linked, counted by the session row;
* `store_intact_iff` — a run keeps the store intact exactly when every writer that commits
  still has the committed session row in its identity map.
-/

/-! ### Calls in flight -/

/-- Where a call stands: the copy of the session row is the one its first read loaded. -/
inductive Writer where
  | idle
  | loaded (copy : SessionRow) (obj_in : ActionCreate)
  | locked (copy : SessionRow) (obj_in : ActionCreate)
  | flushed (copy : SessionRow) (row : ActionRow) (advanced : SessionRow)
  | finished

/-- The committed tables, the row locks on sessions, and the calls. -/
structure Writers where
  db : Database
  locks : Uuid → Option ℕ
  writers : ℕ → Writer

/-- The steps between which other calls can run. -/
inductive WriterStep where
  | get (w : ℕ) (env : IngestEnvelope) (payload : ActionRecordPayload)
  | lock (w : ℕ)
  | flush (w : ℕ) (fresh : Uuid)
  | commit (w : ℕ)
  | rollback (w : ℕ)

/-- An attribute changed since it was loaded is written, any other is left as it is. -/
def written {α : Type} [DecidableEq α] (loaded new current : α) : α :=
  if new = loaded then current else new

/-- The `UPDATE` of a session row: the attributes that differ from the copy loaded. -/
def SessionRow.update (copy advanced current : SessionRow) : SessionRow where
  status := current.status
  chain_head_hash :=
    written copy.chain_head_hash advanced.chain_head_hash current.chain_head_hash
  chain_tail_hash :=
    written copy.chain_tail_hash advanced.chain_tail_hash current.chain_tail_hash
  action_count := written copy.action_count advanced.action_count current.action_count

/-- The start of `_handle_action_record`, up to its read of the session row. -/
def beginWrite (db : Database) (env : IngestEnvelope) (payload : ActionRecordPayload) : Writer :=
  if payload.self_hash.isSome || payload.action_id.isSome then .finished
  else
    match requireRunningSession db env.session_id with
    | .error _ => .finished
    | .ok session =>
      match payload.actionCreate env.session_id with
      | .error _ => .finished
      | .ok obj_in => .loaded session obj_in

namespace Writers

/-- Where one call stands now. -/
def setWriter (s : Writers) (w : ℕ) (writer : Writer) : Writers :=
  { s with writers := Function.update s.writers w writer }

/-- The end of a transaction: its lock is released. -/
def release (s : Writers) (w : ℕ) (session : Uuid) : Writers :=
  { s with
    locks := Function.update s.locks session none
    writers := Function.update s.writers w .finished }

/-- The flush of `create_with_hash`, from the copy at hand; a refused row ends the call. -/
def flush (rt : Runtime) (s : Writers) (w : ℕ) (fresh : Uuid) (copy : SessionRow)
    (obj_in : ActionCreate) : Writers :=
  match extendChain rt fresh copy obj_in with
  | .error _ => s.release w obj_in.session_id
  | .ok (row, advanced) =>
    match row.readBack with
    | none => s.release w obj_in.session_id
    | some stored =>
      if s.db.accepts stored then s.setWriter w (.flushed copy stored advanced)
      else s.release w obj_in.session_id

/-- One step of one call, if it can be taken. -/
def step (rt : Runtime) (s : Writers) : WriterStep → Option Writers
  | .get w env payload =>
    match s.writers w with
    | .idle => some (s.setWriter w (beginWrite s.db env payload))
    | _ => none
  | .lock w =>
    match s.writers w with
    | .loaded copy obj_in =>
      -- the locked read returns the object already loaded, with the attributes it has
      if s.locks obj_in.session_id = none then
        some { s with
          locks := Function.update s.locks obj_in.session_id (some w)
          writers := Function.update s.writers w (.locked copy obj_in) }
      else none
    | _ => none
  | .flush w fresh =>
    match s.writers w with
    | .locked copy obj_in => some (s.flush rt w fresh copy obj_in)
    | _ => none
  | .commit w =>
    match s.writers w with
    | .flushed copy row advanced =>
      (s.db.sessions row.session_id).map fun current =>
        { s.release w row.session_id with
          db := s.db.extended row (copy.update advanced current) }
    | _ => none
  | .rollback w =>
    match s.writers w with
    | .loaded _ _ => some (s.setWriter w .finished)
    | .locked _ obj_in => some (s.release w obj_in.session_id)
    | .flushed _ row _ => some (s.release w row.session_id)
    | _ => none

/-- Sessions without actions, and no call yet. -/
def opened (status : Uuid → Option SessionStatus) (policies : Uuid → Bool) : Writers where
  db := .opened status policies
  locks := fun _ => none
  writers := fun _ => .idle

end Writers

/-! ### What one step can do -/

/-- The row and the advanced session row continue the chain from the copy. -/
structure Continues (copy : SessionRow) (row : ActionRow) (advanced : SessionRow) : Prop where
  number : row.sequence_number = copy.action_count + 1
  prev : row.prev_action_hash = copy.chain_tail_hash
  count : advanced.action_count = copy.action_count + 1
  tail : advanced.chain_tail_hash = some row.self_hash

variable {rt : Runtime} {s s' : Writers} {l : WriterStep}

/-- A call that starts has loaded the committed row, or has ended. -/
theorem beginWrite_cases (db : Database) (env : IngestEnvelope) (payload : ActionRecordPayload) :
    beginWrite db env payload = .finished ∨
      ∃ session_row obj_in, beginWrite db env payload = .loaded session_row obj_in ∧
        db.sessions obj_in.session_id = some session_row := by
  unfold beginWrite
  by_cases hsealed : (payload.self_hash.isSome || payload.action_id.isSome) = true
  · exact Or.inl (if_pos hsealed)
  rw [if_neg hsealed]
  unfold requireRunningSession
  cases hsession : db.sessions env.session_id with
  | none => exact Or.inl rfl
  | some session_row =>
    by_cases hrunning : session_row.status = .RUNNING
    · simp only [hrunning, if_true]
      cases hcreate : payload.actionCreate env.session_id with
      | error e => simp
      | ok obj_in =>
        refine Or.inr ⟨session_row, obj_in, rfl, ?_⟩
        rw [(actionCreate_ok hcreate).1]
        exact hsession
    · simp [hrunning]

/-- A flush continues the chain from the copy, or ends the call. -/
theorem flush_cases (rt : Runtime) (s : Writers) (w : ℕ) (fresh : Uuid) (copy : SessionRow)
    (obj_in : ActionCreate) :
    s.flush rt w fresh copy obj_in = s.release w obj_in.session_id ∨
      ∃ row advanced, s.flush rt w fresh copy obj_in =
          s.setWriter w (.flushed copy row advanced) ∧
        row.session_id = obj_in.session_id ∧ Continues copy row advanced := by
  simp only [Writers.flush, extendChain_eq]
  cases hstored : (sealedRow rt fresh copy obj_in).readBack with
  | none => exact Or.inl rfl
  | some stored =>
    obtain ⟨hid, hnumber, hprev, hself⟩ := readBack_chain hstored
    by_cases haccepts : s.db.accepts stored = true
    · refine Or.inr ⟨stored, _, if_pos haccepts, hid, hnumber, hprev, rfl, ?_⟩
      rw [hself]
    · exact Or.inl (if_neg haccepts)

/-- **What a step can do.**  A call loads the committed row, takes a free lock, flushes a row
    that continues its copy, commits it, or ends and gives up the lock it holds. -/
inductive StepEffect (s : Writers) : WriterStep → Writers → Prop where
  | load (w env payload session_row obj_in) (hidle : s.writers w = .idle)
      (hrow : s.db.sessions obj_in.session_id = some session_row) :
      StepEffect s (.get w env payload) (s.setWriter w (.loaded session_row obj_in))
  | lock (w copy obj_in) (hloaded : s.writers w = .loaded copy obj_in)
      (hfree : s.locks obj_in.session_id = none) :
      StepEffect s (.lock w) { s with
        locks := Function.update s.locks obj_in.session_id (some w)
        writers := Function.update s.writers w (.locked copy obj_in) }
  | flush (w fresh copy obj_in row advanced) (hlocked : s.writers w = .locked copy obj_in)
      (hid : row.session_id = obj_in.session_id) (hcontinues : Continues copy row advanced) :
      StepEffect s (.flush w fresh) (s.setWriter w (.flushed copy row advanced))
  | commit (w copy row advanced current) (hflushed : s.writers w = .flushed copy row advanced)
      (hrow : s.db.sessions row.session_id = some current) :
      StepEffect s (.commit w) { s.release w row.session_id with
        db := s.db.extended row (copy.update advanced current) }
  | finish (l w) (hidle : s.writers w = .idle ∨ ∃ copy obj_in, s.writers w = .loaded copy obj_in)
      (hl : ∀ v, l ≠ .commit v) : StepEffect s l (s.setWriter w .finished)
  | release (l w session) (hheld : (∃ copy obj_in, s.writers w = .locked copy obj_in ∧
        obj_in.session_id = session) ∨ ∃ copy row advanced,
        s.writers w = .flushed copy row advanced ∧ row.session_id = session)
      (hl : ∀ v, l ≠ .commit v) : StepEffect s l (s.release w session)

/-- A step has one of these effects, and each rejection ends the call. -/
theorem stepEffect_of_step (h : s.step rt l = some s') : StepEffect s l s' := by
  cases l with
  | get w env payload =>
    -- a label for a writer in another phase is refused
    cases hw : s.writers w <;> simp only [Writers.step, hw] at h
    case idle =>
      rw [← Option.some.inj h]
      -- the session is read without a lock; if it is not there or not running, the call is over
      rcases beginWrite_cases s.db env payload with hbegin | ⟨_, _, hbegin, hrow⟩
      · rw [hbegin]
        exact .finish _ w (Or.inl hw) (by simp)
      · rw [hbegin]
        exact .load w env payload _ _ hw hrow
    all_goals exact absurd h (by simp)
  | lock w =>
    cases hw : s.writers w <;> simp only [Writers.step, hw] at h
    case loaded copy obj_in =>
      -- the advisory lock is taken if no other writer holds it
      split at h
      case isTrue hfree =>
        rw [← Option.some.inj h]
        exact .lock w copy obj_in hw hfree
      case isFalse => exact absurd h (by simp)
    all_goals exact absurd h (by simp)
  | flush w fresh =>
    cases hw : s.writers w <;> simp only [Writers.step, hw] at h
    case locked copy obj_in =>
      rw [← Option.some.inj h]
      rcases flush_cases rt s w fresh copy obj_in with
        hflush | ⟨row, advanced, hflush, hid, hcontinues⟩
      · rw [hflush]
        exact .release _ w _ (Or.inl ⟨copy, obj_in, hw, rfl⟩) (by simp)
      · rw [hflush]
        exact .flush w fresh copy obj_in row advanced hw hid hcontinues
    all_goals exact absurd h (by simp)
  | commit w =>
    cases hw : s.writers w <;> simp only [Writers.step, hw] at h
    case flushed copy row advanced =>
      obtain ⟨current, hrow, rfl⟩ := Option.map_eq_some_iff.mp h
      exact .commit w copy row advanced current hw hrow
    all_goals exact absurd h (by simp)
  | rollback w =>
    cases hw : s.writers w <;> simp only [Writers.step, hw] at h
    case loaded copy obj_in =>
      rw [← Option.some.inj h]
      exact .finish _ w (Or.inr ⟨copy, obj_in, hw⟩) (by simp)
    case locked copy obj_in =>
      rw [← Option.some.inj h]
      exact .release _ w _ (Or.inl ⟨copy, obj_in, hw, rfl⟩) (by simp)
    case flushed copy row advanced =>
      rw [← Option.some.inj h]
      exact .release _ w _ (Or.inr ⟨copy, row, advanced, hw, rfl⟩) (by simp)
    all_goals exact absurd h (by simp)

/-! ### The invariant -/

/-- A copy is an earlier committed row of the session, or the current one. -/
structure CopyOk (db : Database) (session : Uuid) (copy : SessionRow) : Prop where
  nonneg : 0 ≤ copy.action_count
  earlier : ∃ current, db.sessions session = some current ∧
    copy.action_count ≤ current.action_count ∧
    (copy.action_count = current.action_count → copy = current)

/-- What holds of a call: its copy is a committed row, it holds the lock from the locked read
    on, and what it has flushed continues its copy. -/
def Writer.Ok (db : Database) (locks : Uuid → Option ℕ) (w : ℕ) : Writer → Prop
  | .idle => True
  | .loaded copy obj_in => CopyOk db obj_in.session_id copy
  | .locked copy obj_in =>
    CopyOk db obj_in.session_id copy ∧ locks obj_in.session_id = some w
  | .flushed copy row advanced =>
    CopyOk db row.session_id copy ∧ locks row.session_id = some w ∧ Continues copy row advanced
  | .finished => True

/-- What holds as long as every commit extends the committed row. -/
structure WritersInv (s : Writers) : Prop where
  chain : ∀ session, SessionChain s.db session
  writer : ∀ w, (s.writers w).Ok s.db s.locks w

theorem WritersInv.opened (status : Uuid → Option SessionStatus) (policies : Uuid → Bool) :
    WritersInv (.opened status policies) where
  chain := SessionChain.opened status policies
  writer := fun _ => trivial

/-- The committed row of a session is a good copy of it. -/
theorem copyOk_current {db : Database} {session : Uuid} {session_row : SessionRow}
    (hchain : SessionChain db session) (hrow : db.sessions session = some session_row) :
    CopyOk db session session_row where
  nonneg := by
    rw [(hchain.tail session_row hrow).1]
    exact Int.natCast_nonneg _
  earlier := ⟨session_row, hrow, le_rfl, fun _ => rfl⟩

/-- A commit that advances the count leaves good copies good. -/
theorem CopyOk.extended {db : Database} {session : Uuid} {copy : SessionRow}
    (h : CopyOk db session copy) {row : ActionRow} {current advanced : SessionRow}
    (hrow : db.sessions row.session_id = some current)
    (hlt : current.action_count < advanced.action_count) :
    CopyOk (db.extended row advanced) session copy := by
  obtain ⟨row', hrow', hle, heq⟩ := h.earlier
  refine ⟨h.nonneg, ?_⟩
  by_cases hsame : session = row.session_id
  · subst hsame
    obtain rfl := Option.some.inj (hrow'.symm.trans hrow)
    exact ⟨advanced, Function.update_self _ _ _, by omega, fun hcount => by omega⟩
  · exact ⟨row', (Function.update_of_ne hsame _ _).trans hrow', hle, heq⟩

/-- A call that does not hold a lock does not mind who does. -/
theorem Writer.Ok.update_lock {db : Database} {locks : Uuid → Option ℕ} {w : ℕ}
    {writer : Writer} (h : writer.Ok db locks w) {session : Uuid} (hother : locks session ≠ some w)
    (holder : Option ℕ) : writer.Ok db (Function.update locks session holder) w := by
  have hkeep : ∀ session', locks session' = some w →
      Function.update locks session holder session' = some w := by
    intro session' hlock
    rw [Function.update_of_ne]
    · exact hlock
    · rintro rfl
      exact hother hlock
  cases writer with
  | idle => trivial
  | loaded copy obj_in => exact h
  | locked copy obj_in => exact ⟨h.1, hkeep _ h.2⟩
  | flushed copy row advanced => exact ⟨h.1, hkeep _ h.2.1, h.2.2⟩
  | finished => trivial

theorem Writer.Ok.extended {db : Database} {locks : Uuid → Option ℕ} {w : ℕ} {writer : Writer}
    (h : writer.Ok db locks w) {row : ActionRow} {current advanced : SessionRow}
    (hrow : db.sessions row.session_id = some current)
    (hlt : current.action_count < advanced.action_count) :
    writer.Ok (db.extended row advanced) locks w := by
  cases writer with
  | idle => trivial
  | loaded copy obj_in => exact CopyOk.extended h hrow hlt
  | locked copy obj_in => exact ⟨h.1.extended hrow hlt, h.2⟩
  | flushed copy row' advanced' => exact ⟨h.1.extended hrow hlt, h.2⟩
  | finished => trivial

/-- Moving one call on keeps the invariant when the call is as it should be. -/
theorem WritersInv.setWriter (h : WritersInv s) {w : ℕ} {writer : Writer}
    (hw : writer.Ok s.db s.locks w) : WritersInv (s.setWriter w writer) where
  chain := h.chain
  writer := by
    intro v
    show (Function.update s.writers w writer v).Ok s.db s.locks v
    by_cases hv : v = w
    · subst hv
      rwa [Function.update_self]
    · rw [Function.update_of_ne hv]
      exact h.writer v

/-- Ending a call that holds the lock of a session keeps the invariant. -/
theorem WritersInv.release (h : WritersInv s) {w : ℕ} {session : Uuid}
    (hheld : s.locks session = some w) : WritersInv (s.release w session) where
  chain := h.chain
  writer := by
    intro v
    show (Function.update s.writers w .finished v).Ok s.db _ v
    by_cases hv : v = w
    · subst hv
      rw [Function.update_self]
      trivial
    · rw [Function.update_of_ne hv]
      refine (h.writer v).update_lock ?_ none
      rw [hheld]
      exact fun heq => hv (Option.some.inj heq).symm

/-- A call that has locked or flushed holds the lock. -/
theorem WritersInv.held (h : WritersInv s) {w : ℕ} {session : Uuid}
    (hheld : (∃ copy obj_in, s.writers w = .locked copy obj_in ∧ obj_in.session_id = session) ∨
      ∃ copy row advanced, s.writers w = .flushed copy row advanced ∧ row.session_id = session) :
    s.locks session = some w := by
  have hw := h.writer w
  rcases hheld with ⟨copy, obj_in, heq, rfl⟩ | ⟨copy, row, advanced, heq, rfl⟩
  · rw [heq] at hw
    exact hw.2
  · rw [heq] at hw
    exact hw.2.1

/-! ### Steps from the committed row -/

/-- The writer that commits still has the committed session row: no other commit has come
    between its first read and its own. -/
def Current (s : Writers) : WriterStep → Prop
  | .commit w => ∀ copy row advanced, s.writers w = .flushed copy row advanced →
      s.db.sessions row.session_id = some copy
  | _ => True

/-- Writing the changes of the copy over the copy gives the advanced row. -/
theorem update_copy (copy advanced : SessionRow) :
    copy.update advanced copy = { advanced with status := copy.status } := by
  have hwritten : ∀ {α : Type} [DecidableEq α] (old new : α), written old new old = new := by
    intro α _ old new
    unfold written
    split
    case isTrue h => exact h.symm
    case isFalse => rfl
  rw [SessionRow.update, hwritten, hwritten, hwritten]

/-- **The step.** A commit from the committed row, and any other step, keeps the invariant. -/
theorem step_inv (hinv : WritersInv s) (hcurrent : Current s l) (h : s.step rt l = some s') :
    WritersInv s' := by
  cases stepEffect_of_step h with
  | load w env payload session_row obj_in hidle hrow =>
    exact hinv.setWriter (copyOk_current (hinv.chain _) hrow)
  | lock w copy obj_in hloaded hfree =>
    have hw := hinv.writer w
    rw [hloaded] at hw
    -- Taking a free lock is news only to the writer that takes it.
    refine ⟨hinv.chain, fun v => ?_⟩
    show (Function.update s.writers w (.locked copy obj_in) v).Ok s.db _ v
    by_cases hv : v = w
    · subst hv
      rw [Function.update_self]
      exact ⟨hw, Function.update_self _ _ _⟩
    · rw [Function.update_of_ne hv]
      exact (hinv.writer v).update_lock (by rw [hfree]; simp) _
  | flush w fresh copy obj_in row advanced hlocked hid hcontinues =>
    have hw := hinv.writer w
    rw [hlocked] at hw
    apply hinv.setWriter
    show CopyOk _ _ _ ∧ _
    rw [hid]
    exact ⟨hw.1, hw.2, hcontinues⟩
  | commit w copy row advanced current hflushed hrow =>
    have hw := hinv.writer w
    rw [hflushed] at hw
    obtain ⟨-, hlock, hcontinues⟩ := hw
    -- The copy is the committed row, so the new row continues the chain as it stands.
    obtain rfl := Option.some.inj ((hcurrent copy row advanced hflushed).symm.trans hrow)
    have hreleased := hinv.release hlock
    -- The count grows, so no other writer's copy is current any more.
    have hlt : copy.action_count < (copy.update advanced copy).action_count := by
      rw [update_copy]
      show copy.action_count < advanced.action_count
      rw [hcontinues.count]
      omega
    refine ⟨fun session => ?_, fun v => (hreleased.writer v).extended hrow hlt⟩
    by_cases hsame : row.session_id = session
    · subst hsame
      refine (hinv.chain _).extended hrow hcontinues.number hcontinues.prev ?_ ?_
      · rw [update_copy]
        exact hcontinues.count
      · rw [update_copy]
        exact hcontinues.tail
    · exact (hinv.chain session).of_ne _ hsame
  | finish l w hidle hl => exact hinv.setWriter trivial
  | release l w session hheld hl => exact hinv.release (hinv.held hheld)

/-- While a call holds the lock of a session, no other call commits to it: a copy that is
    current when the lock is taken is current when it is committed. -/
theorem sessions_of_locked (hinv : WritersInv s) (h : s.step rt l = some s') {w : ℕ}
    {session : Uuid} (hlock : s.locks session = some w) (hl : l ≠ .commit w) :
    s'.db.sessions session = s.db.sessions session := by
  cases stepEffect_of_step h with
  | commit v copy row advanced current hflushed hrow =>
    have hv := hinv.writer v
    rw [hflushed] at hv
    have hne : session ≠ row.session_id := by
      rintro rfl
      exact hl (congrArg _ (Option.some.inj (hv.2.1.symm.trans hlock)))
    exact Function.update_of_ne hne _ _
  | _ => rfl

/-! ### The store -/

/-- The committed rows of the session, by number, are `1 … n`, each naming the hash of the one
    before it; the session row counts them and names the last hash. -/
structure StoreIntact (db : Database) (session : Uuid) : Prop where
  number : ∀ (i : ℕ) (hi : i < (getSessionChain db session).length),
    (getSessionChain db session)[i].sequence_number = i + 1
  linked : LinkedFrom ActionRow.prev_action_hash (fun r => some r.self_hash) none
    (getSessionChain db session)
  session : ∀ session_row, db.sessions session = some session_row →
    session_row.action_count = (getSessionChain db session).length ∧
      session_row.chain_tail_hash = lastSelf (fun r : ActionRow => some r.self_hash) none
        (getSessionChain db session)

theorem SessionChain.storeIntact {db : Database} {session : Uuid} (h : SessionChain db session) :
    StoreIntact db session where
  number := by
    rw [h.getSessionChain_eq]
    exact h.number
  linked := by
    rw [h.getSessionChain_eq]
    exact h.linked
  session := by
    rw [h.getSessionChain_eq]
    exact h.tail

/-- The rows of an intact session carry different numbers. -/
theorem StoreIntact.distinct {db : Database} {session : Uuid} (h : StoreIntact db session) :
    (rowsOf db session).Pairwise fun a b => a.sequence_number ≠ b.sequence_number := by
  have hsorted : (getSessionChain db session).Pairwise
      fun a b => a.sequence_number ≠ b.sequence_number := by
    rw [List.pairwise_iff_getElem]
    intro i j hi hj hij
    rw [h.number i hi, h.number j hj]
    omega
  exact (List.perm_insertionSort _ _).pairwise hsorted fun hne => hne.symm

/-- **A stale commit forks the chain.**  Its row gets a number that an earlier row has. -/
theorem step_breaks (hinv : WritersInv s) (hstale : ¬ Current s l) (h : s.step rt l = some s') :
    ¬ ∀ session, StoreIntact s'.db session := by
  intro hintact
  cases stepEffect_of_step h with
  | commit w copy row advanced current hflushed hrow =>
    have hw := hinv.writer w
    rw [hflushed] at hw
    obtain ⟨⟨hnonneg, row', hrow', hle, heq⟩, -, hcontinues⟩ := hw
    obtain rfl := Option.some.inj (hrow'.symm.trans hrow)
    have hne : copy ≠ row' := by
      rintro rfl
      refine hstale fun copy' row'' advanced' hflushed' => ?_
      rw [hflushed] at hflushed'
      obtain ⟨rfl, rfl, rfl⟩ := Writer.flushed.inj hflushed'
      exact hrow
    have hlt : copy.action_count < (rowsOf s.db row.session_id).length := by
      rw [← ((hinv.chain _).tail row' hrow).1]
      exact lt_of_le_of_ne hle fun hcount => hne (heq hcount)
    -- the row at the position of the copy's count already has the new row's number
    have hm : copy.action_count.toNat < (rowsOf s.db row.session_id).length := by omega
    have hnumber := (hinv.chain row.session_id).number _ hm
    have hdistinct := (hintact row.session_id).distinct
    rw [show rowsOf _ row.session_id = rowsOf s.db row.session_id ++ [row] from
      rowsOf_extended_self _ _ _, List.pairwise_append] at hdistinct
    refine hdistinct.2.2 _ (List.getElem_mem hm) row (List.mem_singleton_self _) ?_
    rw [hnumber, hcontinues.number]
    omega
  | finish l w hidle hl =>
    refine hstale ?_
    cases l with
    | commit v => exact absurd rfl (hl v)
    | _ => trivial
  | release l w session hheld hl =>
    refine hstale ?_
    cases l with
    | commit v => exact absurd rfl (hl v)
    | _ => trivial
  | _ => exact hstale trivial

/-- **The store under concurrent writers.**  In every run of any number of calls on any
    sessions, the committed rows stay numbered, linked and counted in every state exactly when
    every commit in it is made from the committed session row. -/
theorem store_intact_iff (rt : Runtime) (status : Uuid → Option SessionStatus)
    (policies : Uuid → Bool) (steps : List WriterStep) :
    Throughout (Writers.step rt) (fun s => ∀ session, StoreIntact s.db session)
        (.opened status policies) steps ↔
      Guarded (Writers.step rt) Current (.opened status policies) steps :=
  throughout_iff_guarded (fun _ _ _ hinv hcurrent h => step_inv hinv hcurrent h)
    (fun _ _ _ hinv hstale h => step_breaks hinv hstale h)
    (fun _ hinv session => (hinv.chain session).storeIntact) (.opened status policies)

/-! ### Two writers -/

/-- An envelope for the example session. -/
def exampleHead : IngestEnvelope where
  schema_version := "1.1"
  event_id := exampleEvent
  emitted_at := mayNoon.time
  session_id := exampleSession

/-- Both calls read the session row before either commits. -/
def twoWriters : List WriterStep :=
  [.get 0 exampleHead (examplePayload mayNoon.time),
    .get 1 exampleHead (examplePayload mayNoon.time),
   .lock 0, .flush 0 exampleEvent, .commit 0, .lock 1, .flush 1 exampleRecord, .commit 1]

/-- The second writer's row is number one again. -/
theorem not_store_intact_twoWriters :
    ¬ Throughout (Writers.step exampleRuntime) (fun s => ∀ session, StoreIntact s.db session)
      (.opened onlyExampleSession fun _ => false) twoWriters := by
  have hnumbers : (run (Writers.step exampleRuntime)
      (.opened onlyExampleSession fun _ => false) twoWriters).map
        (fun s => (getSessionChain s.db exampleSession).map ActionRow.sequence_number) =
      some [1, 1] := by
    decide +kernel
  obtain ⟨s, hrun, hnumbers⟩ := Option.map_eq_some_iff.mp hnumbers
  intro h
  have hintact := h.last hrun exampleSession
  have hlength : 1 < (getSessionChain s.db exampleSession).length := by
    rw [← List.length_map (f := ActionRow.sequence_number), hnumbers]
    decide
  have hsecond := hintact.number 1 hlength
  have hone : ((getSessionChain s.db exampleSession).map ActionRow.sequence_number)[1]? =
      some 1 := by
    rw [hnumbers]
    rfl
  rw [List.getElem?_map, List.getElem?_eq_getElem hlength, Option.map_some, hsecond] at hone
  exact absurd hone (by decide)

end RootSign
