import RootSign.SessionTables

namespace RootSign

open RootSign.Lib RootSign.Python

/-!
# Concurrent events of a session (`rootsign/ingest/handler.py`)

Any number of `handle` calls for actions, decisions, approvals and closings, each in its own
`AsyncSession` and transaction.  A handler reads the session's row first, without a lock, and keeps
that object; everything else it reads as committed.  It writes the rows it inserts and the
attributes it changed.

* `EventWriters.step` — one step of one call: the first read, the flush, the commit, or a rollback;
* `LifecycleKept` — nothing of a session is committed after its closing, and every
  `decision_count` counts;
* `lifecycle_kept_iff` — a run keeps it exactly when at every commit the session is still running
  and, for a decision, still has the count that was read.
-/

/-! ### Calls in flight -/

/-- Where a call stands: it has loaded the session's row, or it has flushed, from the tables as it
    saw them to the tables as it left them. -/
inductive EventTask where
  | idle
  | loaded (io : EventIO) (env : EventEnvelope) (session : SessionRow) (details : SessionDetails)
  | flushed (env : EventEnvelope) (payload : EventPayload) (seen after : EventDatabase)
  | finished

/-- The committed tables, the row locks on sessions, the calls, and what was committed, in that
    order. -/
structure EventWriters where
  db : EventDatabase
  locks : Uuid → Option ℕ
  tasks : ℕ → EventTask
  commits : List (Uuid × EventType)

/-- The steps between which other calls can run. -/
inductive EventStep where
  | load (t : ℕ) (io : EventIO) (env : EventEnvelope)
  | flush (t : ℕ)
  | commit (t : ℕ)
  | rollback (t : ℕ)

/-- The attributes that a handler can change, written where they were changed. -/
def SessionDetails.update (loaded new current : SessionDetails) : SessionDetails :=
  { current with
    decision_count := written loaded.decision_count new.decision_count current.decision_count
    end_time := written loaded.end_time new.end_time current.end_time }

/-- The `UPDATE` of a session row, with its status. -/
def SessionRow.updateAll (loaded new current : SessionRow) : SessionRow :=
  { loaded.update new current with status := written loaded.status new.status current.status }

/-- One row of a table, written over the committed one. -/
def overwrite {α : Type} (update : α → α → α → α) : Option α → Option α → Option α → Option α
  | some loaded, some new, some current => some (update loaded new current)
  | _, _, current => current

/-- The status of an action, written where it was changed. -/
def rewritten (seen after : List ActionRow) (current : ActionRow) : ActionRow :=
  match (seen.zip after).find? fun p => p.1.key == current.key with
  | some p =>
    { current with
      authorization_status := written p.1.authorization_status p.2.authorization_status
        current.authorization_status }
  | none => current

/-- A commit over the committed tables: the rows inserted, and the attributes changed. -/
def EventDatabase.commit (current seen after : EventDatabase) (id : Uuid) : EventDatabase :=
  { current with
    sessions := Function.update current.sessions id
      (overwrite SessionRow.updateAll (seen.sessions id) (after.sessions id) (current.sessions id))
    details := Function.update current.details id
      (overwrite SessionDetails.update (seen.details id) (after.details id) (current.details id))
    actions := current.actions.map (rewritten seen.actions after.actions) ++
      after.actions.drop seen.actions.length
    decisions := current.decisions ++ after.decisions.drop seen.decisions.length
    approvals := current.approvals ++ after.approvals.drop seen.approvals.length }

/-- The tables as a call sees them: committed, but for the session it has loaded. -/
def EventDatabase.seenWith (db : EventDatabase) (id : Uuid) (session : SessionRow)
    (details : SessionDetails) : EventDatabase :=
  { db with
    sessions := Function.update db.sessions id (some session)
    details := Function.update db.details id (some details) }

/-- The handler updates the session's row, and so takes its lock. -/
def EventPayload.locksSession : EventPayload → Bool
  | .approvalRecord _ => false
  | _ => true

/-- The start of a handler, up to its read of the session's row. -/
def beginEvent (db : EventDatabase) (io : EventIO) (env : EventEnvelope) : EventTask :=
  match requireRunningSession db.toDatabase env.session_id, db.details env.session_id with
  | .ok session, some details => .loaded io env session details
  | _, _ => .finished

namespace EventWriters

/-- Where one call stands now. -/
def setTask (s : EventWriters) (t : ℕ) (task : EventTask) : EventWriters :=
  { s with tasks := Function.update s.tasks t task }

/-- The end of a transaction: a lock it holds is released. -/
def release (s : EventWriters) (t : ℕ) (id : Uuid) : EventWriters :=
  { s with
    locks := if s.locks id = some t then Function.update s.locks id none else s.locks
    tasks := Function.update s.tasks t .finished }

/-- One step of one call, if it can be taken.  A lock that another call holds is waited for; locks
    on other rows only exclude runs. -/
def step (rt : Runtime) (s : EventWriters) : EventStep → Option EventWriters
  | .load t io env =>
    match s.tasks t, env.payload with
    | .idle, .ok (.sessionOpen _) => none
    | .idle, .ok _ => some (s.setTask t (beginEvent s.db io env))
    | .idle, .error _ => some (s.setTask t .finished)
    | _, _ => none
  | .flush t =>
    match s.tasks t with
    | .loaded io env session details =>
      match env.payload with
      | .error _ => none
      | .ok payload =>
        if payload.locksSession && (s.locks env.session_id).isSome then none
        else
          let seen := s.db.seenWith env.session_id session details
          match dispatchEvent rt io env seen with
          | .error _ => some (s.setTask t .finished)
          | .ok (_, after) =>
            some { s with
              locks :=
                if payload.locksSession then Function.update s.locks env.session_id (some t)
                else s.locks
              tasks := Function.update s.tasks t (.flushed env payload seen after) }
    | _ => none
  | .commit t =>
    match s.tasks t with
    | .flushed env payload seen after =>
      some { s.release t env.session_id with
        db := s.db.commit seen after env.session_id
        commits := s.commits ++ [(env.session_id, payload.eventType)] }
    | _ => none
  | .rollback t =>
    match s.tasks t with
    | .loaded _ _ _ _ => some (s.setTask t .finished)
    | .flushed env _ _ _ => some (s.release t env.session_id)
    | _ => none

/-- No call yet. -/
def opened (db : EventDatabase) : EventWriters where
  db := db
  locks := fun _ => none
  tasks := fun _ => .idle
  commits := []

/-- Nothing of a session is committed after its closing. -/
def ClosedLast (s : EventWriters) : Prop :=
  s.commits.Pairwise fun earlier later => earlier.2 = .SESSION_CLOSE → later.1 ≠ earlier.1

/-- Every session counts its decisions. -/
def DecisionsCounted (s : EventWriters) : Prop :=
  ∀ id details, s.db.details id = some details →
    details.decision_count = (s.db.part id).decisions.length

/-- What the claim of a session's lifecycle comes to. -/
structure LifecycleKept (s : EventWriters) : Prop where
  closed : s.ClosedLast
  counted : s.DecisionsCounted

/-- At a commit the session is still running, as it was when it was read; and its count of decisions
    is still the one that a decision has read. -/
def StillAsRead (s : EventWriters) : EventStep → Prop
  | .commit t => ∀ env payload seen after, s.tasks t = .flushed env payload seen after →
      (∃ session, s.db.sessions env.session_id = some session ∧ session.status = .RUNNING) ∧
      (payload.eventType = .DECISION_RECORD →
        (s.db.details env.session_id).map (·.decision_count) =
          (seen.details env.session_id).map (·.decision_count))
  | _ => True

end EventWriters

/-! ### What a commit does -/

section

variable {env : EventEnvelope} {current seen after : EventDatabase} {kind : EventType} {id : Uuid}

theorem written_self {α : Type} [DecidableEq α] (loaded current : α) :
    written loaded loaded current = current := if_pos rfl

theorem written_of_ne {α : Type} [DecidableEq α] {loaded new current : α} (h : new ≠ loaded) :
    written loaded new current = new := if_neg h

/-- What a commit leaves of the statuses and the counts. -/
structure CommitEffect (env : EventEnvelope) (current seen db' : EventDatabase) (kind : EventType) :
    Prop where
  sessions : ∀ id, id ≠ env.session_id → db'.sessions id = current.sessions id
  details : ∀ id, id ≠ env.session_id → db'.details id = current.details id
  status : ∀ c, current.sessions env.session_id = some c →
    ∃ c', db'.sessions env.session_id = some c' ∧
    (kind = .SESSION_CLOSE → c'.status ≠ .RUNNING) ∧
    (kind ≠ .SESSION_CLOSE → c'.status = c.status)
  count : ∀ c d, current.details env.session_id = some c → seen.details env.session_id = some d →
    ∃ c', db'.details env.session_id = some c' ∧
      (kind = .DECISION_RECORD → c'.decision_count = d.decision_count + 1) ∧
      (kind ≠ .DECISION_RECORD → c'.decision_count = c.decision_count)
  decisions : ∃ rows, db'.decisions = current.decisions ++ rows ∧
    (kind = .DECISION_RECORD → ∃ row, rows = [row] ∧ row.session_id = env.session_id) ∧
    (kind ≠ .DECISION_RECORD → rows = [])

/-- **One commit.**  What a transaction wrote is inserted, and written over the session's row. -/
theorem commitEffect_of_writes (h : Writes env seen after kind) (hkind : kind ≠ .SESSION_OPEN)
    (hseen : (seen.sessions env.session_id).isSome = true) :
    CommitEffect env current seen (current.commit seen after env.session_id) kind := by
  have hothers : ∀ id, id ≠ env.session_id →
      (current.commit seen after env.session_id).sessions id = current.sessions id :=
    fun id hid => Function.update_of_ne hid _ _
  have hdetails : ∀ id, id ≠ env.session_id →
      (current.commit seen after env.session_id).details id = current.details id :=
    fun id hid => Function.update_of_ne hid _ _
  have hself : (current.commit seen after env.session_id).sessions env.session_id =
      overwrite SessionRow.updateAll (seen.sessions env.session_id) (after.sessions env.session_id)
        (current.sessions env.session_id) := Function.update_self _ _ _
  have hselfdetails : (current.commit seen after env.session_id).details env.session_id =
      overwrite SessionDetails.update (seen.details env.session_id) (after.details env.session_id)
        (current.details env.session_id) := Function.update_self _ _ _
  obtain ⟨loaded, hloaded⟩ := Option.isSome_iff_exists.mp hseen
  -- a session's row that is left as it was is not written
  have hkeptrow : after.sessions = seen.sessions → ∀ c, current.sessions env.session_id = some c →
      ∃ c', (current.commit seen after env.session_id).sessions env.session_id = some c' ∧
        c'.status = c.status := by
    intro hsame c hc
    rw [hself, hsame, hloaded, hc]
    exact ⟨_, rfl, written_self _ _⟩
  have hkeptdetails : after.details = seen.details → ∀ c d,
      current.details env.session_id = some c → seen.details env.session_id = some d →
      ∃ c', (current.commit seen after env.session_id).details env.session_id = some c' ∧
        c'.decision_count = c.decision_count := by
    intro hsame c d hc hd
    rw [hselfdetails, hsame, hd, hc]
    exact ⟨_, rfl, written_self _ _⟩
  have hnorows : after.decisions = seen.decisions →
      (current.commit seen after env.session_id).decisions = current.decisions ++ [] := by
    intro hsame
    show current.decisions ++ after.decisions.drop seen.decisions.length = _
    rw [hsame, List.drop_length]
  cases h with
  | opened => exact absurd rfl hkind
  | acted session advanced row hsession hrunning hid _ hcontinues hstatus =>
    refine ⟨hothers, hdetails, fun c hc => ?_, fun c d hc hd => ?_, [], hnorows rfl, nofun,
      fun _ => rfl⟩
    · rw [hself, hsession, hc]
      have hafter : (seen.toDatabase.extended row advanced).sessions env.session_id =
          some advanced := by
        rw [← hid]
        exact Function.update_self _ _ _
      refine ⟨SessionRow.updateAll session advanced c, by rw [hafter]; rfl, nofun, fun _ => ?_⟩
      show written session.status advanced.status c.status = c.status
      rw [hstatus]
      exact written_self _ _
    · obtain ⟨c', hc', hcount⟩ := hkeptdetails rfl c d hc hd
      exact ⟨c', hc', nofun, fun _ => hcount⟩
  | decided session details row hsession hrunning hd hid =>
    refine ⟨hothers, hdetails, fun c hc => ?_, fun c d hc hd' => ?_, [row], ?_,
      fun _ => ⟨row, rfl, hid⟩, fun hne => absurd rfl hne⟩
    · obtain ⟨c', hc', hstatus⟩ := hkeptrow rfl c hc
      exact ⟨c', hc', nofun, fun _ => hstatus⟩
    · obtain rfl := Option.some.inj (hd.symm.trans hd')
      have hafter : (Function.update seen.details env.session_id
          (some { details with decision_count := details.decision_count + 1 })) env.session_id =
            some { details with decision_count := details.decision_count + 1 } :=
        Function.update_self _ _ _
      rw [hselfdetails, hd, hc]
      refine ⟨SessionDetails.update details _ c, congrArg (overwrite _ _ · _) hafter, fun _ => ?_,
        fun hne => absurd rfl hne⟩
      exact written_of_ne (show details.decision_count + 1 ≠ details.decision_count by omega)
    · show current.decisions ++ (seen.decisions ++ [row]).drop seen.decisions.length = _
      rw [List.drop_left]
  | approved session action row status hsession hrunning haction hof hid hrow =>
    refine ⟨hothers, hdetails, fun c hc => ?_, fun c d hc hd => ?_, [], hnorows rfl, nofun,
      fun _ => rfl⟩
    · obtain ⟨c', hc', hstatus⟩ := hkeptrow rfl c hc
      exact ⟨c', hc', nofun, fun _ => hstatus⟩
    · obtain ⟨c', hc', hcount⟩ := hkeptdetails rfl c d hc hd
      exact ⟨c', hc', nofun, fun _ => hcount⟩
  | closed session details status end_time hsession hrunning hd hstatus hend =>
    refine ⟨hothers, hdetails, fun c hc => ?_, fun c d hc hd' => ?_, [], hnorows rfl, nofun,
      fun _ => rfl⟩
    · have hafter : (Function.update seen.sessions env.session_id
          (some { session with status := status })) env.session_id =
            some { session with status := status } := Function.update_self _ _ _
      rw [hself, hsession, hc]
      refine ⟨SessionRow.updateAll session _ c, congrArg (overwrite _ _ · _) hafter, fun _ => ?_,
        fun hne => absurd rfl hne⟩
      have hwritten : written session.status status c.status = status :=
        written_of_ne (by rwa [hrunning])
      show written session.status status c.status ≠ .RUNNING
      rwa [hwritten]
    · have hafter : (Function.update seen.details env.session_id
          (some { details with end_time := some end_time })) env.session_id =
            some { details with end_time := some end_time } := Function.update_self _ _ _
      rw [hselfdetails, hd, hc]
      refine ⟨SessionDetails.update details _ c, congrArg (overwrite _ _ · _) hafter, nofun,
        fun _ => ?_⟩
      exact written_self _ _

end

/-! ### What a step does -/

namespace EventWriters

section

variable {rt : Runtime} {s s' : EventWriters} {l : EventStep}

/-- Everything a step can do. -/
inductive StepEffect (s : EventWriters) : EventStep → EventWriters → Prop
  | load (t : ℕ) (io : EventIO) (env : EventEnvelope) (session : SessionRow)
      (details : SessionDetails) (hsession : s.db.sessions env.session_id = some session)
      (hrunning : session.status = .RUNNING) (hdetails : s.db.details env.session_id = some details)
      (hpayload : ∀ p, env.payload ≠ .ok (.sessionOpen p)) :
      StepEffect s (.load t io env) (s.setTask t (.loaded io env session details))
  | flush (t : ℕ) (io : EventIO) (env : EventEnvelope) (session : SessionRow)
      (details : SessionDetails) (payload : EventPayload) (after : EventDatabase)
      (locks : Uuid → Option ℕ) (htask : s.tasks t = .loaded io env session details)
      (hpayload : env.payload = .ok payload)
      (hwrites :
        Writes env (s.db.seenWith env.session_id session details) after payload.eventType) :
      StepEffect s (.flush t) { s with
        locks := locks
        tasks := Function.update s.tasks t
          (.flushed env payload (s.db.seenWith env.session_id session details) after) }
  | commit (t : ℕ) (env : EventEnvelope) (payload : EventPayload) (seen after : EventDatabase)
      (htask : s.tasks t = .flushed env payload seen after) :
      StepEffect s (.commit t) { s.release t env.session_id with
        db := s.db.commit seen after env.session_id
        commits := s.commits ++ [(env.session_id, payload.eventType)] }
  | finish (l : EventStep) (t : ℕ) (locks : Uuid → Option ℕ) (hl : ∀ v, l ≠ .commit v) :
      StepEffect s l { s with locks := locks, tasks := Function.update s.tasks t .finished }

theorem stepEffect_of_load {t : ℕ} {io : EventIO} {env : EventEnvelope}
    (h : s.step rt (.load t io env) = some s') : StepEffect s (.load t io env) s' := by
  simp only [step] at h
  split at h
  · cases h
  · next payload hnotopen _ hpayload =>
    obtain rfl := Option.some.inj h
    unfold beginEvent
    split
    · next session details hsession hdetails =>
      obtain ⟨hrow, hrunning⟩ := requireRunningSession_ok hsession
      refine .load t io env session details hrow hrunning hdetails fun p hp => ?_
      rw [hpayload] at hp
      exact hnotopen p (Except.ok.inj hp)
    · exact .finish _ t s.locks nofun
  · obtain rfl := Option.some.inj h
    exact .finish _ t s.locks nofun
  · cases h

theorem stepEffect_of_flush {t : ℕ} (h : s.step rt (.flush t) = some s') :
    StepEffect s (.flush t) s' := by
  simp only [step] at h
  split at h
  case h_2 => cases h
  case h_1 io env session details htask =>
    split at h
    case h_1 => cases h
    case h_2 payload hpayload =>
      split at h
      case isTrue => cases h
      case isFalse =>
        split at h
        · obtain rfl := Option.some.inj h
          exact .finish _ t s.locks nofun
        · next response after hdispatch =>
          obtain rfl := Option.some.inj h
          rcases dispatchEvent_writes hdispatch with ⟨⟨errors, herrors⟩, -⟩ | ⟨p, hp, hwrites⟩
          · rw [hpayload] at herrors
            cases herrors
          · obtain rfl := Except.ok.inj (hpayload.symm.trans hp)
            exact .flush t io env session details payload after _ htask hpayload hwrites

/-- **The inversion of a step.** -/
theorem stepEffect_of_step (h : s.step rt l = some s') : StepEffect s l s' := by
  cases l with
  | load t io env => exact stepEffect_of_load h
  | flush t => exact stepEffect_of_flush h
  | commit t =>
    simp only [step] at h
    split at h
    · next env payload seen after htask =>
      obtain rfl := Option.some.inj h
      exact .commit t env payload seen after htask
    · cases h
  | rollback t =>
    simp only [step] at h
    split at h
    · obtain rfl := Option.some.inj h
      exact .finish _ t s.locks nofun
    · obtain rfl := Option.some.inj h
      exact .finish _ t _ nofun
    · cases h

end

/-! ### What holds while every commit is of what was read -/

/-- A session that a call works on is in the tables, and if it is no longer running, its closing has
    been committed. -/
def InFlight (s : EventWriters) (id : Uuid) : Prop :=
  ∃ session details, s.db.sessions id = some session ∧ s.db.details id = some details ∧
    (session.status ≠ .RUNNING → (id, .SESSION_CLOSE) ∈ s.commits)

/-- What a call in flight has read. -/
def TaskOk (s : EventWriters) : EventTask → Prop
  | .idle => True
  | .loaded _ env _ _ => s.InFlight env.session_id ∧ ∀ p, env.payload ≠ .ok (.sessionOpen p)
  | .flushed env payload seen after => s.InFlight env.session_id ∧
      payload.eventType ≠ .SESSION_OPEN ∧ (seen.sessions env.session_id).isSome = true ∧
      (seen.details env.session_id).isSome = true ∧ Writes env seen after payload.eventType
  | .finished => True

/-- The invariant of the runs that keep the lifecycle. -/
structure LifecycleInv (s : EventWriters) : Prop where
  kept : s.LifecycleKept
  closing : ∀ id, (id, EventType.SESSION_CLOSE) ∈ s.commits →
    ∃ session, s.db.sessions id = some session ∧ session.status ≠ .RUNNING
  task : ∀ t, s.TaskOk (s.tasks t)

section

variable {rt : Runtime} {s s' : EventWriters} {l : EventStep} {id : Uuid} {task : EventTask}

/-- The event type of a payload that opens no session. -/
theorem eventType_ne_open {env : EventEnvelope} {payload : EventPayload}
    (hpayload : env.payload = .ok payload) (h : ∀ p, env.payload ≠ .ok (.sessionOpen p)) :
    payload.eventType ≠ .SESSION_OPEN := by
  cases payload with
  | sessionOpen p => exact absurd hpayload (h p)
  | _ => nofun

/-- A step of another call keeps what this one has read, as it keeps its session. -/
theorem TaskOk.mono (hkeep : ∀ id, s.InFlight id → s'.InFlight id) (h : s.TaskOk task) :
    s'.TaskOk task := by
  cases task with
  | idle => trivial
  | loaded io env session details => exact ⟨hkeep _ h.1, h.2⟩
  | flushed env payload seen after => exact ⟨hkeep _ h.1, h.2⟩
  | finished => trivial

/-- One call moves on, and nothing is committed. -/
theorem LifecycleInv.moved {t : ℕ} {locks : Uuid → Option ℕ} (h : LifecycleInv s)
    (htask : s.TaskOk task) :
    LifecycleInv { s with locks := locks, tasks := Function.update s.tasks t task } where
  kept := ⟨h.kept.closed, h.kept.counted⟩
  closing := h.closing
  task v := by
    by_cases hv : v = t
    · subst hv
      show TaskOk _ (Function.update s.tasks v task v)
      rw [Function.update_self]
      exact htask.mono fun _ hid => hid
    · show TaskOk _ (Function.update s.tasks t task v)
      rw [Function.update_of_ne hv]
      exact (h.task v).mono fun _ hid => hid

section

variable {t : ℕ} {env : EventEnvelope} {payload : EventPayload} {seen after : EventDatabase}

/-- The state after a commit. -/
theorem effect_of_flushed (h : LifecycleInv s)
    (htask : s.tasks t = .flushed env payload seen after) :
    CommitEffect env s.db seen (s.db.commit seen after env.session_id) payload.eventType := by
  have hok := h.task t
  rw [htask] at hok
  exact commitEffect_of_writes hok.2.2.2.2 hok.2.1 hok.2.2.1

/-- A commit keeps every session that a call works on. -/
theorem InFlight.commit {db' : EventDatabase} {kind : EventType}
    (heffect : CommitEffect env s.db seen db' kind)
    (hseen : (seen.details env.session_id).isSome = true)
    (hs' : s'.db = db' ∧ s'.commits = s.commits ++ [(env.session_id, kind)])
    (h : s.InFlight id) : s'.InFlight id := by
  obtain ⟨session, details, hsession, hdetails, hclosed⟩ := h
  obtain ⟨rfl, hcommits⟩ := hs'
  unfold InFlight
  rw [hcommits]
  by_cases hid : id = env.session_id
  · subst hid
    obtain ⟨loaded, hloaded⟩ := Option.isSome_iff_exists.mp hseen
    obtain ⟨session', hsession', -, hsame⟩ := heffect.status session hsession
    obtain ⟨details', hdetails', -⟩ := heffect.count details loaded hdetails hloaded
    refine ⟨session', details', hsession', hdetails', fun hstatus => ?_⟩
    by_cases hkind : kind = .SESSION_CLOSE
    · rw [hkind]
      exact List.mem_append_right _ (List.mem_singleton_self _)
    · rw [hsame hkind] at hstatus
      exact List.mem_append_left _ (hclosed hstatus)
  · refine ⟨session, details, ?_, ?_, fun hstatus => List.mem_append_left _ (hclosed hstatus)⟩
    · rw [heffect.sessions id hid, hsession]
    · rw [heffect.details id hid, hdetails]

/-- A session that a decision is committed for counts it only from the committed count. -/
theorem decisions_of_commit {db' : EventDatabase} {kind : EventType}
    (heffect : CommitEffect env s.db seen db' kind) :
    (db'.part env.session_id).decisions.length = (s.db.part env.session_id).decisions.length +
      if kind = .DECISION_RECORD then 1 else 0 := by
  obtain ⟨rows, hrows, hdecision, hother⟩ := heffect.decisions
  show (db'.decisions.filter _).length = _
  rw [hrows, List.filter_append, List.length_append]
  refine congrArg ((s.db.part env.session_id).decisions.length + ·) ?_
  split
  · next hkind =>
    obtain ⟨row, rfl, hid⟩ := hdecision hkind
    refine congrArg List.length (List.filter_eq_self.mpr fun r hr => ?_)
    rw [List.mem_singleton.mp hr, hid]
    exact beq_self_eq_true _
  · next hkind =>
    rw [hother hkind]
    rfl

/-- The rows of another session. -/
theorem decisions_of_commit_of_ne {db' : EventDatabase} {kind : EventType}
    (heffect : CommitEffect env s.db seen db' kind) (hid : id ≠ env.session_id) :
    (db'.part id).decisions = (s.db.part id).decisions := by
  obtain ⟨rows, hrows, hdecision, hother⟩ := heffect.decisions
  show db'.decisions.filter _ = _
  rw [hrows, List.filter_append]
  refine (congrArg _ ?_).trans (List.append_nil _)
  by_cases hkind : kind = .DECISION_RECORD
  · obtain ⟨row, rfl, hrow⟩ := hdecision hkind
    refine List.filter_cons_of_neg ?_
    rw [hrow, beq_iff_eq]
    exact hid.symm
  · rw [hother hkind]
    rfl

/-- **One commit** of what is still as it was read keeps the lifecycle. -/
theorem LifecycleInv.commit (h : LifecycleInv s)
    (htask : s.tasks t = .flushed env payload seen after)
    (hsame : StillAsRead s (.commit t)) :
    LifecycleInv { s.release t env.session_id with
      db := s.db.commit seen after env.session_id
      commits := s.commits ++ [(env.session_id, payload.eventType)] } := by
  -- What was read is what is there now, so the commit counts on the current numbers.
  have heffect := effect_of_flushed h htask
  obtain ⟨⟨session, hsession, hrunning⟩, hcount⟩ := hsame env payload seen after htask
  have hok := h.task t
  rw [htask] at hok
  obtain ⟨⟨-, current, -, hcurrent, -⟩, -, -, hseen, -⟩ := hok
  -- Four parts: no event after a close, the counts, the closed sessions, and the tasks still at
  -- work.
  refine ⟨⟨?_, fun id details hdetails => ?_⟩, fun id hid => ?_, fun v => ?_⟩
  · -- the session is still running, so its closing has not been committed
    refine List.pairwise_append.mpr ⟨h.kept.closed, List.pairwise_singleton _ _, ?_⟩
    intro earlier hearlier later hlater hclose hof
    obtain rfl := List.mem_singleton.mp hlater
    have hclosed : (env.session_id, EventType.SESSION_CLOSE) ∈ s.commits := by
      rwa [show env.session_id = earlier.1 from hof, ← hclose]
    obtain ⟨session', hsession', hstatus⟩ := h.closing _ hclosed
    obtain rfl := Option.some.inj (hsession.symm.trans hsession')
    exact hstatus hrunning
  · by_cases hid : id = env.session_id
    · subst hid
      obtain ⟨read, hread⟩ := Option.isSome_iff_exists.mp hseen
      obtain ⟨details', hdetails', hone, hzero⟩ := heffect.count current read hcurrent hread
      -- The count that the flush computed goes up by one exactly for a decision.
      obtain rfl := Option.some.inj (hdetails'.symm.trans hdetails)
      show _ = (((s.db.commit seen after env.session_id).part env.session_id).decisions.length : ℤ)
      rw [decisions_of_commit heffect, Nat.cast_add, ← h.kept.counted _ current hcurrent]
      by_cases hkind : payload.eventType = .DECISION_RECORD
      · have hread' := hcount hkind
        rw [hcurrent, hread, Option.map_some, Option.map_some, Option.some.injEq] at hread'
        rw [hone hkind, if_pos hkind, hread']
        rfl
      · rw [hzero hkind, if_neg hkind]
        exact (add_zero _).symm
    · show _ = (((s.db.commit seen after env.session_id).part id).decisions.length : ℤ)
      rw [decisions_of_commit_of_ne heffect hid]
      exact h.kept.counted id details ((heffect.details id hid).symm.trans hdetails)
  · by_cases hof : id = env.session_id
    · subst hof
      obtain ⟨session', hsession', hclosed, -⟩ := heffect.status session hsession
      refine ⟨session', hsession', hclosed ?_⟩
      rcases List.mem_append.mp hid with hbefore | hnow
      · obtain ⟨session'', hsession'', hstatus⟩ := h.closing _ hbefore
        obtain rfl := Option.some.inj (hsession.symm.trans hsession'')
        exact absurd hrunning hstatus
      · exact (Prod.mk.inj (List.mem_singleton.mp hnow)).2.symm
    · rcases List.mem_append.mp hid with hbefore | hnow
      · obtain ⟨session', hsession', hstatus⟩ := h.closing id hbefore
        exact ⟨session', (heffect.sessions id hof).trans hsession', hstatus⟩
      · exact absurd (Prod.mk.inj (List.mem_singleton.mp hnow)).1 hof
  · by_cases hv : v = t
    · subst hv
      show TaskOk _ (Function.update s.tasks v .finished v)
      rw [Function.update_self]
      trivial
    · show TaskOk _ (Function.update s.tasks t .finished v)
      rw [Function.update_of_ne hv]
      exact (h.task v).mono fun _ hid => hid.commit heffect hseen ⟨rfl, rfl⟩

end

/-- **One step** that keeps to what was read keeps the invariant. -/
theorem step_keeps (h : LifecycleInv s) (hsame : StillAsRead s l) (hstep : s.step rt l = some s') :
    LifecycleInv s' := by
  cases stepEffect_of_step hstep with
  | load t io env session details hsession hrunning hdetails hpayload =>
    apply h.moved
    exact ⟨⟨session, details, hsession, hdetails, fun hne => absurd hrunning hne⟩, hpayload⟩
  | flush t io env session details payload after locks htask hpayload hwrites =>
    have hok := h.task t
    rw [htask] at hok
    apply h.moved
    refine ⟨hok.1, eventType_ne_open hpayload hok.2, ?_, ?_, hwrites⟩
    · exact Option.isSome_iff_exists.mpr ⟨session, Function.update_self _ _ _⟩
    · exact Option.isSome_iff_exists.mpr ⟨details, Function.update_self _ _ _⟩
  | commit t env payload seen after htask => exact h.commit htask hsame
  | finish l t locks => exact h.moved trivial

/-- **A commit of what is no longer as it was read** breaks the lifecycle: it comes after the
    closing, or its decision is not counted. -/
theorem step_loses (h : LifecycleInv s) (hstale : ¬ StillAsRead s l)
    (hstep : s.step rt l = some s') : ¬ s'.LifecycleKept := by
  intro hkept
  cases stepEffect_of_step hstep with
  | load t io env session details => exact hstale trivial
  | flush t io env session details payload after locks => exact hstale trivial
  | commit t env payload seen after htask =>
    have hok := h.task t
    rw [htask] at hok
    obtain ⟨⟨session, current, hsession, hcurrent, hclosed⟩, -, -, hseen, -⟩ := hok
    refine hstale fun env' payload' seen' after' htask' => ?_
    obtain ⟨rfl, rfl, rfl, rfl⟩ := EventTask.flushed.inj (htask.symm.trans htask')
    refine ⟨⟨session, hsession, ?_⟩, fun hkind => ?_⟩
    · by_contra hstatus
      exact (List.pairwise_append.mp hkept.closed).2.2 _ (hclosed hstatus) _
        (List.mem_singleton_self _) rfl rfl
    · obtain ⟨read, hread⟩ := Option.isSome_iff_exists.mp hseen
      have heffect := effect_of_flushed h htask
      obtain ⟨details', hdetails', hone, -⟩ := heffect.count current read hcurrent hread
      -- one row more, so the count written is one more than the committed one
      have hcount : details'.decision_count =
          (((s.db.commit seen after env.session_id).part env.session_id).decisions.length : ℤ) :=
        hkept.counted _ _ hdetails'
      rw [decisions_of_commit heffect, Nat.cast_add, ← h.kept.counted _ current hcurrent,
        hone hkind, if_pos hkind] at hcount
      rw [hcurrent, hread]
      refine congrArg some ?_
      show current.decision_count = read.decision_count
      have hsame : read.decision_count + 1 = current.decision_count + 1 := hcount
      omega
  | finish l t locks hl =>
    refine hstale ?_
    cases l with
    | commit v => exact absurd rfl (hl v)
    | _ => trivial

/-- Balanced tables and no calls. -/
theorem LifecycleInv.opened {db : EventDatabase} (h : Balanced db) : LifecycleInv (opened db) where
  kept := ⟨List.Pairwise.nil, fun id => (h.parts id).counted⟩
  closing := nofun
  task _ := trivial

end

/-- **The lifecycle of sessions under concurrent calls.**  After any calls made one at a time, any
    interleaving of calls keeps it in every state exactly if every commit finds the session as it
    was read: still running and, for a decision, with the same count of decisions. -/
theorem lifecycle_kept_iff (rt : Runtime) (agents policies : Uuid → Bool)
    (setup : List ManagedCall) (steps : List EventStep) :
    Throughout (step rt) LifecycleKept
        (opened (ManagedState.after rt ⟨[], .empty agents policies⟩ setup).db) steps ↔
      Guarded (step rt) StillAsRead
        (opened (ManagedState.after rt ⟨[], .empty agents policies⟩ setup).db) steps :=
  throughout_iff_guarded (fun _ _ _ hinv hsame hstep => step_keeps hinv hsame hstep)
    (fun _ _ _ hinv hstale hstep => step_loses hinv hstale hstep)
    (fun _ hinv => hinv.kept) (.opened (balanced_calls (balanced_empty agents policies)))

end EventWriters

/-! ### Two decisions -/

/-- A decision of the example session. -/
def exampleDecisionEnvelope : EventEnvelope :=
  { openEnvelope with
    payload := .ok (.decisionRecord
      { selected_action := "search", inputs_summary := none, reasoning_summary := none,
        confidence := none, alternatives_considered := none, timestamp := mayNoon.time,
        reasoning_captured := none }) }

/-- Both calls read the session's row before either commits. -/
def twoDecisions : List EventStep :=
  [.load 0 (openCall true).io exampleDecisionEnvelope,
    .load 1 { (openCall true).io with fresh := exampleAgent } exampleDecisionEnvelope,
    .flush 0, .commit 0, .flush 1, .commit 1]

/-- Two rows of decisions, and a count of one. -/
theorem not_lifecycle_kept_twoDecisions :
    ¬ Throughout (EventWriters.step exampleRuntime) EventWriters.LifecycleKept
      (.opened (ManagedState.after exampleRuntime
        ⟨[], .empty (· == exampleAgent) fun _ => false⟩ [openCall true]).db) twoDecisions := by
  have hcounts : (run (EventWriters.step exampleRuntime)
      (.opened (ManagedState.after exampleRuntime
        ⟨[], .empty (· == exampleAgent) fun _ => false⟩ [openCall true]).db) twoDecisions).map
        (fun s => ((s.db.details exampleSession).map (·.decision_count),
          (s.db.part exampleSession).decisions.length)) = some (some 1, 2) := by
    decide +kernel
  obtain ⟨s, hrun, hcounts⟩ := Option.map_eq_some_iff.mp hcounts
  obtain ⟨hone, htwo⟩ := Prod.mk.inj hcounts
  obtain ⟨details, hdetails, hone⟩ := Option.map_eq_some_iff.mp hone
  intro h
  have hcount := (h.last hrun).counted exampleSession details hdetails
  rw [hone, htwo] at hcount
  exact absurd hcount (by decide)

end RootSign
