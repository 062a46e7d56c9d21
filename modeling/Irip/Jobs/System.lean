import Irip.Base.Run
import Irip.Jobs.Worker

/-!
# `Jobs.System` — the job system as a transition system

Every database statement is one atomic step, and any number of users, dispatchers, workers and beat tasks
interleave. A step carries two instants: `now`, what the database's `now()` answers, and `clock`, what
the process reads from its own clock. Nothing relates them, or the instants of different steps.

A message is acknowledged late: an execution holds it until its task has ended, and the loss of the worker
puts it back into the broker.
-/

namespace Irip.Jobs

open Table (Update)
open Runs

abbrev EventId := Nat

/-! ## Transactions -/

/-- The transactions that change the database. -/
inductive Write where
  | accept (departmentId : DeptId) (createdBy : UserId) (kind : String) (payload : Json) (key : String)
  | requestCancel (j : JobId) (seen : Job) (actorId : UserId)
  | acquire (j : JobId) (owner : String) (expiresAt : Time)
  | renew (j : JobId) (owner : String) (expiresAt : Time)
  | release (j : JobId) (owner : String)
  | reap (js : List JobId)
  | requeue (j : JobId)
  | commit (j : JobId) (lockVersion attempt : Nat) (commit : Commit)
  | markJobFailed (j : JobId) (error : String)
  | updateJobStatus (j : JobId) (status : String)
  | deliver (sent : List (EventId × Time))

/-- The UPDATE that marks an event delivered. -/
def deliveredStmt (deliveredAt : Time) : Update OutboxEvent where
  cond _ := true
  set ev := { ev with deliveredAt := some deliveredAt }

/-- Set `delivered_at` of the events a dispatcher has sent. -/
def Db.deliver (db : Db) (sent : List (EventId × Time)) : Db :=
  sent.foldl (fun db p => { db with outbox := Table.update db.outbox [p.1] (deliveredStmt p.2) }) db

/-- The database after the transaction. -/
def Write.run (now clock : Time) (db : Db) : Write → Db
  | .accept d u kind payload key =>
    match JobService.accept now db d u kind payload key with
    | .ok (_, db') => db'
    | .error _ => db
  | .requestCancel j seen actor =>
    match JobService.requestCancelUpdate now db j seen actor with
    | .ok (_, db') => db'
    | .error _ => db
  | .acquire j owner expiresAt => db.update [j] (JobRepository.acquireLeaseWithFencing now owner expiresAt)
  | .renew j owner expiresAt => db.update [j] (JobRepository.renewLease now owner expiresAt)
  | .release j owner => db.update [j] (JobRepository.releaseLease now owner)
  | .reap js => JobRepository.reapAndRedeliver now db js
  | .requeue j => retryWaitUpdate now db j
  | .commit j v attempt c => c.run now clock db j v attempt
  | .markJobFailed j error => Jobs.markJobFailed now db j error
  | .updateJobStatus j status => Jobs.updateJobStatus now db j status
  | .deliver sent => db.deliver sent

/-- The UPDATE a transaction runs on the table `job`, with the keys it is aimed at. -/
def Write.stmt (now clock : Time) : Write → List JobId × Update Job
  | .requestCancel j seen _ => ([j], JobService.requestCancelStmt now seen.lockVersion)
  | .acquire j owner expiresAt => ([j], JobRepository.acquireLeaseWithFencing now owner expiresAt)
  | .renew j owner expiresAt => ([j], JobRepository.renewLease now owner expiresAt)
  | .release j owner => ([j], JobRepository.releaseLease now owner)
  | .reap js => (js, JobRepository.reapUpdate now)
  | .requeue j => ([j], retryWaitStmt now)
  | .commit j v attempt c =>
    ([j], match c with
      | .success result => JobRepository.updateStatus now .succeeded result none (some v)
      | .failure error => JobRepository.updateStatus now .failed none (some error.toDict) (some v)
      | .retry error => commitRetryStmt now (clock + seconds (2 ^ attempt)) v attempt error)
  | .markJobFailed j error => ([j], markJobFailedStmt now error)
  | .updateJobStatus j status => ([j], updateJobStatusStmt now status)
  | .accept .. => ([], { cond := fun _ => false, set := id })
  | .deliver _ => ([], { cond := fun _ => false, set := id })

/-- What a transaction makes of the job with key `j`. -/
def Write.onRow (now clock : Time) (w : Write) (j : JobId) (job : Job) : Job :=
  if j ∈ (w.stmt now clock).1 then (w.stmt now clock).2.apply job else job

theorem jobs_enqueueRequeued (now : Time) (db : Db) (js : List JobId) :
    (JobRepository.enqueueRequeued now db js).jobs = db.jobs := by
  unfold JobRepository.enqueueRequeued
  induction js generalizing db with
  | nil => rfl
  | cons j js ih => exact ih _

theorem jobs_deliver (db : Db) (sent : List (EventId × Time)) : (db.deliver sent).jobs = db.jobs := by
  unfold Db.deliver
  induction sent generalizing db with
  | nil => rfl
  | cons p sent ih => exact ih _

variable {now clock : Time}

theorem job?_accept {db : Db} {d : DeptId} {u : UserId} {kind key : String} {payload : Json}
    {j : JobId} {job : Job} (hj : db.job? j = some job) :
    ((Write.accept d u kind payload key).run now now db).job? j = some job := by
  simp only [Write.run, JobService.accept]
  by_cases hk : isBlank kind = true
  · simp only [hk, if_true]; exact hj
  · simp only [hk]
    cases hi : JobRepository.getByIdempotencyDept db d key with
    | some i =>
      cases hrow : db.job? i with
      | none | some existing => simpa [hrow] using hj
    | none => simpa using job?_insertJob_of_some hj

/-- **Row-wise reading of a transaction.** A job that exists is changed by the transaction's UPDATE and by
nothing else. -/
theorem job?_run {w : Write} {db : Db} {j : JobId} {job : Job}
    (hj : db.job? j = some job) : (w.run now clock db).job? j = some (w.onRow now clock j job) := by
  have hupd : ∀ (js : List JobId) (u : Update Job),
      (db.update js u).job? j = some (if j ∈ js then u.apply job else job) := by
    intro js u
    rw [job?_update, hj]
    rfl
  cases w with
  | accept d u kind payload key => exact job?_accept hj
  | requestCancel i seen actor =>
    simp only [Write.run, JobService.requestCancelUpdate]
    by_cases hm : db.matched i (JobService.requestCancelStmt now seen.lockVersion) = true
    · simp only [hm, if_true, job?_enqueue]
      exact hupd _ _
    · have hfix := update_of_not_matched (Bool.eq_false_iff.mpr hm)
      simp only [hm]
      have h := hupd [i] (JobService.requestCancelStmt now seen.lockVersion)
      rw [hfix] at h
      exact h
  | reap js =>
    have hjobs := jobs_enqueueRequeued now (db.update js (JobRepository.reapUpdate now)) js
    have h := hupd js (JobRepository.reapUpdate now)
    unfold Db.job? at h ⊢
    simp only [Write.run, JobRepository.reapAndRedeliver, hjobs]
    exact h
  | commit i v attempt c =>
    cases c with
    | success result | failure error | retry error => exact hupd _ _
  | deliver sent =>
    unfold Db.job? at hj ⊢
    simp only [Write.run, jobs_deliver]
    exact hj
  | acquire i owner expiresAt | renew i owner expiresAt | release i owner | requeue i | markJobFailed i error
  | updateJobStatus i status => exact hupd _ _

/-- **Only `accept` inserts a job**, with its event. -/
theorem run_new_row {w : Write} {db : Db} {j : JobId} {job : Job}
    (hnone : db.job? j = none) (hsome : (w.run now clock db).job? j = some job) :
    ∃ d u kind payload key evPayload, job = JobService.newJob now d u kind payload key ∧
      w.run now clock db = (db.insertJob job).enqueue now "job" j "job.accepted" evPayload := by
  have hupd : ∀ (js : List JobId) (u : Update Job), (db.update js u).job? j = none := by
    intro js u
    rw [job?_update, hnone]
    rfl
  cases w with
  | accept d u kind payload key =>
    simp only [Write.run, JobService.accept] at hsome ⊢
    by_cases hk : isBlank kind = true
    · simp only [hk, if_true] at hsome
      rw [hnone] at hsome
      cases hsome
    · simp only [hk] at hsome ⊢
      cases hi : JobRepository.getByIdempotencyDept db d key with
      | some i =>
        cases hrow : db.job? i with
        | none | some existing => simp [hi, hrow, hnone] at hsome
      | none =>
        have hins : (db.jobs ++ [JobService.newJob now d u kind payload key])[j]? = some job := by
          simp only [hi] at hsome
          exact hsome
        have hge : db.jobs.length ≤ j := List.getElem?_eq_none_iff.mp hnone
        have hlt := (List.getElem?_eq_some_iff.mp hins).1
        rw [List.length_append, List.length_singleton] at hlt
        have hj : j = db.jobs.length := Nat.le_antisymm (Nat.le_of_lt_succ hlt) hge
        subst hj
        rw [List.getElem?_append_right (Nat.le_refl _), Nat.sub_self] at hins
        obtain rfl := Option.some.inj hins
        exact ⟨d, u, kind, payload, key, _, rfl, rfl⟩
  | requestCancel i seen actor =>
    simp only [Write.run, JobService.requestCancelUpdate] at hsome
    by_cases hm : db.matched i (JobService.requestCancelStmt now seen.lockVersion) = true
    · simp only [hm, if_true, job?_enqueue, hupd] at hsome
      cases hsome
    · simp only [hm] at hsome
      exact absurd (hnone.symm.trans hsome) (by simp)
  | reap js =>
    have hjobs := jobs_enqueueRequeued now (db.update js (JobRepository.reapUpdate now)) js
    have h := hupd js (JobRepository.reapUpdate now)
    unfold Db.job? at h hsome
    simp only [Write.run, JobRepository.reapAndRedeliver, hjobs, h] at hsome
    cases hsome
  | deliver sent =>
    unfold Db.job? at hnone hsome
    simp only [Write.run, jobs_deliver, hnone] at hsome
    cases hsome
  | commit i v attempt c =>
    cases c with
    | success result | failure error | retry error => exact absurd ((hupd _ _).symm.trans hsome) (by simp)
  | acquire i owner expiresAt | renew i owner expiresAt | release i owner | requeue i | markJobFailed i error
  | updateJobStatus i status => exact absurd ((hupd _ _).symm.trans hsome) (by simp)

/-! ## Parties -/

/-- The heartbeat task of an execution. -/
inductive Heartbeat where
  | stopped
  | beating
  | raised
deriving DecidableEq, Repr

/-- Where an execution of `_execute_job_async` is. -/
inductive Phase where
  | received -- before the department is read and counted
  | counted (dept : DeptId) (current : Int) -- after INCR, before the comparison
  | admitted -- before `acquire_with_fencing`
  | leased -- before the job is read
  | handling (run : Snapshot) -- the handler runs
  | marking (run : Snapshot) (outcome : Outcome) -- a flow adapter is about to mark the job failed
  | committing (run : Snapshot) (commit : Commit)
  | finalizing -- in the finally block, before `release`
  | leaving -- `execute` is over, before the slot is released
  | settled -- the task is over, its message not acknowledged
  | done
  | crashed

/-- One delivery of a message to a worker. -/
structure Execution where
  job : JobId
  owner : String
  phase : Phase := .received
  slot : Option DeptId := none
  fencingToken : Option Nat := none
  heartbeat : Heartbeat := .stopped

/-- A dispatcher's transaction: the events it has locked, those it has still to send and those it has
sent, with the instant it will record for each. -/
structure Dispatch where
  selected : List EventId
  pending : List EventId
  sent : List (EventId × Time) := []

/-- The state of the job system. -/
structure Sys where
  db : Db
  broker : List JobId -- the messages `jobs.execute` no worker has received
  slots : Slots
  execs : List Execution -- only ever appended to
  dispatches : List Dispatch
  cancels : List (JobId × Job × UserId) -- cancel requests between their SELECT and their UPDATE
  reaps : List (List JobId)
  scans : List (List JobId) -- the rows each retry scan has selected and not yet updated

/-- `IRIP_MAX_CONCURRENT_TASKS_PER_DEPT`. -/
structure Config where
  maxPerDept : Int := 3

/-! ## Executions -/

/-- The steps of an execution. -/
inductive ExecAction where
  | count
  | limit
  | acquire
  | read
  | finish (outcome : Outcome)
  | mark
  | skipMark
  | commit
  | beat
  | beatFails
  | release
  | leave
  | ack
  | fail
  | crash

/-- Enter the finally block: the heartbeat task is cancelled. -/
def Execution.finalize (x : Execution) : Execution :=
  { x with phase := .finalizing, heartbeat := if x.heartbeat = .raised then .raised else .stopped }

/-- The lease UPDATE of an execution. -/
def Execution.acquireStmt (now clock : Time) (x : Execution) : Update Job :=
  JobRepository.acquireLeaseWithFencing now x.owner (clock + seconds leaseTtlSeconds)

/-- The heartbeat UPDATE of an execution. -/
def Execution.renewStmt (now clock : Time) (x : Execution) : Update Job :=
  JobRepository.renewLease now x.owner (clock + seconds leaseTtlSeconds)

/-- What `execute` does with the row it has read. -/
def Execution.afterRead (x : Execution) : Option Job → Execution
  | none => x.finalize
  | some job =>
    if job.status.IsTerminal then x.finalize
    else
      let run : Snapshot := { kind := job.kind, attempt := job.attempt, maxAttempts := job.maxAttempts }
      if job.kind ∈ registeredKinds then { x with phase := .handling run }
      else { x with phase := .committing run (.failure (unknownJobKind job.kind)) }

/-- A statement of the execution raises; the exception unwinds to the next `finally`. -/
def Execution.unwind (x : Execution) : Option Execution :=
  match x.phase with
  | .received => some { x with phase := .settled }
  | .counted .. => some { x with phase := .settled }
  | .admitted => some { x with phase := .leaving }
  | .leased => some x.finalize
  | .handling _ => some x.finalize
  | .marking .. => some x.finalize
  | .committing .. => some x.finalize
  | .finalizing => some { x with phase := .leaving }
  | .leaving => some { x with phase := .settled }
  | .settled => none
  | .done => none
  | .crashed => none

/-- The message of the delivery is still held by the worker. -/
def Execution.holds (x : Execution) : Bool :=
  match x.phase with
  | .done => false
  | .crashed => false
  | _ => true

/-- The execution after one of its steps, `none` when it is not at that step. -/
def Execution.next (cfg : Config) (db : Db) (slots : Slots) (now clock : Time) (x : Execution) :
    ExecAction → Option Execution
  | .count =>
    match x.phase with
    | .received =>
      match db.job? x.job with
      | some job => some { x with phase := .counted job.departmentId (slots job.departmentId + 1) }
      | none => some { x with phase := .admitted }
    | _ => none
  | .limit =>
    match x.phase with
    | .counted dept current =>
      -- over the limit: `rate_limited` is raised before any lease is taken
      if cfg.maxPerDept < current then some { x with phase := .settled }
      else some { x with phase := .admitted, slot := some dept }
    | _ => none
  | .acquire =>
    match x.phase with
    | .admitted =>
      match JobRepository.fencingToken db x.job (x.acquireStmt now clock) with
      | some token => some { x with phase := .leased, fencingToken := some token, heartbeat := .beating }
      | none => some { x with phase := .leaving }
    | _ => none
  | .read =>
    match x.phase with
    | .leased => some (x.afterRead (db.job? x.job))
    | _ => none
  | .finish outcome =>
    match x.phase with
    | .handling run =>
      if outcome.error?.isSome && run.kind ∈ flowKinds then some { x with phase := .marking run outcome }
      else some { x with phase := .committing run (run.answer outcome) }
    | _ => none
  | .mark =>
    match x.phase with
    | .marking run outcome => some { x with phase := .committing run (run.answer outcome) }
    | _ => none
  | .skipMark =>
    -- the adapter raised before its `try`, or `_mark_job_failed` itself raised and was swallowed
    match x.phase with
    | .marking run outcome => some { x with phase := .committing run (run.answer outcome) }
    | _ => none
  | .commit =>
    match x.phase with
    | .committing .. => some x.finalize
    | _ => none
  | .beat =>
    match x.heartbeat with
    | .beating => if db.matched x.job (x.renewStmt now clock) then some x else some { x with heartbeat := .stopped }
    | _ => none
  | .beatFails =>
    match x.heartbeat with
    | .beating => some { x with heartbeat := .raised }
    | _ => none
  | .release =>
    match x.phase with
    | .finalizing => some { x with phase := .leaving }
    | _ => none
  | .leave =>
    match x.phase with
    | .leaving => some { x with phase := .settled, slot := none }
    | _ => none
  | .ack =>
    match x.phase with
    | .settled => some { x with phase := .done }
    | _ => none
  | .fail => x.unwind
  | .crash => if x.holds then some { x with phase := .crashed, heartbeat := .stopped } else none

/-- The transaction one step of an execution commits. -/
def Execution.write (clock : Time) (x : Execution) : ExecAction → Option Write
  | .acquire => some (.acquire x.job x.owner (clock + seconds leaseTtlSeconds))
  | .beat => some (.renew x.job x.owner (clock + seconds leaseTtlSeconds))
  | .mark =>
    match x.phase with
    | .marking _ outcome => outcome.error?.map (.markJobFailed x.job)
    | _ => none
  | .commit =>
    match x.phase, x.fencingToken with
    | .committing run c, some token => some (.commit x.job token run.attempt c)
    | _, _ => none
  | .release =>
    -- awaiting a heartbeat task that has raised re-raises, and the release is not reached
    if x.heartbeat = .raised then none else some (.release x.job x.owner)
  | _ => none

/-- The Redis counters after one step of an execution. -/
def Execution.slots (cfg : Config) (db : Db) (slots : Slots) (x : Execution) : ExecAction → Slots
  | .count =>
    match db.job? x.job with
    | some job => slots.add job.departmentId 1
    | none => slots
  | .limit =>
    match x.phase with
    | .counted dept current => if cfg.maxPerDept < current then slots.add dept (-1) else slots
    | _ => slots
  | .leave =>
    match x.slot with
    | some dept => slots.release dept
    | none => slots
  | _ => slots

/-- The messages one step of an execution puts back into the broker. -/
def Execution.requeued (x : Execution) : ExecAction → List JobId
  | .crash => [x.job]
  | _ => []

/-! ## The system -/

/-- The steps of the system. -/
inductive Action where
  | accept (departmentId : DeptId) (createdBy : UserId) (kind : String) (payload : Json) (key : String)
  | cancelSelect (j : JobId) (actorId : UserId)
  | cancelUpdate (c : Nat)
  | dispatchSelect
  | dispatchSend (d : Nat)
  | dispatchSkip (d : Nat)
  | dispatchCommit (d : Nat)
  | dispatchAbort (d : Nat)
  | receive (m : Nat) (owner : String)
  | exec (e : Nat) (act : ExecAction)
  | slotExpires (dept : DeptId)
  | reapSelect
  | reapUpdate (r : Nat)
  | scanSelect
  | scanUpdate (i : Nat)
  | updateJobStatus (j : JobId) (status : String)

/-- A step with the two instants it reads. -/
structure Label where
  now : Time
  clock : Time
  act : Action

/-- A step that reads the instant `t` from both clocks. -/
def tick (t : Time) (act : Action) : Label := { now := t, clock := t, act := act }

/-- The event has not been delivered. -/
def Db.undelivered (db : Db) (i : EventId) : Bool :=
  match db.outbox[i]? with
  | some ev => ev.deliveredAt.isNone
  | none => false

def Db.occurredAt (db : Db) (i : EventId) : Time :=
  match db.outbox[i]? with
  | some ev => ev.occurredAt
  | none => 0

def defaultBatchSize : Nat := 100

/-- `SELECT … WHERE delivered_at IS NULL ORDER BY occurred_at LIMIT 100 FOR UPDATE SKIP LOCKED`. -/
def Sys.selectEvents (s : Sys) : List EventId :=
  let free := (List.range s.db.outbox.length).filter (fun i =>
    s.db.undelivered i && !s.dispatches.any (fun d => d.selected.contains i))
  (free.insertionSort (fun i k => s.db.occurredAt i ≤ s.db.occurredAt k)).take defaultBatchSize

/-- The transaction a step commits. -/
def effect (s : Sys) (l : Label) : Option Write :=
  match l.act with
  | .accept d u kind payload key => some (.accept d u kind payload key)
  | .cancelUpdate c =>
    match s.cancels[c]? with
    | some (j, seen, actor) => some (.requestCancel j seen actor)
    | none => none
  | .dispatchCommit d =>
    match s.dispatches[d]? with
    | some dp => some (.deliver dp.sent)
    | none => none
  | .exec e act =>
    match s.execs[e]? with
    | some x => x.write l.clock act
    | none => none
  | .reapUpdate r =>
    match s.reaps[r]? with
    | some js => some (.reap js)
    | none => none
  | .scanUpdate i =>
    match s.scans[i]? with
    | some (j :: _) => some (.requeue j)
    | _ => none
  | .updateJobStatus j status => some (.updateJobStatus j status)
  | _ => none

/-- The parties after a step, `none` when the step cannot be taken. The database is left to `effect`. -/
def control (cfg : Config) (s : Sys) (l : Label) : Option Sys :=
  match l.act with
  | .accept .. => some s
  | .cancelSelect j actor =>
    match JobService.requestCancelCheck s.db j with
    | .ok seen => some { s with cancels := s.cancels ++ [(j, seen, actor)] }
    | .error _ => some s
  | .cancelUpdate c =>
    match s.cancels[c]? with
    | some _ => some { s with cancels := s.cancels.eraseIdx c }
    | none => none
  | .dispatchSelect =>
    let selected := s.selectEvents
    some { s with dispatches := s.dispatches ++ [{ selected := selected, pending := selected }] }
  | .dispatchSend d =>
    match s.dispatches[d]? with
    | some dp =>
      match dp.pending with
      | i :: rest =>
        match s.db.outbox[i]? with
        | some ev =>
          some { s with
            dispatches := s.dispatches.set d { dp with pending := rest, sent := dp.sent ++ [(i, l.clock)] }
            broker := s.broker ++ [ev.aggregateId] }
        | none => none
      | [] => none
    | none => none
  | .dispatchSkip d =>
    match s.dispatches[d]? with
    | some dp =>
      match dp.pending with
      | _ :: rest => some { s with dispatches := s.dispatches.set d { dp with pending := rest } }
      | [] => none
    | none => none
  | .dispatchCommit d =>
    match s.dispatches[d]? with
    | some dp => if dp.pending.isEmpty then some { s with dispatches := s.dispatches.eraseIdx d } else none
    | none => none
  | .dispatchAbort d =>
    match s.dispatches[d]? with
    | some _ => some { s with dispatches := s.dispatches.eraseIdx d }
    | none => none
  | .receive m owner =>
    match s.broker[m]? with
    | some j =>
      some { s with broker := s.broker.eraseIdx m, execs := s.execs ++ [{ job := j, owner := owner }] }
    | none => none
  | .exec e act =>
    match s.execs[e]? with
    | some x =>
      match x.next cfg s.db s.slots l.now l.clock act with
      | some x' =>
        some { s with
          execs := s.execs.set e x'
          slots := x.slots cfg s.db s.slots act
          broker := s.broker ++ x.requeued act }
      | none => none
    | none => none
  | .slotExpires dept => some { s with slots := s.slots.expire dept }
  | .reapSelect => some { s with reaps := s.reaps ++ [JobRepository.expiredJobs l.clock s.db] }
  | .reapUpdate r =>
    match s.reaps[r]? with
    | some _ => some { s with reaps := s.reaps.eraseIdx r }
    | none => none
  | .scanSelect => some { s with scans := s.scans ++ [retryWaitSelect l.clock s.db] }
  | .scanUpdate i =>
    match s.scans[i]? with
    | some (_ :: js) => some { s with scans := s.scans.set i js }
    | _ => none
  | .updateJobStatus .. => some s

/-- The database after a step. -/
def Sys.dbAfter (s : Sys) (l : Label) : Db :=
  match effect s l with
  | some w => w.run l.now l.clock s.db
  | none => s.db

/-- One step of the job system. -/
def step (cfg : Config) (s : Sys) (l : Label) : Option Sys :=
  (control cfg s l).map (fun s' => { s' with db := s.dbAfter l })

/-- The empty system. -/
def init : Sys :=
  { db := { jobs := [], outbox := [] }, broker := [], slots := fun _ => 0, execs := [], dispatches := [],
    cancels := [], reaps := [], scans := [] }

variable {cfg : Config} {l : Label}

/-- What a step can do: the parties move as `control` says and the database as `effect` says. -/
theorem step_eq_some_iff {s s' : Sys} :
    step cfg s l = some s' ↔ ∃ p, control cfg s l = some p ∧ s' = { p with db := s.dbAfter l } := by
  simp only [step, Option.map_eq_some_iff]
  constructor
  · rintro ⟨p, hp, rfl⟩; exact ⟨p, hp, rfl⟩
  · rintro ⟨p, hp, rfl⟩; exact ⟨p, hp, rfl⟩

theorem db_step {s s' : Sys} (h : step cfg s l = some s') : s'.db = s.dbAfter l := by
  obtain ⟨p, -, rfl⟩ := step_eq_some_iff.mp h
  rfl

/-- What a step makes of the job with key `j`. -/
def Sys.rowAfter (s : Sys) (l : Label) (j : JobId) (job : Job) : Job :=
  match effect s l with
  | some w => w.onRow l.now l.clock j job
  | none => job

/-- **Row-wise reading of a step.** -/
theorem job?_step {s s' : Sys} (h : step cfg s l = some s') {j : JobId}
    {job : Job} (hj : s.db.job? j = some job) : s'.db.job? j = some (s.rowAfter l j job) := by
  rw [db_step h]
  unfold Sys.dbAfter Sys.rowAfter
  cases effect s l with
  | none => exact hj
  | some w => exact job?_run hj

/-- **The transactions of a step.** An execution runs its own; of the others only the dispatcher's records
deliveries, and none touches a lease but the reaper's. -/
theorem effect_cases {s : Sys} {w : Write} (h : effect s l = some w) :
    (∃ e a x, l.act = .exec e a ∧ s.execs[e]? = some x ∧ x.write l.clock a = some w) ∨
    (∃ d dp, l.act = .dispatchCommit d ∧ s.dispatches[d]? = some dp ∧ w = .deliver dp.sent) ∨
    (∃ d u kind payload key, w = .accept d u kind payload key) ∨ (∃ j seen actor, w = .requestCancel j seen actor) ∨
    (∃ js, w = .reap js) ∨ (∃ j, w = .requeue j) ∨ ∃ j status, w = .updateJobStatus j status := by
  unfold effect at h
  cases ha : l.act with
  | exec e a =>
    cases hx : s.execs[e]? with
    | none => simp [ha, hx] at h
    | some x =>
      simp only [ha, hx] at h
      exact .inl ⟨e, a, x, rfl, hx, h⟩
  | dispatchCommit d =>
    cases hd : s.dispatches[d]? with
    | none => simp [ha, hd] at h
    | some dp =>
      simp only [ha, hd, Option.some.injEq] at h
      exact .inr (.inl ⟨d, dp, rfl, hd, h.symm⟩)
  | accept d u kind payload key =>
    simp only [ha, Option.some.injEq] at h
    exact .inr (.inr (.inl ⟨d, u, kind, payload, key, h.symm⟩))
  | cancelUpdate c =>
    simp only [ha] at h
    split at h
    · rename_i j seen actor _
      rw [Option.some.injEq] at h
      exact .inr (.inr (.inr (.inl ⟨j, seen, actor, h.symm⟩)))
    · cases h
  | reapUpdate r =>
    simp only [ha] at h
    split at h
    · rename_i js _
      rw [Option.some.injEq] at h
      exact .inr (.inr (.inr (.inr (.inl ⟨js, h.symm⟩))))
    · cases h
  | scanUpdate i =>
    simp only [ha] at h
    split at h
    · rename_i j _ _
      rw [Option.some.injEq] at h
      exact .inr (.inr (.inr (.inr (.inr (.inl ⟨j, h.symm⟩)))))
    · cases h
  | updateJobStatus j status =>
    simp only [ha, Option.some.injEq] at h
    exact .inr (.inr (.inr (.inr (.inr (.inr ⟨j, status, h.symm⟩)))))
  | _ => simp [ha] at h

/-- **The parties of a step.** Outside the steps of the executions, a worker may receive a message; every
other step leaves the executions alone and takes no message from the broker. -/
theorem control_cases {s p : Sys} (h : control cfg s l = some p) : (∃ e a, l.act = .exec e a) ∨
    ((∀ e a, l.act ≠ .exec e a) ∧ ((∃ m owner j, s.broker[m]? = some j ∧
          p = { s with broker := s.broker.eraseIdx m, execs := s.execs ++ [{ job := j, owner := owner }] }) ∨
        (p.execs = s.execs ∧ ∃ new, p.broker = s.broker ++ new))) := by
  have hsame : p.execs = s.execs → p.broker = s.broker →
      p.execs = s.execs ∧ ∃ new, p.broker = s.broker ++ new :=
    fun he hb => ⟨he, [], by rw [hb, List.append_nil]⟩
  cases ha : l.act with
  | exec e a => exact .inl ⟨e, a, rfl⟩
  | receive m owner =>
    refine .inr ⟨by simp, .inl ?_⟩
    cases hm : s.broker[m]? with
    | none => simp [control, ha, hm] at h
    | some j =>
      simp only [control, ha, hm, Option.some.injEq] at h
      exact ⟨m, owner, j, hm, h.symm⟩
  | dispatchSend d =>
    refine .inr ⟨by simp, .inr ?_⟩
    simp only [control, ha] at h
    split at h
    · split at h
      · split at h
        · rw [Option.some.injEq] at h
          subst h
          exact ⟨rfl, _, rfl⟩
        · cases h
      · cases h
    · cases h
  | cancelSelect i actor =>
    refine .inr ⟨by simp, .inr ?_⟩
    simp only [control, ha] at h
    split at h <;> rw [Option.some.injEq] at h <;> subst h <;> exact hsame rfl rfl
  | dispatchSkip d | dispatchCommit d =>
    refine .inr ⟨by simp, .inr ?_⟩
    simp only [control, ha] at h
    split at h
    · split at h
      · rw [Option.some.injEq] at h
        subst h
        exact hsame rfl rfl
      · cases h
    · cases h
  | cancelUpdate _ | dispatchAbort _ | reapUpdate _ | scanUpdate _ =>
    refine .inr ⟨by simp, .inr ?_⟩
    simp only [control, ha] at h
    split at h
    · rw [Option.some.injEq] at h
      subst h
      exact hsame rfl rfl
    · cases h
  | accept _ _ _ _ _ | updateJobStatus _ _ | dispatchSelect | slotExpires _ | reapSelect | scanSelect =>
    refine .inr ⟨by simp, .inr ?_⟩
    simp only [control, ha, Option.some.injEq] at h
    subst h
    exact hsame rfl rfl

/-! ### Steps of executions -/

theorem write_lease {x : Execution} {a : ExecAction} {w : Write} (h : x.write clock a = some w) :
    (∀ sent, w ≠ .deliver sent) ∧ (∀ j owner t, w = .acquire j owner t →
      a = .acquire ∧ j = x.job ∧ owner = x.owner ∧ t = clock + seconds leaseTtlSeconds) ∧
    (∀ j owner, w = .release j owner → a = .release ∧ j = x.job ∧ owner = x.owner) := by
  cases a with
  | acquire =>
    simp only [Execution.write, Option.some.injEq] at h
    subst h
    simp +contextual
  | beat =>
    simp only [Execution.write, Option.some.injEq] at h
    subst h
    simp
  | mark =>
    simp only [Execution.write] at h
    split at h
    · obtain ⟨m, -, rfl⟩ := Option.map_eq_some_iff.mp h
      simp
    · cases h
  | commit =>
    simp only [Execution.write] at h
    split at h
    · rw [Option.some.injEq] at h
      subst h
      simp
    · cases h
  | release =>
    simp only [Execution.write] at h
    split at h
    · cases h
    · rw [Option.some.injEq] at h
      subst h
      simp +contextual
  | _ => simp [Execution.write] at h

theorem control_exec {s p : Sys} {e : Nat} {a : ExecAction} (hl : l.act = .exec e a) (h : control cfg s l = some p) :
    ∃ x x', s.execs[e]? = some x ∧ x.next cfg s.db s.slots l.now l.clock a = some x' ∧ p = { s with
        execs := s.execs.set e x'
        slots := x.slots cfg s.db s.slots a
        broker := s.broker ++ x.requeued a } := by
  simp only [control, hl] at h
  cases hx : s.execs[e]? with
  | none => simp [hx] at h
  | some x =>
    cases hx' : x.next cfg s.db s.slots l.now l.clock a with
    | none => simp [hx, hx'] at h
    | some x' =>
      simp only [hx, hx', Option.some.injEq] at h
      exact ⟨x, x', rfl, hx', h.symm⟩

theorem afterRead_frame (x : Execution) (row : Option Job) :
    (x.afterRead row).job = x.job ∧ (x.afterRead row).owner = x.owner ∧
      (x.afterRead row).fencingToken = x.fencingToken ∧ (x.afterRead row).holds = true := by
  cases row with
  | none => exact ⟨rfl, rfl, rfl, rfl⟩
  | some job =>
    unfold Execution.afterRead
    by_cases ht : job.status.IsTerminal
    · simp only [if_pos ht]; exact ⟨rfl, rfl, rfl, rfl⟩
    · by_cases hk : job.kind ∈ registeredKinds
      · simp only [if_neg ht, if_pos hk]; exact ⟨trivial, trivial, trivial, rfl⟩
      · simp only [if_neg ht, if_neg hk]; exact ⟨trivial, trivial, trivial, rfl⟩

theorem unwind_frame {x x' : Execution} (h : x.unwind = some x') :
    x'.job = x.job ∧ x'.owner = x.owner ∧ x'.fencingToken = x.fencingToken ∧ x'.holds = true := by
  unfold Execution.unwind at h
  cases hp : x.phase <;> simp only [hp, Option.some.injEq, reduceCtorEq] at h <;> subst h <;>
    exact ⟨rfl, rfl, rfl, rfl⟩

/-- **What a step of an execution keeps.** Its job and owner never change, and its fencing token changes
only when it acquires the lease. -/
theorem next_frame {db : Db} {slots : Slots} {x x' : Execution}
    {a : ExecAction} (h : x.next cfg db slots now clock a = some x') :
    x'.job = x.job ∧ x'.owner = x.owner ∧ (a ≠ .acquire → x'.fencingToken = x.fencingToken) ∧
      (a ≠ .ack → a ≠ .crash → x.holds = true → x'.holds = true) := by
  cases a with
  | count =>
    cases hp : x.phase <;> simp only [Execution.next, hp, reduceCtorEq] at h
    cases hj : db.job? x.job <;> simp only [hj, Option.some.injEq] at h <;> subst h <;>
      exact ⟨rfl, rfl, fun _ => rfl, fun _ _ _ => rfl⟩
  | limit =>
    cases hp : x.phase <;> simp only [Execution.next, hp, reduceCtorEq] at h
    split at h <;> rw [Option.some.injEq] at h <;> subst h <;>
      exact ⟨rfl, rfl, fun _ => rfl, fun _ _ _ => rfl⟩
  | acquire =>
    cases hp : x.phase <;> simp only [Execution.next, hp, reduceCtorEq] at h
    split at h <;> rw [Option.some.injEq] at h <;> subst h <;>
      exact ⟨rfl, rfl, fun hne => absurd rfl hne, fun _ _ _ => rfl⟩
  | read =>
    cases hp : x.phase <;> simp only [Execution.next, hp, reduceCtorEq, Option.some.injEq] at h
    obtain ⟨hj, ho, ht, hh⟩ := afterRead_frame x (db.job? x.job)
    subst h
    exact ⟨hj, ho, fun _ => ht, fun _ _ _ => hh⟩
  | finish outcome =>
    cases hp : x.phase <;> simp only [Execution.next, hp, reduceCtorEq] at h
    split at h <;> rw [Option.some.injEq] at h <;> subst h <;>
      exact ⟨rfl, rfl, fun _ => rfl, fun _ _ _ => rfl⟩
  | mark | skipMark | commit | release | leave =>
    cases hp : x.phase <;> simp only [Execution.next, hp, reduceCtorEq, Option.some.injEq] at h
    subst h
    exact ⟨rfl, rfl, fun _ => rfl, fun _ _ _ => rfl⟩
  | ack =>
    cases hp : x.phase <;> simp only [Execution.next, hp, reduceCtorEq, Option.some.injEq] at h
    subst h
    exact ⟨rfl, rfl, fun _ => rfl, fun hne => absurd rfl hne⟩
  | beat =>
    cases hb : x.heartbeat <;> simp only [Execution.next, hb, reduceCtorEq] at h
    split at h <;> rw [Option.some.injEq] at h <;> subst h
    · exact ⟨rfl, rfl, fun _ => rfl, fun _ _ hh => hh⟩
    · exact ⟨rfl, rfl, fun _ => rfl, fun _ _ hh => hh⟩
  | beatFails =>
    cases hb : x.heartbeat <;> simp only [Execution.next, hb, reduceCtorEq, Option.some.injEq] at h
    subst h
    exact ⟨rfl, rfl, fun _ => rfl, fun _ _ hh => hh⟩
  | fail =>
    obtain ⟨hj, ho, ht, hh⟩ := unwind_frame h
    exact ⟨hj, ho, fun _ => ht, fun _ _ _ => hh⟩
  | crash =>
    simp only [Execution.next] at h
    split at h
    · rw [Option.some.injEq] at h
      subst h
      exact ⟨rfl, rfl, fun _ => rfl, fun _ hne => absurd rfl hne⟩
    · cases h

end Irip.Jobs
