import Irip.Base.Table
import Irip.Jobs.Entities

/-!
# `Jobs.Service` — the statements on jobs, accepting a job and requesting its cancellation

`JobRepository` and `OutboxDispatcher.enqueue`, one definition for each method, under the names of the
source. A method that runs an UPDATE is given by the statement itself (an `Update`: its WHERE clause and
its SET list) and by what the statement does to the tables. `now` is the database's `now()`.

A comparison with NULL is not true, so a WHERE clause over a nullable column fails on `none`.

`JobService.accept` runs in one transaction. `JobService.request_cancel` reads the row first and updates
it later under the version it has read, so it is given in two parts: other transactions commit between
them.
-/

namespace Irip.Jobs

open Table (Update)

/-! ## Tables -/

/-- Run an UPDATE on the jobs with these keys. -/
def Db.update (db : Db) (js : List JobId) (u : Update Job) : Db :=
  { db with jobs := Table.update db.jobs js u }

/-- `rowcount > 0` for an UPDATE on one job. -/
def Db.matched (db : Db) (j : JobId) (u : Update Job) : Bool := 0 < Table.rowcount db.jobs j u

/-- INSERT a job; its key is the next position. -/
def Db.insertJob (db : Db) (job : Job) : Db := { db with jobs := db.jobs ++ [job] }

/-- `OutboxDispatcher.enqueue`: INSERT an undelivered event. -/
def Db.enqueue (db : Db) (now : Time) (aggregateType : String) (aggregateId : JobId) (eventType : String)
    (payload : Option Json) : Db :=
  { db with outbox := db.outbox ++
      [{ aggregateType := aggregateType, aggregateId := aggregateId, eventType := eventType,
         payload := payload, occurredAt := now }] }

@[simp] theorem job?_update (db : Db) (js : List JobId) (u : Update Job) (j : JobId) :
    (db.update js u).job? j = (db.job? j).map (fun job => if j ∈ js then u.apply job else job) :=
  Table.getElem?_update db.jobs js u j

@[simp] theorem job?_enqueue (db : Db) (now : Time) (ty : String) (i : JobId) (ev : String)
    (p : Option Json) (j : JobId) : (db.enqueue now ty i ev p).job? j = db.job? j := rfl

theorem job?_insertJob_of_some {db : Db} {job new : Job} {j : JobId} (h : db.job? j = some job) :
    (db.insertJob new).job? j = some job := by
  have hlt : j < db.jobs.length := (List.getElem?_eq_some_iff.mp h).1
  simp only [Db.job?, Db.insertJob] at h ⊢
  rw [List.getElem?_append_left hlt, h]

theorem matched_iff {db : Db} {j : JobId} {u : Update Job} :
    db.matched j u = true ↔ ∃ job, db.job? j = some job ∧ u.cond job = true := by
  simp only [Db.matched, decide_eq_true_eq, Table.rowcount_pos_iff]
  rfl

theorem update_of_not_matched {db : Db} {j : JobId} {u : Update Job} (h : db.matched j u = false) :
    db.update [j] u = db := by
  have hz : Table.rowcount db.jobs j u = 0 := by simpa [Db.matched] using h
  simp only [Db.update, Table.update_of_rowcount_zero hz]

namespace JobRepository

/-! ## Queries -/

/-- The first job with this department and idempotency key. -/
def getByIdempotencyDept (db : Db) (departmentId : DeptId) (idempotencyKey : String) : Option JobId :=
  db.jobs.findIdx? (fun job => job.departmentId == departmentId && job.idempotencyKey == idempotencyKey)

/-! ## Updates -/

/-- `update_status`: bumps `lock_version`; guarded by the expected version when one is given, and by a
non-terminal status when the target is terminal. -/
def updateStatus (now : Time) (status : JobStatus) (result lastError : Option Json)
    (expectedLockVersion : Option Nat) : Update Job where
  cond job :=
    (match expectedLockVersion with
      | some v => job.lockVersion == v
      | none => true)
    && (if status.IsTerminal then !decide job.status.IsTerminal else true)
  set job :=
    { job with
      status := status
      updatedAt := now
      lockVersion := job.lockVersion + 1
      result := result.or job.result
      lastError := lastError.or job.lastError }

/-- `lease_owner IS NULL OR lease_expires_at < now`. -/
def leaseAvailable (now : Time) (job : Job) : Bool :=
  job.leaseOwner.isNone ||
    match job.leaseExpiresAt with
    | some t => t < now
    | none => false

/-- `acquire_lease_with_fencing`. It does not read `run_after`. -/
def acquireLeaseWithFencing (now : Time) (owner : String) (expiresAt : Time) : Update Job where
  cond job := decide job.status.IsLeaseable && leaseAvailable now job
  set job :=
    { job with
      leaseOwner := some owner
      leaseExpiresAt := some expiresAt
      status := .running
      updatedAt := now
      lockVersion := job.lockVersion + 1 }

/-- The fencing token the RETURNING clause yields: the version after the update. -/
def fencingToken (db : Db) (j : JobId) (u : Update Job) : Option Nat :=
  match db.job? j with
  | some job => if u.cond job then some (u.set job).lockVersion else none
  | none => none

/-- `renew_lease`, keyed by the owner. -/
def renewLease (now : Time) (owner : String) (newExpiresAt : Time) : Update Job where
  cond job := job.leaseOwner == some owner
  set job := { job with leaseExpiresAt := some newExpiresAt, updatedAt := now }

/-- `release_lease`, keyed by the owner. -/
def releaseLease (now : Time) (owner : String) : Update Job where
  cond job := job.leaseOwner == some owner
  set job := { job with leaseOwner := none, leaseExpiresAt := none, updatedAt := now }

/-- The SELECT of `reap_and_redeliver`: the running jobs whose lease has expired at `clock`. -/
def expiredJobs (clock : Time) (db : Db) : List JobId :=
  (List.range db.jobs.length).filter (fun j =>
    match db.job? j with
    | none => false
    | some job =>
      job.status == .running &&
        match job.leaseExpiresAt with
        | some t => t < clock
        | none => false)

/-- The UPDATE of `reap_and_redeliver`. -/
def reapUpdate (now : Time) : Update Job where
  cond job := job.status == .running
  set job :=
    { job with
      status := .queued
      leaseOwner := none
      leaseExpiresAt := none
      updatedAt := now
      lockVersion := job.lockVersion + 1 }

/-- One `job.requeued` event without payload for each of `js`. -/
def enqueueRequeued (now : Time) (db : Db) (js : List JobId) : Db :=
  js.foldl (fun db j => db.enqueue now "job" j "job.requeued" none) db

/-- The UPDATE of `reap_and_redeliver` on the selected jobs and an event for each of them, whether or not
the UPDATE found it. -/
def reapAndRedeliver (now : Time) (db : Db) (js : List JobId) : Db :=
  enqueueRequeued now (db.update js (reapUpdate now)) js

end JobRepository

end Irip.Jobs

namespace Irip.Jobs.JobService

open Table (Update)

/-! ## Accept -/

/-- The row `accept` inserts. -/
def newJob (now : Time) (departmentId : DeptId) (createdBy : UserId) (kind : String) (payload : Json)
    (idempotencyKey : String) : Job :=
  { departmentId := departmentId, kind := kind, status := .accepted, payload := some payload,
    idempotencyKey := idempotencyKey, attempt := 0, maxAttempts := 3, runAfter := none,
    leaseOwner := none, leaseExpiresAt := none, result := none, lastError := none,
    createdBy := createdBy, createdAt := now, updatedAt := now, lockVersion := 0 }

/-- `accept`: a known idempotency key answers with the job it names; otherwise the job and its event are
inserted together. The lookup and the insert act as one step: of calls with one key that overlap the
model knows nothing. -/
def accept (now : Time) (db : Db) (departmentId : DeptId) (createdBy : UserId) (kind : String)
    (payload : Json) (idempotencyKey : String) : Except AppError (JobRef × Db) :=
  if isBlank kind then
    .error { code := "validation_failed", message := "作业类型不能为空", retryable := false,
             fields := [("kind", .str "required")] }
  else
    match JobRepository.getByIdempotencyDept db departmentId idempotencyKey with
    | some j =>
      match db.job? j with
      | some existing => .ok ({ jobId := j, status := existing.status, kind := existing.kind }, db)
      | none => .ok ({ jobId := j, status := .accepted, kind := kind }, db)
    | none =>
      let j := db.jobs.length
      let db := db.insertJob (newJob now departmentId createdBy kind payload idempotencyKey)
      let db := db.enqueue now "job" j "job.accepted"
        (some (.obj [("job_id", .str (toString j)), ("kind", .str kind)]))
      .ok ({ jobId := j, status := .accepted, kind := kind }, db)

/-! ## Cancel -/

/-- The SELECT of `request_cancel` and the checks on what it returns. -/
def requestCancelCheck (db : Db) (j : JobId) : Except AppError Job :=
  match db.job? j with
  | none =>
    .error { code := "not_found", message := "作业不存在: " ++ toString j, retryable := false,
             fields := [("job_id", .str (toString j))] }
  | some job =>
    if job.status.IsTerminal then
      .error { code := "conflict", message := "作业已处于终态: " ++ job.status.value, retryable := false,
               fields := [("status", .str job.status.value)] }
    else .ok job

/-- The UPDATE of `request_cancel`, guarded by the version the SELECT has read and by nothing else. -/
def requestCancelStmt (now : Time) (lockVersion : Nat) : Update Job where
  cond job := job.lockVersion == lockVersion
  set job :=
    { job with status := .cancelRequested, updatedAt := now, lockVersion := job.lockVersion + 1 }

/-- The UPDATE and the event of `request_cancel` for the row `seen` by its SELECT. -/
def requestCancelUpdate (now : Time) (db : Db) (j : JobId) (seen : Job) (actorId : UserId) :
    Except AppError (JobRef × Db) :=
  let stmt := requestCancelStmt now seen.lockVersion
  if db.matched j stmt then
    let db := (db.update [j] stmt).enqueue now "job" j "job.cancel_requested"
      (some (.obj [("job_id", .str (toString j)), ("actor_id", .str (toString actorId))]))
    .ok ({ jobId := j, status := .cancelRequested, kind := seen.kind }, db)
  else
    .error { code := "conflict", message := "作业状态已被其他请求修改，请重试", retryable := true,
             fields := [("lock_version", .int seen.lockVersion)] }

end Irip.Jobs.JobService
