import Mathlib.Algebra.Group.Nat.Defs
import Irip.Jobs.Service

/-!
# `Jobs.Worker` — what a worker, a handler and the beat task write

A handler ends with an `Outcome`, which is answered by a `Commit`; handlers, the retry scan and the limiter write too.
-/

namespace Irip.Jobs

open Table (Update)

/-- Lease TTL in seconds. -/
def leaseTtlSeconds : Nat := 30

/-! ## Handlers -/

/-- The kinds `_register_handlers` installs a handler for. -/
def registeredKinds : List String :=
  ["flow_execute", "flow_resume", "model_train", "model_predict", "model_publish", "backup", "audit_export"]

/-- The kinds whose adapter calls `_mark_job_failed` before it re-raises. -/
def flowKinds : List String := ["flow_execute", "flow_resume"]

/-- The columns `execute` keeps of the row it has read. -/
structure Snapshot where
  kind : String
  attempt : Nat
  maxAttempts : Nat

/-- How a handler ends. -/
inductive Outcome where
  | returned (result : Option Json)
  | appError (error : AppError)
  | exception (message : String)

/-- `str(exc)` of a handler that raised. -/
def Outcome.error? : Outcome → Option String
  | .returned _ => none
  | .appError e => some e.message
  | .exception m => some m

/-- Which of the three commits `execute` runs, with its argument. -/
inductive Commit where
  | success (result : Option Json)
  | failure (error : AppError)
  | retry (error : String)

/-- The error of a job whose kind no handler is registered for. -/
def unknownJobKind (kind : String) : AppError :=
  { code := "unknown_job_kind", message := "未注册的作业类型: " ++ kind, retryable := false,
    fields := [("kind", .str kind)] }

/-- The error of a job that has used up its attempts. -/
def maxRetriesExceeded (maxAttempts : Nat) : AppError :=
  { code := "max_retries_exceeded", message := "已达最大重试次数: " ++ toString maxAttempts,
    retryable := false }

/-- The commit `execute` answers an outcome with: an `AppError` is final, any other exception is retried
while attempts are left. -/
def Snapshot.answer (run : Snapshot) : Outcome → Commit
  | .returned result => .success result
  | .appError e => .failure e
  | .exception m =>
    if run.attempt + 1 < run.maxAttempts then .retry m
    else .failure (maxRetriesExceeded run.maxAttempts)

/-! ## Commits -/

def commitSuccess (now : Time) (db : Db) (j : JobId) (lockVersion : Nat) (result : Option Json) : Db :=
  db.update [j] (JobRepository.updateStatus now .succeeded result none (some lockVersion))

def commitFailure (now : Time) (db : Db) (j : JobId) (lockVersion : Nat) (error : AppError) : Db :=
  db.update [j] (JobRepository.updateStatus now .failed none (some error.toDict) (some lockVersion))

/-- The UPDATE of `_commit_retry`, guarded by `lock_version` only. -/
def commitRetryStmt (now runAfter : Time) (lockVersion attempt : Nat) (error : String) : Update Job where
  cond job := job.lockVersion == lockVersion
  set job :=
    { job with
      status := .retryWait
      attempt := attempt + 1
      runAfter := some runAfter
      lastError := some (.obj [("code", .str "transient_error"), ("message", .str error)])
      updatedAt := now
      lockVersion := job.lockVersion + 1 }

/-- `_commit_retry`. The event is inserted whether or not the UPDATE found its row. -/
def commitRetry (now clock : Time) (db : Db) (j : JobId) (lockVersion attempt : Nat) (error : String) : Db :=
  let backoff := seconds (2 ^ attempt)
  (db.update [j] (commitRetryStmt now (clock + backoff) lockVersion attempt error)).enqueue
    now "job" j "job.retry_wait"
    (some (.obj [("attempt", .int (attempt + 1)),
                 ("reason", .str (String.ofList (error.toList.take 500)))]))

/-- The chosen commit, under the fencing token `lockVersion`. -/
def Commit.run (now clock : Time) (db : Db) (j : JobId) (lockVersion attempt : Nat) : Commit → Db
  | .success result => commitSuccess now db j lockVersion result
  | .failure error => commitFailure now db j lockVersion error
  | .retry error => commitRetry now clock db j lockVersion attempt error

/-! ## Handler-side writes -/

/-- The UPDATE of `_mark_job_failed`; it has no guard. -/
def markJobFailedStmt (now : Time) (error : String) : Update Job where
  cond _ := true
  set job :=
    { job with
      status := .failed
      lastError := some (.obj [("error", .str error)])
      updatedAt := now
      lockVersion := job.lockVersion + 1 }

def markJobFailed (now : Time) (db : Db) (j : JobId) (error : String) : Db :=
  db.update [j] (markJobFailedStmt now error)

/-- `status_map` of the flow engine, with its default. -/
def statusMap : String → JobStatus
  | "succeeded" => .succeeded
  | "failed" => .failed
  | "cancelled" => .cancelled
  | _ => .succeeded

/-- The UPDATE of `FlowExecutionEngine._update_job_status`: no guard, and `lock_version` stays. -/
def updateJobStatusStmt (now : Time) (status : String) : Update Job where
  cond _ := true
  set job := { job with status := statusMap status, updatedAt := now }

def updateJobStatus (now : Time) (db : Db) (j : JobId) (status : String) : Db :=
  db.update [j] (updateJobStatusStmt now status)

/-! ## Retry scan -/

/-- The SELECT of `retry_wait_jobs`: the waiting jobs that are due at `clock`. -/
def retryWaitSelect (clock : Time) (db : Db) : List JobId :=
  (List.range db.jobs.length).filter (fun j =>
    match db.job? j with
    | none => false
    | some job =>
      job.status == .retryWait &&
        match job.runAfter with
        | some t => t ≤ clock
        | none => false)

/-- The UPDATE of `retry_wait_jobs`: by key only. It leaves the lease columns alone. -/
def retryWaitStmt (now : Time) : Update Job where
  cond _ := true
  set job := { job with status := .queued, updatedAt := now, lockVersion := job.lockVersion + 1 }

/-- The UPDATE and the event of `retry_wait_jobs` for one selected job. -/
def retryWaitUpdate (now : Time) (db : Db) (j : JobId) : Db :=
  (db.update [j] (retryWaitStmt now)).enqueue now "job" j "job.requeued" none

/-! ## Concurrency limit -/

/-- The counters of `DeptConcurrencyLimiter`; a missing key counts as 0. -/
abbrev Slots := DeptId → Int

/-- `INCR` and `DECR`. -/
def Slots.add (s : Slots) (d : DeptId) (n : Int) : Slots := fun d' => if d' = d then s d + n else s d'

/-- `release`: `DECR`, but not below 0. -/
def Slots.release (s : Slots) (d : DeptId) : Slots := fun d' => if d' = d then max (s d - 1) 0 else s d'

/-- The key has expired. -/
def Slots.expire (s : Slots) (d : DeptId) : Slots := fun d' => if d' = d then 0 else s d'

end Irip.Jobs
