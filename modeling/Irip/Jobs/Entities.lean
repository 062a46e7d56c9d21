import Irip.Common

/-!
# `Jobs.Entities` — the rows of the job system

The tables `job` and `outbox_event` and the enumeration of the status column. A row's primary key is its
position in its table, so `new_id()` is the next free position and no two rows share a key.
-/

namespace Irip.Jobs

abbrev JobId := Nat
abbrev DeptId := Nat
abbrev UserId := Nat

/-! ## Status -/

/-- The values of the status column. -/
inductive JobStatus where
  | accepted
  | queued
  | running
  | retryWait
  | succeeded
  | failed
  | cancelRequested
  | cancelled
deriving DecidableEq, Repr

/-- The stored text of a status. -/
def JobStatus.value : JobStatus → String
  | .accepted => "accepted"
  | .queued => "queued"
  | .running => "running"
  | .retryWait => "retry_wait"
  | .succeeded => "succeeded"
  | .failed => "failed"
  | .cancelRequested => "cancel_requested"
  | .cancelled => "cancelled"

def terminalStatuses : List JobStatus := [.succeeded, .failed, .cancelled]

def leaseableStatuses : List JobStatus := [.accepted, .queued, .retryWait]

/-- The status is one of `TERMINAL_STATUSES`. -/
def JobStatus.IsTerminal (s : JobStatus) : Prop := s ∈ terminalStatuses

/-- The status is one of `LEASEABLE_STATUSES`. -/
def JobStatus.IsLeaseable (s : JobStatus) : Prop := s ∈ leaseableStatuses

instance : DecidablePred JobStatus.IsTerminal := fun s => inferInstanceAs (Decidable (s ∈ terminalStatuses))

instance : DecidablePred JobStatus.IsLeaseable := fun s => inferInstanceAs (Decidable (s ∈ leaseableStatuses))

@[simp] theorem isTerminal_iff {s : JobStatus} :
    s.IsTerminal ↔ s = .succeeded ∨ s = .failed ∨ s = .cancelled := by
  simp [JobStatus.IsTerminal, terminalStatuses]

@[simp] theorem isLeaseable_iff {s : JobStatus} :
    s.IsLeaseable ↔ s = .accepted ∨ s = .queued ∨ s = .retryWait := by
  simp [JobStatus.IsLeaseable, leaseableStatuses]

/-! ## Rows -/

/-- A row of the table `job`. -/
structure Job where
  departmentId : DeptId
  kind : String
  status : JobStatus
  payload : Option Json
  idempotencyKey : String
  attempt : Nat
  maxAttempts : Nat
  runAfter : Option Time
  leaseOwner : Option String
  leaseExpiresAt : Option Time
  result : Option Json
  lastError : Option Json
  createdBy : UserId
  createdAt : Time
  updatedAt : Time
  lockVersion : Nat

/-- A row of the table `outbox_event`. -/
structure OutboxEvent where
  aggregateType : String
  aggregateId : JobId
  eventType : String
  payload : Option Json := none
  occurredAt : Time
  deliveredAt : Option Time := none

/-- The two tables. -/
structure Db where
  jobs : List Job
  outbox : List OutboxEvent

/-- What the job service hands back to its callers. -/
structure JobRef where
  jobId : JobId
  status : JobStatus
  kind : String
  stage : String := ""
  progress : Nat := 0
  retryable : Bool := false

/-! ## Row access -/

/-- The job with this key. -/
def Db.job? (db : Db) (j : JobId) : Option Job := db.jobs[j]?

/-- The status of the job with this key. -/
def Db.status? (db : Db) (j : JobId) : Option JobStatus := (db.job? j).map Job.status

end Irip.Jobs
