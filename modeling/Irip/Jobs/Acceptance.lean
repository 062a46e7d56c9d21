import Irip.Jobs.System

/-!
# `Jobs.Acceptance` — the outbox announces what was accepted

The row of a job and its event are inserted together, so that the outbox announces every job that was accepted, and
announces it once. What the job was accepted with is never written again.
-/

namespace Irip.Jobs

open Table (Update)
open Runs

variable {db : Db} {now clock : Time}

/-! ## Rows -/

/-- What a job is accepted with. -/
def Job.accepted (job : Job) : DeptId × UserId × String × Option Json × String × Nat × Time :=
  (job.departmentId, job.createdBy, job.kind, job.payload, job.idempotencyKey, job.maxAttempts, job.createdAt)

/-- The job an event announces. -/
def OutboxEvent.announces (ev : OutboxEvent) : Option JobId :=
  if ev.eventType = "job.accepted" then some ev.aggregateId else none

/-- The jobs the outbox announces, in the order of their events. -/
def Db.announced (db : Db) : List JobId := db.outbox.filterMap OutboxEvent.announces

/-! ## Transactions -/

/-- The acceptances and their announcements are those of before. -/
structure Retains (db db' : Db) : Prop where
  accepted : db'.jobs.map Job.accepted = db.jobs.map Job.accepted
  announced : db'.announced = db.announced

/-- A job is inserted, with its event. -/
structure Inserts (db db' : Db) (new : Job) : Prop where
  accepted : db'.jobs.map Job.accepted = db.jobs.map Job.accepted ++ [new.accepted]
  announced : db'.announced = db.announced ++ [db.jobs.length]

theorem Retains.enqueue {db' : Db} (h : Retains db db') {ty : String} (hty : ty ≠ "job.accepted") (j : JobId)
    (payload : Option Json) : Retains db (db'.enqueue now "job" j ty payload) := by
  refine ⟨h.accepted, ?_⟩
  have hnone : ∀ ev : OutboxEvent, ev.eventType = ty → ev.announces = none := fun ev hev => if_neg (hev ▸ hty)
  show (db'.outbox ++ [_]).filterMap OutboxEvent.announces = _
  rw [List.filterMap_append, List.filterMap_cons_none (hnone _ rfl), List.filterMap_nil, List.append_nil]
  exact h.announced

theorem Retains.enqueueRequeued {db' : Db} (h : Retains db db') (js : List JobId) :
    Retains db (JobRepository.enqueueRequeued now db' js) := by
  unfold JobRepository.enqueueRequeued
  induction js generalizing db' with
  | nil => exact h
  | cons j js ih => exact ih (h.enqueue (by simp) j none)

end Irip.Jobs
