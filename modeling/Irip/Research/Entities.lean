import Irip.Jobs.Dispatcher
import Irip.Research.StateMachine

/-!
# `Research.Entities` — the rows of the research timeline

The tables of the timeline and the part of `outbox_event` its producers write. A row's primary key is its
position in its table, so `new_id()` is the next free position and no two rows share a key.
-/

namespace Irip.Research

open Table (Update)
open Jobs (uuidText)

abbrev UserId := Nat
abbrev DeptId := Nat
abbrev WorkspaceId := Nat
abbrev SnapshotId := Nat
abbrev TurnId := Nat
abbrev PlanId := Nat
abbrev RunId := Nat
abbrev ExtractionId := Nat
abbrev BatchId := Nat

/-! ## Rows -/

/-- A row of `research_workspace`. -/
structure Workspace where
  ownerUserId : UserId
  departmentId : DeptId

/-- A row of `research_evidence_snapshot`. -/
structure EvidenceSnapshot where
  workspaceId : WorkspaceId

/-- A row of `research_turn`. -/
structure Turn where
  workspaceId : WorkspaceId
  status : TurnStatus
  evidenceSnapshotId : SnapshotId
  idempotencyKey : String

/-- The values of `ResearchAnalysisPlanVersion.status`. -/
inductive PlanStatus where
  | draft
  | confirmed
  | superseded
deriving DecidableEq, Repr

/-- The stored text of a status. -/
def PlanStatus.value : PlanStatus → String
  | .draft => "draft"
  | .confirmed => "confirmed"
  | .superseded => "superseded"

/-- A row of `research_analysis_plan_version`. -/
structure PlanVersion where
  workspaceId : WorkspaceId
  versionNumber : Nat
  status : PlanStatus := .draft
  turnId : Option TurnId := none

/-- A row of `research_analysis_run`. -/
structure AnalysisRun where
  workspaceId : WorkspaceId
  planVersionId : PlanId
  snapshotId : SnapshotId
  runNumber : Nat
  status : RunStatus
  submittedAt : Time
  startedAt : Option Time := none
  createdBy : UserId
  turnId : Option TurnId := none
  attemptNumber : Nat := 1

/-- A row of `research_turn_result`. -/
structure TurnResult where
  turnId : TurnId
  runId : RunId

/-- A row of `research_run_artifact`. -/
structure RunArtifact where
  runId : RunId
  isPublishable : Bool

/-- A row of `research_candidate_extraction_job`. -/
structure CandidateExtractionJob where
  workspaceId : WorkspaceId
  turnId : TurnId
  runId : RunId
  status : ExtractionStatus
  attempt : Nat := 1
  createdAt : Time
  updatedAt : Time

/-- The values of `ResearchRecommendationBatch.mode`. -/
inductive BatchMode where
  | initial
  | followup
deriving DecidableEq, Repr

/-- The stored text of a mode. -/
def BatchMode.value : BatchMode → String
  | .initial => "initial"
  | .followup => "followup"

/-- A row of `research_recommendation_batch`. -/
structure RecommendationBatch where
  workspaceId : WorkspaceId
  snapshotId : SnapshotId
  mode : BatchMode
  status : BatchStatus
  attempt : Nat := 1
  idempotencyKey : String

/-! ## Events -/

/-- The research event types of `RESEARCH_EVENT_ROUTES`. -/
inductive EventType where
  | planRequested
  | recommendationRequested
  | runRequested
  | candidateExtractionRequested
deriving DecidableEq, Repr

/-- The stored text of an event type. -/
def EventType.value : EventType → String
  | .planRequested => "research.plan.requested"
  | .recommendationRequested => "research.recommendation.requested"
  | .runRequested => "research.run.requested"
  | .candidateExtractionRequested => "research.candidate_extraction.requested"

/-- The aggregate every producer of the event type names. -/
def EventType.aggregateType : EventType → String
  | .planRequested => "research_turn"
  | .recommendationRequested => "research_recommendation_batch"
  | .runRequested => "research_analysis_run"
  | .candidateExtractionRequested => "research_candidate_extraction"

/-- A research row of `outbox_event`. -/
structure OutboxEvent where
  eventType : EventType
  aggregateId : Nat
  payload : Json
  occurredAt : Time
  deliveredAt : Option Time := none

/-- The event as the dispatcher reads it. -/
def OutboxEvent.row (ev : OutboxEvent) : Jobs.OutboxEvent :=
  { aggregateType := ev.eventType.aggregateType, aggregateId := ev.aggregateId, eventType := ev.eventType.value,
    payload := some ev.payload, occurredAt := ev.occurredAt, deliveredAt := ev.deliveredAt }

/-- The dispatcher can send the event: its payload is accepted by `ResearchTaskPrincipal.from_payload`. -/
def OutboxEvent.Routable (ev : OutboxEvent) : Prop := (Jobs.route ev.row).isSome = true

instance : DecidablePred OutboxEvent.Routable := fun _ => inferInstanceAs (Decidable (_ = true))

/-- The payload with the three identities of a principal. -/
def principalPayload (actorId departmentId workspaceId : String) : Json :=
  .obj [("actor_id", .str actorId), ("department_id", .str departmentId), ("workspace_id", .str workspaceId)]

/-- `str(id) if id else ""`. -/
def idOrEmpty : Option Nat → String
  | some n => uuidText n
  | none => ""

/-- `str(id)` of an identity that may be `None`. -/
def idText : Option Nat → String
  | some n => uuidText n
  | none => "None"

/-- The tables. -/
structure Db where
  workspaces : List Workspace := []
  snapshots : List EvidenceSnapshot := []
  turns : List Turn := []
  plans : List PlanVersion := []
  runs : List AnalysisRun := []
  results : List TurnResult := []
  artifacts : List RunArtifact := []
  extractions : List CandidateExtractionJob := []
  batches : List RecommendationBatch := []
  outbox : List OutboxEvent := []

/-! ## Row access -/

namespace Db

def turnStatus? (db : Db) (t : TurnId) : Option TurnStatus := db.turns[t]?.map Turn.status

def runStatus? (db : Db) (r : RunId) : Option RunStatus := db.runs[r]?.map AnalysisRun.status

/-- `OutboxDispatcher.enqueue`, in the transaction of its caller. -/
def enqueue (now : Time) (db : Db) (aggregateId : Nat) (eventType : EventType) (payload : Json) : Db :=
  { db with outbox := db.outbox ++ [{ eventType := eventType, aggregateId := aggregateId, payload := payload,
                                      occurredAt := now }] }

/-- `UPDATE … SET status = target WHERE id = t`. -/
def setTurnStatus (db : Db) (t : TurnId) (target : TurnStatus) : Db :=
  { db with turns := Table.update db.turns [t] { cond := fun _ => true, set := fun turn => { turn with status := target } } }

/-- `UPDATE … SET status = target WHERE id = r`. -/
def setRunStatus (db : Db) (r : RunId) (target : RunStatus) : Db :=
  { db with runs := Table.update db.runs [r] { cond := fun _ => true, set := fun run => { run with status := target } } }

end Db

end Irip.Research
