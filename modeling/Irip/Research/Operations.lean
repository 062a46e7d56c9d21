import Irip.Base.Eval
import Irip.Research.Entities

/-!
# `Research.Operations` — the services of the research timeline

What each service writes, over the tables of one transaction. Where a transaction reads a row without
locking it and writes it later, its two halves are separate functions, and the system lets other
transactions commit between them.
-/

namespace Irip.Research

open Table (Update)
open Jobs (uuidText)

/-! ## Access -/

/-- The answer to a row that does not exist or belongs to another user. -/
def workspaceNotFound (key : String) (id : Nat) : AppError :=
  { code := "not_found", message := "研究工作空间不存在", fields := [(key, .str (uuidText id))] }

def requireOwnedWorkspace (db : Db) (ws : WorkspaceId) (actorId : UserId) : Except AppError Workspace :=
  match db.workspaces[ws]? with
  | some w => if w.ownerUserId = actorId then .ok w else .error (workspaceNotFound "workspace_id" ws)
  | none => .error (workspaceNotFound "workspace_id" ws)

def requireOwnedTurn (db : Db) (ws : WorkspaceId) (t : TurnId) (actorId : UserId) : Except AppError Turn := do
  let _ ← requireOwnedWorkspace db ws actorId
  match db.turns[t]? with
  | some turn => if turn.workspaceId = ws then .ok turn else .error (workspaceNotFound "turn_id" t)
  | none => .error (workspaceNotFound "turn_id" t)

/-- `UPDATE research_analysis_plan_version SET … WHERE id = p`. -/
def Db.setPlan (db : Db) (p : PlanId) (set : PlanVersion → PlanVersion) : Db :=
  { db with plans := Table.update db.plans [p] { cond := fun _ => true, set := set } }

/-! ## Turns -/

/-- `UPDATE research_turn SET status = target WHERE status IN expected`. -/
def casTurnStmt (expected : List TurnStatus) (target : TurnStatus) : Update Turn where
  cond turn := turn.status ∈ expected
  set turn := { turn with status := target }

/-- The compare-and-set of one turn, `none` when it finds no row. -/
def Db.casTurn (db : Db) (t : TurnId) (expected : List TurnStatus) (target : TurnStatus) : Option Db :=
  if Table.rowcount db.turns t (casTurnStmt expected target) = 0 then none
  else some { db with turns := Table.update db.turns [t] (casTurnStmt expected target) }

def updateTurnStatus (db : Db) (t : TurnId) (expected target : TurnStatus) : Except AppError Db :=
  match db.casTurn t [expected] target with
  | some db' => .ok db'
  | none =>
    .error { code := "state_conflict",
             message := "Turn " ++ uuidText t ++ " is not in '" ++ expected.value ++ "' status", retryable := true,
             fields := [("turn_id", .str (uuidText t)), ("expected", .str expected.value)] }

def lockTurnInputs (db : Db) (t : TurnId) : Except AppError Db :=
  match db.casTurn t [.questionDraft, .planningFailed] .planning with
  | some db' => .ok db'
  | none => .error { code := "state_conflict", message := "Turn " ++ uuidText t ++ " cannot enter planning",
                         retryable := true, fields := [("turn_id", .str (uuidText t))] }

namespace TurnService

/-- `create_analysis_turn` and `create_synthesis_turn`: a new turn is the draft of a question. -/
def createTurn (db : Db) (ws : WorkspaceId) (snapshot : SnapshotId) (actorId : UserId) (key : String) :
    Except AppError Db := do
  let _ ← requireOwnedWorkspace db ws actorId
  if (db.snapshots[snapshot]?.map EvidenceSnapshot.workspaceId) = some ws then
    if db.turns.any (fun turn => turn.workspaceId = ws && turn.idempotencyKey = key) then .ok db
    else .ok { db with turns := db.turns ++ [{ workspaceId := ws, status := .questionDraft,
                                               evidenceSnapshotId := snapshot, idempotencyKey := key }] }
  else .error { code := "not_found", message := "数据快照不存在或不属于此工作空间",
                fields := [("snapshot_id", .str (uuidText snapshot))] }

/-- `start_planning`. The statuses `can_plan` accepts are those of the compare-and-set, which decides. -/
def startPlanning (now : Time) (db : Db) (ws : WorkspaceId) (t : TurnId) (actorId : UserId) (dept : DeptId) :
    Except AppError Db := do
  let turn ← requireOwnedTurn db ws t actorId
  if TurnStateMachine.canPlan turn.status then
    let db ← lockTurnInputs db t
    .ok (db.enqueue now t .planRequested (principalPayload (uuidText actorId) (uuidText dept) (uuidText ws)))
  else .error { code := "state_conflict",
                message := "Turn in status '" ++ turn.status.value ++ "' cannot start planning", retryable := true,
                fields := [("turn_id", .str (uuidText t)), ("status", .str turn.status.value)] }

def confirmPlan (db : Db) (ws : WorkspaceId) (t : TurnId) (p : PlanId) (actorId : UserId) :
    Except AppError Db := do
  let _ ← requireOwnedTurn db ws t actorId
  match db.plans[p]? with
  | some plan =>
    if plan.turnId = some t then
      if plan.status = .draft then
        updateTurnStatus (db.setPlan p (fun plan => { plan with status := .confirmed })) t .planReview .planConfirmed
      else .error { code := "state_conflict", message := "计划状态为 '" ++ plan.status.value ++ "'，仅 draft 可确认",
                    retryable := true,
                    fields := [("plan_id", .str (uuidText p)), ("status", .str plan.status.value)] }
    else .error { code := "not_found", message := "计划不存在或不属于此轮次",
                  fields := [("plan_id", .str (uuidText p)), ("turn_id", .str (uuidText t))] }
  | none => .error { code := "not_found", message := "计划不存在或不属于此轮次",
                     fields := [("plan_id", .str (uuidText p)), ("turn_id", .str (uuidText t))] }

end TurnService

/-! ## Plans -/

namespace PlanService

/-- The answer to a plan that is not of the workspace. -/
def planNotFound (p : PlanId) : AppError :=
  { code := "not_found", message := "分析计划不存在", fields := [("plan_id", .str (uuidText p))] }

/-- The largest version number of the workspace, 0 without a plan. -/
def latestVersion (db : Db) (ws : WorkspaceId) : Nat :=
  ((db.plans.filter (fun plan => plan.workspaceId = ws)).map PlanVersion.versionNumber).foldr max 0

/-- `generate_plan`: the new version is a draft, and the confirmed ones of the workspace are superseded. -/
def generatePlan (db : Db) (ws : WorkspaceId) : Db :=
  { db with plans := db.plans.map (fun plan =>
      if plan.workspaceId = ws ∧ plan.status = .confirmed then { plan with status := .superseded } else plan)
      ++ [{ workspaceId := ws, versionNumber := latestVersion db ws + 1 }] }

/-- `confirm_plan` of the plan service, which knows no turn. -/
def confirmPlan (db : Db) (ws : WorkspaceId) (p : PlanId) : Except AppError Db :=
  match db.plans[p]? with
  | some plan =>
    if plan.workspaceId = ws then
      if plan.status = .draft then
        .ok (db.setPlan p (fun plan => { plan with status := .confirmed }))
      else .error { code := "validation_failed",
                    message := "计划状态为 '" ++ plan.status.value ++ "'，仅 draft 状态可确认",
                    fields := [("plan_id", .str (uuidText p)), ("status", .str plan.status.value)] }
    else .error (planNotFound p)
  | none => .error (planNotFound p)

/-- `revise_plan`: the old version is superseded by a new draft. -/
def revisePlan (db : Db) (ws : WorkspaceId) (p : PlanId) : Except AppError Db :=
  match db.plans[p]? with
  | some plan =>
    if plan.workspaceId = ws then
      let db := db.setPlan p (fun plan => { plan with status := .superseded })
      .ok { db with plans := db.plans ++ [{ workspaceId := ws, versionNumber := plan.versionNumber + 1 }] }
    else .error (planNotFound p)
  | none => .error (planNotFound p)

/-- The `UPDATE` that binds a generated plan to its turn. -/
def bindPlan (db : Db) (p : PlanId) (t : TurnId) : Db :=
  db.setPlan p (fun plan => { plan with turnId := some t })

end PlanService

/-- The turn has a plan version. -/
def Db.hasPlan (db : Db) (t : TurnId) : Bool := db.plans.any (fun plan => plan.turnId = some t)

/-- The confirmed plan of the turn with the largest version number. -/
def Db.confirmedPlan? (db : Db) (t : TurnId) : Option PlanId :=
  let confirmed := (List.range db.plans.length).filter (fun p =>
    (db.plans[p]?.map (fun plan => plan.turnId == some t && plan.status == .confirmed)).getD false)
  confirmed.find? (fun p => confirmed.all (fun q =>
    (db.plans[q]?.map PlanVersion.versionNumber).getD 0 ≤ (db.plans[p]?.map PlanVersion.versionNumber).getD 0))

/-! ## Runs -/

/-- `get_active_run_for_workspace`. -/
def Db.activeRun? (db : Db) (ws : WorkspaceId) : Option RunId :=
  db.runs.findIdx? (fun run => run.workspaceId = ws && run.status.isActive)

/-- `get_next_run_number`. -/
def Db.nextRunNumber (db : Db) (ws : WorkspaceId) : Nat :=
  ((db.runs.filter (fun run => run.workspaceId = ws)).map AnalysisRun.runNumber).foldr max 0 + 1

/-- The runs of a turn. -/
def Db.runsOfTurn (db : Db) (t : TurnId) : List AnalysisRun := db.runs.filter (fun run => run.turnId = some t)

/-- `SELECT count(*) … WHERE turn_id = t`, plus one. -/
def Db.nextAttempt (db : Db) (t : TurnId) : Nat := (db.runsOfTurn t).length + 1

def Db.insertRun (db : Db) (run : AnalysisRun) : Db := { db with runs := db.runs ++ [run] }

namespace AnalysisService

/-- Steps 1 and 2 of `submit_run`: the turn, read without a lock. -/
def checkTurn (db : Db) (ws : WorkspaceId) (t : TurnId) (actorId : UserId) : Except AppError Turn := do
  let turn ← requireOwnedTurn db ws t actorId
  if TurnStateMachine.canRun turn.status then .ok turn
  else .error { code := "state_conflict",
                message := "Turn in status '" ++ turn.status.value ++ "' cannot submit run; call start_planning first",
                retryable := true,
                fields := [("turn_id", .str (uuidText t)), ("status", .str turn.status.value)] }

/-- Steps 3 to 8 of `submit_run` for the turn step 1 has read. The partial unique index on active runs and the
unique pairs of turn and attempt make the counts those of the instant of the commit. -/
def submitRun (now : Time) (db : Db) (ws : WorkspaceId) (t : TurnId) (turn : Turn) (actorId : UserId)
    (dept : DeptId) : Except AppError Db :=
  match db.confirmedPlan? t with
  | none => .error { code := "state_conflict", message := "No confirmed plan for this turn; call start_planning first",
                       retryable := true, fields := [("turn_id", .str (uuidText t))] }
  | some p =>
    match db.activeRun? ws with
    | some active => .error { code := "analysis_busy", message := "Workspace has an active run", retryable := true,
                              fields := [("workspace_id", .str (uuidText ws)),
                                         ("active_run_id", .str (uuidText active))] }
    | none =>
      let run : AnalysisRun :=
        { workspaceId := ws, planVersionId := p, snapshotId := turn.evidenceSnapshotId,
          runNumber := db.nextRunNumber ws, status := .queued, submittedAt := now, createdBy := actorId,
          turnId := some t, attemptNumber := db.nextAttempt t }
      .ok (((db.insertRun run).enqueue now db.runs.length .runRequested
        (principalPayload (uuidText actorId) (uuidText dept) (uuidText ws))).setTurnStatus t .queued)

end AnalysisService

namespace AnalysisRunService

/-- `submit_run`. It names a turn at most as the owner of the run, and leaves it alone. -/
def submitRun (now : Time) (db : Db) (ws : WorkspaceId) (p : PlanId) (snapshot : SnapshotId)
    (t : Option TurnId) (actorId : UserId) (dept : DeptId) : Except AppError Db :=
  match db.plans[p]? with
  | some plan =>
    if plan.workspaceId = ws then
      if plan.status = .confirmed then
        match db.activeRun? ws with
        | some active => .error { code := "validation_failed",
                                  message := "工作空间已有活跃 Run，请等待完成或取消后再提交",
                                  fields := [("workspace_id", .str (uuidText ws)),
                                             ("active_run_id", .str (uuidText active))] }
        | none =>
          let run : AnalysisRun :=
            { workspaceId := ws, planVersionId := p, snapshotId := snapshot, runNumber := db.nextRunNumber ws,
              status := .queued, submittedAt := now, createdBy := actorId, turnId := t,
              attemptNumber := (t.map db.nextAttempt).getD 1 }
          .ok ((db.insertRun run).enqueue now db.runs.length .runRequested
            (principalPayload (uuidText actorId) (uuidText dept) (uuidText ws)))
      else .error { code := "validation_failed",
                    message := "计划状态为 '" ++ plan.status.value ++ "'，仅 confirmed 计划可提交 Run",
                    fields := [("plan_id", .str (uuidText p)), ("status", .str plan.status.value)] }
    else .error (PlanService.planNotFound p)
  | none => .error (PlanService.planNotFound p)

/-- The check of `cancel_run`: the run, read without a lock. -/
def checkCancel (db : Db) (r : RunId) : Except AppError Unit :=
  match db.runs[r]? with
  | some run =>
    if run.status ∈ [RunStatus.queued, .planning, .running] then .ok ()
    else .error { code := "validation_failed", message := "Run 状态为 '" ++ run.status.value ++ "'，仅活跃状态可取消",
                  fields := [("run_id", .str (uuidText r)), ("status", .str run.status.value)] }
  | none => .error { code := "not_found", message := "分析 Run 不存在", fields := [("run_id", .str (uuidText r))] }

/-- The writes of `cancel_run`: the status by primary key, and the artifacts of the run. -/
def cancelRun (db : Db) (r : RunId) : Db :=
  { db.setRunStatus r .cancelled with
    artifacts := db.artifacts.map (fun a => if a.runId = r then { a with isPublishable := false } else a) }

end AnalysisRunService

/-- The compare-and-set with which `execute_analysis_run` claims its run. -/
def claimStmt (now : Time) : Update AnalysisRun where
  cond run := run.status == .queued
  set run := { run with status := .running, startedAt := some now }

/-- The transaction of `analyze_data` once the model has answered: a run of its own that has succeeded already,
with the data and chart blocks of the answer as publishable artifacts. -/
def PlanService.analyzeData (now : Time) (db : Db) (ws : WorkspaceId) (p : PlanId) (snapshot : SnapshotId)
    (actorId : UserId) (t : Option TurnId) (blocks : Nat) : Db :=
  let run : AnalysisRun :=
    { workspaceId := ws, planVersionId := p, snapshotId := snapshot, runNumber := db.nextRunNumber ws,
      status := .succeeded, submittedAt := now, createdBy := actorId, turnId := t,
      attemptNumber := (t.map db.nextAttempt).getD 1 }
  { db.insertRun run with
    artifacts := db.artifacts ++ List.replicate blocks { runId := db.runs.length, isPublishable := true } }

namespace TimelineRunFinalizer

/-- `turn.status not in ("succeeded", "run_failed")`, for the status `complete` or `fail` has read. -/
def writesTurn (seen : Option TurnStatus) : Bool :=
  match seen with
  | some s => !(s ∈ [TurnStatus.succeeded, .runFailed])
  | none => false

/-- The payload of the extraction event. -/
def payload (actorId departmentId : Option Nat) (ws : WorkspaceId) : Json :=
  principalPayload (idOrEmpty actorId) (idText departmentId) (uuidText ws)

/-- The database refuses the result row `complete` has to insert: a turn has one result at most, and the turn
has to exist. -/
def resultRefused (db : Db) (r : RunId) (t : TurnId) : Bool :=
  !(db.results.any (fun x => x.runId = r)) && (db.results.any (fun x => x.turnId = t) || db.turns[t]?.isNone)

/-- The result row, unless the run has one. -/
def insertResult (db : Db) (r : RunId) (t : TurnId) : Db :=
  if db.results.any (fun x => x.runId = r) then db
  else { db with results := db.results ++ [{ turnId := t, runId := r }] }

/-- The extraction job of the run, inserted unless there is one, and its key. -/
def extractionJob (now : Time) (db : Db) (r : RunId) (t : TurnId) (ws : WorkspaceId) : ExtractionId × Db :=
  match db.extractions.findIdx? (fun job => job.runId = r) with
  | some j => (j, db)
  | none =>
    (db.extractions.length,
     { db with extractions := db.extractions ++ [{ workspaceId := ws, turnId := t, runId := r, status := .queued,
                                                   createdAt := now, updatedAt := now }] })

/-- The writes of `complete` for a run it has found `queued` or `running` and a turn it has found `seenTurn`;
`none` when the database refuses the result row, which for a run without a turn it always does. -/
def complete (now : Time) (db : Db) (actorId departmentId : Option Nat) (r : RunId) (ws : WorkspaceId)
    (t : Option TurnId) (seenTurn : Option TurnStatus) : Option Db :=
  match t with
  | none => none
  | some t =>
    if resultRefused db r t then none
    else
      let db := insertResult (db.setRunStatus r .succeeded) r t
      let db := if writesTurn seenTurn then db.setTurnStatus t .succeeded else db
      let (j, db) := extractionJob now db r t ws
      some (db.enqueue now j .candidateExtractionRequested (payload actorId departmentId ws))

/-- `run and run.status not in ("succeeded", "failed")`, for the status `fail` has read. -/
def failsRun (seen : Option RunStatus) : Bool :=
  match seen with
  | some s => !(s ∈ [RunStatus.succeeded, .failed])
  | none => false

/-- The writes of `fail` for what it has read of the run and of the turn. -/
def fail (db : Db) (r : RunId) (t : Option TurnId) (seenRun : Option RunStatus) (seenTurn : Option TurnStatus) : Db :=
  let db := if failsRun seenRun then db.setRunStatus r .failed else db
  match t with
  | some t => if writesTurn seenTurn then db.setTurnStatus t .runFailed else db
  | none => db

end TimelineRunFinalizer

/-- `complete_run_for_turn`, in the transaction of its caller. It finds the turn `running` or raises. -/
def completeRunForTurn (now : Time) (db : Db) (r : RunId) (runStatus : RunStatus) : Except AppError Db :=
  match db.runs[r]? with
  | none => .ok db
  | some run =>
    match run.turnId with
    | none => .ok db
    | some t =>
      if runStatus ∈ [RunStatus.succeeded, .partiallySucceeded] then
        updateTurnStatus
          { db with results := db.results ++ [{ turnId := t, runId := r }],
                    extractions := db.extractions ++ [{ workspaceId := run.workspaceId, turnId := t, runId := r,
                                                        status := .queued, createdAt := now, updatedAt := now }] }
          t .running .succeeded
      else if runStatus = .failed then updateTurnStatus db t .running .runFailed
      else if runStatus = .cancelled then updateTurnStatus db t .running .cancelled
      else .ok db

/-! ## Work items -/

/-- `get_batch_by_idempotency`. -/
def Db.batchByKey? (db : Db) (ws : WorkspaceId) (key : String) : Option BatchId :=
  db.batches.findIdx? (fun b => b.workspaceId = ws && b.idempotencyKey = key)

def Db.insertBatch (db : Db) (ws : WorkspaceId) (snapshot : SnapshotId) (mode : BatchMode) (key : String) : Db :=
  { db with batches := db.batches ++ [{ workspaceId := ws, snapshotId := snapshot, mode := mode, status := .queued,
                                        idempotencyKey := key }] }

/-- The payload of a recommendation event. -/
def batchPayload (b : BatchId) (mode : BatchMode) (actorId departmentId workspaceId : String) : Json :=
  .obj [("batch_id", .str (uuidText b)), ("mode", .str mode.value), ("actor_id", .str actorId),
        ("department_id", .str departmentId), ("workspace_id", .str workspaceId)]

/-- `freeze_snapshot` from the insertion of the snapshot on. -/
def EvidenceSnapshotService.freezeSnapshot (now : Time) (db : Db) (ws : WorkspaceId) (actorId : UserId)
    (dept : DeptId) : Except AppError Db := do
  let _ ← requireOwnedWorkspace db ws actorId
  let snapshot := db.snapshots.length
  let db : Db := { db with snapshots := db.snapshots ++ [{ workspaceId := ws }] }
  let key := "initial:" ++ uuidText snapshot
  match db.batchByKey? ws key with
  | some _ => .ok db
  | none =>
    .ok ((db.insertBatch ws snapshot .initial key).enqueue now db.batches.length .recommendationRequested
      (batchPayload db.batches.length .initial (uuidText actorId) (uuidText dept) (uuidText ws)))

namespace RecommendationService

def requestFollowup (db : Db) (ws : WorkspaceId) (snapshot : SnapshotId) (key : String) : Db :=
  match db.batchByKey? ws key with
  | some _ => db
  | none => db.insertBatch ws snapshot .followup key

/-- The compare-and-set of `update_batch_status`. -/
def casBatchStmt (expected target : BatchStatus) (retry : Bool) : Update RecommendationBatch where
  cond b := b.status == expected
  set b := { b with status := target, attempt := if retry then b.attempt + 1 else b.attempt }

def retryBatch (now : Time) (db : Db) (actorId departmentId : Option Nat) (b : BatchId) : Except AppError Db :=
  match db.batches[b]? with
  | none => .error { code := "not_found", message := "Recommendation batch not found",
                     fields := [("batch_id", .str (uuidText b))] }
  | some batch =>
    if RecommendationBatchStateMachine.canRetry batch.status then
      let db : Db := { db with batches := Table.update db.batches [b] (casBatchStmt .failed .queued true) }
      .ok (db.enqueue now b .recommendationRequested
        (batchPayload b batch.mode (idOrEmpty actorId) (idOrEmpty departmentId) (uuidText batch.workspaceId)))
    else .error { code := "state_conflict", message := "Batch in status '" ++ batch.status.value ++ "' cannot be retried",
                  retryable := true, fields := [("batch_id", .str (uuidText b))] }

/-- The transaction of `execute_batch` for a batch it finds `queued`, by what the model's answers come to. -/
def executeBatch (db : Db) (b : BatchId) (ok : Bool) : Db :=
  { db with batches := Table.update db.batches [b] (casBatchStmt .queued (if ok then .succeeded else .failed) false) }

end RecommendationService

/-- The compare-and-set of `update_extraction_status`. -/
def casExtractionStmt (now : Time) (expected target : ExtractionStatus) (retry : Bool) :
    Update CandidateExtractionJob where
  cond job := job.status == expected
  set job := { job with status := target, updatedAt := now, attempt := if retry then job.attempt + 1 else job.attempt }

def Db.casExtraction (now : Time) (db : Db) (j : ExtractionId) (expected target : ExtractionStatus)
    (retry : Bool) : Db :=
  { db with extractions := Table.update db.extractions [j] (casExtractionStmt now expected target retry) }

def CandidateExtractionService.retry (now : Time) (db : Db) (j : ExtractionId) : Except AppError Db :=
  match db.extractions[j]? with
  | none => .error { code := "not_found", message := "Extraction job not found",
                     fields := [("extraction_id", .str (uuidText j))] }
  | some job =>
    if ExtractionStateMachine.canRetry job.status then .ok (db.casExtraction now j job.status .queued true)
    else .error { code := "state_conflict", message := "Extraction in '" ++ job.status.value ++ "' cannot retry",
                  retryable := true }

/-- The writes of `extract_insight` for the run its SELECTs have answered: the artifacts it rebuilds where there
are none, and a finished extraction job. A second job of the run aborts the transaction. -/
def PlanService.extractInsight (now : Time) (db : Db) (r : RunId) (blocks : Nat) : Db :=
  match db.runs[r]? with
  | none => db
  | some run =>
    let artifacts :=
      if db.artifacts.any (fun a => a.runId = r) then db.artifacts
      else db.artifacts ++ List.replicate blocks { runId := r, isPublishable := true }
    match run.turnId with
    | none => { db with artifacts := artifacts }
    | some t =>
      if db.extractions.any (fun job => job.runId = r) then db
      else { db with
        artifacts := artifacts,
        extractions := db.extractions ++ [{ workspaceId := run.workspaceId, turnId := t, runId := r,
                                            status := .succeeded, createdAt := now, updatedAt := now }] }

/-! ## Reconciler -/

/-- `timedelta(minutes=10)`. -/
def staleAfter : Time := seconds 600

namespace Reconciler

/-- The SELECT of the runs, for a pass whose clock reads `clock`. -/
def staleRun (clock : Time) (run : AnalysisRun) : Bool :=
  run.status.isPending && decide (run.submittedAt < clock - staleAfter)

/-- The SELECT of the extraction jobs. -/
def staleExtraction (clock : Time) (job : CandidateExtractionJob) : Bool :=
  (job.status == .queued || job.status == .running) && decide (job.createdAt < clock - staleAfter)

/-- `LIMIT 100`. -/
def limit : Nat := 100

/-- A selected run that is `running` is failed. -/
def failRunStmt : Update AnalysisRun where
  cond run := run.status == .running
  set run := { run with status := .failed }

/-- A selected job that is `running` is failed. -/
def failExtractionStmt : Update CandidateExtractionJob where
  cond job := job.status == .running
  set job := { job with status := .failed }

/-- The event that requeues a selected run. -/
def requeueRun (now : Time) (r : RunId) (run : AnalysisRun) : OutboxEvent :=
  { eventType := .runRequested, aggregateId := r, occurredAt := now,
    payload := principalPayload (uuidText run.createdBy) "" (uuidText run.workspaceId) }

/-- The event that requeues a selected job. -/
def requeueExtraction (now : Time) (j : ExtractionId) (job : CandidateExtractionJob) : OutboxEvent :=
  { eventType := .candidateExtractionRequested, aggregateId := j, occurredAt := now,
    payload := principalPayload "" "" (uuidText job.workspaceId) }

/-- The events of the selected rows that are `queued`. -/
def requeued (now : Time) (db : Db) (rs : List RunId) (js : List ExtractionId) : List OutboxEvent :=
  rs.filterMap (fun r => db.runs[r]?.bind (fun run =>
    if run.status = .queued then some (requeueRun now r run) else none)) ++
  js.filterMap (fun j => db.extractions[j]?.bind (fun job =>
    if job.status = .queued then some (requeueExtraction now j job) else none))

/-- `reconcile_timeline` for the runs and jobs its SELECTs have answered. -/
def reconcile (now : Time) (db : Db) (rs : List RunId) (js : List ExtractionId) : Db :=
  { db with runs := Table.update db.runs rs failRunStmt
            extractions := Table.update db.extractions js failExtractionStmt
            outbox := db.outbox ++ requeued now db rs js }

end Reconciler

end Irip.Research
