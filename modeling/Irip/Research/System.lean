import Irip.Research.Operations

/-!
# `Research.System` — the research timeline as a transition system

Users, the outbox dispatcher, any number of workers, the beat tasks and the legacy orchestrator interleave. A
step is one transaction, or the reads with which a longer one begins: `submit_run` and `cancel_run` read a row
without a lock and write by primary key later, and the finalizer reads the run, flushes its update, reads the
turn and commits. Between these steps every other party may commit. A flushed update holds the row of its run,
and nobody else writes that row until the commit.

A message is acknowledged late: an execution holds it until its task has ended, and a crash of the worker puts
it back into the broker. `now` is the clock of the database; a pass of the reconciler reads a clock of its own.
-/

namespace Irip.Research

open Table (Update)
open Runs

/-! ## Parties -/

/-- A task message: the task of an event type with the identities of its principal. -/
structure Message where
  eventType : EventType
  aggregateId : Nat
  actorId : Option Nat
  departmentId : Option Nat
  workspaceId : Option Nat

/-- `UUID(kwarg) if kwarg else None`. -/
def taskId (task : Jobs.Task) (key : String) : Option Nat := (task.kwargs.lookup key).bind Jobs.parseUuid

/-- The message the dispatcher sends for an event, `none` when it cannot send it. -/
def OutboxEvent.message? (ev : OutboxEvent) : Option Message :=
  (Jobs.route ev.row).map (fun task =>
    { eventType := ev.eventType, aggregateId := ev.aggregateId, actorId := taskId task "actor_id",
      departmentId := taskId task "department_id", workspaceId := taskId task "workspace_id" })

/-- A `submit_run` between its read of the turn and its commit. -/
structure Submit where
  workspaceId : WorkspaceId
  turnId : TurnId
  turn : Turn -- the row as it was read
  actorId : UserId
  departmentId : DeptId

/-- Where an execution of `execute_analysis_run` is. -/
inductive Phase where
  | analyzing -- claimed, before `analyze_data` commits
  | completing -- before `complete` reads the run
  | completeRead -- it was `queued` or `running`
  | completeFlushed (seenTurn : Option TurnStatus) -- the run's row is held
  | failing -- before `fail` reads the run
  | failRead (seenRun : Option RunStatus)
  | failFlushed (seenRun : Option RunStatus) (seenTurn : Option TurnStatus)
  | done
deriving DecidableEq

/-- An execution of `execute_analysis_run` that has claimed its run. -/
structure Execution where
  run : RunId
  turnId : Option TurnId
  workspaceId : WorkspaceId
  planVersionId : PlanId
  snapshotId : SnapshotId
  message : Message
  phase : Phase := .analyzing

/-- The execution holds the row of its run. -/
def Execution.holds (x : Execution) : Bool :=
  match x.phase with
  | .completeFlushed _ => true
  | .failFlushed seenRun _ => TimelineRunFinalizer.failsRun seenRun
  | _ => false

/-- An execution of `generate_plan` after its first session. -/
structure Planning where
  turnId : TurnId
  workspaceId : WorkspaceId
  message : Message
  plan : Option PlanId := none

/-- An execution of `extract_candidates` that has claimed its job. -/
structure Extracting where
  job : ExtractionId
  turnId : TurnId
  message : Message

/-- The state of the research timeline. -/
structure Sys where
  db : Db := {}
  now : Time := 0
  broker : List Message := [] -- the messages no execution holds
  submits : List Submit := []
  cancels : List RunId := [] -- `cancel_run` between its read and its update
  execs : List Execution := [] -- only ever appended to
  plannings : List Planning := []
  extractings : List Extracting := []
  legacies : List RunId := [] -- the runs `ResearchOrchestrator.execute_run` is at work on

/-- An open transaction holds the row of the run. -/
def Sys.locked (s : Sys) (r : RunId) : Bool := s.execs.any (fun x => x.run == r && x.holds)

/-! ## Transactions -/

/-- The calls of the API that are one transaction and decide nothing on a stale read. -/
inductive Request where
  | createWorkspace (owner : UserId) (dept : DeptId)
  | freezeSnapshot (ws : WorkspaceId) (actorId : UserId) (dept : DeptId)
  | createTurn (ws : WorkspaceId) (snapshot : SnapshotId) (actorId : UserId) (key : String)
  | startPlanning (ws : WorkspaceId) (t : TurnId) (actorId : UserId) (dept : DeptId)
  | confirmPlan (ws : WorkspaceId) (t : TurnId) (p : PlanId) (actorId : UserId)
  | generatePlanVersion (ws : WorkspaceId)
  | confirmPlanVersion (ws : WorkspaceId) (p : PlanId)
  | revisePlan (ws : WorkspaceId) (p : PlanId)
  | submitRun (ws : WorkspaceId) (p : PlanId) (snapshot : SnapshotId) (t : Option TurnId) (actorId : UserId)
      (dept : DeptId)
  | requestFollowup (ws : WorkspaceId) (snapshot : SnapshotId) (key : String)
  | retryBatch (actorId departmentId : Option Nat) (b : BatchId)
  | retryExtraction (j : ExtractionId)
  | completeRunForTurn (r : RunId) (runStatus : RunStatus)

/-- The tables after the call. -/
def Request.run (now : Time) (db : Db) : Request → Except AppError Db
  | .createWorkspace owner dept =>
    .ok { db with workspaces := db.workspaces ++ [{ ownerUserId := owner, departmentId := dept }] }
  | .freezeSnapshot ws actor dept => EvidenceSnapshotService.freezeSnapshot now db ws actor dept
  | .createTurn ws snapshot actor key => TurnService.createTurn db ws snapshot actor key
  | .startPlanning ws t actor dept => TurnService.startPlanning now db ws t actor dept
  | .confirmPlan ws t p actor => TurnService.confirmPlan db ws t p actor
  | .generatePlanVersion ws => .ok (PlanService.generatePlan db ws)
  | .confirmPlanVersion ws p => PlanService.confirmPlan db ws p
  | .revisePlan ws p => PlanService.revisePlan db ws p
  | .submitRun ws p snapshot t actor dept =>
    AnalysisRunService.submitRun now db ws p snapshot t actor dept
  | .requestFollowup ws snapshot key => .ok (RecommendationService.requestFollowup db ws snapshot key)
  | .retryBatch actor dept b => RecommendationService.retryBatch now db actor dept b
  | .retryExtraction j => CandidateExtractionService.retry now db j
  | .completeRunForTurn r runStatus => Research.completeRunForTurn now db r runStatus

/-! ## The system -/

/-- The steps of an execution of `execute_analysis_run`. -/
inductive ExecAction where
  | analyze (blocks : Nat)
  | raise
  | completeRead
  | completeFlush
  | completeCommit
  | failRead
  | failFlush
  | failCommit
  | crash (redelivered : Bool)

/-- The steps of the system. -/
inductive Action where
  | request (q : Request)
  | checkSubmit (ws : WorkspaceId) (t : TurnId) (actorId : UserId) (dept : DeptId)
  | submit (i : Nat)
  | checkCancel (r : RunId)
  | cancel (i : Nat)
  | dispatch (e : Nat) (marks : Bool)
  | drop (m : Nat) -- a task raises before its first commit
  | claim (m : Nat)
  | exec (i : Nat) (x : ExecAction)
  | startPlan (m : Nat)
  | generatePlan (i : Nat)
  | bindPlan (i : Nat)
  | failPlan (i : Nat)
  | crashPlan (i : Nat)
  | executeBatch (m : Nat) (ok acked : Bool)
  | claimExtraction (m : Nat)
  | extractInsight (i : Nat) (r : RunId) (blocks : Nat)
  | endExtraction (i : Nat) (ok : Bool)
  | crashExtraction (i : Nat)
  | reconcile (clock : Time) (rs : List RunId) (js : List ExtractionId)
  | expireHeartbeat (r : RunId)
  | legacyStart (r : RunId)
  | legacyCheck (i : Nat)
  | legacyFinish (i : Nat) (status : RunStatus)
  | orchestratorCancel (r : RunId)
  | tick (dt : Nat)

/-- The turn of the execution as it is now. -/
def Execution.readTurn (db : Db) (x : Execution) : Option TurnStatus := x.turnId.bind db.turnStatus?

/-- The control flow of `execute_analysis_run` after its claim, `none` where the step is not the next one. An
exception of `analyze_data` or of `complete` ends in the handler, which calls `fail`. -/
def Execution.next (s : Sys) (x : Execution) : ExecAction → Option Phase
  | .analyze _ => if x.phase = .analyzing ∧ x.message.actorId.isSome = true then some .completing else none
  | .raise =>
    match x.phase with
    | .analyzing => some .failing
    | .completing => some .failing
    | .completeRead => some .failing
    | .completeFlushed _ => some .failing
    | _ => none
  | .completeRead =>
    if x.phase = .completing then
      match s.db.runStatus? x.run with
      | none => some .failing
      | some .succeeded => some .done
      | some seen => if seen ∈ [RunStatus.queued, .running] then some .completeRead else some .failing
    else none
  | .completeFlush =>
    if x.phase = .completeRead ∧ s.locked x.run = false then some (.completeFlushed (x.readTurn s.db)) else none
  | .completeCommit =>
    match x.phase with
    | .completeFlushed seenTurn =>
      if (TimelineRunFinalizer.complete s.now s.db x.message.actorId x.message.departmentId x.run x.workspaceId
          x.turnId seenTurn).isSome then some .done
      else some .failing
    | _ => none
  | .failRead => if x.phase = .failing then some (.failRead (s.db.runStatus? x.run)) else none
  | .failFlush =>
    match x.phase with
    | .failRead seenRun =>
      if TimelineRunFinalizer.failsRun seenRun && s.locked x.run then none
      else some (.failFlushed seenRun (x.readTurn s.db))
    | _ => none
  | .failCommit =>
    match x.phase with
    | .failFlushed _ _ => some .done
    | _ => none
  | .crash _ => if x.phase = .done then none else some .done

/-- What a step of the execution commits. -/
def Execution.write (s : Sys) (x : Execution) : ExecAction → Db
  | .analyze blocks =>
    PlanService.analyzeData s.now s.db x.workspaceId x.planVersionId x.snapshotId (x.message.actorId.getD 0) x.turnId
      blocks
  | .completeCommit =>
    match x.phase with
    | .completeFlushed seenTurn =>
      (TimelineRunFinalizer.complete s.now s.db x.message.actorId x.message.departmentId x.run x.workspaceId
        x.turnId seenTurn).getD s.db
    | _ => s.db
  | .failCommit =>
    match x.phase with
    | .failFlushed seenRun seenTurn => TimelineRunFinalizer.fail s.db x.run x.turnId seenRun seenTurn
    | _ => s.db
  | _ => s.db

/-- The turn `generate_plan` finds for its message. -/
def Message.turn? (db : Db) (msg : Message) : Option Turn :=
  db.turns[msg.aggregateId]?.filter (fun turn => msg.workspaceId = none ∨ msg.workspaceId = some turn.workspaceId)

/-- The first session of `generate_plan`: a plan that exists already moves a turn on that is still `planning`. -/
def startPlanWrite (db : Db) (msg : Message) : Db :=
  if (msg.turn? db).isSome ∧ db.hasPlan msg.aggregateId then
    (db.casTurn msg.aggregateId [.planning] .planReview).getD db
  else db

/-- The UPDATE that marks an event delivered. -/
def deliveredStmt (deliveredAt : Time) : Update OutboxEvent where
  cond _ := true
  set ev := { ev with deliveredAt := some deliveredAt }

/-- The first session of `extract_candidates`: the claim, which fails at once for a turn without a plan. -/
def claimExtractionWrite (now : Time) (db : Db) (msg : Message) : Db :=
  match db.extractions[msg.aggregateId]? with
  | some job =>
    if job.status = .queued then
      let db := db.casExtraction now msg.aggregateId .queued .running false
      if db.hasPlan job.turnId then db else db.casExtraction now msg.aggregateId .running .failed false
    else db
  | none => db

/-- The run `extract_insight` works on: the turn's run that was submitted last. -/
def Db.IsLatestRun (db : Db) (t : TurnId) (r : RunId) : Prop :=
  ∃ run ∈ db.runs[r]?, run.turnId = some t ∧ ∀ other ∈ db.runsOfTurn t, other.submittedAt ≤ run.submittedAt

instance (db : Db) (t : TurnId) (r : RunId) : Decidable (db.IsLatestRun t r) := by
  unfold Db.IsLatestRun
  infer_instance

/-- The answers of the two SELECTs of `reconcile_timeline`: at most 100 rows each, of those that are stale and
that no open transaction holds. -/
structure Sys.Selects (s : Sys) (clock : Time) (rs : List RunId) (js : List ExtractionId) : Prop where
  nodupRuns : rs.Nodup
  nodupJobs : js.Nodup
  runs : ∀ r ∈ rs, (s.db.runs[r]?.map (Reconciler.staleRun clock)) = some true ∧ s.locked r = false
  jobs : ∀ j ∈ js, (s.db.extractions[j]?.map (Reconciler.staleExtraction clock)) = some true
  fewRuns : rs.length ≤ Reconciler.limit
  fewJobs : js.length ≤ Reconciler.limit

instance (s : Sys) (clock : Time) (rs : List RunId) (js : List ExtractionId) : Decidable (s.Selects clock rs js) :=
  decidable_of_iff
    (rs.Nodup ∧ js.Nodup ∧
      (∀ r ∈ rs, (s.db.runs[r]?.map (Reconciler.staleRun clock)) = some true ∧ s.locked r = false) ∧
      (∀ j ∈ js, (s.db.extractions[j]?.map (Reconciler.staleExtraction clock)) = some true) ∧
      rs.length ≤ Reconciler.limit ∧ js.length ≤ Reconciler.limit)
    ⟨fun ⟨a, b, c, d, e, f⟩ => ⟨a, b, c, d, e, f⟩, fun ⟨a, b, c, d, e, f⟩ => ⟨a, b, c, d, e, f⟩⟩

/-- The tables after a step, `none` when its transaction raises or has to wait. -/
def Sys.effect (s : Sys) : Action → Option Db
  | .request q => (q.run s.now s.db).toOption
  | .submit i => s.submits[i]?.bind (fun x =>
    (AnalysisService.submitRun s.now s.db x.workspaceId x.turnId x.turn x.actorId x.departmentId).toOption)
  | .cancel i => s.cancels[i]?.bind (fun r =>
    if s.locked r then none else some (AnalysisRunService.cancelRun s.db r))
  | .dispatch e marks =>
    some (if marks then { s.db with outbox := Table.update s.db.outbox [e] (deliveredStmt s.now) } else s.db)
  | .claim m => s.broker[m]?.bind (fun msg =>
    if s.locked msg.aggregateId then none
    else some { s.db with runs := Table.update s.db.runs [msg.aggregateId] (claimStmt s.now) })
  | .exec i x => s.execs[i]?.map (fun e => e.write s x)
  | .startPlan m => s.broker[m]?.map (startPlanWrite s.db)
  | .generatePlan i => s.plannings[i]?.map (fun x => PlanService.generatePlan s.db x.workspaceId)
  | .bindPlan i => s.plannings[i]?.bind (fun x => x.plan.map (fun p =>
    let db := PlanService.bindPlan s.db p x.turnId
    (db.casTurn x.turnId [.planning] .planReview).getD db))
  | .failPlan i => s.plannings[i]?.map (fun x =>
    (s.db.casTurn x.turnId [.planning] .planningFailed).getD s.db)
  | .executeBatch m ok _ => s.broker[m]?.map (fun msg => RecommendationService.executeBatch s.db msg.aggregateId ok)
  | .claimExtraction m => s.broker[m]?.map (claimExtractionWrite s.now s.db)
  | .extractInsight i r blocks => s.extractings[i]?.bind (fun x =>
    if s.db.IsLatestRun x.turnId r then some (PlanService.extractInsight s.now s.db r blocks) else none)
  | .endExtraction i ok => s.extractings[i]?.map (fun x =>
    s.db.casExtraction s.now x.job .running (if ok then .succeeded else .failed) false)
  | .reconcile clock rs js =>
    if s.Selects clock rs js then some (Reconciler.reconcile s.now s.db rs js) else none
  | .expireHeartbeat r => if s.locked r then none else some (s.db.setRunStatus r .failed)
  | .legacyFinish i status => s.legacies[i]?.bind (fun r =>
    if s.locked r ∨ status ∉ [RunStatus.succeeded, .partiallySucceeded, .failed] then none
    else some (s.db.setRunStatus r status))
  | .orchestratorCancel r => if s.locked r then none else some (s.db.setRunStatus r .cancelled)
  | _ => some s.db

/-- Take message `m` out of the broker, when its task is `eventType`. -/
def Sys.receive (s : Sys) (m : Nat) (eventType : EventType) : Option (Message × Sys) :=
  s.broker[m]?.bind (fun msg =>
    if msg.eventType = eventType then some (msg, { s with broker := s.broker.eraseIdx m }) else none)

/-- The parties after a step, `none` when the step is not one they can make. -/
def Sys.control (s : Sys) : Action → Option Sys
  | .request _ => some s
  | .checkSubmit ws t actor dept =>
    (AnalysisService.checkTurn s.db ws t actor).toOption.map (fun turn =>
      { s with submits := s.submits ++ [{ workspaceId := ws, turnId := t, turn := turn, actorId := actor,
                                          departmentId := dept }] })
  | .submit i => some { s with submits := s.submits.eraseIdx i }
  | .checkCancel r =>
    (AnalysisRunService.checkCancel s.db r).toOption.map (fun _ => { s with cancels := s.cancels ++ [r] })
  | .cancel i => some { s with cancels := s.cancels.eraseIdx i }
  | .dispatch e _ => s.db.outbox[e]?.bind (fun ev =>
    if ev.deliveredAt = none then ev.message?.map (fun msg => { s with broker := s.broker ++ [msg] }) else none)
  | .drop m => if m < s.broker.length then some { s with broker := s.broker.eraseIdx m } else none
  | .claim m => (s.receive m .runRequested).map (fun p =>
    match s.db.runs[p.1.aggregateId]? with
    | some run =>
      if run.status = .queued then
        { p.2 with execs := s.execs ++ [{ run := p.1.aggregateId, turnId := run.turnId,
                                          workspaceId := run.workspaceId, planVersionId := run.planVersionId,
                                          snapshotId := run.snapshotId, message := p.1 }] }
      else p.2
    | none => p.2)
  | .exec i x => s.execs[i]?.bind (fun e => (e.next s x).map (fun phase =>
    let s := { s with execs := s.execs.set i { e with phase := phase } }
    match x with
    | .crash true => { s with broker := s.broker ++ [e.message] }
    | _ => s))
  | .startPlan m => (s.receive m .planRequested).map (fun p =>
    match p.1.turn? s.db with
    | some turn =>
      if turn.status = .planning ∧ s.db.hasPlan p.1.aggregateId = false then
        { p.2 with plannings := s.plannings ++ [{ turnId := p.1.aggregateId, workspaceId := turn.workspaceId,
                                                  message := p.1 }] }
      else p.2
    | none => p.2)
  | .generatePlan i => s.plannings[i]?.bind (fun x =>
    if x.plan = none then
      some { s with plannings := s.plannings.set i { x with plan := some s.db.plans.length } }
    else none)
  | .bindPlan i => some { s with plannings := s.plannings.eraseIdx i }
  | .failPlan i => s.plannings[i]?.bind (fun x =>
    if x.plan = none then some { s with plannings := s.plannings.eraseIdx i } else none)
  | .crashPlan i => s.plannings[i]?.map (fun x =>
    { s with plannings := s.plannings.eraseIdx i, broker := s.broker ++ [x.message] })
  | .executeBatch m _ acked => (s.receive m .recommendationRequested).map (fun p => if acked then p.2 else s)
  | .claimExtraction m => (s.receive m .candidateExtractionRequested).map (fun p =>
    match s.db.extractions[p.1.aggregateId]? with
    | some job =>
      if job.status = .queued ∧ s.db.hasPlan job.turnId then
        { p.2 with extractings := s.extractings ++ [{ job := p.1.aggregateId, turnId := job.turnId,
                                                      message := p.1 }] }
      else p.2
    | none => p.2)
  | .extractInsight _ _ _ => some s
  | .endExtraction i _ => some { s with extractings := s.extractings.eraseIdx i }
  | .crashExtraction i => s.extractings[i]?.map (fun x =>
    { s with extractings := s.extractings.eraseIdx i, broker := s.broker ++ [x.message] })
  | .reconcile _ _ _ => some s
  | .expireHeartbeat _ => some s
  | .legacyStart r => (s.db.runStatus? r).bind (fun status =>
    -- `execute_run` returns for a run that has come to an end
    if status ∈ [RunStatus.cancelled, .failed, .succeeded, .partiallySucceeded] then none
    else some { s with legacies := s.legacies ++ [r] })
  | .legacyCheck i => s.legacies[i]?.map (fun r =>
    if s.db.runStatus? r = some .cancelled then { s with legacies := s.legacies.eraseIdx i } else s)
  | .legacyFinish i _ => some { s with legacies := s.legacies.eraseIdx i }
  | .orchestratorCancel _ => some s
  | .tick dt => some { s with now := s.now + dt }

/-- One step. -/
def step (s : Sys) (a : Action) : Option Sys :=
  (s.effect a).bind (fun db => (s.control a).map (fun s' => { s' with db := db }))

/-- The system before its first call. -/
def init : Sys := {}

theorem step_some {s s' : Sys} {a : Action} (h : step s a = some s') :
    ∃ db s₁, s.effect a = some db ∧ s.control a = some s₁ ∧ s' = { s₁ with db := db } := by
  obtain ⟨db, heffect, h⟩ := Option.bind_eq_some_iff.mp h
  obtain ⟨s₁, hcontrol, rfl⟩ := Option.map_eq_some_iff.mp h
  exact ⟨db, s₁, heffect, hcontrol, rfl⟩

end Irip.Research
