import Irip.Parameters.Operations

/-!
# `Parameters.Service` — the methods of the parameter service

Every method is one transaction, and a program of statements. A new row is written when the session flushes it,
which is before the next UPDATE.
-/

namespace Irip.Parameters

open Prog (lift)

/-- The programs of the service. -/
abbrev M := Prog Op Res Exn

/-- One statement. -/
abbrev ask (o : Op) : M (Res o) := Prog.perform o

/-- `raise AppError(...)`. -/
abbrev raise {α : Type} (e : AppError) : M α := .raise (.app e)

/-- An instance of the service: the department and the user it acts for. -/
structure Service where
  departmentId : Uuid
  actorId : Option Uuid

/-! ## Checks -/

/-- The candidate is pending and the reviewer did not submit it. -/
def checkPending (candidate : ParameterCandidate) (candidateId reviewer : Uuid) : Except Exn Unit :=
  if candidate.status ≠ .pendingReview then
    .error (.app { code := "candidate_not_pending",
                   message := "候选不在 pending_review 状态，当前状态: " ++ candidate.status.value,
                   fields := [("candidate_id", .str candidateId), ("status", .str candidate.status.value)] })
  else if candidate.submittedBy = some reviewer then
    .error (.app { code := "self_approval_forbidden", message := "提交人不能审批自己提交的参数候选",
                   fields := [("candidate_id", .str candidateId), ("reviewer", .str reviewer)] })
  else .ok ()

theorem checkPending_ok {candidate : ParameterCandidate} {candidateId reviewer : Uuid} {u : Unit} :
    checkPending candidate candidateId reviewer = .ok u ↔
      candidate.status = .pendingReview ∧ candidate.submittedBy ≠ some reviewer := by
  unfold checkPending
  split
  · next h => simp [h]
  · next h =>
      split
      · next h' => simp [h']
      · next h' => exact ⟨fun _ => ⟨not_not.mp h, h'⟩, fun _ => rfl⟩

/-- The derivation run exists and has succeeded; the message ends in what cannot be done otherwise. -/
def checkRun (run : Option DerivationRun) (derivationRunId : Uuid) (consequence : String) : Except Exn Unit :=
  match run with
  | none =>
    .error (.app { code := "not_found", message := "推导运行不存在: " ++ derivationRunId,
                   fields := [("derivation_run_id", .str derivationRunId)] })
  | some run =>
    if run.status ≠ .succeeded then
      .error (.app { code := "derivation_not_succeeded",
                     message := "推导运行未成功，当前状态: " ++ run.status.value ++ "，" ++ consequence,
                     fields := [("derivation_run_id", .str derivationRunId), ("status", .str run.status.value)] })
    else .ok ()

/-- The error of a parameter that does not exist. -/
def parameterNotFound (parameterId : Uuid) : AppError :=
  { code := "not_found", message := "参数不存在: " ++ parameterId, fields := [("parameter_id", .str parameterId)] }

/-- The error of a candidate that does not exist. -/
def candidateNotFound (candidateId : Uuid) : AppError :=
  { code := "not_found", message := "参数候选不存在: " ++ candidateId,
    fields := [("candidate_id", .str candidateId)] }

/-! ## Methods -/

def createParameter (service : Service) (variableCode : String) (objectId : Uuid) : M Reply := do
  if isBlank variableCode then
    raise { code := "validation_failed", message := "变量代码不能为空",
            fields := [("variable_code", .str "required")] }
  else
    let existing ← ask (.selectParameterBy (strip variableCode) objectId)
    match existing with
    | some _ =>
      raise { code := "conflict",
              message := "参数已存在: variable_code=" ++ variableCode ++ ", object_id=" ++ objectId,
              fields := [("variable_code", .str variableCode), ("object_id", .str objectId)] }
    | none =>
      let id ← ask .newId
      let param : Parameter :=
        { id := id, departmentId := service.departmentId, ownerUserId := service.actorId,
          variableCode := strip variableCode, objectId := objectId, createdBy := service.actorId }
      let inserted ← ask (.insertParameter param)
      let _ ← lift inserted
      return .parameter param.id param.variableCode param.objectId param.status

def createCandidate (service : Service) (parameterId derivationRunId : Uuid) (value : String)
    (unit confidence : Option String) (conditions : Option Json) : M Reply := do
  let run ← ask (.selectRun derivationRunId)
  let _ ← lift (checkRun run derivationRunId "无法创建参数候选")
  let param ← ask (.selectParameter parameterId)
  match param with
  | none => raise (parameterNotFound parameterId)
  | some _ =>
    let existing ← ask (.selectCandidateBy parameterId derivationRunId)
    match existing with
    | some _ =>
      raise { code := "conflict",
              message := "该参数在此推导运行中已有候选: parameter_id=" ++ parameterId ++
                ", derivation_run_id=" ++ derivationRunId,
              fields := [("parameter_id", .str parameterId), ("derivation_run_id", .str derivationRunId)] }
    | none =>
      let id ← ask .newId
      let now ← ask .now
      let candidate : ParameterCandidate :=
        { id := id, parameterId := parameterId, derivationRunId := derivationRunId, value := value,
          unit := unit, confidence := confidence, conditions := conditions, submittedBy := service.actorId,
          submittedAt := now }
      let inserted ← ask (.insertCandidate candidate)
      let _ ← lift inserted
      let _ ← ask (.updateParameter parameterId .pendingReview)
      return .candidate
        { candidateId := candidate.id, parameterId := parameterId, derivationRunId := derivationRunId,
          value := value, unit := unit, confidence := confidence, status := candidate.status }

def submitForReview (candidateId : Uuid) : M Reply := do
  let candidate ← ask (.selectCandidate candidateId)
  match candidate with
  | none => raise (candidateNotFound candidateId)
  | some c =>
    return .candidate
      { candidateId := c.id, parameterId := c.parameterId, derivationRunId := c.derivationRunId,
        value := c.value, unit := c.unit, confidence := c.confidence, status := c.status }

/-- The version `approve` publishes. -/
def ParameterCandidate.toVersion (c : ParameterCandidate) (id : Uuid) (version : Nat) (now : Time)
    (reviewer : Uuid) : ParameterVersion :=
  { id := id, parameterId := c.parameterId, version := version, value := c.value, unit := c.unit,
    confidence := c.confidence, confidenceInterval := c.confidenceInterval, conditions := c.conditions,
    derivationRunId := c.derivationRunId, publishedAt := now, publishedBy := reviewer }

/-- The edge from a version to its derivation run. -/
def publishedAs (service : Service) (id versionId derivationRunId : Uuid) : ProvenanceEdge :=
  { id := id, departmentId := service.departmentId, derivationRunId := derivationRunId,
    sourceType := "parameter_version", sourceId := versionId, targetType := "derivation_run",
    targetId := derivationRunId, edgeType := "published_as" }

def approve (service : Service) (candidateId reviewer : Uuid) : M Reply := do
  let found ← ask (.selectCandidate candidateId)
  match found with
  | none => raise (candidateNotFound candidateId)
  | some candidate =>
    let _ ← lift (checkPending candidate candidateId reviewer)
    let run ← ask (.selectRun candidate.derivationRunId)
    let _ ← lift (checkRun run candidate.derivationRunId "无法审批参数候选")
    let maxVersion ← ask (.selectMaxVersion candidate.parameterId)
    let newVersion := maxVersion.getD 0 + 1
    let versionId ← ask .newId
    let now ← ask .now
    let inserted ← ask (.insertVersion (candidate.toVersion versionId newVersion now reviewer))
    let _ ← lift inserted
    let _ ← ask (.updateParameter candidate.parameterId .published)
    let edgeId ← ask .newId
    let _ ← ask (.updateCandidate candidate.id
      { status := .approved, reviewedBy := reviewer, reviewedAt := now, reviewDecision := .approved })
    let linked ← ask (.insertEdge (publishedAs service edgeId versionId candidate.derivationRunId))
    let _ ← lift linked
    let param ← ask (.selectParameter candidate.parameterId)
    return .version
      { parameterId := candidate.parameterId, version := newVersion, versionId := versionId,
        variableCode := (param.map Parameter.variableCode).getD "", value := candidate.value,
        unit := candidate.unit, confidence := candidate.confidence, status := .published,
        conditions := candidate.conditions, publishedAt := now }

/-- `reject`. The session flushes the candidate before the UPDATE of the parameter. -/
def reject (candidateId reviewer : Uuid) (comment : String) : M Reply := do
  let found ← ask (.selectCandidateJoined candidateId)
  match found with
  | none => raise (candidateNotFound candidateId)
  | some candidate =>
    let _ ← lift (checkPending candidate candidateId reviewer)
    let now ← ask .now
    let _ ← ask (.updateCandidate candidate.id
      { status := .rejected, reviewedBy := reviewer, reviewedAt := now, reviewDecision := .rejected,
        reviewComment := some comment })
    let _ ← ask (.updateParameter candidate.parameterId .rejected)
    return .reviewed candidate.id candidate.parameterId .rejected reviewer (some .rejected)

/-- `deprecate`. -/
def deprecateParameter (parameterId : Uuid) : M Reply := do
  let found ← ask (.selectParameter parameterId)
  match found with
  | none => raise (parameterNotFound parameterId)
  | some param =>
    if param.status ≠ .published then
      raise { code := "invalid_transition",
              message := "参数当前状态为 " ++ param.status.value ++ "，仅 published 状态可弃用",
              fields := [("parameter_id", .str parameterId), ("status", .str param.status.value)] }
    else
      let _ ← ask (.updateParameter parameterId .deprecated)
      let _ ← ask (.deprecateVersions parameterId)
      return .deprecated parameterId .deprecated

/-! ## Calls -/

/-- A call of the service. -/
inductive Call where
  | createParameter (service : Service) (variableCode : String) (objectId : Uuid)
  | createCandidate (service : Service) (parameterId derivationRunId : Uuid) (value : String)
      (unit confidence : Option String) (conditions : Option Json)
  | submitForReview (candidateId : Uuid)
  | approve (service : Service) (candidateId reviewer : Uuid)
  | reject (candidateId reviewer : Uuid) (comment : String)
  | deprecateParameter (parameterId : Uuid)

/-- The program of a call. -/
def Call.prog : Call → M Reply
  | .createParameter s code obj => Parameters.createParameter s code obj
  | .createCandidate s param run v unit conf cond => Parameters.createCandidate s param run v unit conf cond
  | .submitForReview c => Parameters.submitForReview c
  | .approve s c reviewer => Parameters.approve s c reviewer
  | .reject c reviewer comment => Parameters.reject c reviewer comment
  | .deprecateParameter param => Parameters.deprecateParameter param

end Irip.Parameters
