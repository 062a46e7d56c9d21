import Irip.Publication.Entities

/-!
# `Publication.Service` — products and the publication service

Each call is one transaction. What a call reads outside the tables kept here (the file of an artifact, the row of a
candidate, the evidence references of a workspace) is an argument of it.
-/

namespace Irip.Publication

open Research (UserId WorkspaceId SnapshotId RunId RunStatus)
open Jobs (uuidText)
open Evaluation (bind_ok_iff)

/-! ## Snapshots -/

/-- An active evidence reference with the summary the source has answered. -/
structure EvidenceRef where
  sourceId : Nat
  factType : String
  status : String
  departmentName : Option String

/-- `_build_permission_envelope`: the last reference of a source counts. -/
def buildPermissionEnvelope (refs : List EvidenceRef) : List (String × Json) :=
  (Dict.ofList (refs.map (fun ref => (uuidText ref.sourceId,
    Json.obj [("fact_type", .str ref.factType), ("status", .str ref.status),
              ("department_name", (ref.departmentName.map Json.str).getD .null)])))).entries

/-- The envelope `freeze_snapshot` inserts with the next snapshot of the workspace. -/
def Sys.newEnvelope (s : Sys) (ws : WorkspaceId) (refs : List EvidenceRef) : SnapshotEnvelope :=
  { snapshotNumber := (s.timeline.db.snapshots.filter (fun row => row.workspaceId == ws)).length + 1,
    permissionEnvelope := buildPermissionEnvelope refs }

/-! ## Products -/

/-- What the artifact tables and the object store answer of an artifact besides its run. -/
structure ArtifactFile where
  artifactType : String
  contentHash : String
  downloadable : Bool
  errors : List String -- of the three-segment validation

def artifactError (message : String) (artifact : Nat) : AppError :=
  { code := "validation_failed", message := message, fields := [("artifact_id", .str (uuidText artifact))] }

/-- The checks of an artifact that is to become a product: the run it is of. -/
def Sys.requireArtifact (s : Sys) (actor : UserId) (artifact : Nat) (file : ArtifactFile)
    (expected refused : String) : Except AppError RunId :=
  match s.timeline.db.artifacts[artifact]?.filter (fun x =>
    s.timeline.db.runs[x.runId]?.any (fun run => s.sees actor run.workspaceId)) with
  | none => .error { code := "not_found", message := "工件不存在",
                       fields := [("artifact_id", .str (uuidText artifact))] }
  | some x =>
    if x.isPublishable then
      if file.artifactType = expected then .ok x.runId
      else .error (artifactError ("工件类型不匹配: 期望 " ++ expected ++ ", 实际 " ++ file.artifactType) artifact)
    else .error (artifactError refused artifact)

/-- `create_dataset`: the snapshot is the latest one of the workspace, whatever the run was executed on. -/
def createDataset (s : Sys) (actor : UserId) (ws : WorkspaceId) (artifact : Nat) (file : ArtifactFile)
    (name : String) : Except AppError Sys := do
  let run ← s.requireArtifact actor artifact file "data" "工件不可发布，无法创建数据集"
  if file.downloadable then
    if file.errors.isEmpty then
      .ok { s with datasets := s.datasets ++ [some
              { workspaceId := ws, ownerUserId := actor, name := name, sourceRunId := some run,
                sourceSnapshotId := s.getLatestSnapshot actor ws,
                version := some { versionNumber := 1, contentHash := file.contentHash } }] }
    else .error (artifactError ("三段式数据校验失败: " ++ "; ".intercalate file.errors) artifact)
  else .error (artifactError "无法下载工件内容" artifact)

def createView (s : Sys) (actor : UserId) (ws : WorkspaceId) (artifact : Nat) (file : ArtifactFile)
    (name : String) : Except AppError Sys := do
  let run ← s.requireArtifact actor artifact file "chart" "工件不可发布，无法创建视图"
  .ok { s with views := s.views ++ [some
          { workspaceId := ws, ownerUserId := actor, name := name, sourceRunId := some run,
            version := some { versionNumber := 1, contentHash := file.contentHash } }] }

/-- The row of a pending candidate, as it was read. -/
structure InsightCandidate where
  runId : Option RunId
  conclusion : String
  contentHash : String

/-- `create_insight_from_accept`, and `create_insight_from_modify` with the fields the user has changed. -/
def createInsight (s : Sys) (actor : UserId) (ws : WorkspaceId) (candidate : InsightCandidate) : Sys :=
  let name := String.ofList (candidate.conclusion.toList.take 50)
    ++ if candidate.conclusion.length > 50 then "..." else ""
  { s with insights := s.insights ++ [some
      { workspaceId := ws, ownerUserId := actor, name := name, sourceRunId := candidate.runId,
        version := some { versionNumber := 1, contentHash := candidate.contentHash } }] }

/-- The row without its product, if the policy shows it in the workspace. -/
def Sys.remove (s : Sys) (actor : UserId) (ws : WorkspaceId) (rows : List (Option Product)) (id : ProductId) :
    List (Option Product) :=
  rows.modify id (fun row => row.filter (fun p => !(p.workspaceId == ws && s.sees actor ws)))

/-- `delete_dataset`, `delete_view` and `delete_insight`. -/
def deleteProduct (s : Sys) (actor : UserId) (ws : WorkspaceId) (kind : ProductKind) (id : ProductId) : Sys :=
  match kind with
  | .dataset => { s with datasets := s.remove actor ws s.datasets id }
  | .view => { s with views := s.remove actor ws s.views id }
  | .insight => { s with insights := s.remove actor ws s.insights id }

/-! ## Publication -/

def productError (kind : ProductKind) (id : ProductId) (problem : String) : AppError :=
  { code := "validation_failed", message := kind.label ++ " " ++ uuidText id ++ " " ++ problem,
    fields := [(kind.field, .str (uuidText id))] }

def ProductRefCollection.addRef (refs : ProductRefCollection) (kind : ProductKind) (ref : ProductRef) :
    ProductRefCollection :=
  match kind with
  | .dataset => { refs with datasetVersionRefs := refs.datasetVersionRefs ++ [ref] }
  | .view => { refs with viewVersionRefs := refs.viewVersionRefs ++ [ref] }
  | .insight => { refs with insightVersionRefs := refs.insightVersionRefs ++ [ref] }

/-- The snapshot and the run of a product, where it has them, and the status of the run, where that is found. -/
def ProductRefCollection.addSources (refs : ProductRefCollection) (s : Sys) (actor : UserId) (p : Product) :
    ProductRefCollection :=
  { refs with
    evidenceSnapshotIds := p.sourceSnapshotId.elim refs.evidenceSnapshotIds refs.evidenceSnapshotIds.insert,
    analysisRunIds := p.sourceRunId.elim refs.analysisRunIds refs.analysisRunIds.insert,
    sourceRunStatuses := (p.sourceRunId.bind (fun r => (s.getRunStatus actor r).map (fun st =>
      refs.sourceRunStatuses.set r st))).getD refs.sourceRunStatuses }

/-- The body of the three loops of `_collect_product_refs`. -/
def collectProduct (s : Sys) (actor : UserId) (ws : WorkspaceId) (kind : ProductKind)
    (refs : ProductRefCollection) (id : ProductId) : Except AppError ProductRefCollection :=
  match s.getProduct actor ws kind id with
  | none => .error (productError kind id "不存在或不属于该工作空间")
  | some p =>
    if p.status = .confirmed then
      match p.version with
      | none => .error (productError kind id "无可用版本")
      | some v =>
        .ok ((refs.addRef kind { id := id, versionNumber := v.versionNumber, contentHash := v.contentHash,
                                 name := p.name }).addSources s actor p)
    else .error (productError kind id "状态不是 confirmed")

def collectProductRefs (s : Sys) (actor : UserId) (ws : WorkspaceId) (req : PublishRequest) :
    Except AppError ProductRefCollection := do
  let refs ← req.datasetIds.foldlM (collectProduct s actor ws .dataset) {}
  let refs ← req.viewIds.foldlM (collectProduct s actor ws .view) refs
  req.insightIds.foldlM (collectProduct s actor ws .insight) refs

def validateRunStatuses (refs : ProductRefCollection) : Except AppError Unit :=
  match refs.sourceRunStatuses.entries.find? (fun e => e.2 ∉ [RunStatus.succeeded, .partiallySucceeded]) with
  | none => .ok ()
  | some e =>
    .error { code := "validation_failed",
             message := "来源 Run " ++ uuidText e.1 ++ " 状态为 " ++ e.2.value
               ++ "，不允许发布（仅 succeeded/partially_succeeded 可发布）",
             fields := [("run_id", .str (uuidText e.1)), ("run_status", .str e.2.value)] }

/-- The steps both publish calls begin with: the products, the statuses of their runs, and the envelope of the
snapshots collected. -/
def prepare (s : Sys) (actor : UserId) (ws : WorkspaceId) (req : PublishRequest) :
    Except AppError (ProductRefCollection × PermissionEnvelope) := do
  let refs ← collectProductRefs s actor ws req
  if refs.datasetVersionRefs.isEmpty && refs.viewVersionRefs.isEmpty then
    .error { code := "validation_failed", message := "成果包至少需要包含一个数据集或图表" }
  else
    let _ ← validateRunStatuses refs
    .ok (refs, PermissionEnvelopeCalculator.calculateEnvelope (s.getSnapshotEnvelope actor) refs.evidenceSnapshotIds)

/-- The check of the requested ACL, which a declassification passes. The first publication also names the sources
that limit the ACL. -/
def checkAcl (acl : AclType) (userIds : List UserId) (envelope : PermissionEnvelope) (declassifies namesSources : Bool) :
    Except AppError Unit :=
  let validation := PermissionEnvelopeCalculator.validateRequestedAcl acl userIds envelope
  if validation.valid || declassifies then .ok ()
  else .error { code := "acl_exceeds_envelope", message := "请求的 ACL 超出权限包络: " ++ validation.reason,
                fields := [("requested_acl", .str acl.value), ("effective_acl", .str validation.effectiveAcl.value)]
                  ++ if namesSources then [("limiting_sources", .arr (validation.limitingSources.map SourceDetail.toJson))]
                     else [] }

def publishResult (s : Sys) (actor : UserId) (ws : WorkspaceId) (req : PublishRequest) : Except AppError Sys := do
  let (refs, envelope) ← prepare s actor ws req
  let _ ← checkAcl req.requestedAcl req.explicitUserIds envelope req.declassifies true
  .ok { s with
    results := s.results ++ [{ workspaceId := ws, ownerUserId := actor, name := req.title, currentVersion := 1,
                                 currentAclType := req.requestedAcl, currentExplicitUserIds := req.explicitUserIds }],
    versions := s.versions ++ [{ resultId := s.results.length, versionNumber := 1, title := req.title, refs := refs,
                                  publisher := actor, publishedPermissionEnvelope := some envelope }],
    revisions := s.revisions ++ [{ resultId := s.results.length, revisionNumber := 1, aclType := req.requestedAcl,
                                   explicitUserIds := req.explicitUserIds, previousAclType := none,
                                   previousExplicitUserIds := none, changedBy := actor,
                                   changeReason := some "初始发布", isDeclassify := req.isDeclassify,
                                   declassifyReason :=
                                     if req.declassifyReason = "" then none else some req.declassifyReason }] }

/-- The row the user may change. Whoever the policy does not show it to gets another answer than the others. -/
def Sys.requireOwnResult (s : Sys) (actor : UserId) (r : ResultId) (refused : String) :
    Except AppError ResearchResult :=
  match s.results[r]? with
  | none => .error { code := "not_found", message := "成果包不存在", fields := [("result_id", .str (uuidText r))] }
  | some result =>
    if result.ownerUserId = actor then .ok result
    else if result.status = .published ∧
        s.timeline.db.workspaces[result.workspaceId]?.any (fun w => result.currentAclType.allows s.visible
          ⟨result.ownerUserId, w.departmentId⟩ result.currentExplicitUserIds actor) then
      .error { code := "forbidden", message := refused }
    else .error { code := "not_found", message := "成果包不存在", fields := [("result_id", .str (uuidText r))] }

/-- `UPDATE research_result_version SET status = target WHERE id = i`. -/
def setVersionStatus (target : VersionStatus) : Table.Update ResearchResultVersion where
  cond _ := true
  set v := { v with status := target }

/-- The latest version, where it is active. -/
def Sys.activeLatest (s : Sys) (r : ResultId) : List VersionId :=
  (s.getLatestVersion r).toList.filter (fun i => s.versions[i]?.any (fun v => v.status == .active))

/-- `update_result_current_version`. -/
def setCurrentVersion (versionNumber : Nat) : Table.Update ResearchResult where
  cond _ := true
  set result := { result with currentVersion := versionNumber }

/-- `publish_new_version`. The ACL of the request is checked, and the result keeps the one it has. -/
def publishNewVersion (s : Sys) (actor : UserId) (r : ResultId) (ws : WorkspaceId) (req : PublishRequest) :
    Except AppError Sys := do
  let result ← s.requireOwnResult actor r "只有成果包所有者可以发布新版本"
  let (refs, envelope) ← prepare s actor ws req
  let _ ← checkAcl req.requestedAcl req.explicitUserIds envelope req.declassifies false
  .ok { s with
    results := Table.update s.results [r] (setCurrentVersion (result.currentVersion + 1)),
    versions := Table.update s.versions (s.activeLatest r) (setVersionStatus .superseded)
      ++ [{ resultId := r, versionNumber := result.currentVersion + 1, title := req.title, refs := refs,
            publisher := actor, publishedPermissionEnvelope := some envelope }] }

/-- `update_result_acl`. -/
def setAcl (acl : AclType) (userIds : List UserId) : Table.Update ResearchResult where
  cond _ := true
  set result := { result with currentAclType := acl, currentExplicitUserIds := userIds }

/-- The arguments of `update_acl`. -/
structure AclChange where
  aclType : AclType
  explicitUserIds : List UserId := []
  reason : Option String := none
  isDeclassify : Bool := false
  declassifyReason : Option String := none

/-- `is_declassify and declassify_reason`. -/
def AclChange.declassifies (change : AclChange) : Bool :=
  change.isDeclassify && change.declassifyReason.any (fun reason => reason != "")

/-- The snapshots the latest version has recorded. -/
def Sys.recordedSnapshots (s : Sys) (r : ResultId) : List SnapshotId :=
  (((s.getLatestVersion r).bind (s.versions[·]?)).map (fun v => v.refs.evidenceSnapshotIds)).getD []

def updateAcl (s : Sys) (actor : UserId) (r : ResultId) (change : AclChange) : Except AppError Sys := do
  let _ ← s.requireOwnResult actor r "只有成果包所有者可以修改 ACL"
  let envelope :=
    PermissionEnvelopeCalculator.calculateEnvelope (s.getSnapshotEnvelope actor) (s.recordedSnapshots r)
  let _ ← checkAcl change.aclType change.explicitUserIds envelope change.declassifies false
  let latest := s.getLatestRevision r
  .ok { s with
    results := Table.update s.results [r] (setAcl change.aclType change.explicitUserIds),
    revisions := s.revisions ++ [{ resultId := r, revisionNumber := (latest.map (·.revisionNumber)).getD 0 + 1,
                                   aclType := change.aclType, explicitUserIds := change.explicitUserIds,
                                   previousAclType := latest.map (·.aclType),
                                   previousExplicitUserIds := latest.map (·.explicitUserIds),
                                   changedBy := actor, changeReason := change.reason,
                                   isDeclassify := change.isDeclassify,
                                   declassifyReason := change.declassifyReason }] }

/-- `update_result_status`. -/
def setResultStatus (target : ResultStatus) : Table.Update ResearchResult where
  cond _ := true
  set result := { result with status := target }

/-- `withdraw_result`: one version, or all that are active and with them the result. -/
def withdrawResult (s : Sys) (actor : UserId) (r : ResultId) (versionNumber : Option Nat) : Except AppError Sys := do
  let _ ← s.requireOwnResult actor r "只有成果包所有者或管理员可以撤回成果"
  match versionNumber with
  | some n =>
    match s.versions.findIdx? (fun v => v.resultId == r && v.versionNumber == n) with
    | none => .error { code := "not_found", message := "版本不存在", fields := [("version_number", .int n)] }
    | some i => .ok { s with versions := Table.update s.versions [i] (setVersionStatus .withdrawn) }
  | none =>
    .ok { s with
      results := Table.update s.results [r] (setResultStatus .withdrawn),
      versions := s.versions.map (fun v =>
        if v.resultId = r ∧ v.status = .active then { v with status := .withdrawn } else v) }

/-- The result a conclusion is assembled into or published as: of no products, and its owner's only. -/
def publishConclusion (s : Sys) (actor : UserId) (ws : WorkspaceId) (name : String) : Sys :=
  { s with
    results := s.results ++ [{ workspaceId := ws, ownerUserId := actor, name := name, currentVersion := 1,
                                currentAclType := .ownerOnly, currentExplicitUserIds := [] }],
    versions := s.versions ++ [{ resultId := s.results.length, versionNumber := 1, title := name, refs := {},
                                 publisher := actor, publishedPermissionEnvelope := none }] }

end Irip.Publication
