import Irip.Base.Dict
import Irip.Publication.Acl
import Irip.Research.System

/-!
# `Publication.Entities` — products, results and their versions

Over the timeline, which keeps the workspaces, the snapshots, the runs and their artifacts, come the products made
of artifacts and the results that publish products. A row's key is its position in its table.
-/

namespace Irip.Publication

open Research (UserId DeptId WorkspaceId SnapshotId RunId RunStatus)

abbrev ProductId := Nat
abbrev ResultId := Nat
abbrev VersionId := Nat

/-! ## Rows -/

/-- The three products a result can publish. -/
inductive ProductKind where
  | dataset
  | view
  | insight
deriving DecidableEq, Repr

/-- The word for it in an error. -/
def ProductKind.label : ProductKind → String
  | .dataset => "数据集"
  | .view => "视图"
  | .insight => "Insight"

/-- The key under which an error names it. -/
def ProductKind.field : ProductKind → String
  | .dataset => "dataset_id"
  | .view => "view_id"
  | .insight => "insight_id"

inductive ProductStatus where
  | draft
  | confirmed
deriving DecidableEq, Repr

/-- The latest version of a product. -/
structure ProductVersion where
  versionNumber : Nat
  contentHash : String

/-- A row of `research_derived_dataset`, `research_view` or `research_insight`. Only a dataset has a column for a
snapshot, and only an insight may be without a run. -/
structure Product where
  workspaceId : WorkspaceId
  ownerUserId : UserId
  name : String
  status : ProductStatus := .confirmed
  sourceRunId : Option RunId
  sourceSnapshotId : Option SnapshotId := none
  version : Option ProductVersion

/-- A reference of a version to a product. -/
structure ProductRef where
  id : ProductId
  versionNumber : Nat
  contentHash : String
  name : String

structure ProductRefCollection where
  datasetVersionRefs : List ProductRef := []
  viewVersionRefs : List ProductRef := []
  insightVersionRefs : List ProductRef := []
  evidenceSnapshotIds : List SnapshotId := []
  analysisRunIds : List RunId := []
  sourceRunStatuses : Dict RunId RunStatus := ∅

/-- The values of `ResearchResult.status` the services write. -/
inductive ResultStatus where
  | published
  | withdrawn
deriving DecidableEq, Repr

/-- A row of `research_result`. -/
structure ResearchResult where
  workspaceId : WorkspaceId
  ownerUserId : UserId
  name : String
  status : ResultStatus := .published
  currentVersion : Nat
  currentAclType : AclType
  currentExplicitUserIds : List UserId

/-- The values of `ResearchResultVersion.status`. -/
inductive VersionStatus where
  | active
  | superseded
  | withdrawn
deriving DecidableEq, Repr

/-- A row of `research_result_version`. -/
structure ResearchResultVersion where
  resultId : ResultId
  versionNumber : Nat
  title : String
  refs : ProductRefCollection
  publisher : UserId
  publishedPermissionEnvelope : Option PermissionEnvelope
  status : VersionStatus := .active

/-- A row of `research_result_acl_revision`. -/
structure ResultAclRevision where
  resultId : ResultId
  revisionNumber : Nat
  aclType : AclType
  explicitUserIds : List UserId
  previousAclType : Option AclType
  previousExplicitUserIds : Option (List UserId)
  changedBy : UserId
  changeReason : Option String
  isDeclassify : Bool
  declassifyReason : Option String

/-- A publish request. -/
structure PublishRequest where
  title : String
  datasetIds : List ProductId := []
  viewIds : List ProductId := []
  insightIds : List ProductId := []
  requestedAcl : AclType := .ownerOnly
  explicitUserIds : List UserId := []
  isDeclassify : Bool := false
  declassifyReason : String := ""

/-- `request.is_declassify and request.declassify_reason`. -/
def PublishRequest.declassifies (req : PublishRequest) : Bool := req.isDeclassify && req.declassifyReason != ""

/-! ## The state -/

/-- The state of the research domain as far as publication goes. -/
structure Sys where
  timeline : Research.Sys := {}
  visible : UserId → DeptId → Bool := fun _ _ => false -- the departments in the tree a user sees
  envelopes : List SnapshotEnvelope := [] -- of the snapshot with the same key
  datasets : List (Option Product) := [] -- `none` once it is deleted
  views : List (Option Product) := []
  insights : List (Option Product) := []
  results : List ResearchResult := []
  versions : List ResearchResultVersion := []
  revisions : List ResultAclRevision := []

namespace Sys

variable (s : Sys)

def products : ProductKind → List (Option Product)
  | .dataset => s.datasets
  | .view => s.views
  | .insight => s.insights

/-- The row policy of the tables of a workspace: the user owns it, and sees its department. -/
def sees (actor : UserId) (ws : WorkspaceId) : Bool :=
  s.timeline.db.workspaces[ws]?.any (fun w => w.ownerUserId == actor && s.visible actor w.departmentId)

/-- `get_dataset`, `get_view` and `get_insight`. -/
def getProduct (actor : UserId) (ws : WorkspaceId) (kind : ProductKind) (id : ProductId) : Option Product :=
  (s.products kind)[id]?.join.filter (fun p => p.workspaceId == ws && s.sees actor p.workspaceId)

def getRunStatus (actor : UserId) (r : RunId) : Option RunStatus :=
  (s.timeline.db.runs[r]?.filter (fun run => s.sees actor run.workspaceId)).map Research.AnalysisRun.status

def getSnapshotEnvelope (actor : UserId) (id : SnapshotId) : Option SnapshotEnvelope :=
  (s.timeline.db.snapshots[id]?.filter (fun row => s.sees actor row.workspaceId)).bind (fun _ => s.envelopes[id]?)

def getLatestSnapshot (actor : UserId) (ws : WorkspaceId) : Option SnapshotId :=
  (List.range s.timeline.db.snapshots.length).reverse.find? (fun id =>
    s.timeline.db.snapshots[id]?.any (fun row => row.workspaceId == ws && s.sees actor ws))

/-- `get_latest_result_version`: the version of the result with the largest number. -/
def getLatestVersion (r : ResultId) : Option VersionId :=
  (List.range s.versions.length).find? (fun i => s.versions[i]?.any (fun v =>
    v.resultId == r && s.versions.all (fun w => !(w.resultId == r) || decide (w.versionNumber ≤ v.versionNumber))))

/-- `get_latest_acl_revision`: revisions are only ever appended, with the next number. -/
def getLatestRevision (r : ResultId) : Option ResultAclRevision :=
  s.revisions.reverse.find? (fun x => x.resultId == r)

/-! ## Users -/

/-- The ACL of the envelope a snapshot was frozen with. -/
def snapshotAcl (id : SnapshotId) : AclType :=
  (s.envelopes[id]?.map (fun e => PermissionEnvelopeCalculator.extractAclFromEnvelope e.permissionEnvelope)).getD
    .ownerOnly

/-- The users allowed by the current ACL of a result. -/
def audience (result : ResearchResult) : Set UserId :=
  {u | ∃ w ∈ s.timeline.db.workspaces[result.workspaceId]?,
    u ∈ result.currentAclType.audience s.visible ⟨result.ownerUserId, w.departmentId⟩ result.currentExplicitUserIds}

/-- The users inside the permission envelope of a snapshot: it speaks of the owner and the department of the
workspace the snapshot was frozen in. -/
def envelope (id : SnapshotId) : Set UserId :=
  {u | ∀ row ∈ s.timeline.db.snapshots[id]?, ∀ w ∈ s.timeline.db.workspaces[row.workspaceId]?,
    u ∈ (s.snapshotAcl id).audience s.visible ⟨w.ownerUserId, w.departmentId⟩ []}

/-- The snapshots the runs were executed on. -/
def snapshotsOf (runs : List RunId) : List SnapshotId :=
  runs.filterMap (fun r => s.timeline.db.runs[r]?.map Research.AnalysisRun.snapshotId)

end Sys

end Irip.Publication
