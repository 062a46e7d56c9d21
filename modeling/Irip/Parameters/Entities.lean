import Irip.Common

/-!
# `Parameters.Entities` — parameters, their candidates and their versions

The rows of `parameter`, `parameter_candidate` and `parameter_version`, the rows of the provenance tables the
parameter service reads and writes, and what the service returns.
-/

namespace Irip.Parameters

/-! ## Errors -/

/-- An exception: a business error, or a statement the database refuses. -/
inductive Exn where
  | app (e : AppError)
  | integrityError

/-! ## Status -/

/-- The values of `parameter.status`. -/
inductive ParameterStatus where
  | draft
  | pendingReview
  | published
  | rejected
  | expired
  | deprecated
deriving DecidableEq, Repr

/-- The stored text of a parameter status. -/
def ParameterStatus.value : ParameterStatus → String
  | .draft => "draft"
  | .pendingReview => "pending_review"
  | .published => "published"
  | .rejected => "rejected"
  | .expired => "expired"
  | .deprecated => "deprecated"

/-- The values of `parameter_candidate.status`, which are those of a review decision too. -/
inductive CandidateStatus where
  | pendingReview
  | approved
  | rejected
deriving DecidableEq, Repr

/-- The stored text of a candidate status. -/
def CandidateStatus.value : CandidateStatus → String
  | .pendingReview => "pending_review"
  | .approved => "approved"
  | .rejected => "rejected"

/-- The values of `parameter_version.status`. -/
inductive VersionStatus where
  | published
  | deprecated
deriving DecidableEq, Repr

/-- The values of `derivation_run.status`. -/
inductive DerivationStatus where
  | pending
  | running
  | succeeded
  | failed
deriving DecidableEq, Repr

/-- The stored text of the status of a derivation run. -/
def DerivationStatus.value : DerivationStatus → String
  | .pending => "pending"
  | .running => "running"
  | .succeeded => "succeeded"
  | .failed => "failed"

/-! ## Rows -/

/-- A row of `parameter`. -/
structure Parameter where
  id : Uuid
  departmentId : Uuid
  ownerUserId : Option Uuid
  visibilityScope : String := "tree"
  variableCode : String
  objectId : Uuid
  status : ParameterStatus := .draft
  lockVersion : Nat := 0
  createdBy : Option Uuid

/-- The primary key and `uq_parameter_dept_var_obj`. -/
def Parameter.clashes (p q : Parameter) : Bool :=
  p.id == q.id ||
    (p.departmentId == q.departmentId && p.variableCode == q.variableCode && p.objectId == q.objectId)

/-- A row of `parameter_candidate`. -/
structure ParameterCandidate where
  id : Uuid
  parameterId : Uuid
  derivationRunId : Uuid
  value : String
  unit : Option String
  confidence : Option String
  confidenceInterval : Option Json := none
  conditions : Option Json := none
  status : CandidateStatus := .pendingReview
  submittedBy : Option Uuid
  submittedAt : Time
  reviewedBy : Option Uuid := none
  reviewedAt : Option Time := none
  reviewDecision : Option CandidateStatus := none
  reviewComment : Option String := none

/-- The primary key and `uq_parameter_candidate_param_deriv`. -/
def ParameterCandidate.clashes (c d : ParameterCandidate) : Bool :=
  c.id == d.id || (c.parameterId == d.parameterId && c.derivationRunId == d.derivationRunId)

/-- A row of `parameter_version`. -/
structure ParameterVersion where
  id : Uuid
  parameterId : Uuid
  version : Nat
  value : String
  unit : Option String
  confidence : Option String
  confidenceInterval : Option Json
  conditions : Option Json
  derivationRunId : Uuid
  status : VersionStatus := .published
  publishedAt : Time
  publishedBy : Uuid
  lockVersion : Nat := 0

/-- The primary key and `uq_parameter_version_param_version`. -/
def ParameterVersion.clashes (v w : ParameterVersion) : Bool :=
  v.id == w.id || (v.parameterId == w.parameterId && v.version == w.version)

/-- The columns of `derivation_run` the service reads. -/
structure DerivationRun where
  id : Uuid
  status : DerivationStatus

/-- A row of `provenance_edge`. -/
structure ProvenanceEdge where
  id : Uuid
  departmentId : Uuid
  derivationRunId : Uuid
  sourceType : String
  sourceId : Uuid
  targetType : String
  targetId : Uuid
  edgeType : String

/-! ## Replies -/

/-- A reference to a published version. -/
structure ParameterVersionRef where
  parameterId : Uuid
  version : Nat
  versionId : Uuid
  variableCode : String
  value : String
  unit : Option String
  confidence : Option String
  status : VersionStatus
  conditions : Option Json
  publishedAt : Time

/-- What is returned of a candidate. -/
structure CandidateInfo where
  candidateId : Uuid
  parameterId : Uuid
  derivationRunId : Uuid
  value : String
  unit : Option String
  confidence : Option String
  status : CandidateStatus

/-- What the methods of the service return. -/
inductive Reply where
  | parameter (parameterId : Uuid) (variableCode : String) (objectId : Uuid) (status : ParameterStatus)
  | candidate (info : CandidateInfo)
  | version (ref : ParameterVersionRef)
  | reviewed (candidateId parameterId : Uuid) (status : CandidateStatus) (reviewedBy : Uuid)
      (reviewDecision : Option CandidateStatus)
  | deprecated (parameterId : Uuid) (status : ParameterStatus)

end Irip.Parameters
