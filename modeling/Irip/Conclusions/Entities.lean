import Irip.Common

/-!
# `Conclusions.Entities` — candidates, conclusions and their revisions

The rows of `research_conclusion_candidate`, `research_conclusion` and `research_conclusion_revision`, the commands
of the conclusion service, and what it returns.
-/

namespace Irip.Conclusions

/-! ## Errors -/

/-- An exception: a business error, or a statement the database refuses. -/
inductive Exn where
  | app (e : AppError)
  | integrityError

/-! ## Status -/

/-- The values of `research_conclusion_candidate.status`. -/
inductive CandidateStatus where
  | pending
  | saved
  | rejected
deriving DecidableEq, Repr

/-- The stored text of a candidate status. -/
def CandidateStatus.value : CandidateStatus → String
  | .pending => "pending"
  | .saved => "saved"
  | .rejected => "rejected"

/-- The values of `research_conclusion.status`. -/
inductive ConclusionStatus where
  | active
  | archived
deriving DecidableEq, Repr

/-- The values of `research_conclusion.source_type`. -/
inductive SourceType where
  | aiOriginal
  | aiEdited
  | manual
deriving DecidableEq, Repr

/-- The values of `research_conclusion.evidence_status`. -/
inductive EvidenceStatus where
  | dataSupported
  | manualUnverified
deriving DecidableEq, Repr

/-! ## Rows -/

/-- What the service reads of a row of `research_turn`. -/
structure ResearchTurn where
  id : Uuid
  workspaceId : Uuid

/-- A row of `research_conclusion_candidate`. -/
structure ResearchConclusionCandidate where
  id : Uuid
  extractionId : Uuid
  turnId : Uuid
  ordinal : Nat
  statement : String
  scope : Option String := none
  evidenceRefs : List Json := []
  methodRefs : List Json := []
  confidenceLevel : Option String := none
  limitations : Option String := none
  status : CandidateStatus := .pending
  savedConclusionId : Option Uuid := none

/-- A row of `research_conclusion`. -/
structure ResearchConclusion where
  id : Uuid
  workspaceId : Uuid
  currentRevisionId : Option Uuid := none
  sourceTurnId : Option Uuid := none
  sourceRunId : Option Uuid := none
  sourceCandidateId : Option Uuid := none
  sourceType : SourceType
  evidenceStatus : EvidenceStatus
  status : ConclusionStatus := .active
  createdBy : Uuid
  lockVersion : Int := 0

/-- A row of `research_conclusion_revision`. -/
structure ResearchConclusionRevision where
  id : Uuid
  conclusionId : Uuid
  revisionNumber : Nat
  statement : String
  scope : Option String := none
  evidenceRefs : List Json := []
  limitations : Option String := none
  editor : Uuid

/-! ## Commands -/

/-- One candidate to save, with what the user has edited. -/
structure CandidateSelection where
  candidateId : Uuid
  editedStatement : Option String := none
  editedScope : Option String := none
  editedLimitations : Option String := none

/-- The keys a command may carry: 1 to 128 characters. -/
def IdempotencyKey (key : String) : Prop := key ≠ "" ∧ key.length ≤ 128

instance (key : String) : Decidable (IdempotencyKey key) := inferInstanceAs (Decidable (_ ∧ _))

theorem idempotencyKey_k : IdempotencyKey "k" := by decide

structure SaveCandidatesCommand where
  workspaceId : Uuid
  turnId : Uuid
  selections : List CandidateSelection
  idempotencyKey : String
  nonempty : selections ≠ []
  atMost : selections.length ≤ 20
  key : IdempotencyKey idempotencyKey

structure CreateManualConclusionCommand where
  workspaceId : Uuid
  statement : String
  idempotencyKey : String
  scope : Option String := none
  limitations : Option String := none
  nonblank : isBlank statement = false
  key : IdempotencyKey idempotencyKey

structure ReviseConclusionCommand where
  workspaceId : Uuid
  conclusionId : Uuid
  statement : String
  expectedLockVersion : Int
  scope : Option String := none
  limitations : Option String := none
  nonblank : isBlank statement = false

/-- A candidate as the extraction hands it over. -/
structure CandidateDict where
  statement : String
  scope : Option String := none
  evidenceRefs : List Json := []
  methodRefs : List Json := []
  confidenceLevel : Option String := none
  limitations : Option String := none

/-! ## Replies -/

structure ConclusionRef where
  conclusionId : Uuid
  workspaceId : Uuid
  sourceType : SourceType
  evidenceStatus : EvidenceStatus
  status : ConclusionStatus
  revisionNumber : Nat
  statement : String

/-- The reference to a conclusion at one of its revisions. -/
def ResearchConclusion.ref (c : ResearchConclusion) (revisionNumber : Nat) (statement : String) :
    ConclusionRef :=
  { conclusionId := c.id, workspaceId := c.workspaceId, sourceType := c.sourceType,
    evidenceStatus := c.evidenceStatus, status := c.status, revisionNumber := revisionNumber,
    statement := statement }

/-- What a method returns. -/
inductive Reply where
  | refs (refs : List ConclusionRef)
  | ref (ref : ConclusionRef)
  | block (conclusionId : Uuid) (statement : String)
  | archived (conclusionId : Uuid)
  | done

end Irip.Conclusions
