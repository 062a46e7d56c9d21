import Mathlib.Data.List.Basic

/-!
# `Research.StateMachine` — the statuses of the research timeline

The status columns of turns, runs, recommendation batches and candidate extraction jobs, and the transition
tables of `state_machine.py`. The tables are pure functions: a writer has to consult them for them to have
an effect.
-/

namespace Irip.Research

/-! ## Turns -/

/-- The values of `ResearchTurn.status`. -/
inductive TurnStatus where
  | questionDraft
  | planning
  | planningFailed
  | planReview
  | planConfirmed
  | queued
  | running
  | runFailed
  | succeeded
  | conclusionReviewed
  | succeededWithoutSavedConclusion
  | cancelled
deriving DecidableEq, Repr

/-- The stored text of a status. -/
def TurnStatus.value : TurnStatus → String
  | .questionDraft => "question_draft"
  | .planning => "planning"
  | .planningFailed => "planning_failed"
  | .planReview => "plan_review"
  | .planConfirmed => "plan_confirmed"
  | .queued => "queued"
  | .running => "running"
  | .runFailed => "run_failed"
  | .succeeded => "succeeded"
  | .conclusionReviewed => "conclusion_reviewed"
  | .succeededWithoutSavedConclusion => "succeeded_without_saved_conclusion"
  | .cancelled => "cancelled"

def turnTransitions : TurnStatus → List TurnStatus
  | .questionDraft => [.planning, .planningFailed, .cancelled]
  | .planning => [.planReview, .planningFailed, .cancelled]
  | .planningFailed => [.planning, .cancelled]
  | .planReview => [.planConfirmed, .planningFailed, .cancelled]
  | .planConfirmed => [.queued, .cancelled]
  | .queued => [.running, .cancelled]
  | .running => [.succeeded, .runFailed, .cancelled]
  | .runFailed => [.queued, .cancelled]
  | .succeeded => [.conclusionReviewed, .succeededWithoutSavedConclusion]
  | .conclusionReviewed => []
  | .succeededWithoutSavedConclusion => []
  | .cancelled => []

def activeTurnStatuses : List TurnStatus := [.queued, .running]

def runnableTurnStatuses : List TurnStatus := [.planConfirmed, .runFailed]

namespace TurnStateMachine

/-- `transition`, `none` when it raises `InvalidTurnTransition`. -/
def transition (current target : TurnStatus) : Option TurnStatus :=
  if current = target then some target
  else if target ∈ turnTransitions current then some target
  else none

def canPlan (s : TurnStatus) : Bool := s ∈ [TurnStatus.questionDraft, .planningFailed]

def canRun (s : TurnStatus) : Bool := s ∈ runnableTurnStatuses

def isActive (s : TurnStatus) : Bool := s ∈ activeTurnStatuses

def isTerminal (s : TurnStatus) : Bool := (turnTransitions s).length == 0

end TurnStateMachine

/-! ## Batches and extraction jobs -/

/-- The values of `ResearchRecommendationBatch.status`. -/
inductive BatchStatus where
  | queued
  | running
  | succeeded
  | failed
  | cancelled
deriving DecidableEq, Repr

/-- The stored text of a status. -/
def BatchStatus.value : BatchStatus → String
  | .queued => "queued"
  | .running => "running"
  | .succeeded => "succeeded"
  | .failed => "failed"
  | .cancelled => "cancelled"

def RecommendationBatchStateMachine.canRetry (s : BatchStatus) : Bool := s == .failed

/-- The values of `CandidateExtractionJob.status`. -/
inductive ExtractionStatus where
  | queued
  | running
  | succeeded
  | failed
  | taskLost
  | cancelled
deriving DecidableEq, Repr

/-- The stored text of a status. -/
def ExtractionStatus.value : ExtractionStatus → String
  | .queued => "queued"
  | .running => "running"
  | .succeeded => "succeeded"
  | .failed => "failed"
  | .taskLost => "task_lost"
  | .cancelled => "cancelled"

def ExtractionStateMachine.canRetry (s : ExtractionStatus) : Bool := s ∈ [ExtractionStatus.failed, .taskLost]

/-! ## Runs -/

/-- The values of `ResearchAnalysisRun.status`. -/
inductive RunStatus where
  | queued
  | planning
  | running
  | partiallySucceeded
  | succeeded
  | failed
  | cancelled
deriving DecidableEq, Repr

/-- The stored text of a status. -/
def RunStatus.value : RunStatus → String
  | .queued => "queued"
  | .planning => "planning"
  | .running => "running"
  | .partiallySucceeded => "partially_succeeded"
  | .succeeded => "succeeded"
  | .failed => "failed"
  | .cancelled => "cancelled"

/-- The statuses of the partial unique index on `workspace_id`: one active run a workspace. -/
def activeRunStatuses : List RunStatus := [.queued, .planning, .running]

/-- The run counts as active. -/
def RunStatus.isActive (s : RunStatus) : Bool := s ∈ activeRunStatuses

/-- The run waits for a worker or is with one. -/
def RunStatus.isPending (s : RunStatus) : Bool := s ∈ [RunStatus.queued, .running]

@[simp] theorem RunStatus.isActive_iff {s : RunStatus} :
    s.isActive = true ↔ s = .queued ∨ s = .planning ∨ s = .running := by
  simp [RunStatus.isActive, activeRunStatuses]

@[simp] theorem RunStatus.isPending_iff {s : RunStatus} :
    s.isPending = true ↔ s = .queued ∨ s = .running := by
  simp [RunStatus.isPending]

/-! ## Edges -/

namespace TurnStateMachine

/-- `transition` accepts the change. -/
def Edge (current target : TurnStatus) : Prop := (transition current target).isSome = true

instance (current target : TurnStatus) : Decidable (Edge current target) :=
  inferInstanceAs (Decidable (_ = true))

theorem Edge.refl (s : TurnStatus) : Edge s s := by
  simp [Edge, transition]

variable {current target : TurnStatus}

theorem edge_iff : Edge current target ↔ current = target ∨ target ∈ turnTransitions current := by
  unfold Edge transition
  by_cases heq : current = target
  · simp [heq]
  · by_cases hmem : target ∈ turnTransitions current
    · simp [heq, hmem]
    · simp [heq, hmem]

/-- **A turn comes to `succeeded` or `run_failed` from `running` only.** -/
theorem Edge.from_running (h : Edge current target)
    (htarget : target = .succeeded ∨ target = .runFailed) : current = target ∨ current = .running := by
  rcases edge_iff.mp h with heq | hmem
  · exact .inl heq
  · refine .inr ?_
    rcases htarget with rfl | rfl
    · cases current <;> simp_all [turnTransitions]
    · cases current <;> simp_all [turnTransitions]

/-- **A terminal status is never left.** -/
theorem Edge.of_terminal (h : Edge current target) (hterminal : isTerminal current = true) : target = current := by
  rcases edge_iff.mp h with heq | hmem
  · exact heq.symm
  · have hnil : turnTransitions current = [] := by
      simpa [isTerminal] using hterminal
    rw [hnil] at hmem
    exact absurd hmem List.not_mem_nil

@[simp] theorem isActive_iff {s : TurnStatus} : isActive s = true ↔ s = .queued ∨ s = .running := by
  simp [isActive, activeTurnStatuses]

end TurnStateMachine

end Irip.Research
