import Irip.Conclusions.Operations

/-!
# `Conclusions.Service` — the methods of the conclusion service

Every method is one transaction, and a program of statements. `insert_candidates`, which the extraction of
candidates runs in its own transaction, is the source of the candidates; turns are created elsewhere.
-/

namespace Irip.Conclusions

open Prog (lift)

/-- The programs of the service. -/
abbrev M := Prog Op Res Exn

/-- One statement. -/
abbrev ask (o : Op) : M (Res o) := Prog.perform o

/-- `raise AppError(...)`. -/
abbrev raise {α : Type} (e : AppError) : M α := .raise (.app e)

/-- An instance of the service: the user it acts for. -/
structure Service where
  actorId : Option Uuid

/-! ## Checks -/

def requireActor (service : Service) : Except Exn Uuid :=
  match service.actorId with
  | some actorId => .ok actorId
  | none => .error (.app { code := "forbidden", message := "操作需要已认证用户" })

/-- The error of a candidate that does not exist. -/
def candidateNotFound (candidateId : Uuid) : AppError :=
  { code := "not_found", message := "候选结论不存在", fields := [("candidate_id", .str candidateId)] }

/-- The error of a candidate whose status does not allow what was asked. -/
def candidateConflict (candidateId : Uuid) (message : String) : AppError :=
  { code := "state_conflict", message := message, retryable := true,
    fields := [("candidate_id", .str candidateId)] }

/-- The error of a conclusion that does not exist. -/
def conclusionNotFound (conclusionId : Uuid) : AppError :=
  { code := "not_found", message := "结论不存在", fields := [("conclusion_id", .str conclusionId)] }

/-- The error of a conclusion that is at another lock version. -/
def lockMismatch (conclusionId : Uuid) (expected : Int) : AppError :=
  { code := "state_conflict", message := "Conclusion " ++ conclusionId ++ " lock version mismatch",
    retryable := true, fields := [("conclusion_id", .str conclusionId), ("expected_lock", .int expected)] }

/-- The texts differ, whatever space surrounds them. -/
def edited (text original : Option String) : Bool :=
  match text, original with
  | some text, some original => strip text ≠ strip original
  | _, _ => false

def determineSourceType (candidate : ResearchConclusionCandidate) (selection : CandidateSelection) : SourceType :=
  if edited selection.editedStatement (some candidate.statement)
      || edited selection.editedScope candidate.scope
      || edited selection.editedLimitations candidate.limitations then .aiEdited
  else .aiOriginal

/-! ## Saving -/

/-- The conclusion a saved candidate has already, with its latest revision. -/
def existingRef (candidate : ResearchConclusionCandidate) : M (Option ConclusionRef) :=
  match candidate.status, candidate.savedConclusionId with
  | .saved, some conclusionId => do
    let conclusion ← ask (.getConclusion conclusionId)
    match conclusion with
    | none => return none
    | some c =>
      let revision ← ask (.getLatestRevision c.id)
      return revision.map (fun r => c.ref r.revisionNumber r.statement)
  | _, _ => return none

/-- A new conclusion with its revision 1: `insert_conclusion`, `insert_revision`, `set_current_revision`. The
conclusion and the revision get the identifiers drawn for them. -/
def insertFirst (conclusion : ResearchConclusion) (revision : ResearchConclusionRevision) :
    M (ResearchConclusion × ResearchConclusionRevision) := do
  let id ← ask .newId
  let inserted ← ask (.insertConclusion { conclusion with id := id })
  let _ ← lift inserted
  let revisionId ← ask .newId
  let written ← ask (.insertRevision { revision with id := revisionId, conclusionId := id })
  let _ ← lift written
  let _ ← ask (.setCurrentRevision id revisionId)
  return ({ conclusion with id := id }, { revision with id := revisionId, conclusionId := id })

/-- The conclusion a candidate becomes. -/
def savedConclusion (workspaceId actorId : Uuid) (candidate : ResearchConclusionCandidate)
    (selection : CandidateSelection) : ResearchConclusion :=
  { id := "", workspaceId := workspaceId, sourceTurnId := some candidate.turnId,
    sourceCandidateId := some candidate.id, sourceType := determineSourceType candidate selection,
    evidenceStatus := .dataSupported, createdBy := actorId }

/-- Its revision 1: what the user has edited, and the candidate's own text elsewhere. An empty statement counts
as none given. -/
def savedRevision (actorId : Uuid) (candidate : ResearchConclusionCandidate) (selection : CandidateSelection) :
    ResearchConclusionRevision :=
  { id := "", conclusionId := "", revisionNumber := 1,
    statement := (selection.editedStatement.filter (fun s => s ≠ "")).getD candidate.statement,
    scope := selection.editedScope.or candidate.scope, evidenceRefs := candidate.evidenceRefs,
    limitations := selection.editedLimitations.or candidate.limitations, editor := actorId }

/-- The steps of `save_candidates` for a candidate that becomes a conclusion. -/
def saveCandidate (workspaceId actorId : Uuid) (candidate : ResearchConclusionCandidate)
    (selection : CandidateSelection) : M ConclusionRef := do
  let (conclusion, revision) ← insertFirst (savedConclusion workspaceId actorId candidate selection)
    (savedRevision actorId candidate selection)
  let _ ← ask (.updateCandidateStatus candidate.id .saved (some conclusion.id))
  return conclusion.ref 1 revision.statement

/-- The loop of `save_candidates`. -/
def saveSelections (workspaceId actorId : Uuid) : List CandidateSelection → List ConclusionRef → M Reply
  | [], results => return .refs results
  | selection :: selections, results => do
    let found ← ask (.getCandidate selection.candidateId)
    match found with
    | none => raise (candidateNotFound selection.candidateId)
    | some candidate =>
      let existing ← existingRef candidate
      match existing with
      | some ref => saveSelections workspaceId actorId selections (results ++ [ref])
      | none =>
        if candidate.status = .rejected then
          raise (candidateConflict selection.candidateId "候选已被拒绝，无法保存")
        else
          let ref ← saveCandidate workspaceId actorId candidate selection
          saveSelections workspaceId actorId selections (results ++ [ref])

def saveCandidates (service : Service) (command : SaveCandidatesCommand) : M Reply := do
  let actorId ← lift (requireActor service)
  saveSelections command.workspaceId actorId command.selections []

/-- `reject_candidate`. The workspace is taken and not looked at. -/
def rejectCandidate (service : Service) (_workspaceId candidateId : Uuid) : M Reply := do
  let _ ← lift (requireActor service)
  let found ← ask (.getCandidate candidateId)
  match found with
  | none => raise (candidateNotFound candidateId)
  | some candidate =>
    if candidate.status ≠ .pending then
      raise (candidateConflict candidateId ("候选状态为 '" ++ candidate.status.value ++ "'，无法拒绝"))
    else
      let _ ← ask (.updateCandidateStatus candidateId .rejected none)
      return .done

/-! ## Other conclusions -/

def createManual (service : Service) (command : CreateManualConclusionCommand) : M Reply := do
  let actorId ← lift (requireActor service)
  let (conclusion, revision) ← insertFirst
    { id := "", workspaceId := command.workspaceId, sourceType := .manual, evidenceStatus := .manualUnverified,
      createdBy := actorId }
    { id := "", conclusionId := "", revisionNumber := 1, statement := command.statement, scope := command.scope,
      limitations := command.limitations, editor := actorId }
  return .ref (conclusion.ref 1 revision.statement)

def saveFromBlock (service : Service) (workspaceId turnId : Uuid) (statement : String) : M Reply := do
  if isBlank statement then
    raise { code := "validation_failed", message := "结论内容不能为空" }
  else
    let actorId ← lift (requireActor service)
    let turn ← ask (.getTurn turnId)
    match turn with
    | none => raise { code := "not_found", message := "Turn not found" }
    | some turn =>
      if turn.workspaceId ≠ workspaceId then raise { code := "not_found", message := "Turn not found" }
      else
        let (conclusion, revision) ← insertFirst
          { id := "", workspaceId := workspaceId, sourceTurnId := some turnId, sourceType := .aiOriginal,
            evidenceStatus := .dataSupported, createdBy := actorId }
          { id := "", conclusionId := "", revisionNumber := 1, statement := statement, editor := actorId }
        return .block conclusion.id revision.statement

/-! ## Changes -/

/-- `revise`. The status of the conclusion is not looked at. -/
def revise (service : Service) (command : ReviseConclusionCommand) : M Reply := do
  let actorId ← lift (requireActor service)
  let found ← ask (.getConclusion command.conclusionId)
  match found with
  | none => raise (conclusionNotFound command.conclusionId)
  | some conclusion =>
    if conclusion.workspaceId ≠ command.workspaceId then raise (conclusionNotFound command.conclusionId)
    else
      let locked ← ask (.updateConclusionLock command.conclusionId command.expectedLockVersion)
      if locked then
        let last ← ask (.getLatestRevision command.conclusionId)
        let revisionId ← ask .newId
        let revision : ResearchConclusionRevision :=
          { id := revisionId, conclusionId := command.conclusionId,
            revisionNumber := (last.map ResearchConclusionRevision.revisionNumber).getD 0 + 1,
            statement := command.statement, scope := command.scope,
            evidenceRefs := (last.map ResearchConclusionRevision.evidenceRefs).getD [],
            limitations := command.limitations, editor := actorId }
        let written ← ask (.insertRevision revision)
        let _ ← lift written
        let _ ← ask (.setCurrentRevision command.conclusionId revisionId)
        return .ref (conclusion.ref revision.revisionNumber command.statement)
      else raise (lockMismatch command.conclusionId command.expectedLockVersion)

def archive (service : Service) (workspaceId conclusionId : Uuid) (expectedLockVersion : Int) : M Reply := do
  let _ ← lift (requireActor service)
  let found ← ask (.getConclusion conclusionId)
  match found with
  | none => raise (conclusionNotFound conclusionId)
  | some conclusion =>
    if conclusion.workspaceId ≠ workspaceId then raise (conclusionNotFound conclusionId)
    else
      let archived ← ask (.archiveConclusion conclusionId expectedLockVersion)
      if archived then return .done else raise (lockMismatch conclusionId expectedLockVersion)

/-- `delete_conclusion`. The session carries no tenant, and the flush writes the status only where the row it has
loaded holds another. -/
def deleteConclusion (workspaceId conclusionId : Uuid) : M Reply := do
  let found ← ask (.selectConclusionIn conclusionId workspaceId)
  match found with
  | none => raise { code := "not_found", message := "Conclusion not found" }
  | some conclusion =>
    if conclusion.status = .archived then return .archived conclusionId
    else
      let _ ← ask (.flushArchived conclusionId)
      return .archived conclusionId

/-! ## Where turns and candidates come from -/

/-- A new turn of a workspace. -/
def createTurn (workspaceId : Uuid) : M Reply := do
  let id ← ask .newId
  let inserted ← ask (.insertTurn { id := id, workspaceId := workspaceId })
  let _ ← lift inserted
  return .done

/-- `insert_candidates`, from the candidate at position `ordinal` on. -/
def insertCandidates (extractionId turnId : Uuid) : Nat → List CandidateDict → M Reply
  | _, [] => return .done
  | ordinal, c :: cs => do
    let id ← ask .newId
    let inserted ← ask (.insertCandidate
      { id := id, extractionId := extractionId, turnId := turnId, ordinal := ordinal, statement := c.statement,
        scope := c.scope, evidenceRefs := c.evidenceRefs, methodRefs := c.methodRefs,
        confidenceLevel := c.confidenceLevel, limitations := c.limitations })
    let _ ← lift inserted
    insertCandidates extractionId turnId (ordinal + 1) cs

/-! ## Calls -/

/-- A call of the service. -/
inductive Call where
  | createTurn (workspaceId : Uuid)
  | insertCandidates (extractionId turnId : Uuid) (candidates : List CandidateDict)
  | saveCandidates (service : Service) (command : SaveCandidatesCommand)
  | rejectCandidate (service : Service) (workspaceId candidateId : Uuid)
  | createManual (service : Service) (command : CreateManualConclusionCommand)
  | saveFromBlock (service : Service) (workspaceId turnId : Uuid) (statement : String)
  | revise (service : Service) (command : ReviseConclusionCommand)
  | archive (service : Service) (workspaceId conclusionId : Uuid) (expectedLockVersion : Int)
  | deleteConclusion (workspaceId conclusionId : Uuid)

/-- The program of a call. -/
def Call.prog : Call → M Reply
  | .createTurn workspaceId => Conclusions.createTurn workspaceId
  | .insertCandidates extractionId turnId cs => Conclusions.insertCandidates extractionId turnId 0 cs
  | .saveCandidates service command => Conclusions.saveCandidates service command
  | .rejectCandidate service workspaceId id => Conclusions.rejectCandidate service workspaceId id
  | .createManual service command => Conclusions.createManual service command
  | .saveFromBlock service workspaceId turnId s => Conclusions.saveFromBlock service workspaceId turnId s
  | .revise service command => Conclusions.revise service command
  | .archive service workspaceId id expected => Conclusions.archive service workspaceId id expected
  | .deleteConclusion workspaceId id => Conclusions.deleteConclusion workspaceId id

/-- The workspace a call names. -/
def Call.workspaceId : Call → Option Uuid
  | .createTurn workspaceId => some workspaceId
  | .insertCandidates _ _ _ => none
  | .saveCandidates _ command => some command.workspaceId
  | .rejectCandidate _ workspaceId _ => some workspaceId
  | .createManual _ command => some command.workspaceId
  | .saveFromBlock _ workspaceId _ _ => some workspaceId
  | .revise _ command => some command.workspaceId
  | .archive _ workspaceId _ _ => some workspaceId
  | .deleteConclusion workspaceId _ => some workspaceId

/-- The lock version a call was made against. -/
def Call.expectedLockVersion : Call → Option Int
  | .revise _ command => some command.expectedLockVersion
  | .archive _ _ _ expected => some expected
  | _ => none

/-! ## The system -/

/-- The sessions and the tables. -/
abbrev System := Server Call Write Op Res Exn Reply Database

/-- What happens next. -/
abbrev Action := Server.Action Call Answer

/-- The step function. -/
def step : System → Action → Option System := Server.step engine Call.prog

/-- Empty tables, and no session. -/
def start : System := { committed := {}, sessions := [] }

end Irip.Conclusions
