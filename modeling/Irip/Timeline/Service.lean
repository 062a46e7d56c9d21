import Irip.Base.Dict
import Irip.Base.Txn
import Irip.Common
import Irip.Research.StateMachine

/-!
# `Timeline.Service` — the turn service, and requests that run at once

Each operation is one SQL statement, or a new identifier. Of the tables that others write, the changes they make to them are
statements too.

`create_analysis_turn` and `create_synthesis_turn` differ in what they make, not in how: both are `createTurn`. Whether a
`SELECT … FOR UPDATE` refreshes a row that the session has loaded before is left open (`refresh`).
-/

namespace Irip.Timeline

open Research (TurnStatus)

/-! ## Rows -/

structure ResearchWorkspace where
  ownerUserId : Uuid
  nextTurnNumber : Nat := 1

structure ResearchEvidenceSnapshot where
  workspaceId : Uuid

structure ResearchConclusion where
  workspaceId : Uuid

structure ResearchConclusionRevision where
  conclusionId : Uuid

/-- The values of `research_turn.kind`. -/
inductive TurnKind where
  | analysis
  | synthesis

structure ResearchTurn where
  workspaceId : Uuid
  turnNumber : Nat
  kind : TurnKind
  status : TurnStatus := .questionDraft
  questionText : String
  questionOrigin : String
  evidenceSnapshotId : Uuid
  recommendationItemId : Option Uuid := none
  idempotencyKey : String

/-- A turn of a workspace under an idempotency key. -/
def ResearchTurn.isUnder (workspaceId : Uuid) (key : String) (t : ResearchTurn) : Bool :=
  t.workspaceId = workspaceId && t.idempotencyKey = key

structure ResearchTurnContext where
  turnId : Uuid
  conclusionRevisionId : Uuid
  position : Nat

/-- An entry of the audit log. -/
structure AuditEvent where
  action : String
  actorUserId : Uuid
  resourceId : Uuid
  turnNumber : Nat
  kind : TurnKind
  contextCount : Nat

/-- The tables. -/
structure Database where
  workspaces : Dict Uuid ResearchWorkspace := ∅
  snapshots : Dict Uuid ResearchEvidenceSnapshot := ∅
  conclusions : Dict Uuid ResearchConclusion := ∅
  revisions : Dict Uuid ResearchConclusionRevision := ∅
  turns : Dict Uuid ResearchTurn := ∅
  contexts : List ResearchTurnContext := []
  audits : List AuditEvent := []

/-- An exception: a business error, a statement the database refuses, or a row that has to be there and is not. -/
inductive Exn where
  | app (e : AppError)
  | integrityError
  | noResultFound

/-! ## Writes -/

/-- What others write, while a workspace moves on. -/
inductive Change where
  | insertWorkspace (id ownerUserId : Uuid)
  | insertSnapshot (id : Uuid) (row : ResearchEvidenceSnapshot)
  | insertConclusion (id : Uuid) (row : ResearchConclusion)
  | insertRevision (id : Uuid) (row : ResearchConclusionRevision)
  | setTurnStatus (id : Uuid) (status : TurnStatus)

/-- An inserted row has a key of its own. -/
def Change.admitted (d : Database) : Change → Bool
  | .insertWorkspace id _ => (d.workspaces.get? id).isNone
  | .insertSnapshot id _ => (d.snapshots.get? id).isNone
  | .insertConclusion id _ => (d.conclusions.get? id).isNone
  | .insertRevision id _ => (d.revisions.get? id).isNone
  | .setTurnStatus _ _ => true

def Change.apply : Change → Database → Database
  | .insertWorkspace id owner, d => { d with workspaces := d.workspaces.set id { ownerUserId := owner } }
  | .insertSnapshot id row, d => { d with snapshots := d.snapshots.set id row }
  | .insertConclusion id row, d => { d with conclusions := d.conclusions.set id row }
  | .insertRevision id row, d => { d with revisions := d.revisions.set id row }
  | .setTurnStatus id status, d => { d with turns := d.turns.modify id (fun t => { t with status := status }) }

/-- The effect of a statement on rows. A lookup that finds no turn leaves a mark, which changes nothing and excludes nobody. -/
inductive Write where
  | change (c : Change)
  | missed (workspaceId : Uuid) (key : String)
  | lockWorkspace (id : Uuid)
  | setNextTurnNumber (id : Uuid) (n : Nat)
  | insertTurn (id : Uuid) (row : ResearchTurn)
  | insertTurnContext (rows : List ResearchTurnContext)
  | recordAudit (event : AuditEvent)

def Write.apply : Write → Database → Database
  | .change c, d => c.apply d
  | .missed _ _, d => d
  | .lockWorkspace _, d => d
  | .setNextTurnNumber id n, d => { d with workspaces := d.workspaces.modify id (fun w => { w with nextTurnNumber := n }) }
  | .insertTurn id row, d => { d with turns := d.turns.set id row }
  | .insertTurnContext rows, d => { d with contexts := d.contexts ++ rows }
  | .recordAudit event, d => { d with audits := d.audits ++ [event] }

/-- A row, or a key of a unique index: `uq_turn_workspace_number` and `uq_turn_idempotency`. -/
inductive RowKey where
  | workspace (id : Uuid)
  | snapshot (id : Uuid)
  | conclusion (id : Uuid)
  | revision (id : Uuid)
  | turn (id : Uuid)
  | turnNumber (workspaceId : Uuid) (n : Nat)
  | turnKey (workspaceId : Uuid) (key : String)
deriving DecidableEq

def Change.key : Change → RowKey
  | .insertWorkspace id _ => .workspace id
  | .insertSnapshot id _ => .snapshot id
  | .insertConclusion id _ => .conclusion id
  | .insertRevision id _ => .revision id
  | .setTurnStatus id _ => .turn id

/-- What a write takes, until its transaction ends. -/
def Write.keys : Write → List RowKey
  | .change c => [c.key]
  | .missed _ _ => []
  | .lockWorkspace id => [.workspace id]
  | .setNextTurnNumber id _ => [.workspace id]
  | .insertTurn id row =>
    [.turn id, .turnNumber row.workspaceId row.turnNumber, .turnKey row.workspaceId row.idempotencyKey]
  | .insertTurnContext _ => []
  | .recordAudit _ => []

/-- Two writes exclude each other if they take one key. -/
def conflict (w w' : Write) : Bool := w.keys.any (· ∈ w'.keys)

/-! ## Operations -/

/-- A statement. -/
inductive Op where
  | newId
  | getWorkspace (id ownerUserId : Uuid)
  | getSnapshot (id : Uuid)
  | getRevision (id : Uuid)
  | getConclusion (id : Uuid)
  | getTurnByIdempotency (workspaceId : Uuid) (key : String)
  | selectWorkspaceForUpdate (id : Uuid)
  | updateNextTurnNumber (id : Uuid) (n : Nat)
  | insertTurn (id : Uuid) (row : ResearchTurn)
  | insertTurnContext (rows : List ResearchTurnContext)
  | recordAudit (event : AuditEvent)
  | change (c : Change)

/-- What a statement answers. -/
@[reducible] def Res : Op → Type
  | .newId => Uuid
  | .getWorkspace _ _ => Option ResearchWorkspace
  | .getSnapshot _ => Option ResearchEvidenceSnapshot
  | .getRevision _ => Option ResearchConclusionRevision
  | .getConclusion _ => Option ResearchConclusion
  | .getTurnByIdempotency _ _ => Option (Uuid × ResearchTurn)
  | .selectWorkspaceForUpdate _ => Option ResearchWorkspace
  | .updateNextTurnNumber _ _ => Unit
  | .insertTurn _ _ => Except Exn Unit
  | .insertTurnContext _ => Unit
  | .recordAudit _ => Unit
  | .change _ => Except Exn Unit

/-- Another turn has the primary key, or the number or the idempotency key in the workspace. -/
def taken (d : Database) (id : Uuid) (row : ResearchTurn) : Bool :=
  (d.turns.get? id).isSome || d.turns.anyRow (fun t =>
    t.workspaceId = row.workspaceId && (t.turnNumber = row.turnNumber || t.idempotencyKey = row.idempotencyKey))

/-- What a statement answers and writes; the surroundings contribute the new identifiers. -/
def handle : (o : Op) → Uuid → Database → Option (Res o × List Write)
  | .newId, id, _ => some (id, [])
  | .getWorkspace id owner, _, d => some ((d.workspaces.get? id).filter (fun w => w.ownerUserId = owner), [])
  | .getSnapshot id, _, d => some (d.snapshots.get? id, [])
  | .getRevision id, _, d => some (d.revisions.get? id, [])
  | .getConclusion id, _, d => some (d.conclusions.get? id, [])
  | .getTurnByIdempotency ws key, _, d =>
    match d.turns.findBy (ResearchTurn.isUnder ws key) with
    | some found => some (some found, [])
    | none => some (none, [.missed ws key])
  | .selectWorkspaceForUpdate id, _, d =>
    match d.workspaces.get? id with
    | some w => some (some w, [.lockWorkspace id])
    | none => some (none, [])
  | .updateNextTurnNumber id n, _, _ => some ((), [.setNextTurnNumber id n])
  | .insertTurn id row, _, d =>
    if taken d id row then some (.error .integrityError, []) else some (.ok (), [.insertTurn id row])
  | .insertTurnContext rows, _, _ => some ((), [.insertTurnContext rows])
  | .recordAudit event, _, _ => some ((), [.recordAudit event])
  | .change c, _, d =>
    if c.admitted d then some (.ok (), [.change c]) else some (.error .integrityError, [])

/-- The database engine. -/
def engine : Engine Database Write Uuid Op Res where
  apply := Write.apply
  conflict := conflict
  handle := handle

open Prog (lift)

/-- The programs of the service. -/
abbrev M := Prog Op Res Exn

/-- One statement. -/
abbrev ask (o : Op) : M (Res o) := Prog.perform o

/-- An instance of the service: the user it acts for. -/
structure Service where
  actorId : Option Uuid

/-! ## Errors -/

def forbidden : Exn := .app { code := "forbidden", message := "操作需要已认证用户" }

def workspaceNotFound (id : Uuid) : Exn :=
  .app { code := "not_found", message := "研究工作空间不存在", fields := [("workspace_id", .str id)] }

def snapshotNotFound (id : Uuid) : Exn :=
  .app { code := "not_found", message := "数据快照不存在或不属于此工作空间", fields := [("snapshot_id", .str id)] }

def revisionNotFound (id : Uuid) : Exn :=
  .app { code := "not_found", message := "结论修订不存在", fields := [("revision_id", .str id)] }

def conclusionForeign (id : Uuid) : Exn :=
  .app { code := "not_found", message := "结论不属于此工作空间", fields := [("revision_id", .str id)] }

def requireActor (service : Service) : Except Exn Uuid :=
  match service.actorId with
  | some actorId => .ok actorId
  | none => .error forbidden

/-! ## Commands -/

/-- `CreateTurnCommand`, whose question is normalized. -/
structure CreateTurnCommand where
  workspaceId : Uuid
  questionText : String
  evidenceSnapshotId : Uuid
  selectedConclusionRevisionIds : List Uuid
  recommendationItemId : Option Uuid := none
  idempotencyKey : String
  asks : questionText ≠ ""
  few : selectedConclusionRevisionIds.length ≤ 20
  distinct : selectedConclusionRevisionIds.Nodup
  key : idempotencyKey ≠ "" ∧ idempotencyKey.length ≤ 128

structure CreateSynthesisTurnCommand where
  workspaceId : Uuid
  evidenceSnapshotId : Uuid
  selectedConclusionRevisionIds : List Uuid
  idempotencyKey : String
  count : 2 ≤ selectedConclusionRevisionIds.length ∧ selectedConclusionRevisionIds.length ≤ 20
  distinct : selectedConclusionRevisionIds.Nodup
  key : idempotencyKey ≠ "" ∧ idempotencyKey.length ≤ 128

structure TurnRef where
  turnId : Uuid
  workspaceId : Uuid
  turnNumber : Nat
  kind : TurnKind
  status : TurnStatus
  questionText : String
  questionOrigin : String
  evidenceSnapshotId : Uuid

/-- The reference to a row. -/
def ResearchTurn.ref (id : Uuid) (t : ResearchTurn) : TurnRef where
  turnId := id
  workspaceId := t.workspaceId
  turnNumber := t.turnNumber
  kind := t.kind
  status := t.status
  questionText := t.questionText
  questionOrigin := t.questionOrigin
  evidenceSnapshotId := t.evidenceSnapshotId

/-! ## Programs -/

/-- What a request asks for: whose turn, under which key, about what, and what is written for it. -/
structure NewTurn where
  workspaceId : Uuid
  evidenceSnapshotId : Uuid
  revisionIds : List Uuid
  idempotencyKey : String
  kind : TurnKind
  questionText : String
  questionOrigin : String
  recommendationItemId : Option Uuid := none
  action : String

/-- The row of a turn that is made. -/
def NewTurn.row (new : NewTurn) (turnNumber : Nat) : ResearchTurn where
  workspaceId := new.workspaceId
  turnNumber := turnNumber
  kind := new.kind
  questionText := new.questionText
  questionOrigin := new.questionOrigin
  evidenceSnapshotId := new.evidenceSnapshotId
  recommendationItemId := new.recommendationItemId
  idempotencyKey := new.idempotencyKey

/-- The rows of its context, in the order of the selection. -/
def NewTurn.contexts (new : NewTurn) (id : Uuid) : List ResearchTurnContext :=
  new.revisionIds.zipIdx.map (fun r => { turnId := id, conclusionRevisionId := r.1, position := r.2 })

/-- Its entry in the audit log. -/
def NewTurn.event (new : NewTurn) (actorId id : Uuid) (turnNumber : Nat) : AuditEvent where
  action := new.action
  actorUserId := actorId
  resourceId := id
  turnNumber := turnNumber
  kind := new.kind
  contextCount := new.revisionIds.length

/-- The loop over the selected conclusions. -/
def checkRevisions (workspaceId : Uuid) : List Uuid → M Unit
  | [] => return ()
  | revisionId :: revisionIds => do
    let revision ← ask (.getRevision revisionId)
    match revision with
    | none => .raise (revisionNotFound revisionId)
    | some revision =>
      let conclusion ← ask (.getConclusion revision.conclusionId)
      match conclusion with
      | none => .raise (conclusionForeign revisionId)
      | some conclusion =>
        if conclusion.workspaceId ≠ workspaceId then .raise (conclusionForeign revisionId)
        else checkRevisions workspaceId revisionIds

/-- `allocate_turn_number`, of a workspace that the session has loaded before. -/
def allocateTurnNumber (refresh : Bool) (loaded : ResearchWorkspace) (workspaceId : Uuid) : M Nat := do
  let selected ← ask (.selectWorkspaceForUpdate workspaceId)
  match selected with
  | none => .raise .noResultFound
  | some selected =>
    let allocated := (if refresh then selected else loaded).nextTurnNumber
    let _ ← ask (.updateNextTurnNumber workspaceId (allocated + 1))
    return allocated

/-- The steps from the allocation of the number on. -/
def insertNew (refresh : Bool) (actorId : Uuid) (loaded : ResearchWorkspace) (new : NewTurn) : M TurnRef := do
  let turnNumber ← allocateTurnNumber refresh loaded new.workspaceId
  let id ← ask .newId
  let inserted ← ask (.insertTurn id (new.row turnNumber))
  let _ ← lift inserted
  if new.revisionIds = [] then
    let _ ← ask (.recordAudit (new.event actorId id turnNumber))
    return (new.row turnNumber).ref id
  else
    let _ ← ask (.insertTurnContext (new.contexts id))
    let _ ← ask (.recordAudit (new.event actorId id turnNumber))
    return (new.row turnNumber).ref id

/-- What both methods do. -/
def createTurn (refresh : Bool) (service : Service) (new : NewTurn) : M TurnRef := do
  let actorId ← lift (requireActor service)
  let workspace ← ask (.getWorkspace new.workspaceId actorId)
  match workspace with
  | none => .raise (workspaceNotFound new.workspaceId)
  | some workspace =>
    let snapshot ← ask (.getSnapshot new.evidenceSnapshotId)
    if (snapshot.map ResearchEvidenceSnapshot.workspaceId) ≠ some new.workspaceId then
      .raise (snapshotNotFound new.evidenceSnapshotId)
    else
      let _ ← checkRevisions new.workspaceId new.revisionIds
      let existing ← ask (.getTurnByIdempotency new.workspaceId new.idempotencyKey)
      match existing with
      | some (id, turn) => return turn.ref id
      | none => insertNew refresh actorId workspace new

def deriveOrigin (recommendationItemId : Option Uuid) : String :=
  if recommendationItemId.isSome then "initial_ai" else "manual"

/-- What `create_analysis_turn` asks for. -/
def CreateTurnCommand.newTurn (command : CreateTurnCommand) : NewTurn where
  workspaceId := command.workspaceId
  evidenceSnapshotId := command.evidenceSnapshotId
  revisionIds := command.selectedConclusionRevisionIds
  idempotencyKey := command.idempotencyKey
  kind := .analysis
  questionText := command.questionText
  questionOrigin := deriveOrigin command.recommendationItemId
  recommendationItemId := command.recommendationItemId
  action := "research.turn.create"

/-- What `create_synthesis_turn` asks for. -/
def CreateSynthesisTurnCommand.newTurn (command : CreateSynthesisTurnCommand) : NewTurn where
  workspaceId := command.workspaceId
  evidenceSnapshotId := command.evidenceSnapshotId
  revisionIds := command.selectedConclusionRevisionIds
  idempotencyKey := command.idempotencyKey
  kind := .synthesis
  questionText := s!"综合所选的 {command.selectedConclusionRevisionIds.length} 条结论，识别一致、冲突、限制并提出可检验的新假设"
  questionOrigin := "synthesis"
  action := "research.turn.create_synthesis"

def createAnalysisTurn (refresh : Bool) (service : Service) (command : CreateTurnCommand) : M TurnRef :=
  createTurn refresh service command.newTurn

def createSynthesisTurn (refresh : Bool) (service : Service) (command : CreateSynthesisTurnCommand) : M TurnRef :=
  createTurn refresh service command.newTurn

/-! ## System -/

/-- A call of the service, or a change that another service makes. -/
inductive Call where
  | createAnalysisTurn (service : Service) (command : CreateTurnCommand)
  | createSynthesisTurn (service : Service) (command : CreateSynthesisTurnCommand)
  | change (c : Change)

/-- What a call answers. -/
inductive Reply where
  | turn (ref : TurnRef)
  | done

/-- What a call asks for, and for whom. -/
def Call.asks : Call → Option (Service × NewTurn)
  | .createAnalysisTurn service command => some (service, command.newTurn)
  | .createSynthesisTurn service command => some (service, command.newTurn)
  | .change _ => none

/-- The program of a call. -/
def Call.prog (refresh : Bool) : Call → M Reply
  | .createAnalysisTurn service command => do
    let ref ← Timeline.createAnalysisTurn refresh service command
    return .turn ref
  | .createSynthesisTurn service command => do
    let ref ← Timeline.createSynthesisTurn refresh service command
    return .turn ref
  | .change c => do
    let written ← ask (.change c)
    let _ ← lift written
    return .done

/-- A call, with what was committed when it was made. -/
structure Request where
  call : Call
  made : Database

/-- The sessions and the tables. -/
abbrev System := Server Request Write Op Res Exn Reply Database

/-- What happens next. -/
abbrev Action := Server.Action Call Uuid

/-- A call is made with what is committed. -/
def requested (p : System) : Action → Server.Action Request Uuid
  | .call c => .call ⟨c, p.committed⟩
  | .step i a => .step i a
  | .commit i => .commit i
  | .abort i => .abort i

/-- The step function. -/
def step (refresh : Bool) (p : System) (act : Action) : Option System :=
  Server.step engine (fun r : Request => r.call.prog refresh) p (requested p act)

/-- Empty tables, and no session. -/
def start : System := { committed := {}, sessions := [] }

end Irip.Timeline
