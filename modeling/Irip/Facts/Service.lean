import Irip.Base.Prog
import Irip.Base.Dict
import Irip.Common

/-!
# `Facts.Service` — facts and their creation

`FactService.create` looks for a fact with the idempotency key in one transaction, and checks the industrial object and
inserts the fact in the next. Each statement sees the rows that row-level security lets through.
-/

namespace Irip.Facts

structure Fact where
  departmentId : Uuid
  ownerUserId : Option Uuid
  visibilityScope : String := "tree"
  factType : String
  objectId : Uuid
  status : String := "active"
  idempotencyKey : Option String := none
  createdBy : Option Uuid := none
  subjectId : String := ""
  flowRunId : Option Uuid := none
  startedAt : Option Time := none
  endedAt : Option Time := none
  taskCode : Option String := none
  taskName : Option String := none
  departmentName : Option String := none
  operator : Option String := none
  runOperator : Option String := none
  equipmentName : Option String := none
  sourceArtifactId : Option Uuid := none
  deriving DecidableEq

/-- The table of facts, and the keys of the departments, users, industrial objects, flow runs and artifacts there are. -/
structure Database where
  facts : Dict Uuid Fact := ∅
  departments : List Uuid := []
  users : List Uuid := []
  objects : List Uuid := []
  flowRuns : List Uuid := []
  artifacts : List Uuid := []

/-- What a call raises: an application error, or an exception of the database. -/
inductive Exn where
  | app (e : AppError)
  | database

/-! ## Statements -/

/-- A statement of the service. -/
inductive Op where
  | findByIdempotencyKey (departmentId : Uuid) (key : String)
  | selectObject (id : Uuid)
  | insertFact (row : Fact)

/-- What a statement answers. -/
@[reducible] def Res : Op → Type
  | .findByIdempotencyKey _ _ => Except Exn (Option (Uuid × Fact))
  | .selectObject _ => Bool
  | .insertFact _ => Except Exn Uuid

/-- What the surroundings contribute to an answer: the key of a new row, and the rows that are let through. -/
structure Answer where
  id : Uuid := ""
  visible : Uuid → Bool := fun _ => true

/-- The facts of a department with a key, as far as they are visible. -/
def Database.withKey (d : Database) (visible : Uuid → Bool) (departmentId : Uuid) (key : String) : List (Uuid × Fact) :=
  d.facts.entries.filter
    (fun e => visible e.1 && decide (e.2.departmentId = departmentId ∧ e.2.idempotencyKey = some key))

def scalarOneOrNone {α : Type} : List α → Except Exn (Option α)
  | [] => .ok none
  | [x] => .ok (some x)
  | _ :: _ => .error .database

/-- No fact of the department has the key. -/
def Database.freeKey (d : Database) (row : Fact) : Bool :=
  row.idempotencyKey.all (fun key => (d.withKey (fun _ => true) row.departmentId key).isEmpty)

/-- The constraints of the table let a row in, and so does row-level security. -/
def admits (unique : Bool) (d : Database) (a : Answer) (row : Fact) : Bool :=
  (d.facts.get? a.id).isNone && d.departments.contains row.departmentId &&
    row.ownerUserId.any (fun u => d.users.contains u) && d.objects.contains row.objectId &&
    row.createdBy.all (fun u => d.users.contains u) && row.flowRunId.all (fun r => d.flowRuns.contains r) &&
    row.sourceArtifactId.all (fun r => d.artifacts.contains r) && (!unique || d.freeKey row) && a.visible a.id

/-- What a statement answers on the tables, and the tables after it. The insertion is the last statement of its
transaction. -/
def handle (unique : Bool) : (o : Op) → Answer → Database → Res o × Database
  | .findByIdempotencyKey departmentId key, a, d => (scalarOneOrNone (d.withKey a.visible departmentId key), d)
  | .selectObject id, a, d => (d.objects.contains id && a.visible id, d)
  | .insertFact row, a, d =>
    if admits unique d a row then (.ok a.id, { d with facts := d.facts.set a.id row }) else (.error .database, d)

/-! ## Creation -/

abbrev M (α : Type) : Type := Prog Op Res Exn α

/-- One statement. -/
abbrev ask (o : Op) : M (Res o) := Prog.perform o

structure CreateFactCommand where
  factType : String
  departmentId : Uuid
  objectId : Uuid
  subjectId : String
  startedAt : Option Time
  endedAt : Option Time
  idempotencyKey : Option String
  createdBy : Option Uuid
  taskCode : Option String := none
  taskName : Option String := none
  departmentName : Option String := none
  operator : Option String := none
  runOperator : Option String := none
  equipmentName : Option String := none
  flowRunId : Option Uuid := none
  sourceArtifactId : Option Uuid := none

structure FactRef where
  factId : Uuid
  factType : String
  subjectId : String
  status : String

/-- `FactService`, as far as `create` uses it. -/
structure FactService where
  actorId : Option Uuid

def validFactTypes : List String := ["experiment_run", "simulation_run", "document_record", "model_execution"]

def invalidFactType (factType : String) : AppError :=
  { code := "validation_failed", message := s!"无效的事实类型: {factType}", fields := [("fact_type", .str factType)] }

def objectNotFound (objectId : Uuid) : AppError :=
  { code := "not_found", message := "工业对象不存在或不属于当前部门", fields := [("object_id", .str objectId)] }

/-- The row a command asks for. -/
def FactService.row (service : FactService) (command : CreateFactCommand) : Fact where
  departmentId := command.departmentId
  ownerUserId := service.actorId
  factType := command.factType
  objectId := command.objectId
  idempotencyKey := command.idempotencyKey
  createdBy := command.createdBy
  subjectId := command.subjectId
  flowRunId := command.flowRunId
  startedAt := command.startedAt
  endedAt := command.endedAt
  taskCode := command.taskCode
  taskName := command.taskName
  departmentName := command.departmentName
  operator := command.operator
  runOperator := command.runOperator
  equipmentName := command.equipmentName
  sourceArtifactId := command.sourceArtifactId

/-- The reference to a row. -/
def refOf (id : Uuid) (row : Fact) : FactRef :=
  { factId := id, factType := row.factType, subjectId := row.subjectId, status := row.status }

/-- The check of the idempotency key. -/
def findExisting (command : CreateFactCommand) : M (Option (Uuid × Fact)) :=
  match command.idempotencyKey with
  | none => return none
  | some key => do
    let found ← ask (.findByIdempotencyKey command.departmentId key)
    Prog.lift found

/-- The second transaction. -/
def insertChecked (service : FactService) (command : CreateFactCommand) : M FactRef := do
  let found ← ask (.selectObject command.objectId)
  if found then do
    let inserted ← ask (.insertFact (service.row command))
    let id ← Prog.lift inserted
    return refOf id (service.row command)
  else .raise (.app (objectNotFound command.objectId))

def create (service : FactService) (command : CreateFactCommand) : M FactRef :=
  if command.factType ∉ validFactTypes then .raise (.app (invalidFactType command.factType))
  else do
    let existing ← findExisting command
    match existing with
    | some (id, row) => return refOf id row
    | none => insertChecked service command

end Irip.Facts
