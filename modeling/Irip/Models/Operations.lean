import Irip.Base.Txn
import Irip.Models.Adapter

/-!
# `Models.Operations` — models, their versions and the statements of the model service

Two writes exclude each other when they are of one row, or claim one number of a model.
-/

namespace Irip.Models

/-! ## Rows -/

/-- `MODEL_STATUSES`. -/
inductive Status where
  | draft
  | pendingValidation
  | validated
  | published
  | deprecated
  deriving DecidableEq

/-- The status as it is stored. -/
def Status.value : Status → String
  | .draft => "draft"
  | .pendingValidation => "pending_validation"
  | .validated => "validated"
  | .published => "published"
  | .deprecated => "deprecated"

structure Model where
  status : Status := .draft
  currentVersionId : Option Uuid := none
  lockVersion : Int := 0
  deriving DecidableEq

structure ModelVersion where
  modelId : Uuid
  version : Nat
  status : Status := .draft
  publishedAt : Option Time := none
  deriving DecidableEq

structure Tables where
  models : Dict Uuid Model := ∅
  versions : Dict Uuid ModelVersion := ∅

/-! ## Updates -/

/-- A column after an UPDATE, by what the call has read, what it has made of it, and what it is by then. -/
def written {α : Type} [DecidableEq α] (old new current : α) : α := if old = new then current else new

def Model.write (old new r : Model) : Model where
  status := written old.status new.status r.status
  currentVersionId := written old.currentVersionId new.currentVersionId r.currentVersionId
  lockVersion := written old.lockVersion new.lockVersion r.lockVersion

def ModelVersion.write (old new r : ModelVersion) : ModelVersion where
  modelId := r.modelId
  version := r.version
  status := written old.status new.status r.status
  publishedAt := written old.publishedAt new.publishedAt r.publishedAt

@[simp] theorem ModelVersion.write_status (old new r : ModelVersion) :
    (old.write new r).status = written old.status new.status r.status := rfl

@[simp] theorem Model.write_status (old new r : Model) :
    (old.write new r).status = written old.status new.status r.status := rfl

@[simp] theorem Model.write_currentVersionId (old new r : Model) :
    (old.write new r).currentVersionId = written old.currentVersionId new.currentVersionId r.currentVersionId := rfl

/-! ## Writes -/

/-- The effect of a statement on rows. An UPDATE is known by the row as it was read and as the call has made it. -/
inductive Write where
  | insertVersion (id : Uuid) (row : ModelVersion)
  | updateModel (id : Uuid) (old new : Model)
  | updateVersion (id : Uuid) (old new : ModelVersion)

/-- The tables after a write. -/
def Write.apply : Write → Tables → Tables
  | .insertVersion id row, d => { d with versions := d.versions.set id row }
  | .updateModel id old new, d => { d with models := d.models.modify id (old.write new) }
  | .updateVersion id old new, d => { d with versions := d.versions.modify id (old.write new) }

/-! ## Operations -/

/-- A statement of the service. -/
inductive Op where
  | newId
  | now
  | selectModel (id : Uuid)
  | selectVersion (modelId id : Uuid)
  | selectMaxVersion (modelId : Uuid)
  | insertVersion (id : Uuid) (row : ModelVersion)
  | updateModel (id : Uuid) (old new : Model)
  | updateVersion (id : Uuid) (old new : ModelVersion)

/-- What a statement answers. -/
@[reducible] def Res : Op → Type
  | .newId => Uuid
  | .now => Time
  | .selectModel _ => Option Model
  | .selectVersion _ _ => Option ModelVersion
  | .selectMaxVersion _ => Option Nat
  | .insertVersion _ _ => Except Exn Unit
  | .updateModel _ _ _ => Except Exn Unit
  | .updateVersion _ _ _ => Except Exn Unit

/-- What the surroundings contribute to an answer: the random source and the clock. -/
structure Answer where
  id : Uuid := ""
  now : Time := 0

/-- The row is of an existing model, and neither its key nor its number is taken. -/
def admits (d : Tables) (id : Uuid) (row : ModelVersion) : Bool :=
  (d.models.get? row.modelId).isSome && (d.versions.get? id).isNone &&
    !d.versions.anyRow (fun r => r.modelId = row.modelId && r.version = row.version)

/-- What a statement answers on the tables, and what it writes. -/
def handle : (o : Op) → Answer → Tables → Option (Res o × List Write)
  | .newId, a, _ => some (a.id, [])
  | .now, a, _ => some (a.now, [])
  | .selectModel id, _, d => some (d.models.get? id, [])
  | .selectVersion modelId id, _, d => some ((d.versions.get? id).filter (fun r => r.modelId = modelId), [])
  | .selectMaxVersion modelId, _, d =>
    some (((d.versions.values.filter (fun r => r.modelId = modelId)).map ModelVersion.version).max?, [])
  | .insertVersion id row, _, d =>
    if admits d id row then some (.ok (), [.insertVersion id row]) else some (.error .python, [])
  | .updateModel id old new, _, d =>
    if (d.models.get? id).isSome then some (.ok (), [.updateModel id old new]) else some (.error .python, [])
  | .updateVersion id old new, _, d =>
    if (d.versions.get? id).isSome then some (.ok (), [.updateVersion id old new]) else some (.error .python, [])

/-! ## The engine -/

/-- The version a write is of. -/
def Write.versionId : Write → Option Uuid
  | .insertVersion id _ => some id
  | .updateModel _ _ _ => none
  | .updateVersion id _ _ => some id

/-- The model a write is of. -/
def Write.modelId : Write → Option Uuid
  | .updateModel id _ _ => some id
  | _ => none

/-- The entry of the unique index on `(model_id, version)` a write claims. -/
def Write.claims : Write → Option (Uuid × Nat)
  | .insertVersion _ row => some (row.modelId, row.version)
  | _ => none

/-- Both are there and the same. -/
def meets {α : Type} [DecidableEq α] (x y : Option α) : Bool := x.isSome && decide (x = y)

/-- Two writes of one row, or of one number of a model. -/
def conflict (w w' : Write) : Bool :=
  meets w.versionId w'.versionId || meets w.modelId w'.modelId || meets w.claims w'.claims

/-- The database of the service. -/
def engine : Engine Tables Write Answer Op Res where
  apply := Write.apply
  conflict := conflict
  handle := handle

end Irip.Models
