import Irip.Models.Operations

/-!
# `Models.Service` — the life of a model and of its versions

Each call but a prediction is a program that runs in one transaction. `flush` issues the UPDATE of the model before
that of the version. A prediction reads the pointer of the model in one transaction and the version in the next.
-/

namespace Irip.Models

/-- A call in its transaction. -/
abbrev M (α : Type) : Type := Prog Op Res Exn α

/-- One statement. -/
abbrev ask (o : Op) : M (Res o) := Prog.perform o

def modelNotFound (modelId : Uuid) : AppError :=
  { code := "not_found", message := s!"模型不存在: {modelId}", fields := [("model_id", .str modelId)] }

def versionNotFound (text : String) (versionId : Uuid) : AppError :=
  { code := "not_found", message := text ++ versionId, fields := [("version_id", .str versionId)] }

def invalidState (message : String) (status : Status) : AppError :=
  { code := "invalid_state", message := message, fields := [("status", .str status.value)] }

/-- `if model is None: raise`. -/
def requireModel (found : Option Model) (modelId : Uuid) : Except Exn Model :=
  match found with
  | none => .error (.app (modelNotFound modelId))
  | some row => .ok row

/-- `if version is None: raise`. -/
def requireVersion (text : String) (found : Option ModelVersion) (versionId : Uuid) : Except Exn ModelVersion :=
  match found with
  | none => .error (.app (versionNotFound text versionId))
  | some row => .ok row

/-! ## Calls -/

/-- `create_version`. -/
def createVersion_ (modelId : Uuid) : M Unit := do
  let model ← ask (.selectModel modelId)
  let _ ← Prog.lift (requireModel model modelId)
  let maxVersion ← ask (.selectMaxVersion modelId)
  let id ← ask .newId
  let inserted ← ask (.insertVersion id { modelId := modelId, version := maxVersion.getD 0 + 1 })
  Prog.lift inserted

/-- The move of a version to its next status, which `submit_for_validation` and `validate` are. -/
def advance (modelId versionId : Uuid) (source target : Status) (message : Status → String) : M Unit := do
  let version ← ask (.selectVersion modelId versionId)
  let version ← Prog.lift (requireVersion "模型版本不存在: " version versionId)
  if version.status ≠ source then .raise (.app (invalidState (message version.status) version.status))
  else do
    let updated ← ask (.updateVersion versionId version { version with status := target })
    Prog.lift updated

def submitForValidation (modelId versionId : Uuid) : M Unit :=
  advance modelId versionId .draft .pendingValidation
    (fun status => s!"版本状态非 draft（当前: {status.value}），无法提交验证")

/-- `validate`, as far as the status goes. -/
def validate (modelId versionId : Uuid) : M Unit :=
  advance modelId versionId .pendingValidation .validated
    (fun status => s!"版本状态非 pending_validation（当前: {status.value}），无法验证")

def publish (modelId versionId : Uuid) : M Unit := do
  let now ← ask .now
  let model ← ask (.selectModel modelId)
  let model ← Prog.lift (requireModel model modelId)
  let version ← ask (.selectVersion modelId versionId)
  let version ← Prog.lift (requireVersion "模型版本不存在: " version versionId)
  if version.status ≠ .validated then
    .raise (.app (invalidState s!"版本状态非 validated（当前: {version.status.value}），无法发布" version.status))
  else do
    let updated ← ask (.updateModel modelId model
      { status := .published, currentVersionId := some versionId, lockVersion := model.lockVersion + 1 })
    let _ ← Prog.lift updated
    let updated ← ask (.updateVersion versionId version { version with status := .published, publishedAt := some now })
    Prog.lift updated

/-- The time of publication `rollback` gives a version: the clock is asked if a version that is to be published has
none. -/
def stamp (version : ModelVersion) : M (Option Time) :=
  if version.status ≠ .published ∧ version.publishedAt = none then do
    let now ← ask .now
    return some now
  else return version.publishedAt

def rollback (modelId targetVersionId : Uuid) : M Unit := do
  let model ← ask (.selectModel modelId)
  let model ← Prog.lift (requireModel model modelId)
  let version ← ask (.selectVersion modelId targetVersionId)
  let version ← Prog.lift (requireVersion "目标版本不存在: " version targetVersionId)
  if version.status ≠ .published ∧ version.status ≠ .validated then
    .raise (.app (invalidState s!"目标版本状态不可回滚（当前: {version.status.value}）" version.status))
  else do
    let publishedAt ← stamp version
    let updated ← ask (.updateModel modelId model
      { status := .published, currentVersionId := some targetVersionId, lockVersion := model.lockVersion + 1 })
    let _ ← Prog.lift updated
    if version.status = .published then return ()
    else do
      let updated ← ask (.updateVersion targetVersionId version
        { version with status := .published, publishedAt := publishedAt })
      Prog.lift updated

/-- `deprecate`. -/
def deprecate_ (modelId : Uuid) : M Unit := do
  let model ← ask (.selectModel modelId)
  let model ← Prog.lift (requireModel model modelId)
  let updated ← ask (.updateModel modelId model
    { model with status := .deprecated, lockVersion := model.lockVersion + 1 })
  Prog.lift updated

/-! ## Predictions -/

/-- The version a model points to, if there is the model and it does. -/
def currentVersion (found : Option Model) (modelId : Uuid) : Except AppError Uuid :=
  match found with
  | none => .error (modelNotFound modelId)
  | some model =>
    match model.currentVersionId with
    | none => .error { code := "invalid_state", message := "模型未发布，无当前版本", fields := [("model_id", .str modelId)] }
    | some v => .ok v

/-- `predict` up to the call of `predict_version`. -/
def chooseVersion (d : Tables) (modelId : Uuid) : Except AppError Uuid :=
  currentVersion (d.models.get? modelId) modelId

/-- The version `predict_version` reads, and executes. -/
def readVersion (d : Tables) (versionId : Uuid) : Except AppError ModelVersion :=
  match d.versions.get? versionId with
  | none => .error (versionNotFound "模型版本不存在: " versionId)
  | some version => .ok version

/-! ## The system -/

/-- A call of the service in a transaction. -/
inductive Call where
  | createVersion (modelId : Uuid)
  | submitForValidation (modelId versionId : Uuid)
  | validate (modelId versionId : Uuid)
  | publish (modelId versionId : Uuid)
  | rollback (modelId targetVersionId : Uuid)
  | deprecateModel (modelId : Uuid)
  deriving DecidableEq

/-- The program of a call. -/
def prog : Call → M Unit
  | .createVersion modelId => createVersion_ modelId
  | .submitForValidation modelId versionId => submitForValidation modelId versionId
  | .validate modelId versionId => validate modelId versionId
  | .publish modelId versionId => publish modelId versionId
  | .rollback modelId targetVersionId => rollback modelId targetVersionId
  | .deprecateModel modelId => deprecate_ modelId

/-- A `predict_version` that has not read its version yet, with the model it was called for by `predict`. -/
structure Prediction where
  versionId : Uuid
  modelId : Option Uuid
  deriving DecidableEq

/-- The tables, the calls in their transactions, and the predictions under way. -/
structure Sys where
  server : Server Call Write Op Res Exn Unit Tables
  running : List Prediction := []

/-- What can happen next. -/
inductive Step where
  | service (act : Server.Action Call Answer)
  | predict (modelId : Uuid)
  | predictVersion (versionId : Uuid)
  | execute (i : Nat)

/-- The tables as they are committed. -/
abbrev Sys.tables (p : Sys) : Tables := p.server.committed

/-- The step function. -/
def step (p : Sys) : Step → Option Sys
  | .service act => (p.server.step engine prog act).map (fun server => { p with server := server })
  | .predict modelId =>
    match chooseVersion p.tables modelId with
    | .ok v => some { p with running := p.running ++ [⟨v, some modelId⟩] }
    | .error _ => some p
  | .predictVersion versionId => some { p with running := p.running ++ [⟨versionId, none⟩] }
  | .execute i =>
    if i < p.running.length then some { p with running := p.running.eraseIdx i } else none

end Irip.Models
