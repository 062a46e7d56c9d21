import Irip.Base.Txn
import Irip.Departments.Entities

/-!
# `Departments.Service` — creating, editing and deleting departments

Each call is a program that runs in one transaction: it commits when the program returns and is rolled back when it
raises.
-/

namespace Irip.Departments

/-- What a call raises: a business error, a constraint of the database or its trigger. -/
inductive Exn where
  | app (error : AppError)
  | integrity
  | protected_ (message : String)

/-! ## Writes -/

/-- The effect of a statement on rows. An UPDATE that moves a department refers to the new parent, as an INSERT does. -/
inductive Write where
  | insert (id : Uuid) (row : Department)
  | update (id : Uuid) (row : Department) (moved : Bool)
  | delete (id : Uuid)

/-- The table after a write. -/
def Write.apply : Write → Database → Database
  | .insert id row, d => d.set id row
  | .update id row _, d => d.modify id (fun _ => row)
  | .delete id, d => d.erase id

/-- The row a write is of. -/
def Write.id : Write → Uuid
  | .insert id _ => id
  | .update id _ _ => id
  | .delete id => id

/-- The parent a write refers to. -/
def Write.refers : Write → Option Uuid
  | .insert _ row => row.parentId
  | .update _ row moved => if moved then row.parentId else none
  | .delete _ => none

/-- The parent a write takes away. -/
def Write.deletes : Write → Option Uuid
  | .delete id => some id
  | _ => none

/-- The entry of the unique index on `(parent_id, code)` a write claims; a parent that is NULL claims none. -/
def Write.claims : Write → Option (Uuid × String)
  | .insert _ row => row.parentId.map (fun p => (p, row.code))
  | .update _ row _ => row.parentId.map (fun p => (p, row.code))
  | .delete _ => none

/-! ## Operations -/

/-- What `DepartmentRepository.update` sets, and the lock version it asks for. -/
structure Fields where
  displayName : String := ""
  description : Option String := none
  sortOrder : Int := 0
  lockVersion : Int := 0
  parentId : Option Uuid := none

/-- A statement of the service. -/
inductive Op where
  | newId
  | selectByCode (code : String) (parentId : Option Uuid)
  | insert (id : Uuid) (row : Department)
  | selectById (id : Uuid)
  | update (id : Uuid) (fields : Fields)
  | updateStatus (id : Uuid) (status : DepartmentStatus) (lockVersion : Int)
  | selectChildrenCount (id : Uuid)
  | countEquipment (id : Uuid)
  | deleteById (id : Uuid)

/-- What a statement answers. -/
@[reducible] def Res : Op → Type
  | .newId => Uuid
  | .selectByCode _ _ => Option Department
  | .insert _ _ => Except Exn Unit
  | .selectById _ => Option Department
  | .update _ _ => Except Exn (Option Department)
  | .updateStatus _ _ _ => Except Exn (Option Department)
  | .selectChildrenCount _ => Nat
  | .countEquipment _ => Nat
  | .deleteById _ => Except Exn Bool

/-- What the surroundings contribute to an answer: the random source, and what other tables hold of a department. -/
structure Answer where
  id : Uuid := ""
  equipment : Nat := 0
  referenced : Bool := false

/-- The parent exists, and no other child of it has the code. -/
def admits (d : Database) (id : Uuid) (row : Department) : Bool :=
  match row.parentId with
  | none => true
  | some p => (d.get? p).isSome &&
      !d.entries.any (fun e => e.1 ≠ id && e.2.parentId = some p && e.2.code = row.code)

/-- `protect_sentinel_dept`, for an UPDATE. -/
def protectSentinelDept (old new : Department) : Except Exn Unit :=
  if old.sentinel then
    if new.parentId ≠ old.parentId then
      .error (.protected_ s!"protect_sentinel_dept: 禁止调整哨兵部门的父子关系 (code={old.code})")
    else if new.status ≠ old.status then
      .error (.protected_ s!"protect_sentinel_dept: 禁止修改哨兵部门状态 (code={old.code})")
    else .ok ()
  else .ok ()

/-- `UPDATE … WHERE id = … AND lock_version = … RETURNING`, by what it makes of the row. -/
def updateRow (d : Database) (id : Uuid) (lockVersion : Int) (set : Department → Department) :
    Except Exn (Option Department) × List Write :=
  match d.get? id with
  | none => (.ok none, [])
  | some old =>
    if old.lockVersion ≠ lockVersion then (.ok none, [])
    else
      let new := { set old with lockVersion := old.lockVersion + 1 }
      match protectSentinelDept old new with
      | .error e => (.error e, [])
      | .ok _ =>
        if new.parentId = old.parentId then (.ok (some new), [.update id new false])
        else if admits d id new then (.ok (some new), [.update id new true])
        else (.error .integrity, [])

/-- `DELETE … WHERE id = …`: what refers to a department keeps it. -/
def deleteRow (d : Database) (id : Uuid) (referenced : Bool) : Except Exn Bool × List Write :=
  match d.get? id with
  | none => (.ok false, [])
  | some old =>
    if old.sentinel then (.error (.protected_ s!"protect_sentinel_dept: 禁止删除哨兵部门 (code={old.code})"), [])
    else if referenced || !(children d id).isEmpty then (.error .integrity, [])
    else (.ok true, [.delete id])

/-- What a statement answers on a table, and what it writes. -/
def handle : (o : Op) → Answer → Database → Option (Res o × List Write)
  | .newId, a, _ => some (a.id, [])
  | .selectByCode code parentId, _, d =>
    some ((d.findBy (fun r => r.code = code && r.parentId = parentId)).map Prod.snd, [])
  | .insert id row, _, d =>
    if (d.get? id).isNone && admits d id row then some (.ok (), [.insert id row])
    else some (.error .integrity, [])
  | .selectById id, _, d => some (d.get? id, [])
  | .update id f, _, d =>
    some (updateRow d id f.lockVersion (fun old =>
      { old with
        displayName := f.displayName, description := f.description, sortOrder := f.sortOrder,
        parentId := f.parentId }))
  | .updateStatus id status lockVersion, _, d =>
    some (updateRow d id lockVersion (fun old => { old with status := status }))
  | .selectChildrenCount id, _, d => some ((children d id).length, [])
  | .countEquipment _, a, _ => some (a.equipment, [])
  | .deleteById id, a, d => some (deleteRow d id a.referenced)

/-! ## The engine -/

/-- The one deletes what the other refers to. -/
def orphans (w w' : Write) : Bool := w.deletes.isSome && w.deletes == w'.refers

/-- Two writes of one row, of one code below one parent, or of a parent and its child. -/
def conflict (w w' : Write) : Bool :=
  w.id == w'.id || (w.claims.isSome && w.claims == w'.claims) || orphans w w' || orphans w' w

/-- The database of the service. -/
def engine : Engine Database Write Answer Op Res where
  apply := Write.apply
  conflict := conflict
  handle := handle

/-- A call in its transaction. -/
abbrev M (α : Type) : Type := Prog Op Res Exn α

/-- One statement. -/
abbrev ask (o : Op) : M (Res o) := Prog.perform o

def departmentNotFound (message : String) (id : Uuid) : Exn :=
  .app { code := "not_found", message := message, fields := [("department_id", .str id)] }

def requireFound (found : Option Department) (id : Uuid) : Except Exn Department :=
  match found with
  | none => .error (departmentNotFound s!"实验室不存在（id={id}）" id)
  | some row => .ok row

def versionConflict (lockVersion : Int) : Exn :=
  .app { code := "conflict", message := "数据已被修改，请刷新后重试", fields := [("lock_version", .int lockVersion)] }

/-! ## Calls -/

def create (code displayName : String) (description : Option String) (sortOrder : Int) (parentId : Option Uuid) :
    M Unit := do
  let existing ← ask (.selectByCode code parentId)
  if existing.isSome then
    .raise (.app { code := "conflict", message := "实验室编码已存在", fields := [("code", .str code)] })
  else do
    let id ← ask .newId
    let inserted ← ask (.insert id {
      code := code, displayName := displayName, description := description, sortOrder := sortOrder,
      parentId := parentId })
    Prog.lift inserted

/-- What follows an UPDATE that found no row. -/
def staleUpdate (id : Uuid) (lockVersion : Int) : M Unit := do
  let existing ← ask (.selectById id)
  let _ ← Prog.lift (requireFound existing id)
  .raise (versionConflict lockVersion)

def update (id : Uuid) (fields : Fields) : M Unit := do
  let existingForCheck ← ask (.selectById id)
  if existingForCheck.any (fun r => r.sentinel && fields.parentId.isSome && fields.parentId ≠ r.parentId) then
    .raise (.app {
      code := "forbidden"
      message := "禁止调整哨兵部门的父子关系: " ++ existingForCheck.elim "" Department.code
      fields := [("code", .str (existingForCheck.elim "" Department.code))] })
  else do
    let updated ← ask (.update id fields)
    let updated ← Prog.lift updated
    if updated.isSome then return () else staleUpdate id fields.lockVersion

def setStatus (id : Uuid) (status : DepartmentStatus) (lockVersion : Int) : M Unit := do
  let updated ← ask (.updateStatus id status lockVersion)
  let updated ← Prog.lift updated
  if updated.isSome then return () else staleUpdate id lockVersion

def delete (id : Uuid) : M Unit := do
  let existing ← ask (.selectById id)
  let old ← Prog.lift (requireFound existing id)
  if old.sentinel then
    .raise (.app {
      code := "forbidden", message := s!"禁止删除哨兵部门: {old.code}", fields := [("code", .str old.code)] })
  else do
    let childrenCount ← ask (.selectChildrenCount id)
    if 0 < childrenCount then
      .raise (.app {
        code := "conflict"
        message := s!"存在 {childrenCount} 个子部门，请先删除子部门"
        fields := [("children_count", .int childrenCount)] })
    else do
      let equipmentCount ← ask (.countEquipment id)
      if 0 < equipmentCount then
        .raise (.app {
          code := "conflict"
          message := s!"存在 {equipmentCount} 台仪器，请先迁移或删除仪器"
          fields := [("equipment_count", .int equipmentCount)] })
      else do
        let deleted ← ask (.deleteById id)
        let deleted ← Prog.lift deleted
        if deleted then return () else .raise (departmentNotFound "实验室不存在" id)

/-! ## The system -/

/-- A call of the service. -/
inductive Call where
  | create (code displayName : String) (description : Option String) (sortOrder : Int) (parentId : Option Uuid)
  | update (id : Uuid) (fields : Fields)
  | setStatus (id : Uuid) (status : DepartmentStatus) (lockVersion : Int)
  | delete (id : Uuid)

/-- The program of a call. -/
def prog : Call → M Unit
  | .create code displayName description sortOrder parentId => create code displayName description sortOrder parentId
  | .update id fields => update id fields
  | .setStatus id status lockVersion => setStatus id status lockVersion
  | .delete id => delete id

/-- The table and the calls that were made, each in its transaction. -/
abbrev Sys := Server Call Write Op Res Exn Unit Database

/-- What can happen next. -/
abbrev Step := Server.Action Call Answer

/-- The step function. -/
def step : Sys → Step → Option Sys := Server.step engine prog

end Irip.Departments
