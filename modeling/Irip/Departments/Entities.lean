import Irip.Common
import Irip.Base.Forest
import Irip.Base.Dict

/-!
# `Departments.Entities` — departments and the queries that follow their parents

Departments are kept under their primary keys; scopes are recursive queries.
-/

namespace Irip.Departments

/-! ## Rows -/

/-- `department.status`. -/
inductive DepartmentStatus where
  | active
  | disabled
deriving DecidableEq

structure Department where
  code : String
  displayName : String := ""
  description : Option String := none
  status : DepartmentStatus := .active
  sortOrder : Int := 0
  lockVersion : Int := 0
  parentId : Option Uuid := none
deriving DecidableEq

/-- `code in ("root", "system")`. -/
def Department.sentinel (r : Department) : Bool := r.code == "root" || r.code == "system"

/-- The table `department`. -/
abbrev Database : Type := Dict Uuid Department

/-! ## The hierarchy -/

variable (d : Database)

def parent (id : Uuid) : Option Uuid := (d.get? id).bind Department.parentId

/-- `SELECT id FROM department WHERE parent_id = …`. -/
def children (id : Uuid) : List Uuid := d.keysWhere (fun r => r.parentId = some id)

/-- `SELECT parent_id FROM department WHERE id = … AND parent_id IS NOT NULL`. -/
def parents (id : Uuid) : List Uuid := (parent d id).toList

/-! ## Scopes

Each query is evaluated for `n` rounds. -/

/-- The queries `down` and `up` from the departments `base`, which `up` leaves by its first step. -/
def scope (n : Nat) (base : List Uuid) : Option (List Uuid) := do
  let down ← Forest.unionAll (children d) n base
  let up ← Forest.unionAll (parents d) n (base.flatMap (parents d))
  return down ++ up

/-- `_DEPT_SCOPE_SQL`. -/
def deptScope (n : Nat) (deptId : Uuid) : Option (List Uuid) :=
  scope d n (if (d.get? deptId).isSome then [deptId] else [])

/-- `current_visible_dept_ids`, for a user who belongs to `userDepts`. -/
def currentVisibleDeptIds (n : Nat) (userDepts : List Uuid) : Option (List Uuid) := scope d n userDepts

/-- `compute_visible_dept_ids`; of the actor, the departments he belongs to. -/
def computeVisibleDeptIds (n : Nat) (deptId : Option Uuid) (actor : Option (List Uuid)) : Option (List Uuid) :=
  match actor, deptId with
  | some userDepts, some deptId => do
    let visible ← currentVisibleDeptIds d n userDepts
    let result2 ← deptScope d n deptId
    return deptId :: visible ++ result2
  | some userDepts, none => currentVisibleDeptIds d n userDepts
  | none, some deptId => do
    let result ← deptScope d n deptId
    return deptId :: result
  | none, none => some []

/-- The batch query of `select_list`: the departments `dept_ids`, each with itself and all that is below it. -/
def descendants (n : Nat) (deptIds : List Uuid) : Option (List (Uuid × Uuid)) :=
  Forest.unionAll (fun e => (children d e.2).map (fun child => (e.1, child))) n
    ((d.keys.filter (fun id => id ∈ deptIds)).map (fun id => (id, id)))

end Irip.Departments
