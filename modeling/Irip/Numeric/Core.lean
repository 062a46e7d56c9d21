import Irip.Numeric.Syntax
import Irip.Numeric.Units

/-!
# `Numeric.Core` — the values of the interpreter, its leaves, and what its branches share

A value is a scalar, a null scalar or a vector with its null mask, and has a unit.
-/

namespace Irip.Numeric

variable {F : Type}

/-! ## Values -/

/-- An intermediate value. -/
structure EvalValue (F : Type) where
  payload : Payload F
  unit : UnitTag
  isCondition : Bool := false
  deriving DecidableEq

namespace EvalValue

def scalarVal (value : F) (unit : UnitTag) : EvalValue F := { payload := .scalar value, unit := unit }

def nullScalar (unit : UnitTag) : EvalValue F := { payload := .nullScalar, unit := unit }

def vectorVal (cells : List (Cell F)) (unit : UnitTag) : EvalValue F := { payload := .vector cells, unit := unit }

/-- The result of a comparison: it has no unit. -/
def conditionVal (payload : Payload F) : EvalValue F :=
  { payload := payload, unit := .dimensionless, isCondition := true }

end EvalValue

/-- The shape of a value: no dimension, or the length of a vector. -/
abbrev Shape := Option Nat

/-- `val.vval.shape` of a vector, `()` of a scalar. -/
def Payload.shape : Payload F → Shape
  | .vector cells => some cells.length
  | _ => none

/-! ## The interpreter -/

/-- What a visit answers: its value, and the warnings it adds. -/
abbrev Visited (F : Type) := EvalValue F × List Warning

/-- The interpreter object. -/
structure Interpreter (F : Type) where
  arith : Arith F
  vars : List (String × ResolvedNumericInput F)
  options : ExpressionOptions
  limits : NumericLimits

namespace Interpreter

variable (I : Interpreter F)

/-- A numeric literal. -/
def visitConstant (value : Literal F) : Except Exn (Visited F) := do
  let x ← match value with
    | .bool _ => reject "boolean literals are not allowed"
    | .int n => .ok (I.arith.ofInt n)
    | .float x => .ok x
    | .other _ x => unguarded x
  raiseIf (!I.arith.isFinite x)
    { code := "numeric_non_finite_result", message := "non-finite literal value" }
  return (.scalarVal x .dimensionless, [])

/-- The error for a null in the input when nulls are not allowed. -/
def nullInput (name : String) : NumericError :=
  { code := "numeric_invalid_source"
    message := s!"variable '{name}' contains null values and null_policy is 'fail'"
    path := s!"variables.{name}" }

/-- A constant or a variable. -/
def visitName (name : String) : Except Exn (Visited F) :=
  if name = "pi" then .ok (.scalarVal I.arith.pi .dimensionless, [])
  else if name = "e" then .ok (.scalarVal I.arith.e .dimensionless, [])
  else match I.vars.lookup name with
    | none => reject s!"undefined variable: {name}"
    | some var =>
      if I.options.nullPolicy = .fail && var.series.anyNull then .error (.numeric (nullInput name))
      else match var.series with
        | .scalar value => .ok (.scalarVal value (.fromUnitString var.unit), [])
        | .vector cells => .ok (.vectorVal cells (.fromUnitString var.unit), [])

/-! ## Shared steps -/

/-- The result of a comparison is turned down as an operand. -/
def rejectCondition (val : EvalValue F) (context : String) : Except Exn Unit :=
  raiseIf val.isCondition
    (rejection s!"comparison result cannot be used in {context}; use where() instead")

theorem rejectCondition_ok {v : EvalValue F} {context : String} :
    rejectCondition v context = .ok () ↔ v.isCondition = false := raiseIf_ok

/-- The shape two operands have together. -/
def broadcast (left right : EvalValue F) : Except Exn Shape :=
  match left.payload.shape, right.payload.shape with
  | none, none => .ok none
  | none, some n => .ok (some n)
  | some n, none => .ok (some n)
  | some l, some r =>
    if l = r then .ok (some l)
    else .error (.numeric
      { code := "numeric_size_limit", message := s!"vector length mismatch: {l} vs {r}" })

/-- `_get_values` and `_get_mask` for vectors of length `n`: a scalar is repeated, and so is the zero that stands
for a null scalar, with a mask that is false. -/
def getCells (val : EvalValue F) (n : Nat) : List (Cell F) :=
  match val.payload with
  | .scalar v => List.replicate n ⟨v, false⟩
  | .nullScalar => List.replicate n ⟨I.arith.zero, false⟩
  | .vector cells => cells

/-- The mask of a position of the result: the union under the policy that propagates nulls, else false. -/
def combineNulls (l r : Bool) : Bool := I.options.nullPolicy = .propagate && (l || r)

/-- The error for a result that is no finite number. -/
def nonFinite (opName : String) : NumericError :=
  { code := "numeric_non_finite_result", message := s!"non-finite result in {opName}" }

def checkFinite (x : F) (opName : String) : Except Exn Unit :=
  raiseIf (!I.arith.isFinite x) (nonFinite opName)

/-- Every position that is not null has to hold a finite number. -/
def checkFiniteVector (cells : List (Cell F)) (opName : String) : Except Exn Unit :=
  raiseIf (!cells.all (fun c => c.null || I.arith.isFinite c.value)) (nonFinite opName)

end Interpreter

end Irip.Numeric
