import Irip.Base.Json
import Irip.Numeric.Arith

/-!
# `Numeric.Contracts` — limits, options, inputs, results and errors of the numeric tools
-/

namespace Irip.Numeric

/-! ## Limits and options -/

/-- Resource limits of a computation. -/
structure NumericLimits where
  maxExpressionLength : Nat := 512
  maxAstNodes : Nat := 128
  maxAstDepth : Nat := 200
  maxVariables : Nat := 16
  maxPowExponentAbs : Nat := 100
  maxRoundDigits : Nat := 15

inductive AngleUnit where
  | radian
  | degree
  deriving DecidableEq

inductive NullPolicy where
  | fail
  | propagate
  deriving DecidableEq

/-- The options that have more than one value. -/
structure ExpressionOptions where
  angleUnit : AngleUnit := .radian
  nullPolicy : NullPolicy := .fail

/-! ## Inputs and results -/

/-- One position of a series: its number, and whether it is null. -/
structure Cell (F : Type) where
  value : F
  null : Bool
  deriving DecidableEq

/-- A scalar, or a series with its null mask. The mask of a scalar is false. -/
inductive Series (F : Type) where
  | scalar (value : F)
  | vector (cells : List (Cell F))

/-- `np.any(null_mask)`. -/
def Series.anyNull {F : Type} : Series F → Bool
  | .scalar _ => false
  | .vector cells => cells.any Cell.null

/-- A resolved input. `unit` is `none` when the unit is unknown, and `"1"` when there is none. -/
structure ResolvedNumericInput (F : Type) where
  name : String
  series : Series F
  unit : Option String

/-- The codes of the warnings. -/
inductive Warning where
  | unitUnverified
  | unitUnsimplified
  | nullInAggregate
  | emptyAggregate
  deriving DecidableEq

/-- The value of an expression, without its unit. -/
inductive Payload (F : Type) where
  | scalar (value : F)
  | nullScalar
  | vector (cells : List (Cell F))
  deriving DecidableEq

/-- The result of an expression. -/
structure NumericValue (F : Type) where
  payload : Payload F
  unit : Option String
  warnings : List Warning
  deriving DecidableEq

/-! ## Errors -/

/-- An expected error of a numeric computation. -/
structure NumericError where
  code : String
  message : String
  path : String := ""
  details : List (String × Json) := []

/-- What an evaluation raises: an expected error, or an exception that escapes. -/
inductive Exn where
  | numeric (e : NumericError)
  | python (x : PyExn)

/-- An operation of Python or NumPy in the engine: nothing handles what it raises. -/
def unguarded {α : Type} : Except PyExn α → Except Exn α
  | .ok a => .ok a
  | .error x => .error (.python x)

/-- The error for an expression the engine does not take. -/
def rejection (message : String) : NumericError :=
  { code := "numeric_expression_rejected", message := message }

/-- `raise NumericError(code="numeric_expression_rejected", message=...)`. -/
def reject {α : Type} (message : String) : Except Exn α := .error (.numeric (rejection message))

/-- `if c: raise e`. -/
def raiseIf (c : Bool) (e : NumericError) : Except Exn Unit := if c then .error (.numeric e) else .ok ()

/-- `if c: x`, for a check `x`. -/
def onlyIf (c : Bool) (x : Except Exn Unit) : Except Exn Unit := if c then x else .ok ()

theorem raiseIf_ok {c : Bool} {e : NumericError} : raiseIf c e = .ok () ↔ c = false := by
  cases c <;> simp [raiseIf]

end Irip.Numeric
