import Irip.Numeric.Core

/-!
# `Numeric.Ops` — signs, arithmetic operators and comparisons

The six operators share `applyBinop`; zero divisors and the domain of powers are checked before.
-/

namespace Irip.Numeric.Interpreter

variable {F : Type} (I : Interpreter F)

/-! ## Signs -/

/-- `-x`. Null positions keep their number. -/
def negate (val : EvalValue F) : Except Exn (EvalValue F) :=
  if val.isCondition then reject "cannot negate a comparison result"
  else match val.payload with
    | .nullScalar => .ok (.nullScalar val.unit)
    | .scalar x => .ok (.scalarVal (I.arith.neg x) val.unit)
    | .vector cells =>
      .ok (.vectorVal (cells.map (fun c => if c.null then c else { c with value := I.arith.neg c.value })) val.unit)

/-- `+x` and `-x`. -/
def visitUnaryop (op : UnaryOp) (operand : EvalValue F) : Except Exn (Visited F) :=
  match op with
  | .uAdd => .ok (operand, [])
  | .uSub => do return (← I.negate operand, [])
  | .other type => reject s!"unsupported unary operator: {type}"

/-! ## Checks -/

def divideByZero (opName : String) : NumericError :=
  { code := "numeric_divide_by_zero", message := s!"division by zero in {opName}" }

def checkDivZeroScalar (val : F) (opName : String) : Except Exn Unit :=
  raiseIf (I.arith.eq val I.arith.zero) (divideByZero opName)

def checkDivZeroVector (divisors : List F) (opName : String) : Except Exn Unit :=
  raiseIf (divisors.any (fun b => I.arith.eq b I.arith.zero)) (divideByZero opName)

/-- An error with the number of positions outside the domain. -/
def domainError (message : String) (count : Nat) : NumericError :=
  { code := "numeric_domain_error", message := message, details := [("invalid_count", .int count)] }

def checkPowDomainScalar (base exp : F) (expIsInt : Bool) : Except Exn Unit :=
  raiseIf (I.arith.lt base I.arith.zero && !expIsInt && !I.arith.isInteger exp)
    (domainError "negative base with non-integer exponent" 1)

def checkPowDomainVector (pairs : List (F × F)) (expIsInt : Bool) : Except Exn Unit :=
  let count := (pairs.filter (fun p => I.arith.lt p.1 I.arith.zero && !I.arith.npIsInteger p.2)).length
  raiseIf (!expIsInt && count != 0)
    (domainError s!"negative base with non-integer exponent, {count} invalid values" count)

/-! ## Arithmetic -/

/-- The operands position by position, with the mask of the result. -/
def pairUp (left right : EvalValue F) (n : Nat) : List ((F × F) × Bool) :=
  List.zipWith (fun a b => ((a.value, b.value), I.combineNulls a.null b.null))
    (I.getCells left n) (I.getCells right n)

/-- The pairs at the positions that are not null. -/
def nonNull (pairs : List ((F × F) × Bool)) : List (F × F) :=
  (pairs.filter (fun p => !p.2)).map Prod.fst

/-- `op` at the positions that are not null, and zero at the others. -/
def mapNonNull (op : F → F → F) (pairs : List ((F × F) × Bool)) : List (Cell F) :=
  pairs.map (fun p => if p.2 then ⟨I.arith.zero, true⟩ else ⟨op p.1.1 p.1.2, false⟩)

/-- What an operator does: its name in errors, its scalar and its elementwise form, and the checks it makes. -/
structure Binop (F : Type) where
  name : String
  scalar : F → F → Except PyExn F
  vector : F → F → F
  checkDivZero : Bool := false
  checkPow : Bool := false
  exponentIsInt : Bool := false

/-- An operator on vectors of length `n`. -/
def vectorBinop (op : Binop F) (left right : EvalValue F) (n : Nat) (unit : UnitTag) :
    Except Exn (EvalValue F) := do
  let pairs := I.pairUp left right n
  onlyIf op.checkDivZero (I.checkDivZeroVector ((nonNull pairs).map Prod.snd) op.name)
  onlyIf op.checkPow (I.checkPowDomainVector (nonNull pairs) op.exponentIsInt)
  let result := I.mapNonNull op.vector pairs
  I.checkFiniteVector result op.name
  return .vectorVal result unit

/-- An operator on two numbers. -/
def scalarBinop (op : Binop F) (a b : F) (unit : UnitTag) : Except Exn (EvalValue F) := do
  onlyIf op.checkDivZero (I.checkDivZeroScalar b op.name)
  onlyIf op.checkPow (I.checkPowDomainScalar a b op.exponentIsInt)
  let result ← unguarded (op.scalar a b)
  I.checkFinite result op.name
  return .scalarVal result unit

/-- The branches an operator has once shapes and units are known. -/
def applyBinop (op : Binop F) (left right : EvalValue F) (shape : Shape) (unit : UnitTag) :
    Except Exn (EvalValue F) :=
  match shape with
  | some n => I.vectorBinop op left right n unit
  | none =>
    match left.payload, right.payload with
    | .scalar a, .scalar b => I.scalarBinop op a b unit
    | _, _ => .ok (.nullScalar unit)

def binopAdd (left right : EvalValue F) : Except Exn (Visited F) := do
  let shape ← broadcast left right
  let (unit, w) ← combineAdditive left.unit right.unit "addition"
  let op : Binop F :=
    { name := "addition", scalar := fun a b => .ok (I.arith.add a b), vector := I.arith.add }
  return (← I.applyBinop op left right shape unit, w)

def binopSub (left right : EvalValue F) : Except Exn (Visited F) := do
  let shape ← broadcast left right
  let (unit, w) ← combineAdditive left.unit right.unit "subtraction"
  let op : Binop F :=
    { name := "subtraction", scalar := fun a b => .ok (I.arith.sub a b), vector := I.arith.sub }
  return (← I.applyBinop op left right shape unit, w)

def binopMul (left right : EvalValue F) : Except Exn (Visited F) := do
  let shape ← broadcast left right
  let (unit, w) := combineMultiplication left.unit right.unit
  let op : Binop F :=
    { name := "multiplication", scalar := fun a b => .ok (I.arith.mul a b), vector := I.arith.mul }
  return (← I.applyBinop op left right shape unit, w)

def binopDiv (left right : EvalValue F) : Except Exn (Visited F) := do
  let shape ← broadcast left right
  let (unit, w) := combineDivision left.unit right.unit
  let op : Binop F :=
    { name := "division", scalar := fun a b => .ok (I.arith.div a b), vector := I.arith.div,
      checkDivZero := true }
  return (← I.applyBinop op left right shape unit, w)

/-- The result of a modulo has the unit of the left operand. -/
def binopMod (left right : EvalValue F) : Except Exn (Visited F) := do
  let shape ← broadcast left right
  let (_, w) ← combineAdditive left.unit right.unit "modulo"
  let op : Binop F :=
    { name := "modulo", scalar := fun a b => .ok (I.arith.mod a b), vector := I.arith.npMod,
      checkDivZero := true }
  return (← I.applyBinop op left right shape left.unit, w)

/-- An integer literal as exponent must not be too large. -/
def checkExponent (exponent : Option Nat) : Except Exn Unit :=
  match exponent with
  | none => .ok ()
  | some n =>
    raiseIf (n > I.limits.maxPowExponentAbs)
      { code := "numeric_size_limit"
        message := s!"power exponent absolute value exceeds limit ({I.limits.maxPowExponentAbs})" }

/-- `exponent` is the integer literal the right operand is. -/
def binopPow (left right : EvalValue F) (exponent : Option Nat) : Except Exn (Visited F) := do
  let shape ← broadcast left right
  I.checkExponent exponent
  let (unit, w) ← combinePower left.unit right.unit exponent
  let op : Binop F :=
    { name := "power", scalar := I.arith.pyPow, vector := I.arith.npPower,
      checkPow := true, exponentIsInt := exponent.isSome }
  return (← I.applyBinop op left right shape unit, w)

/-- `+ - * / ** %`. -/
def visitBinop (op : BinOp) (left right : EvalValue F) (exponent : Option Nat) : Except Exn (Visited F) := do
  rejectCondition left "binary operation"
  rejectCondition right "binary operation"
  match op with
  | .add => I.binopAdd left right
  | .sub => I.binopSub left right
  | .mult => I.binopMul left right
  | .div => I.binopDiv left right
  | .pow => I.binopPow left right exponent
  | .mod => I.binopMod left right
  | .other type => reject s!"unsupported binary operator: {type}"

/-! ## Comparisons -/

/-- The comparison of two numbers, for an operator that is known. -/
def compareOp (op : CmpOp) : Except Exn (F → F → Bool) :=
  match op with
  | .lt => .ok I.arith.lt
  | .ltE => .ok I.arith.le
  | .gt => .ok (fun a b => I.arith.lt b a)
  | .gtE => .ok (fun a b => I.arith.le b a)
  | .eq => .ok I.arith.eq
  | .notEq => .ok (fun a b => !I.arith.eq a b)
  | .other type => reject s!"unsupported comparison operator: {type}"

/-- `float(b)`. -/
def ofBool (b : Bool) : F := if b then I.arith.one else I.arith.zero

/-- A comparison, once the shape is known. That of two scalars of which one is null is false. -/
def applyCompare (test : F → F → Bool) (left right : EvalValue F) (shape : Shape) : EvalValue F :=
  match shape with
  | some n => .conditionVal (.vector (I.mapNonNull (fun a b => I.ofBool (test a b)) (I.pairUp left right n)))
  | none =>
    match left.payload, right.payload with
    | .scalar a, .scalar b => .conditionVal (.scalar (I.ofBool (test a b)))
    | _, _ => .conditionVal (.scalar I.arith.zero)

def visitCompare (op : CmpOp) (left right : EvalValue F) : Except Exn (Visited F) := do
  rejectCondition left "comparison"
  rejectCondition right "comparison"
  let test ← I.compareOp op
  let shape ← broadcast left right
  return (I.applyCompare test left right shape, [])

/-- A chained comparison. -/
def chained : Except Exn (Visited F) := reject "chained comparisons are not allowed"

end Irip.Numeric.Interpreter
