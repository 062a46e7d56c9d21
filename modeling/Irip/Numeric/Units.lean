import Irip.Numeric.Contracts

/-!
# `Numeric.Units` — unit labels and how operations combine them

A tag has three states; operations on one, two and more operands combine them.
-/

namespace Irip.Numeric

/-! ## Tags -/

/-- A unit tag: a known unit, explicitly no unit, or an unknown unit. -/
inductive UnitTag where
  | known (label : String)
  | dimensionless
  | unknown
  deriving DecidableEq

namespace UnitTag

/-- The label, as it is reported. -/
def toOutput : UnitTag → Option String
  | .known label => some label
  | .dimensionless => some "1"
  | .unknown => none

/-- The tag of a declared unit. -/
def fromUnitString : Option String → UnitTag
  | none => .unknown
  | some u => if u = "1" then .dimensionless else .known u

/-- How an f-string prints the label. -/
def labelText (t : UnitTag) : String := t.toOutput.getD "None"

def isUnknown : UnitTag → Bool
  | .unknown => true
  | _ => false

def isDimensionless : UnitTag → Bool
  | .dimensionless => true
  | _ => false

/-- Known in the sense of not unknown. -/
def isKnown (t : UnitTag) : Bool := !t.isUnknown

end UnitTag

/-- `raise NumericError(code="numeric_unit_conflict", message=...)`. -/
def unitConflict {α : Type} (message : String) : Except Exn α :=
  .error (.numeric { code := "numeric_unit_conflict", message := message })

/-! ## Two operands -/

/-- Addition, subtraction and modulo: two known units have to be the same. -/
def combineAdditive (left right : UnitTag) (opName : String) : Except Exn (UnitTag × List Warning) :=
  if left.isKnown && right.isKnown then
    if left = right then .ok (left, [])
    else unitConflict s!"unit conflict in {opName}: {left.labelText} vs {right.labelText}"
  else if left.isKnown then .ok (left, [.unitUnverified])
  else if right.isKnown then .ok (right, [.unitUnverified])
  else .ok (.unknown, [.unitUnverified])

/-- Multiplication: the labels are written next to each other. -/
def combineMultiplication : UnitTag → UnitTag → UnitTag × List Warning
  | .unknown, _ => (.unknown, [.unitUnverified])
  | _, .unknown => (.unknown, [.unitUnverified])
  | .dimensionless, right => (right, [])
  | left, .dimensionless => (left, [])
  | .known l, .known r => (.known s!"{l}*{r}", [])

/-- Division. Equal units cancel. -/
def combineDivision : UnitTag → UnitTag → UnitTag × List Warning
  | .unknown, _ => (.unknown, [.unitUnverified])
  | _, .unknown => (.unknown, [.unitUnverified])
  | .dimensionless, .dimensionless => (.dimensionless, [])
  | .dimensionless, .known r => (.known s!"1/{r}", [])
  | .known l, .dimensionless => (.known l, [])
  | .known l, .known r => if l = r then (.dimensionless, []) else (.known s!"{l}/{r}", [])

/-- Powers: the exponent has to be dimensionless, and is written behind the label of the base when it is an
integer literal. -/
def combinePower (base exponentTag : UnitTag) (exponent : Option Nat) :
    Except Exn (UnitTag × List Warning) :=
  if exponentTag.isKnown && !exponentTag.isDimensionless then unitConflict "exponent must be dimensionless"
  else
    let warnings := if exponentTag.isUnknown then [Warning.unitUnverified] else []
    match base, exponent with
    | .unknown, _ => .ok (.unknown, warnings ++ [.unitUnverified])
    | .dimensionless, _ => .ok (.dimensionless, warnings)
    | .known _, some 0 => .ok (.dimensionless, warnings)
    | .known label, some 1 => .ok (.known label, warnings)
    | .known label, some (n+2) => .ok (.known s!"{label}^{n + 2}", warnings)
    | .known label, none => .ok (.known s!"{label}^n", warnings ++ [.unitUnsimplified])

/-! ## One operand -/

def propagateSqrt : UnitTag → UnitTag × List Warning
  | .unknown => (.unknown, [.unitUnverified])
  | .dimensionless => (.dimensionless, [])
  | .known label => (.known s!"sqrt({label})", [])

/-- The argument of `exp`, of a logarithm or of a trigonometric function. -/
def requireDimensionless (base : UnitTag) (funcName : String) : Except Exn (List Warning) :=
  match base with
  | .known label => unitConflict s!"{funcName} requires dimensionless input, got unit '{label}'"
  | .unknown => .ok [.unitUnverified]
  | .dimensionless => .ok []

/-- The unit of an angle. -/
def angleTag : AngleUnit → UnitTag
  | .degree => .known "deg"
  | .radian => .known "rad"

def propagateInverseTrig (base : UnitTag) (angleUnit : AngleUnit) : Except Exn (UnitTag × List Warning) := do
  let warnings ← requireDimensionless base "inverse_trig"
  return (angleTag angleUnit, warnings)

/-- A variance has the square of the unit. -/
def propagateVariance : UnitTag → UnitTag
  | .unknown => .unknown
  | .dimensionless => .dimensionless
  | .known label => .known s!"{label}^2"

/-! ## Functions of several operands -/

def propagateAtan2 (yTag xTag : UnitTag) (angleUnit : AngleUnit) : Except Exn (UnitTag × List Warning) :=
  if yTag.isKnown && xTag.isKnown then
    if yTag = xTag then .ok (angleTag angleUnit, [])
    else unitConflict s!"atan2 requires compatible units: {yTag.labelText} vs {xTag.labelText}"
  else .ok (angleTag angleUnit, [.unitUnverified])

/-- The branches of `where`. -/
def combineWhere (aTag bTag : UnitTag) : Except Exn (UnitTag × List Warning) :=
  combineAdditive aTag bTag "where"

def combineMinimumMaximum (left right : UnitTag) (funcName : String) :
    Except Exn (UnitTag × List Warning) :=
  combineAdditive left right funcName

/-- `clip`: both bounds have to have the unit of the value, which is the unit of the result. -/
def checkClipBounds (valueTag lowTag highTag : UnitTag) : Except Exn (UnitTag × List Warning) := do
  let low ← combineAdditive valueTag lowTag "clip"
  let high ← combineAdditive valueTag highTag "clip"
  return (valueTag, low.2 ++ high.2)

end Irip.Numeric
