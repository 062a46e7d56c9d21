import Irip.Numeric.Ops

/-!
# `Numeric.Funcs` — the whitelisted functions

The functions of one argument share `elementwiseUnary`; each aggregate has a definition of its own.
-/

namespace Irip.Numeric.Interpreter

variable {F : Type} (I : Interpreter F)

/-! ## Elementwise functions -/

/-- A domain check: the numbers outside, and what the error says of one number and of so many of a vector. -/
structure Domain (F : Type) where
  invalid : F → Bool
  scalarMessage : String
  vectorMessage : Nat → String

def sqrtDomain : Domain F where
  invalid x := I.arith.lt x I.arith.zero
  scalarMessage := "sqrt requires non-negative input"
  vectorMessage n := s!"sqrt requires non-negative input, {n} negative values"

def logDomain (name : String) : Domain F where
  invalid x := I.arith.le x I.arith.zero
  scalarMessage := s!"{name} requires positive input"
  vectorMessage n := s!"{name} requires positive input, {n} non-positive values"

def asinAcosDomain (name : String) : Domain F where
  invalid x := I.arith.lt x (I.arith.ofInt (-1)) || I.arith.lt I.arith.one x
  scalarMessage := s!"{name} requires input in [-1, 1]"
  vectorMessage n := s!"{name} requires input in [-1, 1], {n} out-of-range values"

/-- A function of one argument: its name in errors, the NumPy function, and its domain. -/
structure Elementwise (F : Type) where
  name : String
  func : F → F
  domain : Option (Domain F) := none

def checkDomainScalar (domain : Option (Domain F)) (x : F) : Except Exn Unit :=
  match domain with
  | none => .ok ()
  | some d => raiseIf (d.invalid x) (domainError d.scalarMessage 1)

def checkDomainVector (domain : Option (Domain F)) (vals : List F) : Except Exn Unit :=
  match domain with
  | none => .ok ()
  | some d =>
    let count := (vals.filter d.invalid).length
    raiseIf (count != 0) (domainError (d.vectorMessage count) count)

/-- The null mask of a function of one vector. -/
def nullOf (c : Cell F) : Bool := I.options.nullPolicy = .propagate && c.null

/-- `f` at the positions that are not null, and zero at the others. -/
def mapCells (f : F → F) (cells : List (Cell F)) : List (Cell F) :=
  cells.map (fun c => if I.nullOf c then ⟨I.arith.zero, true⟩ else ⟨f c.value, false⟩)

/-- The numbers at the positions that are not null. -/
def nonNullValues (cells : List (Cell F)) : List F :=
  (cells.filter (fun c => !I.nullOf c)).map Cell.value

/-- A function of one argument, on a scalar or on every position of a vector. -/
def elementwiseUnary (f : Elementwise F) (x : EvalValue F) (unit : UnitTag) :
    Except Exn (EvalValue F) :=
  match x.payload with
  | .nullScalar => .ok (.nullScalar unit)
  | .scalar v => do
    checkDomainScalar f.domain v
    I.checkFinite (f.func v) f.name
    return .scalarVal (f.func v) unit
  | .vector cells => do
    checkDomainVector f.domain (I.nonNullValues cells)
    let result := I.mapCells f.func cells
    I.checkFiniteVector result f.name
    return .vectorVal result unit

/-- The argument of a trigonometric function, in radians. -/
def trig (func : Ufunc) (v : F) : F :=
  match I.options.angleUnit with
  | .degree => I.arith.ufunc func (I.arith.ufunc .radians v)
  | .radian => I.arith.ufunc func v

/-- The value of an inverse trigonometric function, in the unit of angles. -/
def inverseTrig (func : Ufunc) (v : F) : F :=
  match I.options.angleUnit with
  | .degree => I.arith.ufunc .degrees (I.arith.ufunc func v)
  | .radian => I.arith.ufunc func v

/-- A function that keeps the unit. -/
def keepUnit (f : Elementwise F) (x : EvalValue F) : Except Exn (Visited F) := do
  return (← I.elementwiseUnary f x x.unit, [])

/-- A function of a dimensionless argument. -/
def dimensionless (f : Elementwise F) (x : EvalValue F) : Except Exn (Visited F) := do
  let w ← requireDimensionless x.unit f.name
  return (← I.elementwiseUnary f x .dimensionless, w)

/-- A function whose value is an angle. -/
def angle (f : Elementwise F) (x : EvalValue F) : Except Exn (Visited F) := do
  let (unit, w) ← propagateInverseTrig x.unit I.options.angleUnit
  return (← I.elementwiseUnary f x unit, w)

def callSqrt (x : EvalValue F) : Except Exn (Visited F) := do
  let (unit, w) := propagateSqrt x.unit
  let f : Elementwise F :=
    { name := "sqrt", func := I.arith.ufunc .sqrt, domain := some I.sqrtDomain }
  return (← I.elementwiseUnary f x unit, w)

def callAtan2 (y x : EvalValue F) : Except Exn (Visited F) := do
  rejectCondition y "atan2"
  rejectCondition x "atan2"
  let (unit, w) ← propagateAtan2 y.unit x.unit I.options.angleUnit
  let shape ← broadcast y x
  let scalarResult (a b : F) : F :=
    match I.options.angleUnit with
    | .degree => I.arith.degrees (I.arith.atan2 a b)
    | .radian => I.arith.atan2 a b
  let vectorResult (a b : F) : F :=
    match I.options.angleUnit with
    | .degree => I.arith.ufunc .degrees (I.arith.npArctan2 a b)
    | .radian => I.arith.npArctan2 a b
  let op : Binop F := { name := "atan2", scalar := fun a b => .ok (scalarResult a b), vector := vectorResult }
  return (← I.applyBinop op y x shape unit, w)

/-- An argument that has to be a number. -/
def scalarArg (val : EvalValue F) (message : String) : Except Exn F :=
  match val.payload with
  | .scalar v => .ok v
  | _ => reject message

/-- `round(x, digits)`: results are not checked to be finite. -/
def callRound (x digitsVal : EvalValue F) : Except Exn (Visited F) := do
  let digitsFloat ← scalarArg digitsVal "round digits must be an integer literal"
  raiseIf (!I.arith.isInteger digitsFloat) (rejection "round digits must be an integer")
  let digits := I.arith.toInt digitsFloat
  raiseIf (digits.natAbs > I.limits.maxRoundDigits)
    (rejection s!"round digits out of range [-{I.limits.maxRoundDigits}, {I.limits.maxRoundDigits}]")
  match x.payload with
  | .nullScalar => .ok (.nullScalar x.unit, [])
  | .scalar v => return (.scalarVal (← unguarded (I.arith.round v digits)) x.unit, [])
  | .vector cells => .ok (.vectorVal (I.mapCells (I.arith.npRound · digits) cells) x.unit, [])

/-- The elementwise functions. The first argument is checked before any other. -/
def callElementwise (func : Func) (args : List (EvalValue F)) : Except Exn (Visited F) :=
  match func, args with
  | .abs, x :: _ => do
    rejectCondition x "abs"
    I.keepUnit { name := "abs", func := I.arith.ufunc .abs } x
  | .sqrt, x :: _ => do
    rejectCondition x "sqrt"
    I.callSqrt x
  | .exp, x :: _ => do
    rejectCondition x "exp"
    I.dimensionless { name := "exp", func := I.arith.ufunc .exp } x
  | .log, x :: _ => do
    rejectCondition x "log"
    I.dimensionless { name := "log", func := I.arith.ufunc .log, domain := some (I.logDomain "log") } x
  | .log10, x :: _ => do
    rejectCondition x "log10"
    I.dimensionless { name := "log10", func := I.arith.ufunc .log10, domain := some (I.logDomain "log10") } x
  | .sin, x :: _ => do
    rejectCondition x "sin"
    I.dimensionless { name := "sin", func := I.trig .sin } x
  | .cos, x :: _ => do
    rejectCondition x "cos"
    I.dimensionless { name := "cos", func := I.trig .cos } x
  | .tan, x :: _ => do
    rejectCondition x "tan"
    I.dimensionless { name := "tan", func := I.trig .tan } x
  | .asin, x :: _ => do
    rejectCondition x "asin"
    I.angle { name := "asin", func := I.inverseTrig .arcsin, domain := some (I.asinAcosDomain "asin") } x
  | .acos, x :: _ => do
    rejectCondition x "acos"
    I.angle { name := "acos", func := I.inverseTrig .arccos, domain := some (I.asinAcosDomain "acos") } x
  | .atan, x :: _ => do
    rejectCondition x "atan"
    I.angle { name := "atan", func := I.inverseTrig .arctan } x
  | .floor, x :: _ => do
    rejectCondition x "floor"
    I.keepUnit { name := "floor", func := I.arith.ufunc .floor } x
  | .ceil, x :: _ => do
    rejectCondition x "ceil"
    I.keepUnit { name := "ceil", func := I.arith.ufunc .ceil } x
  | .atan2, y :: x :: _ => I.callAtan2 y x
  | .round, x :: digits :: _ => do
    rejectCondition x "round"
    I.callRound x digits
  | _, _ => .error (.python .indexError)

/-! ## Selecting functions -/

/-- `minimum` and `maximum`. The scalar branch does not check its result. -/
def callMinMax (a b : EvalValue F) (name : String) (scalar vector : F → F → F) : Except Exn (Visited F) := do
  rejectCondition a name
  rejectCondition b name
  let (unit, w) ← combineMinimumMaximum a.unit b.unit name
  let shape ← broadcast a b
  match shape with
  | some n =>
    let result := I.mapNonNull vector (I.pairUp a b n)
    I.checkFiniteVector result name
    return (.vectorVal result unit, w)
  | none =>
    match a.payload, b.payload with
    | .scalar x, .scalar y => .ok (.scalarVal (scalar x y) unit, w)
    | _, _ => .ok (.nullScalar unit, w)

def callClip (x low high : EvalValue F) : Except Exn (Visited F) := do
  rejectCondition x "clip"
  rejectCondition low "clip"
  rejectCondition high "clip"
  raiseIf (low.payload.shape.isSome || high.payload.shape.isSome) (rejection "clip bounds must be scalars")
  let lowVal ← scalarArg low "clip bounds cannot be null"
  let highVal ← scalarArg high "clip bounds cannot be null"
  raiseIf (I.arith.lt highVal lowVal) (rejection "clip low must be <= high")
  let (unit, w) ← checkClipBounds x.unit low.unit high.unit
  match x.payload with
  | .nullScalar => .ok (.nullScalar unit, w)
  | .scalar v => .ok (.scalarVal (I.arith.pyMax lowVal (I.arith.pyMin v highVal)) unit, w)
  | .vector cells =>
    let result := I.mapCells (I.arith.npClip · lowVal highVal) cells
    I.checkFiniteVector result "clip"
    return (.vectorVal result unit, w)

/-- The length NumPy gives arrays of the lengths `n` and `m` together: a length of one is stretched. -/
def stretchLength (n m : Nat) : Except Exn Nat :=
  if n = m then .ok n
  else if n = 1 then .ok m
  else if m = 1 then .ok n
  else .error (.python .valueError)

/-- An array, stretched to the length `n`. -/
def stretch (cells : List (Cell F)) (n : Nat) : List (Cell F) :=
  match cells with
  | [c] => List.replicate n c
  | _ => cells

/-- One position of `where`: the number chosen, and its mask. -/
def whereCell (c a b : Cell F) : Cell F :=
  { value := if I.arith.lt I.arith.half c.value then a.value else b.value
    null := I.options.nullPolicy = .propagate && (c.null || a.null || b.null) }

/-- The arrays of `where`, combined by NumPy into one of length `m`. -/
def whereCells (cv av bv : List (Cell F)) (m : Nat) : List (Cell F) :=
  List.zipWith (fun c p => I.whereCell c p.1 p.2) (stretch cv m) (List.zip (stretch av m) (stretch bv m))

/-- The result of `where` of length `m`. A mask of another length, that of `n`, cannot index it; the result has no
negative zero. -/
def whereResult (cv av bv : List (Cell F)) (n m : Nat) (unit : UnitTag) : Except Exn (EvalValue F) :=
  if I.options.nullPolicy = .fail && n ≠ 0 && n ≠ m then .error (.python .indexError)
  else do
    let result := I.whereCells cv av bv m
    I.checkFiniteVector result "where"
    return .vectorVal (result.map (fun c => { c with value := I.arith.normalizeZero c.value })) unit

/-- `where` with a vector among its arguments; `n` is the length of the condition if that is a vector, else that of
the branches. -/
def whereVector (cond a b : EvalValue F) (n : Nat) (unit : UnitTag) : Except Exn (EvalValue F) := do
  let cv := I.getCells cond n
  let av := I.getCells a n
  let bv := I.getCells b n
  let m ← stretchLength cv.length av.length
  let m ← stretchLength m bv.length
  I.whereResult cv av bv n m unit

/-- A scalar condition as a truth value. -/
def truthy (x : F) : Bool := !I.arith.eq x I.arith.zero

/-- `where` on three scalars. -/
def whereScalars (cond a b : EvalValue F) (unit : UnitTag) : EvalValue F :=
  match cond.payload, a.payload, b.payload with
  | .scalar c, .scalar x, .scalar y => .scalarVal (if I.truthy c then x else y) unit
  | _, _, _ => .nullScalar unit

/-- The branches of `where` once units are known. -/
def applyWhere (cond a b : EvalValue F) (unit : UnitTag) : Except Exn (EvalValue F) :=
  match cond.payload.shape, a.payload.shape, b.payload.shape with
  | none, none, none => .ok (I.whereScalars cond a b unit)
  | condShape, _, _ => do
    let shape ← broadcast a b
    I.whereVector cond a b ((condShape.orElse (fun _ => shape)).getD 0) unit

def callWhere (cond a b : EvalValue F) : Except Exn (Visited F) := do
  raiseIf (!cond.isCondition) (rejection "where condition must be a comparison result")
  rejectCondition a "where value"
  rejectCondition b "where value"
  let (unit, w) ← combineWhere a.unit b.unit
  return (← I.applyWhere cond a b unit, w)

/-- The selecting functions. -/
def callSelect (func : Func) (args : List (EvalValue F)) : Except Exn (Visited F) :=
  match func, args with
  | .minimum, a :: b :: _ => I.callMinMax a b "minimum" I.arith.pyMin I.arith.npMinimum
  | .maximum, a :: b :: _ => I.callMinMax a b "maximum" I.arith.pyMax I.arith.npMaximum
  | .clip, x :: low :: high :: _ => I.callClip x low high
  | .where_, cond :: a :: b :: _ => I.callWhere cond a b
  | _, _ => .error (.python .indexError)

/-! ## Aggregates -/

def hasNull (x : EvalValue F) : Bool :=
  match x.payload with
  | .scalar _ => false
  | .nullScalar => true
  | .vector cells => cells.any Cell.null

/-- The numbers an aggregate is computed from. -/
def validValues (x : EvalValue F) : List F :=
  match x.payload with
  | .nullScalar => []
  | .scalar v => [v]
  | .vector cells =>
    match I.options.nullPolicy with
    | .fail => cells.map Cell.value
    | .propagate => (cells.filter (fun c => !c.null)).map Cell.value

/-- The error for a series that is too short. -/
def tooShort (message : String) : NumericError := { code := "numeric_domain_error", message := message }

def aggregateCount (x : EvalValue F) : EvalValue F :=
  let count : Nat := match x.payload with
    | .nullScalar => 0
    | .scalar _ => 1
    | .vector cells =>
      match I.options.nullPolicy with
      | .propagate => (cells.filter (fun c => !c.null)).length
      | .fail => cells.length
  .scalarVal (I.arith.ofInt count) .dimensionless

/-- The sum of nothing is zero, with a warning. -/
def aggregateSum (vals : List F) (unit : UnitTag) : Except Exn (Visited F) :=
  if vals.isEmpty then .ok (.scalarVal I.arith.zero unit, [.emptyAggregate])
  else do
    let result ← unguarded (I.arith.fsum vals)
    I.checkFinite result "sum"
    return (.scalarVal (I.arith.normalizeZero result) unit, [])

def aggregateMean (vals : List F) (unit : UnitTag) : Except Exn (Visited F) :=
  if vals.isEmpty then .error (.numeric (tooShort "mean of empty series is undefined"))
  else do
    let result := I.arith.reduce .mean vals
    I.checkFinite result "mean"
    return (.scalarVal (I.arith.normalizeZero result) unit, [])

/-- `min`, `max` and `median`: their results are not checked. -/
def aggregateOrder (name : String) (reduction : Reduction) (vals : List F) (unit : UnitTag) :
    Except Exn (Visited F) :=
  if vals.isEmpty then .error (.numeric (tooShort s!"{name} of empty series is undefined"))
  else .ok (.scalarVal (I.arith.normalizeZero (I.arith.reduce reduction vals)) unit, [])

def aggregateMin (vals : List F) (unit : UnitTag) : Except Exn (Visited F) :=
  I.aggregateOrder "min" .min vals unit

def aggregateMax (vals : List F) (unit : UnitTag) : Except Exn (Visited F) :=
  I.aggregateOrder "max" .max vals unit

def aggregateMedian (vals : List F) (unit : UnitTag) : Except Exn (Visited F) :=
  I.aggregateOrder "median" .median vals unit

/-- `var` and `std` with their `ddof`. -/
def aggregateSpread (longName name : String) (reduction : Reduction) (ddof : Nat) (vals : List F)
    (unit : UnitTag) : Except Exn (Visited F) :=
  if ddof = 0 && vals.length < 1 then
    .error (.numeric (tooShort s!"population {longName} requires at least 1 value"))
  else if ddof = 1 && vals.length < 2 then
    .error (.numeric (tooShort s!"sample {longName} requires at least 2 values"))
  else do
    let result := I.arith.reduce reduction vals
    I.checkFinite result name
    return (.scalarVal (I.arith.normalizeZero result) unit, [])

def aggregateVar (vals : List F) (unit : UnitTag) (ddof : Nat) : Except Exn (Visited F) :=
  I.aggregateSpread "variance" "var" (.var ddof) ddof vals (propagateVariance unit)

def aggregateStd (vals : List F) (unit : UnitTag) (ddof : Nat) : Except Exn (Visited F) :=
  I.aggregateSpread "std" "std" (.std ddof) ddof vals unit

def aggregateQuantile (qVal : EvalValue F) (vals : List F) (unit : UnitTag) : Except Exn (Visited F) := do
  let q ← scalarArg qVal "quantile q must be a scalar"
  raiseIf (I.arith.lt q I.arith.zero || I.arith.lt I.arith.one q)
    { code := "numeric_domain_error", message := s!"quantile q must be in [0, 1], got {I.arith.repr q}" }
  raiseIf vals.isEmpty (tooShort "quantile of empty series is undefined")
  let result ← unguarded (I.arith.npQuantile vals q)
  return (.scalarVal (I.arith.normalizeZero result) unit, [])

/-- The `ddof` of `var` and `std`: the argument has to be a literal 0 or 1; `nodes` are the argument nodes. -/
def getDdof (args : List (EvalValue F)) (nodes : List (Expr F)) : Except Exn Nat :=
  match args with
  | _ :: ddofVal :: _ =>
    match ddofVal.payload with
    | .scalar _ =>
      match nodes with
      | _ :: .constant (.int n) :: _ => if n ≤ 1 then .ok n else reject "ddof must be 0 or 1"
      | _ :: .constant _ :: _ => reject "ddof must be an integer"
      | _ => reject "ddof must be an integer literal"
    | _ => reject "ddof must be an integer literal (0 or 1)"
  | _ => .ok 0

/-- The unit of an aggregate. -/
def aggregateUnit (func : Func) (unit : UnitTag) : UnitTag :=
  match func with
  | .var => propagateVariance unit
  | .count => .dimensionless
  | _ => unit

/-- The name of an aggregate. -/
def aggregateName : Func → String
  | .count => "count"
  | .sum => "sum"
  | .mean => "mean"
  | .min => "min"
  | .max => "max"
  | .median => "median"
  | .var => "var"
  | .std => "std"
  | _ => "quantile"

/-- An aggregate of the numbers `vals`, but for `count`. -/
def aggregateValues (func : Func) (vals : List F) (unit : UnitTag) (args : List (EvalValue F))
    (nodes : List (Expr F)) : Except Exn (Visited F) :=
  match func, args with
  | .sum, _ => I.aggregateSum vals unit
  | .mean, _ => I.aggregateMean vals unit
  | .min, _ => I.aggregateMin vals unit
  | .max, _ => I.aggregateMax vals unit
  | .median, _ => I.aggregateMedian vals unit
  | .var, _ => do I.aggregateVar vals unit (← getDdof args nodes)
  | .std, _ => do I.aggregateStd vals unit (← getDdof args nodes)
  | .quantile, _ :: q :: _ => I.aggregateQuantile q vals unit
  | _, _ => .error (.python .indexError)

/-- The aggregates. Under the policy that propagates nulls, every one but `count` is null when there is a null. -/
def callAggregate (func : Func) (args : List (EvalValue F)) (nodes : List (Expr F)) :
    Except Exn (Visited F) :=
  match args with
  | [] => .error (.python .indexError)
  | x :: _ => do
    rejectCondition x (aggregateName func)
    if func = .count then .ok (I.aggregateCount x, [])
    else if I.options.nullPolicy = .propagate && hasNull x then
      .ok (.nullScalar (aggregateUnit func x.unit), [.nullInAggregate])
    else I.aggregateValues func (I.validValues x) x.unit args nodes

/-! ## Calls -/

/-- A call of a whitelisted function, on the values of its arguments; `nodes` are the argument nodes. -/
def visitCall (name : String) (args : List (EvalValue F)) (nodes : List (Expr F)) : Except Exn (Visited F) :=
  match Func.ofName name with
  | none => reject s!"unknown function: {name}"
  | some func =>
    if func.isElementwise then I.callElementwise func args
    else if func.isSelect then I.callSelect func args
    else I.callAggregate func args nodes

theorem visitCall_elementwise {name : String} {f : Func} (hf : Func.ofName name = some f)
    (he : f.isElementwise = true) (args : List (EvalValue F)) (nodes : List (Expr F)) :
    I.visitCall name args nodes = I.callElementwise f args := by
  unfold visitCall
  rw [hf]
  exact if_pos he

theorem visitCall_select {name : String} {f : Func} (hf : Func.ofName name = some f)
    (he : f.isElementwise = false) (hs : f.isSelect = true) (args : List (EvalValue F))
    (nodes : List (Expr F)) : I.visitCall name args nodes = I.callSelect f args := by
  unfold visitCall
  rw [hf]
  show (if f.isElementwise = true then _ else if f.isSelect = true then _ else _) = _
  rw [he, hs]
  rfl

theorem visitCall_aggregate {name : String} {f : Func} (hf : Func.ofName name = some f)
    (he : f.isElementwise = false) (hs : f.isSelect = false) (args : List (EvalValue F))
    (nodes : List (Expr F)) : I.visitCall name args nodes = I.callAggregate f args nodes := by
  unfold visitCall
  rw [hf]
  show (if f.isElementwise = true then _ else if f.isSelect = true then _ else _) = _
  rw [he, hs]
  rfl

end Irip.Numeric.Interpreter
