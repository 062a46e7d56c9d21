import Irip.Numeric.NullPropagation

/-!
# `Numeric.Closed` — which exceptions escape the evaluation of an expression

`Escapes` says for which operands of a node an exception of Python or NumPy escapes its visit.
-/

namespace Irip.Numeric

open Evaluation

variable {F α β : Type}

/-! ## Closed computations -/

/-- No exception but a `NumericError` is raised. -/
def Closed (m : Except Exn α) : Prop := ∀ x, m ≠ .error (.python x)

@[simp] theorem closed_ok (a : α) : Closed (.ok a) := fun _ h => by cases h

@[simp] theorem closed_numeric (e : NumericError) : Closed (.error (.numeric e) : Except Exn α) :=
  fun _ h => by cases h

@[simp] theorem closed_reject (message : String) : Closed (reject message : Except Exn α) :=
  closed_numeric _

@[simp] theorem closed_raiseIf (c : Bool) (e : NumericError) : Closed (raiseIf c e) := by
  cases c
  · exact closed_ok ()
  · exact closed_numeric e

theorem closed_onlyIf {c : Bool} {m : Except Exn Unit} (h : Closed m) : Closed (onlyIf c m) := by
  cases c
  · exact closed_ok ()
  · exact h

theorem Closed.bind {m : Except Exn α} {f : α → Except Exn β} (hm : Closed m)
    (hf : ∀ a, m = .ok a → Closed (f a)) : Closed (m >>= f) := by
  intro x h
  rcases bind_error_iff.mp h with h | ⟨a, ha, h⟩
  · exact hm x h
  · exact hf a ha x h

theorem Closed.bind_python_iff {m : Except Exn α} {f : α → Except Exn β} (hm : Closed m) {x : PyExn} :
    m >>= f = .error (.python x) ↔ ∃ a, m = .ok a ∧ f a = .error (.python x) := by
  rw [bind_error_iff]
  exact or_iff_right (hm x)

theorem unguarded_error_iff {m : Except PyExn α} {x : PyExn} :
    unguarded m = .error (.python x) ↔ m = .error x := by
  cases m with
  | ok a =>
    constructor
    · intro h
      cases h
    · intro h
      cases h
  | error y =>
    constructor
    · intro h
      cases h
      rfl
    · intro h
      cases h
      rfl

/-! ## Units and shared steps -/

theorem closed_combineAdditive (l r : UnitTag) (name : String) : Closed (combineAdditive l r name) := by
  unfold combineAdditive
  split
  · split
    · exact closed_ok _
    · exact closed_numeric _
  · split
    · exact closed_ok _
    · split <;> exact closed_ok _

theorem closed_combinePower (l r : UnitTag) (exponent : Option Nat) : Closed (combinePower l r exponent) := by
  unfold combinePower
  split
  · exact closed_numeric _
  · dsimp only
    split <;> exact closed_ok _

theorem closed_requireDimensionless (t : UnitTag) (name : String) : Closed (requireDimensionless t name) := by
  cases t with
  | known _ => exact closed_numeric _
  | dimensionless | unknown => exact closed_ok _

theorem closed_propagateAtan2 (l r : UnitTag) (angle : AngleUnit) : Closed (propagateAtan2 l r angle) := by
  unfold propagateAtan2
  split
  · split
    · exact closed_ok _
    · exact closed_numeric _
  · exact closed_ok _

theorem closed_checkClipBounds (v l h : UnitTag) : Closed (checkClipBounds v l h) :=
  (closed_combineAdditive v l "clip").bind fun _ _ =>
    (closed_combineAdditive v h "clip").bind fun _ _ => closed_ok _

namespace Interpreter

variable {I : Interpreter F}

theorem closed_broadcast (l r : EvalValue F) : Closed (broadcast l r) := by
  unfold broadcast
  generalize l.payload.shape = a
  generalize r.payload.shape = b
  cases a <;> cases b
  case some.some =>
    dsimp only
    split
    · exact closed_ok _
    · exact closed_numeric _
  all_goals exact closed_ok _

theorem closed_scalarArg (v : EvalValue F) (message : String) : Closed (scalarArg v message) := by
  unfold scalarArg
  split
  · exact closed_ok _
  · exact closed_reject _

theorem closed_vectorBinop (op : Binop F) (l r : EvalValue F) (n : Nat) (unit : UnitTag) :
    Closed (I.vectorBinop op l r n unit) :=
  (closed_onlyIf (closed_raiseIf _ _)).bind fun _ _ =>
    (closed_onlyIf (closed_raiseIf _ _)).bind fun _ _ =>
      (closed_raiseIf _ _).bind fun _ _ => closed_ok _

theorem scalarBinop_error_iff {op : Binop F} {a b : F} {unit : UnitTag} {x : PyExn} :
    I.scalarBinop op a b unit = .error (.python x) ↔
      onlyIf op.checkDivZero (I.checkDivZeroScalar b op.name) = .ok () ∧
      onlyIf op.checkPow (I.checkPowDomainScalar a b op.exponentIsInt) = .ok () ∧
      op.scalar a b = .error x := by
  have hdivClosed : Closed (onlyIf op.checkDivZero (I.checkDivZeroScalar b op.name)) :=
    closed_onlyIf (closed_raiseIf _ _)
  have hpowClosed : Closed (onlyIf op.checkPow (I.checkPowDomainScalar a b op.exponentIsInt)) :=
    closed_onlyIf (closed_raiseIf _ _)
  unfold scalarBinop
  rw [hdivClosed.bind_python_iff]
  constructor
  · rintro ⟨_, hdiv, h⟩
    obtain ⟨_, hpow, h⟩ := hpowClosed.bind_python_iff.mp h
    refine ⟨hdiv, hpow, ?_⟩
    rcases bind_error_iff.mp h with h | ⟨c, _, h⟩
    · exact unguarded_error_iff.mp h
    · exact absurd h ((closed_raiseIf _ _).bind (fun _ _ => closed_ok _) x)
  · rintro ⟨hdiv, hpow, hop⟩
    refine ⟨(), hdiv, hpowClosed.bind_python_iff.mpr ⟨(), hpow, ?_⟩⟩
    exact bind_error_iff.mpr (.inl (unguarded_error_iff.mpr hop))

theorem applyBinop_error_iff {op : Binop F} {l r : EvalValue F} {shape : Shape} {unit : UnitTag} {x : PyExn} :
    I.applyBinop op l r shape unit = .error (.python x) ↔
      shape = none ∧ ∃ a b, l.payload = .scalar a ∧ r.payload = .scalar b ∧
        onlyIf op.checkDivZero (I.checkDivZeroScalar b op.name) = .ok () ∧
        onlyIf op.checkPow (I.checkPowDomainScalar a b op.exponentIsInt) = .ok () ∧
        op.scalar a b = .error x := by
  cases shape with
  | some n =>
    constructor
    · exact fun h => absurd h (closed_vectorBinop op l r n unit x)
    · rintro ⟨h, _⟩
      cases h
  | none =>
    unfold applyBinop
    cases hl : l.payload with
    | vector _ => simp
    | nullScalar => simp
    | scalar a =>
      cases hr : r.payload with
      | vector _ => simp
      | nullScalar => simp
      | scalar b =>
        show I.scalarBinop op a b unit = _ ↔ _
        rw [scalarBinop_error_iff]
        simp

theorem closed_applyBinop {op : Binop F} (hop : ∀ a b, ∃ c, op.scalar a b = .ok c) (l r : EvalValue F)
    (shape : Shape) (unit : UnitTag) : Closed (I.applyBinop op l r shape unit) := by
  intro x h
  obtain ⟨_, a, b, _, _, _, _, hx⟩ := applyBinop_error_iff.mp h
  obtain ⟨c, hc⟩ := hop a b
  rw [hc] at hx
  cases hx

theorem closed_elementwiseUnary (f : Elementwise F) (x : EvalValue F) (unit : UnitTag) :
    Closed (I.elementwiseUnary f x unit) := by
  have hscalar : ∀ v, Closed (checkDomainScalar f.domain v) := by
    intro v
    unfold checkDomainScalar
    split
    · exact closed_ok _
    · exact closed_raiseIf _ _
  have hvector : ∀ vs, Closed (checkDomainVector f.domain vs) := by
    intro vs
    unfold checkDomainVector
    split
    · exact closed_ok _
    · exact closed_raiseIf _ _
  unfold elementwiseUnary
  split
  · exact closed_ok _
  · exact (hscalar _).bind fun _ _ => (closed_raiseIf _ _).bind fun _ _ => closed_ok _
  · exact (hvector _).bind fun _ _ => (closed_raiseIf _ _).bind fun _ _ => closed_ok _

theorem closed_rejectCondition (v : EvalValue F) (context : String) : Closed (rejectCondition v context) :=
  closed_raiseIf _ _

theorem broadcast_scalars {l r : EvalValue F} {a b : F} (hl : l.payload = .scalar a) (hr : r.payload = .scalar b) :
    broadcast l r = .ok none := by
  unfold broadcast
  rw [hl, hr]
  rfl

/-! ## What escapes -/

/-- A power of two numbers in its domain, that Python does not compute. -/
structure PowRaises (I : Interpreter F) (l r : EvalValue F) (exponent : Option Nat) (x : PyExn) : Prop where
  left : l.isCondition = false
  right : r.isCondition = false
  size : I.checkExponent exponent = .ok ()
  unit : ∃ t, combinePower l.unit r.unit exponent = .ok t
  numbers : ∃ a b, l.payload = .scalar a ∧ r.payload = .scalar b ∧
    I.checkPowDomainScalar a b exponent.isSome = .ok () ∧ I.arith.pyPow a b = .error x

/-- A number that cannot be rounded to so many digits. -/
structure RoundRaises (I : Interpreter F) (v digits : EvalValue F) (x : PyExn) : Prop where
  value : v.isCondition = false
  numbers : ∃ u d, v.payload = .scalar u ∧ digits.payload = .scalar d ∧ I.arith.isInteger d = true ∧
    (I.arith.toInt d).natAbs ≤ I.limits.maxRoundDigits ∧ I.arith.round u (I.arith.toInt d) = .error x

/-- A series of which aggregates are computed: it is not empty, and no null makes the result null. -/
structure Aggregated (I : Interpreter F) (v : EvalValue F) : Prop where
  value : v.isCondition = false
  null : (I.options.nullPolicy = .propagate && hasNull v) = false
  nonempty : (I.validValues v).isEmpty = false

/-- Numbers `math.fsum` does not add up. -/
structure SumRaises (I : Interpreter F) (v : EvalValue F) (x : PyExn) : Prop extends Aggregated I v where
  sum : I.arith.fsum (I.validValues v) = .error x

/-- A quantile that is neither below zero nor above one, nor between them. -/
structure QuantileRaises (I : Interpreter F) (v q : EvalValue F) (x : PyExn) : Prop extends Aggregated I v where
  number : ∃ p, q.payload = .scalar p ∧ (I.arith.lt p I.arith.zero || I.arith.lt I.arith.one p) = false ∧
    I.arith.npQuantile (I.validValues v) p = .error x

/-- The arguments of `where` pass its checks; the condition is a vector of length `n`, and the branches have the
length `m` together. -/
structure WhereLengths (cond a b : EvalValue F) (n m : Nat) : Prop where
  condition : cond.isCondition = true
  left : a.isCondition = false
  right : b.isCondition = false
  unit : ∃ t, combineWhere a.unit b.unit = .ok t
  length : cond.payload.shape = some n
  branches : broadcast a b = .ok (some m)

/-- A condition and branches of different lengths, that NumPy does not combine, or whose mask it does not take. -/
def WhereRaises (I : Interpreter F) (cond a b : EvalValue F) (x : PyExn) : Prop :=
  ∃ n m, WhereLengths cond a b n m ∧ n ≠ m ∧
    (n ≠ 1 ∧ m ≠ 1 ∧ x = .valueError ∨ n = 1 ∧ I.options.nullPolicy = .fail ∧ x = .indexError)

/-- A condition and branches of different lengths, that NumPy stretches; the numbers chosen are finite. -/
def WhereStretches (I : Interpreter F) (cond a b : EvalValue F) : Prop :=
  ∃ n m, WhereLengths cond a b n m ∧ n ≠ m ∧
    (n = 1 ∧ I.options.nullPolicy = .propagate ∨ m = 1) ∧
    I.checkFiniteVector (I.whereCells (I.getCells cond n) (I.getCells a n) (I.getCells b n)
      (if n = 1 then m else n)) "where" = .ok ()

end Interpreter

open Interpreter

/-- The nodes, with the values of their operands, whose visit lets an exception escape. -/
inductive Escapes (I : Interpreter F) : Expr F → List (EvalValue F) → PyExn → Prop where
  | pow {left right l r x} : PowRaises I l r right.intLiteral x → Escapes I (.binOp left .pow right) [l, r] x
  | round {func nodes keywords v digits x} : Func.ofName func = some .round → RoundRaises I v digits x →
      Escapes I (.call func nodes keywords) [v, digits] x
  | sum {func nodes keywords v x} : Func.ofName func = some .sum → SumRaises I v x →
      Escapes I (.call func nodes keywords) [v] x
  | quantile {func nodes keywords v q x} : Func.ofName func = some .quantile → QuantileRaises I v q x →
      Escapes I (.call func nodes keywords) [v, q] x
  | where_ {func nodes keywords cond a b x} : Func.ofName func = some .where_ → WhereRaises I cond a b x →
      Escapes I (.call func nodes keywords) [cond, a, b] x

/-- A call of `where` that combines vectors of different lengths. -/
inductive Stretches (I : Interpreter F) : Expr F → List (EvalValue F) → Prop where
  | where_ {func nodes keywords cond a b} : Func.ofName func = some .where_ → WhereStretches I cond a b →
      Stretches I (.call func nodes keywords) [cond, a, b]

/-- Two vectors of different lengths among the operands. -/
def Unequal (ps : List (Payload F)) : Prop :=
  ∃ cs ds, Payload.vector cs ∈ ps ∧ Payload.vector ds ∈ ps ∧ cs.length ≠ ds.length

/-! ## Operators -/

namespace Interpreter

variable {I : Interpreter F}

variable {x : PyExn} {n m : Nat} {cond a b v : EvalValue F} {unit : UnitTag} {func : Func} {args : List (EvalValue F)}
  {nodes : List (Expr F)}

theorem binopPow_error_iff {l r : EvalValue F} {exponent : Option Nat} :
    I.binopPow l r exponent = .error (.python x) ↔
      I.checkExponent exponent = .ok () ∧ (∃ t, combinePower l.unit r.unit exponent = .ok t) ∧
      ∃ a b, l.payload = .scalar a ∧ r.payload = .scalar b ∧
        I.checkPowDomainScalar a b exponent.isSome = .ok () ∧ I.arith.pyPow a b = .error x := by
  have hexp : Closed (I.checkExponent exponent) := by
    cases exponent with
    | none => exact closed_ok _
    | some n => exact closed_raiseIf _ _
  unfold binopPow
  rw [(closed_broadcast l r).bind_python_iff]
  constructor
  · rintro ⟨shape, hshape, h⟩
    obtain ⟨_, hcheck, h⟩ := hexp.bind_python_iff.mp h
    obtain ⟨t, ht, h⟩ := (closed_combinePower _ _ _).bind_python_iff.mp h
    rcases bind_error_iff.mp h with h | ⟨_, _, h⟩
    · obtain ⟨_, a, b, ha, hb, _, hdom, hpow⟩ := applyBinop_error_iff.mp h
      exact ⟨hcheck, ⟨t, ht⟩, a, b, ha, hb, hdom, hpow⟩
    · cases h
  · rintro ⟨hcheck, ⟨t, ht⟩, a, b, ha, hb, hdom, hpow⟩
    refine ⟨none, broadcast_scalars ha hb, hexp.bind_python_iff.mpr ⟨(), hcheck, ?_⟩⟩
    refine (closed_combinePower _ _ _).bind_python_iff.mpr ⟨t, ht, bind_error_iff.mpr (.inl ?_)⟩
    exact applyBinop_error_iff.mpr ⟨rfl, a, b, ha, hb, rfl, hdom, hpow⟩

theorem visitBinop_error_iff {op : BinOp} {l r : EvalValue F} {exponent : Option Nat} :
    I.visitBinop op l r exponent = .error (.python x) ↔ op = .pow ∧ PowRaises I l r exponent x := by
  have hfinish : ∀ {o : Binop F} {shape unit} {w : List Warning}, (∀ a b, ∃ c, o.scalar a b = .ok c) →
      Closed (do return (← I.applyBinop o l r shape unit, w)) :=
    fun hop => (closed_applyBinop hop l r _ _).bind fun _ _ => closed_ok _
  have hadditive : ∀ (unit : UnitTag → UnitTag) {o : Binop F} {name : String},
      (∀ a b, ∃ c, o.scalar a b = .ok c) →
      Closed (broadcast l r >>= fun shape => combineAdditive l.unit r.unit name >>= fun t =>
        I.applyBinop o l r shape (unit t.1) >>= fun v => pure (v, t.2)) :=
    fun _ _ _ hop => (closed_broadcast l r).bind fun _ _ => (closed_combineAdditive _ _ _).bind fun _ _ => hfinish hop
  have hmultiplicative : ∀ {o : Binop F} {t : UnitTag × List Warning},
      (∀ a b, ∃ c, o.scalar a b = .ok c) →
      Closed (broadcast l r >>= fun shape => I.applyBinop o l r shape t.1 >>= fun v => pure (v, t.2)) :=
    fun hop => (closed_broadcast l r).bind fun _ _ => hfinish hop
  unfold visitBinop
  rw [(closed_rejectCondition _ _).bind_python_iff]
  constructor
  · rintro ⟨_, hl, h⟩
    obtain ⟨_, hr, h⟩ := (closed_rejectCondition _ _).bind_python_iff.mp h
    cases op with
    | add | sub => exact absurd h (hadditive id (fun _ _ => ⟨_, rfl⟩) x)
    | mult | div => exact absurd h (hmultiplicative (fun _ _ => ⟨_, rfl⟩) x)
    | mod => exact absurd h (hadditive (fun _ => l.unit) (fun _ _ => ⟨_, rfl⟩) x)
    | other _ => exact absurd h (closed_reject _ x)
    | pow =>
      obtain ⟨hcheck, hunit, hnumbers⟩ := binopPow_error_iff.mp h
      exact ⟨rfl, rejectCondition_ok.mp hl, rejectCondition_ok.mp hr, hcheck, hunit, hnumbers⟩
  · rintro ⟨rfl, h⟩
    refine ⟨(), rejectCondition_ok.mpr h.left, ?_⟩
    refine (closed_rejectCondition _ _).bind_python_iff.mpr ⟨(), rejectCondition_ok.mpr h.right, ?_⟩
    exact binopPow_error_iff.mpr ⟨h.size, h.unit, h.numbers⟩

theorem closed_visitCompare (op : CmpOp) (l r : EvalValue F) : Closed (I.visitCompare op l r) := by
  have hop : Closed (I.compareOp op) := by
    cases op
    case other => exact closed_reject _
    all_goals exact closed_ok _
  exact (closed_rejectCondition _ _).bind fun _ _ => (closed_rejectCondition _ _).bind fun _ _ =>
    hop.bind fun _ _ => (closed_broadcast l r).bind fun _ _ => closed_ok _

theorem closed_visitUnaryop (op : UnaryOp) (v : EvalValue F) : Closed (I.visitUnaryop op v) := by
  cases op with
  | uAdd => exact closed_ok _
  | other _ => exact closed_reject _
  | uSub =>
    have hneg : Closed (I.negate v) := by
      unfold negate
      split
      · exact closed_reject _
      · split <;> exact closed_ok _
    exact hneg.bind fun _ _ => closed_ok _

/-! ## Selecting functions -/

theorem closed_callMinMax (a b : EvalValue F) (name : String) (scalar vector : F → F → F) :
    Closed (I.callMinMax a b name scalar vector) := by
  refine (closed_rejectCondition _ _).bind fun _ _ => (closed_rejectCondition _ _).bind fun _ _ =>
    (closed_combineAdditive _ _ _).bind fun _ _ => (closed_broadcast a b).bind fun shape _ => ?_
  cases shape with
  | some n => exact (closed_raiseIf _ _).bind fun _ _ => closed_ok _
  | none =>
    dsimp only
    split <;> exact closed_ok _

theorem closed_callClip (x low high : EvalValue F) : Closed (I.callClip x low high) := by
  refine (closed_rejectCondition _ _).bind fun _ _ => (closed_rejectCondition _ _).bind fun _ _ =>
    (closed_rejectCondition _ _).bind fun _ _ => (closed_raiseIf _ _).bind fun _ _ =>
    (closed_scalarArg _ _).bind fun _ _ => (closed_scalarArg _ _).bind fun _ _ =>
    (closed_raiseIf _ _).bind fun _ _ => (closed_checkClipBounds _ _ _).bind fun _ _ => ?_
  dsimp only
  split
  · exact closed_ok _
  · exact closed_ok _
  · exact (closed_raiseIf _ _).bind fun _ _ => closed_ok _

/-- The lengths of three arrays, of which the first is `n` and the others are `n` or `m`, go together as `n` and `m`
do. -/
theorem stretch_both {la lb : Nat} (ha : la = m ∨ la = n) (hb : lb = m ∨ lb = n) (h : la = m ∨ lb = m) :
    (stretchLength n la >>= fun k => stretchLength k lb) = stretchLength n m := by
  have hself : ∀ k, stretchLength k k = .ok k := fun k => if_pos rfl
  have hone : ∀ k, stretchLength k 1 = .ok k := by
    intro k
    by_cases hk : k = 1
    · rw [hk]
      rfl
    · rw [stretchLength, if_neg hk, if_neg hk, if_pos rfl]
  have hagain : ∀ k, stretchLength n m = .ok k → stretchLength k m = .ok k ∧ stretchLength k n = .ok k := by
    intro k hk
    obtain ⟨hn, hm, _⟩ := stretchLength_ok hk
    constructor
    · rcases hm with rfl | rfl
      · exact hself m
      · exact hone k
    · rcases hn with rfl | rfl
      · exact hself n
      · exact hone k
  have hsecond : ∀ lb, lb = m ∨ lb = n →
      (stretchLength n m >>= fun k => stretchLength k lb) = stretchLength n m := by
    intro lb hlb
    cases hk : stretchLength n m with
    | error e => rfl
    | ok k =>
      obtain ⟨hm, hn⟩ := hagain k hk
      rcases hlb with rfl | rfl
      · exact hm
      · exact hn
  rcases ha with rfl | rfl
  · exact hsecond lb hb
  · rcases h with rfl | rfl
    · exact hsecond lb hb
    · rw [hself la]
      rfl

theorem stretchLength_ne (h : n ≠ m) :
    stretchLength n m = if n = 1 then .ok m else if m = 1 then .ok n else .error (.python .valueError) :=
  if_neg h

/-- The lengths of the arrays of `where`: `n` for the condition, `n` or `m` for the branches. -/
structure ArrayLengths (I : Interpreter F) (cond a b : EvalValue F) (n m : Nat) : Prop where
  condition : (I.getCells cond n).length = n
  left : (I.getCells a n).length = m ∨ (I.getCells a n).length = n
  right : (I.getCells b n).length = m ∨ (I.getCells b n).length = n
  branch : (I.getCells a n).length = m ∨ (I.getCells b n).length = m

theorem whereVector_eq
    (h : ArrayLengths I cond a b n m) : I.whereVector cond a b n unit = stretchLength n m >>= fun k =>
      I.whereResult (I.getCells cond n) (I.getCells a n) (I.getCells b n) n k unit := by
  rw [← stretch_both h.left h.right h.branch, bind_assoc]
  show stretchLength (I.getCells cond n).length (I.getCells a n).length >>= _ = _
  rw [h.condition]

theorem closed_whereResult {cv av bv : List (Cell F)} {k : Nat}
    (h : (I.options.nullPolicy = .fail && n ≠ 0 && n ≠ k) = false) : Closed (I.whereResult cv av bv n k unit) := by
  unfold whereResult
  rw [h]
  exact (closed_raiseIf _ _).bind fun _ _ => closed_ok _

theorem whereVector_error_iff (h : ArrayLengths I cond a b n m) : I.whereVector cond a b n unit = .error (.python x) ↔
      n ≠ m ∧ (n ≠ 1 ∧ m ≠ 1 ∧ x = .valueError ∨ n = 1 ∧ I.options.nullPolicy = .fail ∧ x = .indexError) := by
  rw [whereVector_eq h]
  by_cases hnm : n = m
  · subst hnm
    rw [show stretchLength n n = .ok n from if_pos rfl]
    have hclosed : Closed (I.whereResult (I.getCells cond n) (I.getCells a n) (I.getCells b n) n n unit) :=
      closed_whereResult (by simp)
    exact ⟨fun hx => absurd hx (hclosed x), fun hx => absurd rfl hx.1⟩
  · rw [stretchLength_ne hnm]
    by_cases hn : n = 1
    · rw [if_pos hn]
      show I.whereResult _ _ _ n m unit = _ ↔ _
      by_cases hfail : I.options.nullPolicy = .fail
      · unfold whereResult
        rw [if_pos (by simp [hfail, hnm, show n ≠ 0 by omega])]
        constructor
        · intro hx
          cases hx
          exact ⟨hnm, .inr ⟨hn, hfail, rfl⟩⟩
        · rintro ⟨_, ⟨hn', _⟩ | ⟨_, _, rfl⟩⟩
          · exact absurd hn hn'
          · rfl
      · have hclosed : Closed (I.whereResult (I.getCells cond n) (I.getCells a n) (I.getCells b n) n m unit) :=
          closed_whereResult (by simp [hfail])
        refine ⟨fun hx => absurd hx (hclosed x), ?_⟩
        rintro ⟨_, ⟨hn', _⟩ | ⟨_, hfail', _⟩⟩
        · exact absurd hn hn'
        · exact absurd hfail' hfail
    · rw [if_neg hn]
      by_cases hm : m = 1
      · rw [if_pos hm]
        show I.whereResult _ _ _ n n unit = _ ↔ _
        have hclosed : Closed (I.whereResult (I.getCells cond n) (I.getCells a n) (I.getCells b n) n n unit) :=
          closed_whereResult (by simp)
        refine ⟨fun hx => absurd hx (hclosed x), ?_⟩
        rintro ⟨_, ⟨_, hm', _⟩ | ⟨hn', _⟩⟩
        · exact absurd hm hm'
        · exact absurd hn' hn
      · rw [if_neg hm]
        constructor
        · intro hx
          cases hx
          exact ⟨hnm, .inl ⟨hn, hm, rfl⟩⟩
        · rintro ⟨_, ⟨_, _, rfl⟩ | ⟨hn', _⟩⟩
          · rfl
          · exact absurd hn' hn

theorem getCells_lengths (h : v.payload.shape = none ∨ v.payload.shape = some m) :
    (v.payload.shape = some m → (I.getCells v n).length = m) ∧
      ((I.getCells v n).length = m ∨ (I.getCells v n).length = n) := by
  have hvector : v.payload.shape = some m → (I.getCells v n).length = m := by
    intro hm
    obtain ⟨cs, hcs, hlen⟩ := exists_of_shape hm
    unfold getCells
    rw [hcs]
    exact hlen
  refine ⟨hvector, ?_⟩
  rcases h with h | h
  · exact .inr (getCells_length (.inl h))
  · exact .inl (hvector h)

theorem arrayLengths
    (hc : cond.payload.shape = some n ∨ cond.payload.shape = none)
    (hb : broadcast a b = .ok (some m)) : ArrayLengths I cond a b n m where
  condition := getCells_length hc.symm
  left := (getCells_lengths (broadcast_some hb).left).2
  right := (getCells_lengths (broadcast_some hb).right).2
  branch := (broadcast_some hb).vector.imp (getCells_lengths (broadcast_some hb).left).1
    (getCells_lengths (broadcast_some hb).right).1

theorem applyWhere_error_iff : I.applyWhere cond a b unit = .error (.python x) ↔
      ∃ n m, cond.payload.shape = some n ∧ broadcast a b = .ok (some m) ∧ n ≠ m ∧
        (n ≠ 1 ∧ m ≠ 1 ∧ x = .valueError ∨ n = 1 ∧ I.options.nullPolicy = .fail ∧ x = .indexError) := by
  unfold applyWhere
  split
  · -- three scalars
    next hc _ _ =>
    constructor
    · intro h
      cases h
    · rintro ⟨n, _, hn, _⟩
      rw [hc] at hn
      cases hn
  · next hnot =>
    rw [(closed_broadcast a b).bind_python_iff]
    cases hc : cond.payload.shape with
    | some n =>
      constructor
      · rintro ⟨shape, hshape, h⟩
        have h' : I.whereVector cond a b n unit = .error (.python x) := h
        cases shape with
        | some m => exact ⟨n, m, rfl, hshape, (whereVector_error_iff (arrayLengths (.inl hc) hshape)).mp h'⟩
        | none =>
          obtain ⟨ha, hb⟩ := broadcast_none hshape
          have hlen : ArrayLengths I cond a b n n :=
            ⟨getCells_length (.inr hc), .inr (getCells_length (.inl (isVector_eq_false_iff.mp ha))),
              .inr (getCells_length (.inl (isVector_eq_false_iff.mp hb))),
              .inl (getCells_length (.inl (isVector_eq_false_iff.mp ha)))⟩
          exact absurd rfl ((whereVector_error_iff hlen).mp h').1
      · rintro ⟨n', m, hn, hshape, h⟩
        cases hn
        exact ⟨some m, hshape, (whereVector_error_iff (arrayLengths (.inl hc) hshape)).mpr h⟩
    | none =>
      constructor
      · rintro ⟨shape, hshape, h⟩
        cases shape with
        | none =>
          obtain ⟨ha, hb⟩ := broadcast_none hshape
          exact absurd (isVector_eq_false_iff.mp hb) (hnot hc (isVector_eq_false_iff.mp ha))
        | some m =>
          have h' : I.whereVector cond a b m unit = .error (.python x) := h
          exact absurd rfl ((whereVector_error_iff (arrayLengths (.inr hc) hshape)).mp h').1
      · rintro ⟨n, _, hn, _⟩
        cases hn

theorem callWhere_error_iff : I.callWhere cond a b = .error (.python x) ↔ WhereRaises I cond a b x := by
  unfold callWhere
  rw [(closed_raiseIf _ _).bind_python_iff]
  constructor
  · rintro ⟨_, hc, h⟩
    obtain ⟨_, ha, h⟩ := (closed_rejectCondition _ _).bind_python_iff.mp h
    obtain ⟨_, hb, h⟩ := (closed_rejectCondition _ _).bind_python_iff.mp h
    obtain ⟨t, ht, h⟩ := Closed.bind_python_iff (m := combineWhere a.unit b.unit)
      (closed_combineAdditive _ _ _) |>.mp h
    rcases bind_error_iff.mp h with h | ⟨_, _, h⟩
    · obtain ⟨n, m, hn, hm, hrest⟩ := applyWhere_error_iff.mp h
      have hcond : cond.isCondition = true := by simpa using raiseIf_ok.mp hc
      exact ⟨n, m, ⟨hcond, rejectCondition_ok.mp ha, rejectCondition_ok.mp hb, ⟨t, ht⟩, hn, hm⟩, hrest⟩
    · cases h
  · rintro ⟨n, m, hlen, hrest⟩
    obtain ⟨t, ht⟩ := hlen.unit
    refine ⟨(), raiseIf_ok.mpr (by simp [hlen.condition]), ?_⟩
    refine (closed_rejectCondition _ _).bind_python_iff.mpr ⟨(), rejectCondition_ok.mpr hlen.left, ?_⟩
    refine (closed_rejectCondition _ _).bind_python_iff.mpr ⟨(), rejectCondition_ok.mpr hlen.right, ?_⟩
    refine bind_error_iff.mpr (.inr ⟨t, ht, bind_error_iff.mpr (.inl ?_)⟩)
    exact applyWhere_error_iff.mpr ⟨n, m, hlen.length, hlen.branches, hrest⟩

/-! ## Elementwise functions -/

theorem closed_keepUnit (f : Elementwise F) (x : EvalValue F) : Closed (I.keepUnit f x) :=
  (closed_elementwiseUnary f x _).bind fun _ _ => closed_ok _

theorem closed_dimensionless (f : Elementwise F) (x : EvalValue F) : Closed (I.dimensionless f x) :=
  (closed_requireDimensionless _ _).bind fun _ _ => (closed_elementwiseUnary f x _).bind fun _ _ => closed_ok _

theorem closed_angle (f : Elementwise F) (x : EvalValue F) : Closed (I.angle f x) := by
  have hunit : Closed (propagateInverseTrig x.unit I.options.angleUnit) :=
    (closed_requireDimensionless _ _).bind fun _ _ => closed_ok _
  exact hunit.bind fun _ _ => (closed_elementwiseUnary f x _).bind fun _ _ => closed_ok _

theorem closed_callSqrt (x : EvalValue F) : Closed (I.callSqrt x) :=
  (closed_elementwiseUnary _ x _).bind fun _ _ => closed_ok _

theorem closed_callAtan2 (y x : EvalValue F) : Closed (I.callAtan2 y x) :=
  (closed_rejectCondition _ _).bind fun _ _ => (closed_rejectCondition _ _).bind fun _ _ =>
    (closed_propagateAtan2 _ _ _).bind fun _ _ => (closed_broadcast y x).bind fun _ _ =>
    (closed_applyBinop (fun _ _ => ⟨_, rfl⟩) y x _ _).bind fun _ _ => closed_ok _

theorem callRound_error_iff {digits : EvalValue F} : I.callRound v digits = .error (.python x) ↔
      ∃ u d, v.payload = .scalar u ∧ digits.payload = .scalar d ∧ I.arith.isInteger d = true ∧
        (I.arith.toInt d).natAbs ≤ I.limits.maxRoundDigits ∧ I.arith.round u (I.arith.toInt d) = .error x := by
  unfold callRound
  rw [(closed_scalarArg _ _).bind_python_iff]
  constructor
  · rintro ⟨d, hd, h⟩
    obtain ⟨_, hint, h⟩ := (closed_raiseIf _ _).bind_python_iff.mp h
    obtain ⟨_, hmax, h⟩ := (closed_raiseIf _ _).bind_python_iff.mp h
    cases hv : v.payload with
    | nullScalar | vector _ =>
      rw [hv] at h
      cases h
    | scalar u =>
      rw [hv] at h
      rcases bind_error_iff.mp h with h | ⟨_, _, h⟩
      · refine ⟨u, d, rfl, scalarArg_ok hd, by simpa using raiseIf_ok.mp hint, ?_,
          unguarded_error_iff.mp h⟩
        exact Nat.le_of_not_lt (of_decide_eq_false (raiseIf_ok.mp hmax))
      · cases h
  · rintro ⟨u, d, hu, hd, hint, hmax, hround⟩
    refine ⟨d, by rw [scalarArg, hd], ?_⟩
    refine (closed_raiseIf _ _).bind_python_iff.mpr ⟨(), raiseIf_ok.mpr (by simp [hint]), ?_⟩
    refine (closed_raiseIf _ _).bind_python_iff.mpr ⟨(), raiseIf_ok.mpr (decide_eq_false (by omega)), ?_⟩
    rw [hu]
    exact bind_error_iff.mpr (.inl (unguarded_error_iff.mpr hround))

theorem closed_callElementwise (hne : func ≠ .round)
    (he : func.isElementwise = true) (hlo : func.expectedArgs.1 ≤ args.length)
    (hhi : args.length ≤ func.expectedArgs.2) : Closed (I.callElementwise func args) := by
  cases func
  case round => exact absurd rfl hne
  case atan2 =>
    obtain ⟨y, x, rfl⟩ := two_arguments hhi hlo
    exact closed_callAtan2 y x
  case abs | floor | ceil =>
    obtain ⟨x, rfl⟩ := one_argument hhi hlo
    exact (closed_rejectCondition _ _).bind fun _ _ => closed_keepUnit _ x
  case sqrt =>
    obtain ⟨x, rfl⟩ := one_argument hhi hlo
    exact (closed_rejectCondition _ _).bind fun _ _ => closed_callSqrt x
  case exp | log | log10 | sin | cos | tan =>
    obtain ⟨x, rfl⟩ := one_argument hhi hlo
    exact (closed_rejectCondition _ _).bind fun _ _ => closed_dimensionless _ x
  case asin | acos | atan =>
    obtain ⟨x, rfl⟩ := one_argument hhi hlo
    exact (closed_rejectCondition _ _).bind fun _ _ => closed_angle _ x
  all_goals cases he

/-! ## Aggregates -/

theorem aggregateSum_error_iff {vals : List F} :
    I.aggregateSum vals unit = .error (.python x) ↔ vals.isEmpty = false ∧ I.arith.fsum vals = .error x := by
  unfold aggregateSum
  cases hempty : vals.isEmpty with
  | true =>
    constructor
    · intro h
      cases h
    · rintro ⟨h, _⟩
      cases h
  | false =>
    rw [if_neg Bool.false_ne_true]
    constructor
    · intro h
      rcases bind_error_iff.mp h with h | ⟨_, _, h⟩
      · exact ⟨rfl, unguarded_error_iff.mp h⟩
      · exact absurd h ((closed_raiseIf _ _).bind (fun _ _ => closed_ok _) x)
    · rintro ⟨_, h⟩
      exact bind_error_iff.mpr (.inl (unguarded_error_iff.mpr h))

theorem aggregateQuantile_error_iff {q : EvalValue F} {vals : List F} :
    I.aggregateQuantile q vals unit = .error (.python x) ↔ vals.isEmpty = false ∧
      ∃ p, q.payload = .scalar p ∧ (I.arith.lt p I.arith.zero || I.arith.lt I.arith.one p) = false ∧
        I.arith.npQuantile vals p = .error x := by
  unfold aggregateQuantile
  rw [(closed_scalarArg _ _).bind_python_iff]
  constructor
  · rintro ⟨p, hp, h⟩
    obtain ⟨_, hrange, h⟩ := (closed_raiseIf _ _).bind_python_iff.mp h
    obtain ⟨_, hempty, h⟩ := (closed_raiseIf _ _).bind_python_iff.mp h
    rcases bind_error_iff.mp h with h | ⟨_, _, h⟩
    · exact ⟨raiseIf_ok.mp hempty, p, scalarArg_ok hp, raiseIf_ok.mp hrange, unguarded_error_iff.mp h⟩
    · cases h
  · rintro ⟨hempty, p, hp, hrange, h⟩
    refine ⟨p, by rw [scalarArg, hp], ?_⟩
    refine (closed_raiseIf _ _).bind_python_iff.mpr ⟨(), raiseIf_ok.mpr hrange, ?_⟩
    refine (closed_raiseIf _ _).bind_python_iff.mpr ⟨(), raiseIf_ok.mpr hempty, ?_⟩
    exact bind_error_iff.mpr (.inl (unguarded_error_iff.mpr h))

theorem closed_getDdof (args : List (EvalValue F)) (nodes : List (Expr F)) : Closed (getDdof args nodes) := by
  unfold getDdof
  split
  · split
    · split
      · split
        · exact closed_ok _
        · exact closed_reject _
      · exact closed_reject _
      · exact closed_reject _
    · exact closed_reject _
  · exact closed_ok _

theorem closed_aggregateSpread (long name : String) (r : Reduction) (ddof : Nat) (vals : List F)
    (unit : UnitTag) : Closed (I.aggregateSpread long name r ddof vals unit) := by
  unfold aggregateSpread
  split
  · exact closed_numeric _
  · split
    · exact closed_numeric _
    · exact (closed_raiseIf _ _).bind fun _ _ => closed_ok _

theorem closed_aggregateMean (vals : List F) (unit : UnitTag) : Closed (I.aggregateMean vals unit) := by
  unfold aggregateMean
  split
  · exact closed_numeric _
  · exact (closed_raiseIf _ _).bind fun _ _ => closed_ok _

theorem closed_aggregateOrder (name : String) (r : Reduction) (vals : List F) (unit : UnitTag) :
    Closed (I.aggregateOrder name r vals unit) := by
  unfold aggregateOrder
  split
  · exact closed_numeric _
  · exact closed_ok _

/-- The computation of an aggregate: `sum` and `quantile` let something through. -/
theorem aggregateValues_error_iff {vals : List F} (hcount : func ≠ .count) (he : func.isElementwise = false)
    (hs : func.isSelect = false) (hlo : func.expectedArgs.1 ≤ args.length) :
    I.aggregateValues func vals unit args nodes = .error (.python x) ↔
      func = .sum ∧ I.aggregateSum vals unit = .error (.python x) ∨
      func = .quantile ∧ ∃ v q rest, args = v :: q :: rest ∧
        I.aggregateQuantile q vals unit = .error (.python x) := by
  have hclosed : ∀ {m : Except Exn (Visited F)} {P : Prop}, Closed m → ¬ P →
      (m = .error (.python x) ↔ P) := fun hm hP => ⟨fun h => absurd h (hm x), fun h => absurd h hP⟩
  cases func
  case count => exact absurd rfl hcount
  case sum =>
    show I.aggregateSum vals unit = _ ↔ _
    simp
  case mean => exact hclosed (closed_aggregateMean vals unit) (by simp)
  case min | max | median => exact hclosed (closed_aggregateOrder _ _ vals unit) (by simp)
  case var | std =>
    exact hclosed ((closed_getDdof args nodes).bind fun _ _ => closed_aggregateSpread _ _ _ _ _ _) (by simp)
  case quantile =>
    match args, hlo with
    | v :: q :: rest, _ =>
      show I.aggregateQuantile q vals unit = _ ↔ _
      simp
  case minimum | maximum | clip | where_ => cases hs
  all_goals cases he

theorem callAggregate_python_iff {rest : List (EvalValue F)} (hcount : func ≠ .count) :
    I.callAggregate func (v :: rest) nodes = .error (.python x) ↔
      v.isCondition = false ∧ (I.options.nullPolicy = .propagate && hasNull v) = false ∧
        I.aggregateValues func (I.validValues v) v.unit (v :: rest) nodes = .error (.python x) := by
  show (rejectCondition v (aggregateName func) >>= fun _ =>
    if func = .count then .ok (I.aggregateCount v, [])
    else if (I.options.nullPolicy = .propagate && hasNull v) = true then
      .ok (.nullScalar (aggregateUnit func v.unit), [.nullInAggregate])
    else I.aggregateValues func (I.validValues v) v.unit (v :: rest) nodes) = _ ↔ _
  rw [(closed_rejectCondition _ _).bind_python_iff, if_neg hcount]
  constructor
  · rintro ⟨_, hcond, h⟩
    cases hnull : (I.options.nullPolicy = .propagate && hasNull v : Bool) with
    | true =>
      rw [if_pos hnull] at h
      cases h
    | false =>
      rw [if_neg (by rw [hnull]; exact Bool.false_ne_true)] at h
      exact ⟨rejectCondition_ok.mp hcond, rfl, h⟩
  · rintro ⟨hcond, hnull, h⟩
    refine ⟨(), rejectCondition_ok.mpr hcond, ?_⟩
    rw [if_neg (by rw [hnull]; exact Bool.false_ne_true)]
    exact h

theorem callAggregate_error_iff (he : func.isElementwise = false) (hs : func.isSelect = false)
    (hlo : func.expectedArgs.1 ≤ args.length) (hhi : args.length ≤ func.expectedArgs.2) :
    I.callAggregate func args nodes = .error (.python x) ↔ (func = .sum ∧ ∃ v, args = [v] ∧ SumRaises I v x) ∨
      (func = .quantile ∧ ∃ v q, args = [v, q] ∧ QuantileRaises I v q x) := by
  have hone : 1 ≤ args.length := by
    refine Nat.le_trans ?_ hlo
    cases func <;> decide
  obtain ⟨v, rest, rfl⟩ := List.exists_cons_of_length_pos hone
  by_cases hcount : func = .count
  · subst hcount
    refine ⟨fun h => ?_, fun h => by simp at h⟩
    have hclosed : Closed (I.callAggregate .count (v :: rest) nodes) :=
      (closed_rejectCondition _ _).bind fun _ _ => closed_ok _
    exact absurd h (hclosed x)
  rw [callAggregate_python_iff hcount, aggregateValues_error_iff hcount he hs hlo]
  constructor
  · rintro ⟨hcond, hnull, ⟨rfl, h⟩ | ⟨rfl, v', q, rest', hargs, h⟩⟩
    · obtain ⟨hempty, hsum⟩ := aggregateSum_error_iff.mp h
      have hrest : rest = [] := List.eq_nil_of_length_eq_zero (Nat.le_zero.mp (Nat.le_of_succ_le_succ hhi))
      exact .inl ⟨rfl, v, by rw [hrest], ⟨hcond, hnull, hempty⟩, hsum⟩
    · cases hargs
      obtain ⟨hempty, hnumber⟩ := aggregateQuantile_error_iff.mp h
      have hrest : rest' = [] := List.eq_nil_of_length_eq_zero
        (Nat.le_zero.mp (Nat.le_of_succ_le_succ (Nat.le_of_succ_le_succ hhi)))
      exact .inr ⟨rfl, v, q, by rw [hrest], ⟨hcond, hnull, hempty⟩, hnumber⟩
  · rintro (⟨rfl, w, hargs, h⟩ | ⟨rfl, w, q, hargs, h⟩)
    · cases hargs
      exact ⟨h.value, h.null, .inl ⟨rfl, aggregateSum_error_iff.mpr ⟨h.nonempty, h.sum⟩⟩⟩
    · cases hargs
      exact ⟨h.value, h.null, .inr ⟨rfl, v, q, [], rfl,
        aggregateQuantile_error_iff.mpr ⟨h.nonempty, h.number⟩⟩⟩

end Interpreter

/-! ## Nodes -/

section Nodes

variable {I : Interpreter F}

theorem closed_visitName (name : String) : Closed (I.visitName name) := by
  unfold visitName
  split
  · exact closed_ok _
  · split
    · exact closed_ok _
    · split
      · exact closed_reject _
      · split
        · exact closed_numeric _
        · split <;> exact closed_ok _

theorem closed_visitConstant {value : Literal F} (h : (Expr.constant value).Valid) :
    Closed (I.visitConstant value) := by
  cases value with
  | int n | float x => exact (closed_ok _).bind fun _ _ => (closed_raiseIf _ _).bind fun _ _ => closed_ok _
  | bool _ | other _ _ => exact absurd h id

variable {vs : List (EvalValue F)} {cond a b : EvalValue F} {v : Visited F}

theorem visitCall_error_iff {func : String} {nodes : List (Expr F)} {keywords : Bool}
    (hvalid : (Expr.call func nodes keywords).Valid) (hlen : vs.length = nodes.length) {x : PyExn} :
    I.visitCall func vs nodes = .error (.python x) ↔ Escapes I (.call func nodes keywords) vs x := by
  obtain ⟨f, hf, hlo, hhi⟩ := hvalid
  rw [← hlen] at hlo hhi
  cases he : f.isElementwise with
  | true =>
    rw [I.visitCall_elementwise hf he]
    by_cases hround : f = .round
    · subst hround
      obtain ⟨v, digits, rfl⟩ := two_arguments hhi hlo
      show (rejectCondition v "round" >>= fun _ => I.callRound v digits) = _ ↔ _
      rw [(closed_rejectCondition _ _).bind_python_iff]
      constructor
      · rintro ⟨_, hcond, h⟩
        exact .round hf ⟨rejectCondition_ok.mp hcond, callRound_error_iff.mp h⟩
      · intro h
        cases h with
        | round _ h => exact ⟨(), rejectCondition_ok.mpr h.value, callRound_error_iff.mpr h.numbers⟩
        | quantile hf' _ =>
          rw [hf] at hf'
          cases hf'
    · refine ⟨fun h => absurd h (closed_callElementwise hround he hlo hhi x), fun h => ?_⟩
      cases h with
      | round hf' _ =>
        rw [hf] at hf'
        exact absurd (Option.some.inj hf') hround
      | sum hf' _ | quantile hf' _ | where_ hf' _ =>
        rw [hf] at hf'
        rw [Option.some.inj hf'] at he
        cases he
  | false =>
    cases hs : f.isSelect with
    | true =>
      rw [I.visitCall_select hf he hs]
      by_cases hwhere : f = .where_
      · subst hwhere
        obtain ⟨c, a, b, rfl⟩ :=
          List.length_eq_three.mp (show vs.length = 3 from Nat.le_antisymm hhi hlo)
        show I.callWhere c a b = _ ↔ _
        rw [callWhere_error_iff]
        constructor
        · exact fun h => .where_ hf h
        · intro h
          cases h with
          | where_ _ h => exact h
      · have hclosed : Closed (I.callSelect f vs) := by
          cases f
          case where_ => exact absurd rfl hwhere
          case minimum | maximum =>
            obtain ⟨a, b, rfl⟩ := two_arguments hhi hlo
            exact closed_callMinMax a b _ _ _
          case clip =>
            obtain ⟨v, low, high, rfl⟩ :=
              List.length_eq_three.mp (show vs.length = 3 from Nat.le_antisymm hhi hlo)
            exact closed_callClip v low high
          all_goals cases hs
        refine ⟨fun h => absurd h (hclosed x), fun h => ?_⟩
        cases h with
        | where_ hf' _ =>
          rw [hf] at hf'
          exact absurd (Option.some.inj hf') hwhere
        | sum hf' _ | quantile hf' _ | round hf' _ =>
          rw [hf] at hf'
          rw [Option.some.inj hf'] at hs
          cases hs
    | false =>
      rw [I.visitCall_aggregate hf he hs, callAggregate_error_iff he hs hlo hhi]
      constructor
      · rintro (⟨rfl, v, rfl, h⟩ | ⟨rfl, v, q, rfl, h⟩)
        · exact .sum hf h
        · exact .quantile hf h
      · intro h
        cases h with
        | sum hf' h =>
          rw [hf] at hf'
          exact .inl ⟨Option.some.inj hf', _, rfl, h⟩
        | quantile hf' h =>
          rw [hf] at hf'
          exact .inr ⟨Option.some.inj hf', _, _, rfl, h⟩
        | round hf' _ =>
          rw [hf] at hf'
          rw [Option.some.inj hf'] at he
          cases he
        | where_ hf' _ =>
          rw [hf] at hf'
          rw [Option.some.inj hf'] at hs
          cases hs

/-- **What escapes a visit.** -/
theorem visit_error_iff {s : Expr F} (hvalid : s.Valid) (hlen : vs.length = s.operands.length) {x : PyExn} :
    I.visit s vs = .error (.python x) ↔ Escapes I s vs x := by
  cases s with
  | constant value =>
    refine ⟨fun h => absurd h (closed_visitConstant hvalid x), fun h => ?_⟩
    cases h
  | name id =>
    refine ⟨fun h => absurd h (closed_visitName id x), fun h => ?_⟩
    cases h
  | callOther | other _ => exact absurd hvalid id
  | unaryOp op operand =>
    obtain ⟨v, rfl⟩ := List.length_eq_one_iff.mp hlen
    refine ⟨fun h => absurd h (closed_visitUnaryop op v x), fun h => ?_⟩
    cases h
  | compare left op right more =>
    cases more with
    | nil =>
      obtain ⟨l, r, rfl⟩ := List.length_eq_two.mp hlen
      refine ⟨fun h => absurd h (closed_visitCompare op l r x), fun h => ?_⟩
      cases h
    | cons _ _ =>
      rw [List.eq_nil_of_length_eq_zero hlen]
      refine ⟨fun h => absurd h (closed_reject _ x), fun h => ?_⟩
      cases h
  | binOp left op right =>
    obtain ⟨l, r, rfl⟩ := List.length_eq_two.mp hlen
    show I.visitBinop op l r right.intLiteral = _ ↔ _
    rw [visitBinop_error_iff]
    constructor
    · rintro ⟨rfl, h⟩
      exact .pow h
    · intro h
      cases h with
      | pow h => exact ⟨rfl, h⟩
  | call func nodes keywords => exact visitCall_error_iff hvalid hlen

/-! ## Vectors of different lengths -/

theorem not_unequal {ps : List (Payload F)} {n : Nat} (h : ∀ cs, Payload.vector cs ∈ ps → cs.length = n) :
    ¬ Unequal ps := by
  rintro ⟨cs, ds, hcs, hds, hne⟩
  exact hne ((h cs hcs).trans (h ds hds).symm)

theorem not_unequal_cons {p : Payload F} {ps : List (Payload F)} (h : ∀ q ∈ ps, ∃ v, q = .scalar v) :
    ¬ Unequal (p :: ps) := by
  have hvector : ∀ cs, Payload.vector cs ∈ p :: ps → p = .vector cs := by
    intro cs hcs
    rcases List.mem_cons.mp hcs with heq | hmem
    · exact heq.symm
    · obtain ⟨v, hv⟩ := h _ hmem
      cases hv
  rintro ⟨cs, ds, hcs, hds, hne⟩
  have hsame := (hvector cs hcs).symm.trans (hvector ds hds)
  cases hsame
  exact hne rfl

theorem broadcast_ok_not_unequal {l r : EvalValue F} {shape : Shape} (h : broadcast l r = .ok shape) :
    ¬ Unequal [l.payload, r.payload] := by
  cases shape with
  | some n => exact not_unequal (broadcast_some h).lengths.1
  | none =>
    obtain ⟨hl, hr⟩ := broadcast_none h
    refine not_unequal (n := 0) (fun cs hcs => ?_)
    rcases List.mem_pair.mp hcs with heq | heq
    · rw [← heq] at hl
      cases hl
    · rw [← heq] at hr
      cases hr

theorem whereResult_ok_iff {cv av bv : List (Cell F)} {n k : Nat} {unit : UnitTag} (w : List Warning) :
    (∃ v, (I.whereResult cv av bv n k unit >>= fun v => pure (v, w)) = .ok v) ↔
      (I.options.nullPolicy = .fail && n ≠ 0 && n ≠ k) = false ∧
      I.checkFiniteVector (I.whereCells cv av bv k) "where" = .ok () := by
  unfold whereResult
  cases hmask : (I.options.nullPolicy = .fail && n ≠ 0 && n ≠ k : Bool) with
  | true =>
    rw [if_pos rfl]
    constructor
    · rintro ⟨v, hv⟩
      cases hv
    · rintro ⟨h, _⟩
      cases h
  | false =>
    rw [if_neg Bool.false_ne_true]
    constructor
    · rintro ⟨v, hv⟩
      obtain ⟨u, hu, _⟩ := bind_ok_iff.mp hv
      obtain ⟨_, hcheck, _⟩ := bind_ok_iff.mp hu
      exact ⟨rfl, hcheck⟩
    · rintro ⟨_, hcheck⟩
      exact ⟨_, bind_ok_iff.mpr ⟨_, bind_ok_iff.mpr ⟨(), hcheck, rfl⟩, rfl⟩⟩

/-- `where` on arguments that pass its checks, a vector and branches of another length. -/
theorem callWhere_ok_iff {n m : Nat} (h : WhereLengths cond a b n m) (hnm : n ≠ m) :
    (∃ v, I.callWhere cond a b = .ok v) ↔ (n = 1 ∧ I.options.nullPolicy = .propagate ∨ m = 1) ∧
      I.checkFiniteVector (I.whereCells (I.getCells cond n) (I.getCells a n) (I.getCells b n)
        (if n = 1 then m else n)) "where" = .ok () := by
  obtain ⟨t, ht⟩ := h.unit
  have hcall : I.callWhere cond a b = (stretchLength n m >>= fun k =>
      I.whereResult (I.getCells cond n) (I.getCells a n) (I.getCells b n) n k t.1) >>= fun v => pure (v, t.2) := by
    rw [← whereVector_eq (arrayLengths (.inl h.length) h.branches)]
    unfold callWhere applyWhere
    rw [rejectCondition_ok.mpr h.left, rejectCondition_ok.mpr h.right, ht, h.condition, h.length]
    show (broadcast a b >>= fun shape => I.whereVector cond a b n t.1) >>= _ = _
    rw [h.branches]
    rfl
  rw [hcall, stretchLength_ne hnm]
  by_cases hn : n = 1
  · rw [if_pos hn, if_pos hn]
    refine (whereResult_ok_iff t.2).trans (and_congr_left fun _ => ?_)
    constructor
    · intro hpolicy
      cases hp : I.options.nullPolicy with
      | propagate => exact .inl ⟨hn, rfl⟩
      | fail =>
        rw [hp] at hpolicy
        simp [hn] at hpolicy
        omega
    · rintro (⟨_, hp⟩ | hm)
      · simp [hp]
      · omega
  · rw [if_neg hn, if_neg hn]
    by_cases hm : m = 1
    · rw [if_pos hm]
      refine (whereResult_ok_iff t.2).trans (and_congr_left fun _ => ?_)
      simp [hm]
    · rw [if_neg hm]
      constructor
      · rintro ⟨v, hv⟩
        cases hv
      · rintro ⟨⟨hn', _⟩ | hm', _⟩
        · exact absurd hn' hn
        · exact absurd hm' hm

/-- Checks of `where` that were passed, and a vector among its branches and its condition. -/
theorem callWhere_lengths (h : I.callWhere cond a b = .ok v)
    (hne : Unequal [cond.payload, a.payload, b.payload]) : ∃ n m, WhereLengths cond a b n m ∧ n ≠ m := by
  obtain ⟨_, hc, h⟩ := bind_ok_iff.mp h
  obtain ⟨_, ha, h⟩ := bind_ok_iff.mp h
  obtain ⟨_, hb, h⟩ := bind_ok_iff.mp h
  obtain ⟨t, ht, h⟩ := bind_ok_iff.mp h
  obtain ⟨u, hu, _⟩ := bind_ok_iff.mp h
  have hcond : cond.isCondition = true := by simpa using raiseIf_ok.mp hc
  -- the branches have a shape together: otherwise all three are scalars, or the branches raise
  have hshape : ∃ shape, broadcast a b = .ok shape := by
    unfold applyWhere at hu
    split at hu
    · next _ hav hbv =>
      exact ⟨none, by rw [broadcast, hav, hbv]⟩
    · obtain ⟨shape, hshape, _⟩ := bind_ok_iff.mp hu
      exact ⟨shape, hshape⟩
  obtain ⟨shape, hshape⟩ := hshape
  obtain ⟨cs, ds, hcs, hds, hlen⟩ := hne
  have hbranches := broadcast_ok_not_unequal hshape
  have hlengths : ∀ {cs ds : List (Cell F)}, Payload.vector cs = cond.payload →
      Payload.vector ds ∈ [a.payload, b.payload] → cs.length ≠ ds.length →
      ∃ n m, WhereLengths cond a b n m ∧ n ≠ m := by
    intro cs ds hcs hds hne
    cases shape with
    | none =>
      obtain ⟨hav, hbv⟩ := broadcast_none hshape
      rcases List.mem_pair.mp hds with heq | heq
      · rw [← heq] at hav
        cases hav
      · rw [← heq] at hbv
        cases hbv
    | some m =>
      have hm := (broadcast_some hshape).lengths.1 ds hds
      exact ⟨cs.length, m, ⟨hcond, rejectCondition_ok.mp ha, rejectCondition_ok.mp hb, ⟨t, ht⟩,
        by rw [← hcs]; rfl, hshape⟩, hm ▸ hne⟩
  -- the condition is one of the two: the branches have one length
  rcases List.mem_cons.mp hcs with hcs | hcs
  · rcases List.mem_cons.mp hds with hds | hds
    · rw [← hds] at hcs
      cases hcs
      exact absurd rfl hlen
    · exact hlengths hcs hds hlen
  · rcases List.mem_cons.mp hds with hds | hds
    · exact hlengths hds hcs (Ne.symm hlen)
    · exact absurd ⟨cs, ds, hcs, hds, hlen⟩ hbranches

/-- Arguments of `where` whose lengths differ are combined exactly when they are stretched. -/
theorem callWhere_unequal_iff : ((∃ v, I.callWhere cond a b = .ok v) ∧ Unequal [cond.payload, a.payload, b.payload]) ↔
      WhereStretches I cond a b := by
  constructor
  · rintro ⟨⟨v, hv⟩, hne⟩
    obtain ⟨n, m, hlen, hnm⟩ := callWhere_lengths hv hne
    exact ⟨n, m, hlen, hnm, (callWhere_ok_iff hlen hnm).mp ⟨v, hv⟩⟩
  · rintro ⟨n, m, hlen, hnm, h⟩
    refine ⟨(callWhere_ok_iff hlen hnm).mpr h, ?_⟩
    obtain ⟨cs, hcs, hcsn⟩ := exists_of_shape hlen.length
    obtain ⟨_, ds, hds, hdsm⟩ := (broadcast_some hlen.branches).lengths
    refine ⟨cs, ds, hcs ▸ List.mem_cons_self, List.mem_cons_of_mem _ hds, ?_⟩
    rw [hcsn, hdsm]
    exact hnm

theorem callRound_digits {x digits : EvalValue F} (h : I.callRound x digits = .ok v) :
    ∃ d, digits.payload = .scalar d := by
  obtain ⟨d, hd, _⟩ := bind_ok_iff.mp h
  exact ⟨d, scalarArg_ok hd⟩

theorem callClip_bounds {x low high : EvalValue F} (h : I.callClip x low high = .ok v) :
    (∃ d, low.payload = .scalar d) ∧ ∃ d, high.payload = .scalar d := by
  obtain ⟨_, _, h⟩ := bind_ok_iff.mp h
  obtain ⟨_, _, h⟩ := bind_ok_iff.mp h
  obtain ⟨_, _, h⟩ := bind_ok_iff.mp h
  obtain ⟨_, _, h⟩ := bind_ok_iff.mp h
  obtain ⟨d, hlow, h⟩ := bind_ok_iff.mp h
  obtain ⟨d', hhigh, _⟩ := bind_ok_iff.mp h
  exact ⟨⟨d, scalarArg_ok hlow⟩, d', scalarArg_ok hhigh⟩

theorem callElementwise_not_unequal {f : Func} {args : List (EvalValue F)}
    (hlo : f.expectedArgs.1 ≤ args.length) (hhi : args.length ≤ f.expectedArgs.2)
    (h : I.callElementwise f args = .ok v) : ¬ Unequal (args.map EvalValue.payload) := by
  have hnone : ∀ q ∈ ([] : List (Payload F)), ∃ v, q = .scalar v := List.forall_mem_nil _
  cases f
  case atan2 =>
    obtain ⟨y, x, rfl⟩ := two_arguments hhi hlo
    obtain ⟨_, _, h⟩ := bind_ok_iff.mp h
    obtain ⟨_, _, h⟩ := bind_ok_iff.mp h
    obtain ⟨_, _, h⟩ := bind_ok_iff.mp h
    obtain ⟨_, hshape, _⟩ := bind_ok_iff.mp h
    exact broadcast_ok_not_unequal hshape
  case round =>
    obtain ⟨x, digits, rfl⟩ := two_arguments hhi hlo
    obtain ⟨_, _, h⟩ := bind_ok_iff.mp h
    refine not_unequal_cons (fun q hq => ?_)
    rw [List.mem_singleton.mp hq]
    exact callRound_digits h
  case abs | sqrt | exp | log | log10 | sin | cos | tan | asin | acos | atan | floor | ceil =>
    obtain ⟨x, rfl⟩ := one_argument hhi hlo
    exact not_unequal_cons hnone
  all_goals cases h

/-- A visit of a combining node that combines vectors of different lengths is one of `where`. -/
theorem visit_unequal_iff {s : Expr F} (hvalid : s.Valid) (hlen : vs.length = s.operands.length) :
    (s.combines = true ∧ (∃ v, I.visit s vs = .ok v) ∧ Unequal (vs.map EvalValue.payload)) ↔ Stretches I s vs := by
  constructor
  · rintro ⟨hs, ⟨v, hv⟩, hne⟩
    have hnone : ∀ q ∈ ([] : List (Payload F)), ∃ v, q = .scalar v := List.forall_mem_nil _
    cases s with
    | constant _ => cases hs
    | name _ => cases hs
    | callOther => cases hs
    | other _ => cases hs
    | unaryOp op operand =>
      obtain ⟨x, rfl⟩ := List.length_eq_one_iff.mp hlen
      exact absurd hne (not_unequal_cons hnone)
    | binOp left op right =>
      obtain ⟨l, r, rfl⟩ := List.length_eq_two.mp hlen
      obtain ⟨shape, _, _, hshape, _⟩ := visitBinop_ok (show I.visitBinop op l r right.intLiteral = .ok v from hv)
      exact absurd hne (broadcast_ok_not_unequal hshape)
    | compare left op right more =>
      cases more with
      | cons _ _ =>
        rw [List.eq_nil_of_length_eq_zero hlen] at hv
        cases hv
      | nil =>
        obtain ⟨l, r, rfl⟩ := List.length_eq_two.mp hlen
        obtain ⟨_, _, h⟩ := bind_ok_iff.mp (show I.visitCompare op l r = .ok v from hv)
        obtain ⟨_, _, h⟩ := bind_ok_iff.mp h
        obtain ⟨_, _, h⟩ := bind_ok_iff.mp h
        obtain ⟨_, hshape, _⟩ := bind_ok_iff.mp h
        exact absurd hne (broadcast_ok_not_unequal hshape)
    | call func nodes keywords =>
      obtain ⟨f, hf, hlo, hhi⟩ := hvalid
      have hlen' : vs.length = nodes.length := hlen
      rw [← hlen'] at hlo hhi
      have hcall : I.visitCall func vs nodes = .ok v := hv
      have hkind : (f.isElementwise || f.isSelect) = true := by
        have hs' : (Func.ofName func).any (fun f => f.isElementwise || f.isSelect) = true := hs
        rwa [hf] at hs'
      cases he : f.isElementwise with
      | true =>
        rw [I.visitCall_elementwise hf he] at hcall
        exact absurd hne (callElementwise_not_unequal hlo hhi hcall)
      | false =>
        rw [he, Bool.false_or] at hkind
        rw [I.visitCall_select hf he hkind] at hcall
        cases f
        case minimum | maximum =>
          obtain ⟨a, b, rfl⟩ := two_arguments hhi hlo
          obtain ⟨_, _, h⟩ := bind_ok_iff.mp hcall
          obtain ⟨_, _, h⟩ := bind_ok_iff.mp h
          obtain ⟨_, _, h⟩ := bind_ok_iff.mp h
          obtain ⟨_, hshape, _⟩ := bind_ok_iff.mp h
          exact absurd hne (broadcast_ok_not_unequal hshape)
        case clip =>
          obtain ⟨x, low, high, rfl⟩ :=
            List.length_eq_three.mp (show vs.length = 3 from Nat.le_antisymm hhi hlo)
          obtain ⟨hlow, hhigh⟩ := callClip_bounds hcall
          refine absurd hne (not_unequal_cons (fun q hq => ?_))
          rcases List.mem_pair.mp hq with rfl | rfl
          · exact hlow
          · exact hhigh
        case where_ =>
          obtain ⟨c, a, b, rfl⟩ := List.length_eq_three.mp (show vs.length = 3 from Nat.le_antisymm hhi hlo)
          exact .where_ hf (callWhere_unequal_iff.mp ⟨⟨v, hcall⟩, hne⟩)
        all_goals cases hkind
  · intro h
    cases h with
    | where_ hf h =>
      obtain ⟨⟨v, hv⟩, hne⟩ := callWhere_unequal_iff.mpr h
      refine ⟨?_, ⟨v, ?_⟩, hne⟩
      · show (Func.ofName _).any _ = true
        rw [hf]
        rfl
      · show I.visitCall _ _ _ = _
        rw [I.visitCall_select hf rfl rfl]
        exact hv

end Nodes

/-! ## Result -/

/-- **Evaluation is closed where no exception escapes and nothing is stretched.** Evaluating an accepted expression
raises nothing but a `NumericError`, and raises one wherever vectors of different lengths are combined, if and
only if no visit it comes to lets an exception escape or has NumPy stretch an argument of `where`. -/
theorem closed_iff (isIdentifier : String → Bool) (I : Interpreter F) (e : Expr F)
    (he : validate isIdentifier I.limits e = .ok ()) :
    ((∀ x, I.evaluateTree e ≠ .error (.python x)) ∧
      ∀ s vs, I.Visits e s vs → s.combines = true → Unequal (vs.map EvalValue.payload) →
        ∃ err, I.visit s vs = .error (.numeric err)) ↔
    ∀ s vs, I.Visits e s vs → (∀ x, ¬ Escapes I s vs x) ∧ ¬ Stretches I s vs := by
  have hnode : ∀ {s vs}, I.Visits e s vs → s.Valid ∧ vs.length = s.operands.length := by
    intro s vs hvisit
    obtain ⟨hacc, hlen⟩ := (accepted_of_validate he).reached hvisit.2
    exact ⟨hacc.valid, hlen⟩
  have hprecheck : Closed I.precheck := by
    refine (closed_raiseIf _ _).bind fun _ _ => ?_
    split
    · exact closed_numeric _
    · exact closed_ok _
  -- an exception escapes the evaluation from one of its visits
  have hescape : ∀ {x}, I.evaluateTree e = .error (.python x) ↔ ∃ s vs, I.Visits e s vs ∧ Escapes I s vs x := by
    intro x
    unfold Interpreter.evaluateTree
    rw [hprecheck.bind_python_iff]
    constructor
    · rintro ⟨_, hpre, h⟩
      rcases bind_error_iff.mp h with h | ⟨_, _, h⟩
      · obtain ⟨s, vs, hreach, hs⟩ := Evaluator.eval_error_iff (E := I.evaluator) |>.mp h
        have hvisit : I.Visits e s vs := ⟨hpre, hreach⟩
        exact ⟨s, vs, hvisit, (visit_error_iff (hnode hvisit).1 (hnode hvisit).2).mp hs⟩
      · cases h
    · rintro ⟨s, vs, hvisit, h⟩
      refine ⟨(), hvisit.1, bind_error_iff.mpr (.inl ?_)⟩
      exact (Evaluator.eval_error_iff (E := I.evaluator)).mpr
        ⟨s, vs, hvisit.2, (visit_error_iff (hnode hvisit).1 (hnode hvisit).2).mpr h⟩
  constructor
  · rintro ⟨hclosed, hlengths⟩ s vs hvisit
    refine ⟨fun x hx => hclosed x (hescape.mpr ⟨s, vs, hvisit, hx⟩), fun hstretch => ?_⟩
    obtain ⟨hs, ⟨v, hv⟩, hne⟩ := (visit_unequal_iff (hnode hvisit).1 (hnode hvisit).2).mpr hstretch
    obtain ⟨err, herr⟩ := hlengths s vs hvisit hs hne
    rw [hv] at herr
    cases herr
  · intro hsafe
    refine ⟨fun x hx => ?_, fun s vs hvisit hs hne => ?_⟩
    · obtain ⟨s, vs, hvisit, h⟩ := hescape.mp hx
      exact (hsafe s vs hvisit).1 x h
    · obtain ⟨hvalid, hlen⟩ := hnode hvisit
      cases hv : I.visit s vs with
      | ok v => exact absurd ((visit_unequal_iff hvalid hlen).mp ⟨hs, ⟨v, hv⟩, hne⟩) (hsafe s vs hvisit).2
      | error err =>
        cases err with
        | numeric err => exact ⟨err, rfl⟩
        | python x => exact absurd ((visit_error_iff hvalid hlen).mp hv) ((hsafe s vs hvisit).1 x)

/-- The sum of two series is closed. -/
theorem closed_iff_sum : ¬ ∃ x, (twoSeries [⟨1, false⟩, ⟨2, true⟩] [⟨3, false⟩]).evaluateTree
    (.binOp (.name "v") .add (.name "w")) = .error (.python x) := by
  rintro ⟨x, hx⟩
  refine ((closed_iff (fun _ => true) (twoSeries [⟨1, false⟩, ⟨2, true⟩] [⟨3, false⟩])
    (.binOp (.name "v") .add (.name "w")) rfl).mpr ?_).1 x hx
  rintro s vs ⟨_, hreach⟩
  have hs : s = .binOp (.name "v") .add (.name "w") ∨ ∃ id, s = .name id := by
    rcases Interpreter.reached_binOp hreach with hs | hreach | hreach
    · exact .inl hs
    · exact .inr ⟨_, Interpreter.reached_name hreach⟩
    · exact .inr ⟨_, Interpreter.reached_name hreach⟩
  rcases hs with rfl | ⟨id, rfl⟩
  all_goals
    constructor
    · intro x h
      cases h
    · intro h
      cases h

/-- **The reciprocal of zero.** `0 ** -1` raises a `ZeroDivisionError`. -/
theorem zero_to_negative_power :
    ¬ ∀ (I : Interpreter ℚ) (e : Expr ℚ), validate (fun _ => true) I.limits e = .ok () →
      (∀ x, I.evaluateTree e ≠ .error (.python x)) ∧
      ∀ s vs, I.Visits e s vs → s.combines = true → Unequal (vs.map EvalValue.payload) →
        ∃ err, I.visit s vs = .error (.numeric err) := by
  intro hall
  refine (hall (twoSeries [] []) (.binOp (.constant (.int 0)) .pow (.unaryOp .uSub (.constant (.int 1)))) rfl).1
    .zeroDivisionError ?_
  rfl

end Irip.Numeric
