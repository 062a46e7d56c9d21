import Irip.Numeric.Dimension

/-!
# `Numeric.UnitRules` — the units of expressions that evaluate without a warning

`UnitRule` gives the unit of a node from the units of its operands.
-/

namespace Irip.Numeric

open Evaluation

variable {F : Type}

/-! ## Rules -/

/-- The unit of a node that is visited without a warning, from the units of its operands. -/
inductive UnitRule (I : Interpreter F) : Expr F → List UnitTag → UnitTag → Prop where
  | constant {value} : UnitRule I (.constant value) [] .dimensionless
  | constantName {id} : isConstantName id = true → UnitRule I (.name id) [] .dimensionless
  | variable {id var} : isConstantName id = false → I.vars.lookup id = some var →
      UnitRule I (.name id) [] (.fromUnitString var.unit)
  | sign {op operand t} : UnitRule I (.unaryOp op operand) [t] t
  | additive {left op right t} : op = .add ∨ op = .sub ∨ op = .mod → t.isKnown = true →
      UnitRule I (.binOp left op right) [t, t] t
  | mult {left right l r} : l.isKnown = true → r.isKnown = true →
      UnitRule I (.binOp left .mult right) [l, r] (combineMultiplication l r).1
  | div {left right l r} : l.isKnown = true → r.isKnown = true →
      UnitRule I (.binOp left .div right) [l, r] (combineDivision l r).1
  | powDimensionless {left right} : UnitRule I (.binOp left .pow right) [.dimensionless, .dimensionless] .dimensionless
  | powZero {left right label} : right.intLiteral = some 0 →
      UnitRule I (.binOp left .pow right) [.known label, .dimensionless] .dimensionless
  | powOne {left right label} : right.intLiteral = some 1 →
      UnitRule I (.binOp left .pow right) [.known label, .dimensionless] (.known label)
  | pow {left right label n} : right.intLiteral = some (n + 2) →
      UnitRule I (.binOp left .pow right) [.known label, .dimensionless] (.known s!"{label}^{n + 2}")
  | compare {left op right l r} : UnitRule I (.compare left op right []) [l, r] .dimensionless
  | keep {func f args keywords t ts} : Func.ofName func = some f → f.keepsUnit = true →
      UnitRule I (.call func args keywords) (t :: ts) t
  | sqrt {func args keywords t ts} : Func.ofName func = some .sqrt → t.isKnown = true →
      UnitRule I (.call func args keywords) (t :: ts) (propagateSqrt t).1
  | number {func f args keywords ts} : Func.ofName func = some f → f.ofNumber = true →
      UnitRule I (.call func args keywords) (.dimensionless :: ts) .dimensionless
  | inverseTrig {func f args keywords ts} : Func.ofName func = some f → f.isInverseTrig = true →
      UnitRule I (.call func args keywords) (.dimensionless :: ts) (angleTag I.options.angleUnit)
  | atan2 {func args keywords t ts} : Func.ofName func = some .atan2 → t.isKnown = true →
      UnitRule I (.call func args keywords) (t :: t :: ts) (angleTag I.options.angleUnit)
  | extremum {func f args keywords t ts} : Func.ofName func = some f → f = .minimum ∨ f = .maximum →
      t.isKnown = true → UnitRule I (.call func args keywords) (t :: t :: ts) t
  | clip {func args keywords t ts} : Func.ofName func = some .clip → t.isKnown = true →
      UnitRule I (.call func args keywords) (t :: t :: t :: ts) t
  | choice {func args keywords c t ts} : Func.ofName func = some .where_ → t.isKnown = true →
      UnitRule I (.call func args keywords) (c :: t :: t :: ts) t
  | count {func args keywords t ts} : Func.ofName func = some .count →
      UnitRule I (.call func args keywords) (t :: ts) .dimensionless
  | var {func args keywords t ts} : Func.ofName func = some .var →
      UnitRule I (.call func args keywords) (t :: ts) (propagateVariance t)

variable {l r t : UnitTag}

theorem combineAdditive_ok {name : String} (h : combineAdditive l r name = .ok (t, [])) :
    l = r ∧ t = l ∧ l.isKnown = true := by
  unfold combineAdditive at h
  split at h
  · next hknown =>
      split at h
      · next heq =>
          cases h
          exact ⟨heq, rfl, (Bool.and_eq_true_iff.mp hknown).1⟩
      · cases h
  · split at h
    · cases h
    · split at h <;> cases h

theorem combineMultiplication_ok (h : (combineMultiplication l r).2 = []) : l.isKnown = true ∧ r.isKnown = true := by
  cases l <;> cases r <;> first | exact ⟨rfl, rfl⟩ | cases h

theorem combineDivision_ok (h : (combineDivision l r).2 = []) : l.isKnown = true ∧ r.isKnown = true := by
  cases l <;> cases r <;> first | exact ⟨rfl, rfl⟩ | cases h

theorem requireDimensionless_ok {name : String} (h : requireDimensionless t name = .ok []) : t = .dimensionless := by
  cases t with
  | known _ => cases h
  | dimensionless => rfl
  | unknown => cases h

theorem propagateAtan2_ok {y x : UnitTag} {angle : AngleUnit} (h : propagateAtan2 y x angle = .ok (t, [])) :
    y = x ∧ t = angleTag angle ∧ y.isKnown = true := by
  unfold propagateAtan2 at h
  split at h
  · next hknown =>
      split at h
      · next heq =>
          cases h
          exact ⟨heq, rfl, (Bool.and_eq_true_iff.mp hknown).1⟩
      · cases h
  · cases h

theorem checkClipBounds_ok {x low high : UnitTag} (h : checkClipBounds x low high = .ok (t, [])) :
    x = low ∧ x = high ∧ t = x ∧ x.isKnown = true := by
  obtain ⟨⟨t₁, w₁⟩, h₁, h⟩ := bind_ok_iff.mp h
  obtain ⟨⟨t₂, w₂⟩, h₂, h⟩ := bind_ok_iff.mp h
  have hpair := Prod.mk.inj (Except.ok.inj h)
  obtain ⟨hw₁, hw₂⟩ : w₁ = [] ∧ w₂ = [] := List.append_eq_nil_iff.mp hpair.2
  rw [hw₁] at h₁
  rw [hw₂] at h₂
  exact ⟨(combineAdditive_ok h₁).1, (combineAdditive_ok h₂).1, hpair.1.symm, (combineAdditive_ok h₁).2.2⟩

namespace Interpreter

variable {I : Interpreter F}

variable {l r v x a b : EvalValue F} {unit : UnitTag} {left right : Expr F} {w : List Warning} {name func : String}
  {f : Func} {vs : List (EvalValue F)} {args : List (Expr F)}

theorem applyBinop_unit {op : Binop F} {shape : Shape}
    (h : I.applyBinop op l r shape unit = .ok v) : v.unit = unit := by
  cases shape with
  | some n =>
    obtain ⟨_, _, h⟩ := bind_ok_iff.mp (show I.vectorBinop op l r n unit = .ok v from h)
    obtain ⟨_, _, h⟩ := bind_ok_iff.mp h
    obtain ⟨_, _, h⟩ := bind_ok_iff.mp h
    cases h
    rfl
  | none =>
    unfold applyBinop at h
    dsimp only at h
    split at h
    · obtain ⟨_, _, h⟩ := bind_ok_iff.mp h
      obtain ⟨_, _, h⟩ := bind_ok_iff.mp h
      obtain ⟨_, _, h⟩ := bind_ok_iff.mp h
      obtain ⟨_, _, h⟩ := bind_ok_iff.mp h
      cases h
      rfl
    · cases h
      rfl

theorem elementwiseUnary_unit {f : Elementwise F} (h : I.elementwiseUnary f x unit = .ok v) : v.unit = unit := by
  unfold elementwiseUnary at h
  split at h
  · cases h
    rfl
  · obtain ⟨_, _, h⟩ := bind_ok_iff.mp h
    obtain ⟨_, _, h⟩ := bind_ok_iff.mp h
    cases h
    rfl
  · obtain ⟨_, _, h⟩ := bind_ok_iff.mp h
    obtain ⟨_, _, h⟩ := bind_ok_iff.mp h
    cases h
    rfl

/-- A power without a warning: the exponent has no unit, and a base with a unit has an integer literal as
exponent. -/
theorem combinePower_rule {l r t : UnitTag}
    (h : combinePower l r right.intLiteral = .ok (t, [])) : UnitRule I (.binOp left .pow right) [l, r] t := by
  unfold combinePower at h
  split at h
  · cases h
  · next hexp =>
      cases r with
      | known label => exact absurd rfl hexp
      | unknown =>
        dsimp only at h
        split at h <;> cases h
      | dimensionless =>
        dsimp only at h
        cases l with
        | unknown => cases h
        | dimensionless =>
          cases h
          exact .powDimensionless
        | known label =>
          cases hlit : right.intLiteral with
          | none =>
            rw [hlit] at h
            cases h
          | some n =>
            rw [hlit] at h
            rcases n with _ | _ | n
            · cases h
              exact .powZero hlit
            · cases h
              exact .powOne hlit
            · cases h
              exact .pow hlit

theorem visitBinop_rule {op : BinOp} (h : I.visitBinop op l r right.intLiteral = .ok (v, [])) :
    UnitRule I (.binOp left op right) [l.unit, r.unit] v.unit := by
  obtain ⟨_, _, h⟩ := bind_ok_iff.mp h
  obtain ⟨_, _, h⟩ := bind_ok_iff.mp h
  -- a shape, a unit with warnings, and the operator itself
  cases op with
  | add =>
    obtain ⟨_, _, h⟩ := bind_ok_iff.mp h
    obtain ⟨⟨unit, w⟩, hunit, h⟩ := bind_ok_iff.mp h
    obtain ⟨u, hu, h⟩ := bind_ok_iff.mp h
    cases h
    obtain ⟨heq, rfl, hknown⟩ := combineAdditive_ok hunit
    rw [applyBinop_unit hu, ← heq]
    exact .additive (.inl rfl) hknown
  | sub =>
    obtain ⟨_, _, h⟩ := bind_ok_iff.mp h
    obtain ⟨⟨unit, w⟩, hunit, h⟩ := bind_ok_iff.mp h
    obtain ⟨u, hu, h⟩ := bind_ok_iff.mp h
    cases h
    obtain ⟨heq, rfl, hknown⟩ := combineAdditive_ok hunit
    rw [applyBinop_unit hu, ← heq]
    exact .additive (.inr (.inl rfl)) hknown
  | mult =>
    obtain ⟨_, _, h⟩ := bind_ok_iff.mp h
    obtain ⟨u, hu, h⟩ := bind_ok_iff.mp h
    obtain ⟨hv, hw⟩ := Prod.mk.inj (Except.ok.inj h)
    rw [← hv, applyBinop_unit hu]
    obtain ⟨hl, hr⟩ := combineMultiplication_ok hw
    exact .mult hl hr
  | div =>
    obtain ⟨_, _, h⟩ := bind_ok_iff.mp h
    obtain ⟨u, hu, h⟩ := bind_ok_iff.mp h
    obtain ⟨hv, hw⟩ := Prod.mk.inj (Except.ok.inj h)
    rw [← hv, applyBinop_unit hu]
    obtain ⟨hl, hr⟩ := combineDivision_ok hw
    exact .div hl hr
  | pow =>
    obtain ⟨_, _, h⟩ := bind_ok_iff.mp h
    obtain ⟨_, _, h⟩ := bind_ok_iff.mp h
    obtain ⟨⟨unit, w⟩, hunit, h⟩ := bind_ok_iff.mp h
    obtain ⟨u, hu, h⟩ := bind_ok_iff.mp h
    cases h
    rw [applyBinop_unit hu]
    exact combinePower_rule hunit
  | mod =>
    obtain ⟨_, _, h⟩ := bind_ok_iff.mp h
    obtain ⟨⟨unit, w⟩, hunit, h⟩ := bind_ok_iff.mp h
    obtain ⟨u, hu, h⟩ := bind_ok_iff.mp h
    cases h
    obtain ⟨heq, _, hknown⟩ := combineAdditive_ok hunit
    rw [applyBinop_unit hu, ← heq]
    exact .additive (.inr (.inr rfl)) hknown
  | other type => cases h

theorem visitConstant_rule {value : Literal F}
    (h : I.visitConstant value = .ok (v, w)) : UnitRule I (.constant value) [] v.unit := by
  have hunit : v.unit = .dimensionless := by
    cases value with
    | bool _ => cases h
    | int _ | float _ | other _ _ =>
      obtain ⟨_, _, h⟩ := bind_ok_iff.mp h
      obtain ⟨_, _, h⟩ := bind_ok_iff.mp h
      cases h
      rfl
  rw [hunit]
  exact .constant

theorem visitName_rule (h : I.visitName name = .ok (v, w)) : UnitRule I (.name name) [] v.unit := by
  unfold visitName at h
  split at h
  · next hpi =>
      cases h
      exact .constantName (by rw [hpi]; rfl)
  · next hpi =>
      split at h
      · next he =>
          cases h
          exact .constantName (by rw [he]; rfl)
      · next he =>
          have hconst : isConstantName name = false := by
            unfold isConstantName
            simp [hpi, he]
          split at h
          · cases h
          · next var hvar =>
              split at h
              · cases h
              · split at h <;>
                  (cases h; exact .variable hconst hvar)

theorem visitUnaryop_rule {op : UnaryOp} {operand : Expr F}
    (h : I.visitUnaryop op x = .ok (v, w)) : UnitRule I (.unaryOp op operand) [x.unit] v.unit := by
  cases op with
  | uAdd =>
    cases h
    exact .sign
  | uSub =>
    obtain ⟨u, hu, h⟩ := bind_ok_iff.mp h
    cases h
    unfold negate at hu
    split at hu
    · cases hu
    · split at hu <;>
        (cases hu; exact .sign)
  | other type => cases h

theorem visitCompare_rule {op : CmpOp} (h : I.visitCompare op l r = .ok (v, w)) :
    UnitRule I (.compare left op right []) [l.unit, r.unit] v.unit := by
  obtain ⟨_, _, h⟩ := bind_ok_iff.mp h
  obtain ⟨_, _, h⟩ := bind_ok_iff.mp h
  obtain ⟨test, _, h⟩ := bind_ok_iff.mp h
  obtain ⟨shape, _, h⟩ := bind_ok_iff.mp h
  cases h
  have hunit : (I.applyCompare test l r shape).unit = .dimensionless := by
    unfold applyCompare
    split
    · rfl
    · split <;> rfl
  rw [hunit]
  exact .compare

/-! ### Calls -/

theorem keepUnit_unit {f : Elementwise F} (h : I.keepUnit f x = .ok (v, w)) : v.unit = x.unit := by
  obtain ⟨u, hu, h⟩ := bind_ok_iff.mp h
  cases h
  exact elementwiseUnary_unit hu

theorem dimensionless_unit {f : Elementwise F}
    (h : I.dimensionless f x = .ok (v, [])) : x.unit = .dimensionless ∧ v.unit = .dimensionless := by
  obtain ⟨w, hw, h⟩ := bind_ok_iff.mp h
  obtain ⟨u, hu, h⟩ := bind_ok_iff.mp h
  cases h
  exact ⟨requireDimensionless_ok hw, elementwiseUnary_unit hu⟩

theorem angle_unit {f : Elementwise F} (h : I.angle f x = .ok (v, [])) :
    x.unit = .dimensionless ∧ v.unit = angleTag I.options.angleUnit := by
  obtain ⟨⟨unit, w⟩, hunit, h⟩ := bind_ok_iff.mp h
  obtain ⟨u, hu, h⟩ := bind_ok_iff.mp h
  cases h
  obtain ⟨w, hw, hunit⟩ := bind_ok_iff.mp hunit
  cases hunit
  exact ⟨requireDimensionless_ok hw, elementwiseUnary_unit hu⟩

theorem callSqrt_unit (h : I.callSqrt x = .ok (v, [])) :
    x.unit.isKnown = true ∧ v.unit = (propagateSqrt x.unit).1 := by
  obtain ⟨u, hu, h⟩ := bind_ok_iff.mp h
  obtain ⟨rfl, hw⟩ := Prod.mk.inj (Except.ok.inj h)
  refine ⟨?_, elementwiseUnary_unit hu⟩
  revert hw
  cases x.unit with
  | known _ | dimensionless => exact fun _ => rfl
  | unknown =>
    intro hw
    cases hw

theorem callAtan2_unit {y : EvalValue F} (h : I.callAtan2 y x = .ok (v, [])) :
    y.unit = x.unit ∧ v.unit = angleTag I.options.angleUnit ∧ y.unit.isKnown = true := by
  obtain ⟨_, _, h⟩ := bind_ok_iff.mp h
  obtain ⟨_, _, h⟩ := bind_ok_iff.mp h
  obtain ⟨⟨unit, w⟩, hunit, h⟩ := bind_ok_iff.mp h
  obtain ⟨_, _, h⟩ := bind_ok_iff.mp h
  obtain ⟨u, hu, h⟩ := bind_ok_iff.mp h
  cases h
  obtain ⟨heq, rfl, hknown⟩ := propagateAtan2_ok hunit
  exact ⟨heq, applyBinop_unit hu, hknown⟩

theorem callRound_unit {digits : EvalValue F} (h : I.callRound x digits = .ok (v, w)) : v.unit = x.unit := by
  obtain ⟨_, _, h⟩ := bind_ok_iff.mp h
  obtain ⟨_, _, h⟩ := bind_ok_iff.mp h
  obtain ⟨_, _, h⟩ := bind_ok_iff.mp h
  revert h
  cases x.payload with
  | nullScalar =>
    intro h
    cases h
    rfl
  | scalar a =>
    intro h
    obtain ⟨_, _, h⟩ := bind_ok_iff.mp h
    cases h
    rfl
  | vector cells =>
    intro h
    cases h
    rfl

theorem callElementwise_rule {keywords : Bool} (hf : Func.ofName func = some f)
    (h : I.callElementwise f vs = .ok (v, [])) :
    UnitRule I (.call func args keywords) (vs.map EvalValue.unit) v.unit := by
  unfold callElementwise at h
  split at h
  case h_16 => cases h
  case h_14 y x vs =>
      obtain ⟨heq, hv, hknown⟩ := callAtan2_unit h
      rw [hv, List.map_cons, List.map_cons, ← heq]
      exact .atan2 hf hknown
  all_goals
    obtain ⟨_, _, h⟩ := bind_ok_iff.mp h
    first
      | (rw [keepUnit_unit h]
         exact .keep hf rfl)
      | (rw [callRound_unit h]
         exact .keep hf rfl)
      | (rw [(dimensionless_unit h).2, List.map_cons, (dimensionless_unit h).1]
         exact .number hf rfl)
      | (rw [(angle_unit h).2, List.map_cons, (angle_unit h).1]
         exact .inverseTrig hf rfl)
      | (rw [(callSqrt_unit h).2]
         exact .sqrt hf (callSqrt_unit h).1)

theorem callMinMax_unit {scalar vector : F → F → F} (h : I.callMinMax a b name scalar vector = .ok (v, [])) :
    a.unit = b.unit ∧ v.unit = a.unit ∧ a.unit.isKnown = true := by
  obtain ⟨_, _, h⟩ := bind_ok_iff.mp h
  obtain ⟨_, _, h⟩ := bind_ok_iff.mp h
  obtain ⟨⟨unit, w⟩, hunit, h⟩ := bind_ok_iff.mp h
  obtain ⟨shape, _, h⟩ := bind_ok_iff.mp h
  have hv : v.unit = unit ∧ w = [] := by
    cases shape with
    | some n =>
      obtain ⟨_, _, h⟩ := bind_ok_iff.mp h
      cases h
      exact ⟨rfl, rfl⟩
    | none =>
      dsimp only at h
      split at h <;>
        (cases h; exact ⟨rfl, rfl⟩)
  rw [hv.2] at hunit
  obtain ⟨heq, rfl, hknown⟩ := combineAdditive_ok hunit
  exact ⟨heq, hv.1, hknown⟩

theorem callClip_unit {low high : EvalValue F} (h : I.callClip x low high = .ok (v, [])) :
    x.unit = low.unit ∧ x.unit = high.unit ∧ v.unit = x.unit ∧ x.unit.isKnown = true := by
  obtain ⟨_, _, h⟩ := bind_ok_iff.mp h
  obtain ⟨_, _, h⟩ := bind_ok_iff.mp h
  obtain ⟨_, _, h⟩ := bind_ok_iff.mp h
  obtain ⟨_, _, h⟩ := bind_ok_iff.mp h
  obtain ⟨_, _, h⟩ := bind_ok_iff.mp h
  obtain ⟨_, _, h⟩ := bind_ok_iff.mp h
  obtain ⟨_, _, h⟩ := bind_ok_iff.mp h
  obtain ⟨⟨unit, w⟩, hunit, h⟩ := bind_ok_iff.mp h
  have hv : v.unit = unit ∧ w = [] := by
    dsimp only at h
    split at h
    · cases h
      exact ⟨rfl, rfl⟩
    · cases h
      exact ⟨rfl, rfl⟩
    · obtain ⟨_, _, h⟩ := bind_ok_iff.mp h
      cases h
      exact ⟨rfl, rfl⟩
  rw [hv.2] at hunit
  obtain ⟨hlow, hhigh, rfl, hknown⟩ := checkClipBounds_ok hunit
  exact ⟨hlow, hhigh, hv.1, hknown⟩

theorem applyWhere_unit {cond : EvalValue F} (h : I.applyWhere cond a b unit = .ok v) : v.unit = unit := by
  unfold applyWhere at h
  split at h
  · cases h
    unfold whereScalars
    split <;> rfl
  · obtain ⟨_, _, h⟩ := bind_ok_iff.mp h
    unfold whereVector at h
    obtain ⟨_, _, h⟩ := bind_ok_iff.mp h
    obtain ⟨_, _, h⟩ := bind_ok_iff.mp h
    unfold whereResult at h
    split at h
    · cases h
    · obtain ⟨_, _, h⟩ := bind_ok_iff.mp h
      cases h
      rfl

theorem callWhere_unit {cond : EvalValue F} (h : I.callWhere cond a b = .ok (v, [])) :
    a.unit = b.unit ∧ v.unit = a.unit ∧ a.unit.isKnown = true := by
  obtain ⟨_, _, h⟩ := bind_ok_iff.mp h
  obtain ⟨_, _, h⟩ := bind_ok_iff.mp h
  obtain ⟨_, _, h⟩ := bind_ok_iff.mp h
  obtain ⟨⟨unit, w⟩, hunit, h⟩ := bind_ok_iff.mp h
  obtain ⟨u, hu, h⟩ := bind_ok_iff.mp h
  cases h
  obtain ⟨heq, rfl, hknown⟩ := combineAdditive_ok hunit
  exact ⟨heq, applyWhere_unit hu, hknown⟩

theorem callSelect_rule {keywords : Bool} (hf : Func.ofName func = some f) (h : I.callSelect f vs = .ok (v, [])) :
    UnitRule I (.call func args keywords) (vs.map EvalValue.unit) v.unit := by
  unfold callSelect at h
  split at h
  · obtain ⟨heq, hv, hknown⟩ := callMinMax_unit h
    rw [hv, List.map_cons, List.map_cons, ← heq]
    exact .extremum hf (.inl rfl) hknown
  · obtain ⟨heq, hv, hknown⟩ := callMinMax_unit h
    rw [hv, List.map_cons, List.map_cons, ← heq]
    exact .extremum hf (.inr rfl) hknown
  · obtain ⟨hlow, hhigh, hv, hknown⟩ := callClip_unit h
    rw [hv, List.map_cons, List.map_cons, List.map_cons, ← hlow, ← hhigh]
    exact .clip hf hknown
  · obtain ⟨heq, hv, hknown⟩ := callWhere_unit h
    rw [hv, List.map_cons, List.map_cons, List.map_cons, ← heq]
    exact .choice hf hknown
  · cases h

theorem aggregateOrder_unit {reduction : Reduction} {vals : List F}
    (h : I.aggregateOrder name reduction vals unit = .ok (v, w)) : v.unit = unit := by
  unfold aggregateOrder at h
  split at h
  · cases h
  · cases h
    rfl

theorem aggregateSpread_unit {long : String} {reduction : Reduction} {ddof : Nat} {vals : List F}
    (h : I.aggregateSpread long name reduction ddof vals unit = .ok (v, w)) : v.unit = unit := by
  unfold aggregateSpread at h
  split at h
  · cases h
  · split at h
    · cases h
    · obtain ⟨_, _, h⟩ := bind_ok_iff.mp h
      cases h
      rfl

theorem aggregateValues_unit {vals : List F} {nodes : List (Expr F)}
    (h : I.aggregateValues f vals unit vs nodes = .ok (v, w)) : v.unit = aggregateUnit f unit ∧ f ≠ .count ∧
      f.isElementwise = false ∧ f.isSelect = false := by
  unfold aggregateValues at h
  split at h
  · unfold aggregateSum at h
    split at h
    · cases h
      exact ⟨rfl, (by decide), rfl, rfl⟩
    · obtain ⟨_, _, h⟩ := bind_ok_iff.mp h
      obtain ⟨_, _, h⟩ := bind_ok_iff.mp h
      cases h
      exact ⟨rfl, (by decide), rfl, rfl⟩
  · unfold aggregateMean at h
    split at h
    · cases h
    · obtain ⟨_, _, h⟩ := bind_ok_iff.mp h
      cases h
      exact ⟨rfl, (by decide), rfl, rfl⟩
  · exact ⟨aggregateOrder_unit h, (by decide), rfl, rfl⟩
  · exact ⟨aggregateOrder_unit h, (by decide), rfl, rfl⟩
  · exact ⟨aggregateOrder_unit h, (by decide), rfl, rfl⟩
  · obtain ⟨_, _, h⟩ := bind_ok_iff.mp h
    exact ⟨aggregateSpread_unit h, (by decide), rfl, rfl⟩
  · obtain ⟨_, _, h⟩ := bind_ok_iff.mp h
    exact ⟨aggregateSpread_unit h, (by decide), rfl, rfl⟩
  · obtain ⟨_, _, h⟩ := bind_ok_iff.mp h
    obtain ⟨_, _, h⟩ := bind_ok_iff.mp h
    obtain ⟨_, _, h⟩ := bind_ok_iff.mp h
    obtain ⟨_, _, h⟩ := bind_ok_iff.mp h
    cases h
    exact ⟨rfl, (by decide), rfl, rfl⟩
  · cases h

theorem aggregate_keepsUnit (he : f.isElementwise = false) (hs : f.isSelect = false)
    (hcount : f ≠ .count) (hvar : f ≠ .var) : f.keepsUnit = true ∧ ∀ unit, aggregateUnit f unit = unit := by
  cases f <;> first
    | exact ⟨rfl, fun _ => rfl⟩
    | exact absurd rfl hcount
    | exact absurd rfl hvar
    | exact absurd he (by decide)
    | exact absurd hs (by decide)

theorem callAggregate_rule {keywords : Bool} (hf : Func.ofName func = some f)
    (h : I.callAggregate f vs args = .ok (v, [])) :
    UnitRule I (.call func args keywords) (vs.map EvalValue.unit) v.unit := by
  cases vs with
  | nil => cases h
  | cons x vs =>
    obtain ⟨_, _, h⟩ := bind_ok_iff.mp h
    split at h
    · next hcount =>
        cases h
        exact .count (hcount ▸ hf)
    · split at h
      · cases h
      · obtain ⟨hv, hcount, he, hs⟩ := aggregateValues_unit h
        rw [hv, List.map_cons]
        by_cases hvar : f = .var
        · subst hvar
          exact .var hf
        · obtain ⟨hkeep, hunit⟩ := aggregate_keepsUnit he hs hcount hvar
          rw [hunit]
          exact .keep hf hkeep

/-- **The unit of a node.** A visit that logs no warning gives it by the rules. -/
theorem visit_unitRule {s : Expr F} (h : I.visit s vs = .ok (v, [])) (hlen : vs.length = s.operands.length) :
    UnitRule I s (vs.map EvalValue.unit) v.unit := by
  cases s with
  | constant value =>
    rw [List.length_eq_zero_iff.mp hlen]
    exact visitConstant_rule h
  | name id =>
    rw [List.length_eq_zero_iff.mp hlen]
    exact visitName_rule h
  | unaryOp op operand =>
    obtain ⟨x, rfl⟩ := List.length_eq_one_iff.mp hlen
    exact visitUnaryop_rule h
  | binOp left op right =>
    obtain ⟨l, r, rfl⟩ := List.length_eq_two.mp hlen
    exact visitBinop_rule h
  | compare left op right more =>
    cases more with
    | nil =>
      obtain ⟨l, r, rfl⟩ := List.length_eq_two.mp hlen
      exact visitCompare_rule h
    | cons _ _ => cases h
  | call func args keywords =>
    have hcall : I.visitCall func vs args = .ok (v, []) := h
    cases hf : Func.ofName func with
    | none =>
      unfold visitCall at hcall
      rw [hf] at hcall
      cases hcall
    | some f =>
      cases he : f.isElementwise with
      | true =>
        rw [visitCall_elementwise I hf he] at hcall
        exact callElementwise_rule hf hcall
      | false =>
        cases hs : f.isSelect with
        | true =>
          rw [visitCall_select I hf he hs] at hcall
          exact callSelect_rule hf hcall
        | false =>
          rw [visitCall_aggregate I hf he hs] at hcall
          exact callAggregate_rule hf hcall
  | callOther => cases h
  | other type => cases h

end Interpreter

end Irip.Numeric
